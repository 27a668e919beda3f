import Mathlib.Data.List.Dedup
import LoptVllm.LoRA.Slots

/-!
# Every batch is served
-/

namespace LoptVllm.LoRA

open WorkerManager LruCache Manager

variable {M L : Type*} {setup : Setup M L} {load : ℤ → M → Option L}

/-- The slot of a token's adapter, or `-1`. -/
def SentTo (slots : List (Option ℤ)) (x i : ℤ) : Prop :=
  if 0 < x then ∃ n : ℕ, i = n ∧ slots[n]? = some (some x) else i = -1

/-- The tokens and the prompts of a batch are sent to the slots of their adapters. -/
def Mapped (m : Manager M L) (mapping : LoRAMapping) : Prop :=
  ∃ c, m.converted = some c ∧ mapping.indexMapping.Forall₂ (SentTo m.loraIndexToId) c.baseIndices ∧
    mapping.promptMapping.Forall₂ (SentTo m.loraIndexToId) c.samplerIndices

/-- What a batch finds after `set_active_adapters`. -/
structure Served (setup : Setup M L) (load : ℤ → M → Option L) (m : Manager M L)
    (requests : List ℤ) (mapping : Option LoRAMapping) : Prop where
  adapters : ∀ id ∈ requests, id ∈ m.registeredAdapters ∧ id ∈ m.activeAdapters ∧
    ∃! i : ℕ, m.loraIndexToId[i]? = some (some id)
  weights : ∀ (i : ℕ) id, m.loraIndexToId[i]? = some (some id) → ∀ module ∈ setup.modules,
    m.buffers module i = setup.createMergedLoras (load id) module
  slots : ∀ id, some id ∈ m.loraIndexToId ↔ id ∈ m.activeAdapters
  capacity : m.activeAdapters.size ≤ setup.maxLoras ∧ m.registeredAdapters.size ≤ setup.maxCpuLoras
  mapped : ∀ mp, mapping = some mp → Mapped m mp

/-! ### The calls -/

/-- The mapping of a batch names adapters of the batch. -/
def Call.WellFormed : Call → Prop
  | .setActiveAdapters requests mapping => ∀ mp, mapping = some mp →
      ∀ x ∈ mp.indexMapping ++ mp.promptMapping, 0 < x → x ∈ requests
  | _ => True

/-- The pins leave room for the adapters of a call, and the adapters of a mapping that is set again are
in the slots that it was converted for. -/
def Unobstructed (setup : Setup M L) (slots : List (Option ℤ)) (m : Manager M L) : Call → Prop
  | .setActiveAdapters requests mapping =>
    LruCache.Room m.activeAdapters.pinned setup.maxLoras (lorasMap requests) ∧
      ∀ mp, mapping = some mp → m.lastMapping = some mp →
        (∀ id ∈ requests, id ∈ m.activeAdapters) ∧ ∀ x ∈ mp.indexMapping ++ mp.promptMapping, 0 < x →
          ∀ n : ℕ, slots[n]? = some (some x) → m.loraIndexToId[n]? = some (some x)
  | .addAdapter id => LruCache.Room m.activeAdapters.pinned setup.maxLoras [id]
  | .removeAdapter _ => True
  | .pinAdapter id => id ∈ m.registeredAdapters →
      LruCache.Room m.activeAdapters.pinned setup.maxLoras [id]

variable {requests : List ℤ}

theorem mem_lorasMap {id : ℤ} : id ∈ lorasMap requests ↔ id ∈ requests := by
  rw [lorasMap, List.mem_reverse, List.mem_dedup, List.mem_reverse]

variable [DecidableEq M] {m : Manager M L}

/-- The adapters of a batch are added one after the other. -/
theorem foldlM_addAdapter {batch : List ℤ} : ∀ {rest P : List ℤ} {m : Manager M L},
    Valid setup load m → Paired m → m.activeAdapters.Recent P → m.registeredAdapters.Recent P →
    LruCache.Room m.activeAdapters.pinned setup.maxLoras batch → (∀ k ∈ P, k ∈ batch) →
    (∀ k ∈ rest, k ∈ batch) →
    ∃ m', rest.foldlM (fun m lora => (addAdapter setup load m lora).map Prod.snd) m = .ok m' ∧
      Serving setup load m m' (rest.reverse ++ P) (rest.reverse ++ P) ∧
      ((∀ k ∈ rest, k ∈ m.activeAdapters) → m'.loraIndexToId = m.loraIndexToId)
  | [], P, m, h, _, hactive, hregistered, _, _, _ =>
    ⟨m, rfl, ⟨h, hactive, hregistered, rfl, rfl, rfl, rfl⟩, fun _ => rfl⟩
  | x :: rest, P, m, h, hpaired, hactive, hregistered, hroom, hP, hrest => by
    have hx := hrest x (.head _)
    obtain ⟨b, m₁, hm₁, hserving, hslots⟩ :=
      addAdapter_spec h hroom hP hx hpaired hactive hregistered
    have hpaired₁ : Paired m₁ := hserving.pinned.trans (hpaired.trans hserving.pinnedCpu.symm)
    have hP₁ : ∀ k ∈ x :: P, k ∈ batch := fun k hk =>
      (List.mem_cons.1 hk).elim (fun hkx => hkx ▸ hx) (hP k)
    obtain ⟨m', hm', hserving', hslots'⟩ := foldlM_addAdapter hserving.valid hpaired₁ hserving.active
      hserving.registered (hserving.pinned ▸ hroom) hP₁ fun k hk => hrest k (List.mem_cons_of_mem _ hk)
    refine ⟨m', ?_, ⟨hserving'.valid, ?_, ?_, hserving'.pinned.trans hserving.pinned,
      hserving'.pinnedCpu.trans hserving.pinnedCpu, hserving'.lastMapping.trans hserving.lastMapping,
      hserving'.converted.trans hserving.converted⟩, fun hall => ?_⟩
    · rw [List.foldlM_cons, hm₁]
      exact hm'
    · exact hserving'.active.congr fun k => by simp
    · exact hserving'.registered.congr fun k => by simp
    · have hsame := hslots (hall x (.head _))
      rw [hslots' fun k hk => ?_, hsame]
      rw [hserving.valid.active_iff, hsame, ← h.active_iff]
      exact hall k (List.mem_cons_of_mem _ hk)

theorem applyAdapters_spec (h : Valid setup load m) (hpaired : Paired m)
    (hroom : LruCache.Room m.activeAdapters.pinned setup.maxLoras (lorasMap requests)) :
    ∃ m', applyAdapters setup load m requests = .ok m' ∧
      Serving setup load m m' (lorasMap requests).reverse (lorasMap requests).reverse ∧
      ((∀ id ∈ requests, id ∈ m.activeAdapters) → m'.loraIndexToId = m.loraIndexToId) := by
  obtain ⟨m', hm', hserving, hslots⟩ := foldlM_addAdapter h hpaired recent_nil
    recent_nil hroom (by simp) fun k hk => hk
  rw [List.append_nil] at hserving
  have hle : ¬setup.maxLoras < (lorasMap requests).length := by
    unfold LruCache.Room at hroom
    omega
  refine ⟨m', ?_, hserving, fun hall => hslots fun k hk => hall k (mem_lorasMap.1 hk)⟩
  rw [applyAdapters, if_neg hle]
  exact hm'

/-! ### The mapping -/

theorem mapM_slotIndex {slots : List (Option ℤ)} : ∀ {xs : List ℤ},
    (∀ x ∈ xs, 0 < x → some x ∈ slots) →
      ∃ is, xs.mapM (slotIndex slots) = .ok is ∧ xs.Forall₂ (SentTo slots) is
  | [], _ => ⟨[], rfl, .nil⟩
  | x :: xs, h => by
    obtain ⟨is, his, hsent⟩ := mapM_slotIndex fun x hx => h x (List.mem_cons_of_mem _ hx)
    by_cases hx : 0 < x
    · have hmem := h x (.head _) hx
      refine ⟨(slots.idxOf (some x) : ℤ) :: is, ?_, .cons ?_ hsent⟩
      · rw [List.mapM_cons, slotIndex, if_pos hx, if_pos hmem, his]
        rfl
      · rw [SentTo, if_pos hx]
        exact ⟨_, rfl, List.getElem?_idxOf hmem⟩
    · refine ⟨-1 :: is, ?_, .cons ?_ hsent⟩
      · rw [List.mapM_cons, slotIndex, if_neg hx, his]
        rfl
      · rw [SentTo, if_neg hx]

/-- The mapping in force was converted for `slots`. -/
def InForce (slots : List (Option ℤ)) (m : Manager M L) : Prop :=
  ∀ mp, m.lastMapping = some mp → Mapped { m with loraIndexToId := slots } mp

/-- A call converts a mapping for the slots that it leaves, or the one in force stays. -/
def Converts (m m' : Manager M L) : Prop :=
  m'.lastMapping = m.lastMapping ∧ m'.converted = m.converted ∨
    m'.lastMapping ≠ m.lastMapping ∧ InForce m'.loraIndexToId m'

/-- The slots that the mapping in force was converted for, after a call. -/
def mappedSlots (slots : List (Option ℤ)) (m m' : Manager M L) : List (Option ℤ) :=
  if m'.lastMapping = m.lastMapping then slots else m'.loraIndexToId

variable {m' : Manager M L} {slots : List (Option ℤ)}

omit [DecidableEq M] in
theorem InForce.converts (h : InForce slots m) (hconverts : Converts m m') :
    InForce (mappedSlots slots m m') m' := by
  unfold mappedSlots
  obtain ⟨hlast, hconverted⟩ | ⟨hlast, hinForce⟩ := hconverts
  · rw [if_pos hlast]
    intro mp hmp
    obtain ⟨c, hc, hsent⟩ := h mp (hlast ▸ hmp)
    exact ⟨c, hconverted.trans hc, hsent⟩
  · rw [if_neg hlast]
    exact hinForce

/-- Tokens whose adapters have kept their slots. -/
theorem sentTo_of_kept {slots' : List (Option ℤ)} {xs is : List ℤ} (h : xs.Forall₂ (SentTo slots) is)
    (hkept : ∀ x ∈ xs, 0 < x → ∀ n : ℕ, slots[n]? = some (some x) → slots'[n]? = some (some x)) :
    xs.Forall₂ (SentTo slots') is := by
  refine ((List.forall₂_and_left _ _).2 ⟨hkept, h⟩).imp fun x i ⟨hkeeps, hsent⟩ => ?_
  unfold SentTo at *
  split_ifs at * with hx
  · obtain ⟨n, rfl, hn⟩ := hsent
    exact ⟨n, rfl, hkeeps hx n hn⟩
  · exact hsent

omit [DecidableEq M] in
/-- A mapping whose adapters have slots is converted, when it is not the one that was set last. -/
theorem setAdapterMapping_spec {mapping : LoRAMapping}
    (hslots : ∀ x ∈ mapping.indexMapping ++ mapping.promptMapping, 0 < x → some x ∈ m.loraIndexToId)
    (hlast : m.lastMapping = some mapping → Mapped m mapping) :
    ∃ last c, m.setAdapterMapping setup mapping = .ok { m with
        lastMapping := last
        converted := c } ∧
      Mapped { m with
        lastMapping := last
        converted := c } mapping ∧
      Converts m { m with
        lastMapping := last
        converted := c } := by
  by_cases hsame : m.lastMapping = some mapping
  · refine ⟨m.lastMapping, m.converted, ?_, hlast hsame, .inl ⟨rfl, rfl⟩⟩
    rw [setAdapterMapping, if_neg (not_not.2 hsame)]
  · obtain ⟨base, hbase, hsent⟩ := mapM_slotIndex fun x hx =>
      hslots x (List.mem_append_left _ hx)
    obtain ⟨prompt, hprompt, hsentPrompt⟩ := mapM_slotIndex fun x hx =>
      hslots x (List.mem_append_right _ hx)
    obtain ⟨c, hc, hcbase, hcprompt⟩ : ∃ c, convertMapping mapping m.loraIndexToId
        (setup.maxLoras + 1) setup.vocabSize 0 = .ok c ∧ c.baseIndices = base ∧
        c.samplerIndices = prompt := by
      rw [convertMapping, hprompt, hbase]
      exact ⟨_, rfl, rfl, rfl⟩
    have hmapped : Mapped { m with
        lastMapping := some mapping
        converted := some c } mapping := ⟨c, rfl, hcbase ▸ hsent, hcprompt ▸ hsentPrompt⟩
    refine ⟨some mapping, some c, ?_, hmapped, .inr ⟨Ne.symm hsame, fun mp hmp => ?_⟩⟩
    · rw [setAdapterMapping, if_pos hsame, hc]
    · cases hmp
      exact hmapped

theorem setActiveAdapters_spec (h : Valid setup load m) (hpaired : Paired m)
    {mapping : Option LoRAMapping} (hwf : (Call.setActiveAdapters requests mapping).WellFormed)
    (hinForce : InForce slots m)
    (hunobstructed : Unobstructed setup slots m (.setActiveAdapters requests mapping)) :
    ∃ m', setActiveAdapters setup load m requests mapping = .ok m' ∧ Valid setup load m' ∧
      Paired m' ∧ Converts m m' ∧ Served setup load m' requests mapping := by
  obtain ⟨m₁, hm₁, hserving, hslots⟩ := applyAdapters_spec h hpaired hunobstructed.1
  have hvalid := hserving.valid
  have hpaired₁ : Paired m₁ := hserving.pinned.trans (hpaired.trans hserving.pinnedCpu.symm)
  have hmem : ∀ id ∈ requests, id ∈ m₁.activeAdapters := fun id hid =>
    hserving.active.mem (List.mem_reverse.2 (mem_lorasMap.2 hid))
  have hadapters : ∀ id ∈ requests, id ∈ m₁.registeredAdapters ∧ id ∈ m₁.activeAdapters ∧
      ∃! i : ℕ, m₁.loraIndexToId[i]? = some (some id) := by
    intro id hid
    obtain ⟨i, hi⟩ := List.mem_iff_getElem?.1 ((hvalid.active_iff id).1 (hmem id hid))
    exact ⟨hvalid.registered id (hmem id hid), hmem id hid, i, hi,
      fun j hj => hvalid.unique id j i hj hi⟩
  rw [setActiveAdapters, hm₁]
  cases mapping with
  | none =>
    exact ⟨m₁, rfl, hvalid, hpaired₁, .inl ⟨hserving.lastMapping, hserving.converted⟩, hadapters,
      hvalid.buffers, fun id => (hvalid.active_iff id).symm,
      ⟨hvalid.active_size_le, hvalid.size⟩, fun _ hmp => by cases hmp⟩
  | some mapping =>
    have hlast : m₁.lastMapping = some mapping → Mapped m₁ mapping := by
      intro hsame
      rw [hserving.lastMapping] at hsame
      obtain ⟨hactive, hkept⟩ := hunobstructed.2 mapping rfl hsame
      obtain ⟨c, hc, hbase, hprompt⟩ := hinForce mapping hsame
      -- the batch was active, so nothing has moved
      rw [← hslots hactive] at hkept
      exact ⟨c, hserving.converted.trans hc,
        sentTo_of_kept hbase fun x hx => hkept x (List.mem_append_left _ hx),
        sentTo_of_kept hprompt fun x hx => hkept x (List.mem_append_right _ hx)⟩
    obtain ⟨last, c, hset, hmapped, hconverts⟩ := @setAdapterMapping_spec M L setup m₁ mapping
      (fun x hx hpos => (hvalid.active_iff x).1 (hmem x (hwf mapping rfl x hx hpos))) hlast
    refine ⟨_, hset, ?_, hpaired₁, ?_, hadapters, hvalid.buffers, fun id => (hvalid.active_iff id).symm,
      ⟨hvalid.active_size_le, hvalid.size⟩, fun mp hmp => ?_⟩
    · exact ⟨hvalid.length, hvalid.active_iff, hvalid.unique, hvalid.registered, hvalid.size,
        hvalid.model, hvalid.buffers, hvalid.pinned_active⟩
    · unfold Converts at *
      rwa [← hserving.lastMapping, ← hserving.converted]
    · obtain rfl := Option.some.inj hmp
      exact hmapped

theorem pinAdapter_spec (h : Valid setup load m) (hpaired : Paired m) {id : ℤ}
    (hid : id ∈ m.registeredAdapters)
    (hroom : LruCache.Room m.activeAdapters.pinned setup.maxLoras [id]) :
    ∃ m', m.pinAdapter setup id = .ok m' ∧ Valid setup load m' ∧ Paired m' ∧ Converts m m' := by
  -- the pin in the CPU cache
  let m₁ : Manager M L := { m with registeredAdapters := m.registeredAdapters.pin id }
  have h₁ : Valid setup load m₁ := ⟨h.length, h.active_iff, h.unique, h.registered, h.size, h.model,
    h.buffers, h.pinned_active⟩
  -- the pin in the GPU cache, once the adapter is active
  suffices hactivated : ∃ m₂, m.pinAdapter setup id =
        .ok { m₂ with activeAdapters := m₂.activeAdapters.pin id } ∧
      Valid setup load m₂ ∧ id ∈ m₂.activeAdapters ∧
      m₂.activeAdapters.pinned = m.activeAdapters.pinned ∧
      m₂.registeredAdapters.pinned = (m.registeredAdapters.pin id).pinned ∧
      m₂.lastMapping = m.lastMapping ∧ m₂.converted = m.converted by
    obtain ⟨m₂, hm₂, hvalid, hmem, hpinned, hpinnedCpu, hsame⟩ := hactivated
    refine ⟨_, hm₂, ?_, ?_, .inl hsame⟩
    · refine ⟨hvalid.length, hvalid.active_iff, hvalid.unique, hvalid.registered, hvalid.size,
        hvalid.model, hvalid.buffers, fun a ha => ?_⟩
      obtain rfl | ha := mem_pinned_pin.1 ha
      · exact hmem
      · exact hvalid.pinned_active a ha
    · have hpaired' : m.activeAdapters.pinned = m.registeredAdapters.pinned := hpaired
      change (m₂.activeAdapters.pin id).pinned = m₂.registeredAdapters.pinned
      rw [hpinnedCpu, pin, pin, hpinned, hpaired']
  by_cases hactive : id ∈ m.activeAdapters
  · refine ⟨m₁, ?_, h₁, hactive, rfl, rfl, rfl, rfl⟩
    rw [pinAdapter, if_neg (not_not.2 hid)]
    exact if_neg (not_not.2 hactive)
  · obtain ⟨m₂, hm₂, hserving⟩ := activateAdapter_of_notMem h₁ hroom (by simp)
      List.mem_cons_self hactive hid recent_nil recent_nil
    refine ⟨m₂, ?_, hserving.valid, hserving.active.mem (.head _), hserving.pinned,
      hserving.pinnedCpu, hserving.lastMapping, hserving.converted⟩
    rw [pinAdapter, if_neg (not_not.2 hid)]
    refine (if_pos hactive).trans ?_
    rw [hm₂]
    rfl

/-- Pinning an adapter that is not registered is an error. -/
def PinRejected (setup : Setup M L) (load : ℤ → M → Option L) (m : Manager M L) (c : Call) : Prop :=
  ∃ id, c = .pinAdapter id ∧ id ∉ m.registeredAdapters ∧ call setup load m c =
    .error (.valueError ("Pinning failed. LoRA " ++ toString id ++ " is not registered."), m)

/-- One call. -/
theorem call_spec (h : Valid setup load m) (hpaired : Paired m) {c : Call} (hwf : c.WellFormed)
    (hinForce : InForce slots m) (hunobstructed : Unobstructed setup slots m c) :
    (∃ m', call setup load m c = .ok m' ∧ Valid setup load m' ∧ Paired m' ∧ Converts m m' ∧
      ∀ requests mapping, c = .setActiveAdapters requests mapping →
        Served setup load m' requests mapping) ∨ PinRejected setup load m c := by
  cases c with
  | setActiveAdapters requests mapping =>
    obtain ⟨m', hm', hvalid, hpaired', hconverts, hserved⟩ :=
      setActiveAdapters_spec h hpaired hwf hinForce hunobstructed
    refine .inl ⟨m', hm', hvalid, hpaired', hconverts, fun _ _ heq => ?_⟩
    cases heq
    exact hserved
  | addAdapter id =>
    obtain ⟨b, m', hm', hserving, -⟩ := addAdapter_spec h hunobstructed (by simp)
      List.mem_cons_self hpaired recent_nil recent_nil
    refine .inl ⟨m', ?_, hserving.valid, hserving.pinned.trans (hpaired.trans hserving.pinnedCpu.symm),
      .inl ⟨hserving.lastMapping, hserving.converted⟩, fun _ _ heq => by cases heq⟩
    rw [call, hm']
    rfl
  | removeAdapter id =>
    refine .inl ⟨forgotten m id, congrArg Except.ok (h.removeAdapter_eq hpaired), h.forgotten, ?_,
      .inl ⟨rfl, rfl⟩, fun _ _ heq => by cases heq⟩
    exact congrArg (List.filter fun k => k ≠ id) hpaired
  | pinAdapter id =>
    by_cases hid : id ∈ m.registeredAdapters
    · obtain ⟨m', hm', hvalid, hpaired', hconverts⟩ :=
        pinAdapter_spec h hpaired hid (hunobstructed hid)
      exact .inl ⟨m', hm', hvalid, hpaired', hconverts, fun _ _ heq => by cases heq⟩
    · refine .inr ⟨id, rfl, hid, ?_⟩
      rw [call, pinAdapter, if_pos hid]

omit [DecidableEq M] in
theorem valid_new : Valid setup load (new setup) where
  length := List.length_replicate
  active_iff id := iff_of_false (List.not_mem_nil) (by simp [new])
  unique id i j hi := by simp [new, List.getElem?_replicate] at hi
  registered id hid := absurd hid List.not_mem_nil
  size := Nat.zero_le _
  model id lora hid := by cases hid
  buffers i id hi := by simp [new, List.getElem?_replicate] at hi
  pinned_active id hid := absurd hid List.not_mem_nil

/-- Every call is unobstructed in the state in which it is made. -/
def Conforms (setup : Setup M L) (load : ℤ → M → Option L) :
    List (Option ℤ) → Manager M L → List Call → Prop
  | _, _, [] => True
  | slots, m, c :: cs => c.WellFormed ∧ Unobstructed setup slots m c ∧
    Conforms setup load (mappedSlots slots m (after setup load m c)) (after setup load m c) cs

/-- The calls before one of them. -/
theorem run_spec {c : Call} : ∀ {calls : List Call} {slots : List (Option ℤ)} {m : Manager M L},
    Valid setup load m → Paired m → InForce slots m → Conforms setup load slots m (calls ++ [c]) →
    Valid setup load (run setup load m calls) ∧ Paired (run setup load m calls) ∧ c.WellFormed ∧
      ∃ slots', InForce slots' (run setup load m calls) ∧
        Unobstructed setup slots' (run setup load m calls) c
  | [], slots, _, h, hpaired, hinForce, hconforms =>
    ⟨h, hpaired, hconforms.1, slots, hinForce, hconforms.2.1⟩
  | c' :: calls, slots, m, h, hpaired, hinForce, hconforms => by
    obtain ⟨hwf, hunobstructed, hrest⟩ := hconforms
    have hafter : Valid setup load (after setup load m c') ∧ Paired (after setup load m c') ∧
        Converts m (after setup load m c') := by
      obtain ⟨m', hm', hvalid, hpaired', hconverts, -⟩ | ⟨id, -, -, herror⟩ :=
        call_spec h hpaired hwf hinForce hunobstructed
      · rw [after, hm']
        exact ⟨hvalid, hpaired', hconverts⟩
      · rw [after, herror]
        exact ⟨h, hpaired, .inl ⟨rfl, rfl⟩⟩
    have hrun : run setup load m (c' :: calls) = run setup load (after setup load m c') calls := rfl
    rw [hrun]
    exact run_spec hafter.1 hafter.2.1 (hinForce.converts hafter.2.2) hrest

/-- A model with one module. -/
def oneModule (maxLoras maxCpuLoras : ℕ) (h : maxLoras ≤ maxCpuLoras) : Setup Unit ℤ where
  maxLoras := maxLoras
  maxCpuLoras := maxCpuLoras
  maxLoras_le := h
  vocabSize := 32000
  modules := [()]
  createMergedLoras := id

/-- The weights of an adapter are its id. -/
def loadId : ℤ → Unit → Option ℤ := fun id _ => some id

/-- All tokens of a batch are of one adapter. -/
def tokensOf (id : ℤ) : LoRAMapping := ⟨[id, id], [id], true, .language⟩

/-- Two slots, and room for two adapters. -/
abbrev twoSlots : Setup Unit ℤ := oneModule 2 2 (by decide)

/-- An adapter that another one has driven out comes back into another slot, and the mapping, which is
set again, sends its tokens to the slot that it was in. -/
theorem moved_adapter_stale : ∃ m', call (oneModule 2 3 (by decide)) loadId
      (run (oneModule 2 3 (by decide)) loadId (.new (oneModule 2 3 (by decide)))
        [.setActiveAdapters [1] (some (tokensOf 1)), .addAdapter 2, .addAdapter 3])
      (.setActiveAdapters [1] (some (tokensOf 1))) = .ok m' ∧ ¬Mapped m' (tokensOf 1) := by
  refine ⟨_, rfl, ?_⟩
  rintro ⟨c, hc, hindex, -⟩
  obtain rfl := Option.some.inj hc
  obtain - | ⟨⟨n, hn, hslot⟩, -⟩ := hindex
  cases hn
  cases hslot

end LoptVllm.LoRA
