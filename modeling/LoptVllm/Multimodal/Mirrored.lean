import LoptVllm.Multimodal.SenderReceiver

/-!
# The caches stay equal
-/

namespace LoptVllm.Multimodal

open List Feature LoptVllm.Multimodal.System

variable {κ ι : Type} [DecidableEq κ] {cfg : Config κ ι} {c : cfg.cache.State}

variable {c' : cfg.cache.State}

/-- The receiver does what the sender did with an item. -/
theorem senderUpdate_replay {mmItem data : Option ι} {mmHash : κ}
    (h : senderUpdate cfg c mmItem mmHash = .ok data c')
    (hsize : ∀ item, mmItem = some item → cfg.itemSize item = cfg.receivedSize item)
    (stored : κ → Option ι) : ∃ out stored',
      (⟨c, stored⟩ : Receiver cfg).update data mmHash = .ok out ⟨c', stored'⟩ := by
  unfold senderUpdate at h
  unfold Receiver.update
  cases hcontains : cfg.cache.contains c mmHash with
  | true =>
    rw [hcontains, if_pos rfl] at h
    cases h
    exact ⟨_, _, rfl⟩
  | false =>
    rw [hcontains, if_neg Bool.false_ne_true] at h
    cases mmItem with
    | none => cases h
    | some item =>
      cases hset : cfg.cache.setItem c mmHash (cfg.itemSize item) with
      | raised e c => simp only [hset, reduceCtorEq] at h
      | diverges => simp only [hset, reduceCtorEq] at h
      | ok u c₁ =>
        simp only [hset] at h
        cases h
        simp only [← hsize item, hset]
        exact ⟨_, _, rfl⟩

variable {items : List (Item κ ι)}

omit [DecidableEq κ] in
theorem mergeItems_cons {isCached : κ → Bool} {c c' : cfg.cache.State} {item : Item κ ι}
    {features : List (Feature κ ι)}
    (h : mergeItems cfg isCached c (item :: items) = .ok features c') : ∃ data c₁ rest,
      senderUpdate cfg c (if isCached item.mmHash then none else some item.data) item.mmHash =
        .ok data c₁ ∧ mergeItems cfg isCached c₁ items = .ok rest c' ∧
      features = ⟨item.mmHash, data, item.offset⟩ :: rest := by
  unfold mergeItems at h
  split at h
  · cases h
  · cases h
  · next hupdate =>
    split at h
    · next hmerge =>
      cases h
      exact ⟨_, _, _, hupdate, hmerge, rfl⟩
    · cases h
    · cases h

theorem mergeItems_replay {isCached : κ → Bool}
    (hsize : ∀ item ∈ items, cfg.itemSize item.data = cfg.receivedSize item.data) :
    ∀ {c c' : cfg.cache.State} {features : List (Feature κ ι)},
      mergeItems cfg isCached c items = .ok features c' → ∀ stored, ∃ out stored',
        (⟨c, stored⟩ : Receiver cfg).updateFeatures features = .ok out ⟨c', stored'⟩ := by
  induction items with
  | nil =>
    intro c c' features h stored
    cases h
    exact ⟨_, _, rfl⟩
  | cons item items ih =>
    intro c c' features h stored
    obtain ⟨data, c₁, rest, hupdate, hmerge, rfl⟩ := mergeItems_cons h
    have hitem : ∀ i, (if isCached item.mmHash then none else some item.data) = some i →
        cfg.itemSize i = cfg.receivedSize i := by
      intro i hi
      split_ifs at hi
      rw [← Option.some.inj hi]
      exact hsize item (.head _)
    obtain ⟨out, stored₁, hout⟩ := senderUpdate_replay hupdate hitem stored
    obtain ⟨outs, stored₂, houts⟩ := ih (fun item hmem => hsize item (.tail _ hmem)) hmerge stored₁
    unfold Receiver.updateFeatures
    simp only [hout, houts]
    exact ⟨_, _, rfl⟩

omit [DecidableEq κ] in
theorem mergeItems_features {isCached : κ → Bool} :
    ∀ {c c' : cfg.cache.State} {features : List (Feature κ ι)},
      mergeItems cfg isCached c items = .ok features c' →
        features.map mmHash = items.map Item.mmHash ∧
        features.map offset = items.map Item.offset := by
  induction items with
  | nil =>
    intro c c' features h
    cases h
    exact ⟨rfl, rfl⟩
  | cons item items ih =>
    intro c c' features h
    obtain ⟨data, c₁, rest, -, hmerge, rfl⟩ := mergeItems_cons h
    obtain ⟨hhashes, hoffsets⟩ := ih hmerge
    exact ⟨congrArg (item.mmHash :: ·) hhashes, congrArg (item.offset :: ·) hoffsets⟩

/-- The receiver does what the sender did with a request. -/
theorem mergeMmKwargs_replay
    (hsize : ∀ item ∈ items, cfg.itemSize item.data = cfg.receivedSize item.data)
    {features : List (Feature κ ι)}
    (h : mergeMmKwargs cfg c items = .ok features c') (stored : κ → Option ι) : ∃ out stored',
      (⟨c, stored⟩ : Receiver cfg).getAndUpdateFeatures features = .ok out ⟨c', stored'⟩ := by
  unfold Receiver.getAndUpdateFeatures
  rw [(mergeItems_features h).1]
  exact mergeItems_replay hsize h stored

omit [DecidableEq κ] in
/-- Features whose offsets increase are not moved. -/
theorem sortByOffset_eq {features : List (Feature κ ι)}
    (h : (features.map offset).Pairwise (· ≤ ·)) : sortByOffset features = features :=
  (pairwise_map.1 h).insertionSort_eq

/-! ### Runs -/

/-- The requests do to the first cache what they did to the second one. -/
def Replays : cfg.cache.State → List (List (Feature κ ι)) → cfg.cache.State → Prop
  | c, [], c' => c = c'
  | c, mmFeatures :: queue, c' => ∃ c₁, (∀ stored, ∃ out stored',
      (⟨c, stored⟩ : Receiver cfg).getAndUpdateFeatures mmFeatures = .ok out ⟨c₁, stored'⟩) ∧
      Replays c₁ queue c'

theorem Replays.append {c₁ c₂ : cfg.cache.State} {queue : List (List (Feature κ ι))}
    {mmFeatures : List (Feature κ ι)} (h : Replays c queue c₁) (hlast : ∀ stored, ∃ out stored',
      (⟨c₁, stored⟩ : Receiver cfg).getAndUpdateFeatures mmFeatures = .ok out ⟨c₂, stored'⟩) :
    Replays c (queue ++ [mmFeatures]) c₂ := by
  induction queue generalizing c with
  | nil =>
    cases h
    exact ⟨c₂, hlast, rfl⟩
  | cons first queue ih =>
    obtain ⟨c', hfirst, hrest⟩ := h
    exact ⟨c', hfirst, ih hrest⟩

/-- The sender cache does with the items of a request what the receiver cache will do. -/
structure System.Mirrors (s : System cfg) (request : MMRequest κ ι) : Prop where
  updated : request.passthrough = false
  accepted : request.rejected = false
  merged : ∀ e cache, mergeMmKwargs cfg s.sender request.items ≠ .raised e cache
  sorted : (request.items.map Item.offset).Pairwise (· ≤ ·)
  sizes : ∀ item ∈ request.items, cfg.itemSize item.data = cfg.receivedSize item.data

/-- The steps after which the caches agree. -/
def Meets (s : System cfg) : Event κ ι → Prop
  | .process request => request.items = [] ∨ s.Mirrors request
  | .receive => True

/-- The states of a run whose steps satisfy a condition. -/
inductive Reached (P : System cfg → Event κ ι → Prop) : System cfg → Prop
  | start (empty : cfg.cache.State) : Reached P (new empty)
  | step {s s' : System cfg} (event : Event κ ι) (hs : Reached P s) (hmeets : P s event)
    (hr : s.step event = some s') : Reached P s'

variable {s s' : System cfg} {request : MMRequest κ ι}

/-- A request without items. -/
theorem replays_nil (hitems : request.items = [])
    (hs : Replays s.receiver.cache s.queue s.sender) (hr : s.processInputs request = some s') :
    Replays s'.receiver.cache s'.queue s'.sender := by
  have hsend : ∀ rejected : Bool, Replays (s.send rejected []).receiver.cache
      (s.send rejected []).queue (s.send rejected []).sender := by
    intro rejected
    cases rejected with
    | true => exact hs
    | false => exact hs.append fun stored => ⟨_, _, rfl⟩
  unfold processInputs at hr
  rw [hitems] at hr
  split_ifs at hr
  · cases hr
    exact hsend request.rejected
  · cases hr
    exact hsend request.rejected

theorem replays_process (hmirrors : s.Mirrors request)
    (hs : Replays s.receiver.cache s.queue s.sender) (hr : s.processInputs request = some s') :
    Replays s'.receiver.cache s'.queue s'.sender := by
  unfold processInputs at hr
  rw [hmirrors.updated, if_neg Bool.false_ne_true, hmirrors.accepted] at hr
  cases hmerge : mergeMmKwargs cfg s.sender request.items with
  | raised e cache => exact absurd hmerge (hmirrors.merged e cache)
  | diverges =>
    rw [hmerge] at hr
    cases hr
  | ok features sender =>
    rw [hmerge] at hr
    cases hr
    have hsorted : (features.map offset).Pairwise (· ≤ ·) := by
      rw [(mergeItems_features hmerge).2]
      exact hmirrors.sorted
    refine hs.append ?_
    rw [sortByOffset_eq hsorted]
    exact mergeMmKwargs_replay hmirrors.sizes hmerge

theorem replays_receive (hs : Replays s.receiver.cache s.queue s.sender)
    (hr : s.step .receive = some s') : Replays s'.receiver.cache s'.queue s'.sender := by
  unfold step at hr
  cases hqueue : s.queue with
  | nil =>
    rw [hqueue] at hr
    cases hr
  | cons mmFeatures queue =>
    rw [hqueue] at hr hs
    obtain ⟨c, hfirst, hrest⟩ := hs
    obtain ⟨out, stored, hout⟩ := hfirst s.receiver.items
    simp only [hout] at hr
    cases hr
    exact hrest

/-- The receiver cache becomes the sender cache once it has received all requests. -/
theorem Reached.replays (hs : Reached Meets s) : Replays s.receiver.cache s.queue s.sender := by
  induction hs with
  | start empty => rfl
  | step event _ hmeets hr ih =>
    cases event with
    | process request =>
      rcases hmeets with hitems | hmirrors
      · exact replays_nil hitems ih hr
      · exact replays_process hmirrors ih hr
    | receive => exact replays_receive ih hr

/-- In a run whose requests meet the condition, the receiver has every item that it is not sent. -/
theorem run_mirrored {s : System cfg} (hs : Reached Meets s) : s.Mirrored := by
  intro mmFeatures queue hqueue receiver hraised
  have hreplays := hs.replays
  rw [hqueue] at hreplays
  obtain ⟨c, hfirst, -⟩ := hreplays
  obtain ⟨out, stored, hout⟩ := hfirst s.receiver.items
  rw [hout] at hraised
  cases hraised

/-- LRU caches for two items of one byte, on both sides. -/
def lruConfig : Config ℕ ℕ := ⟨lruCache ℕ 2, fun _ => 1, fun _ => 1⟩

/-- An item that was sent with the first request and is not sent with the second one. -/
theorem run_mirrored_lru : ∃ s : System lruConfig, s.queue = [[⟨7, none, 3⟩]] ∧ s.Mirrored := by
  have h₀ : Reached Meets (new LruCache.new : System lruConfig) := .start _
  have h₁ := Reached.step (.process ⟨[⟨7, 70, 0⟩], false, false⟩) h₀
    (Or.inr ⟨rfl, rfl, nofun, pairwise_singleton _ _, fun _ _ => rfl⟩) rfl
  have h₂ := Reached.step .receive h₁ trivial rfl
  have h₃ := Reached.step (.process ⟨[⟨7, 70, 3⟩], false, false⟩) h₂
    (Or.inr ⟨rfl, rfl, nofun, pairwise_singleton _ _, fun _ _ => rfl⟩) rfl
  exact ⟨_, rfl, run_mirrored h₃⟩

/-- Two items in the other order of the prompt, then an item for which the caches evict different
ones; or an item of a request that is rejected. -/
theorem receiver_misses_item :
    (∃ s : System lruConfig, Reached (fun _ _ => True) s ∧ s.queue = [[⟨1, none, 0⟩]] ∧
      ¬ s.Mirrored) ∧
    ∃ s : System lruConfig, Reached (fun _ _ => True) s ∧ s.queue = [[⟨1, none, 0⟩]] ∧
      ¬ s.Mirrored := by
  have h₀ := Reached.start (P := fun (_ : System lruConfig) _ => True) LruCache.new
  constructor
  · have h₁ := Reached.step (.process ⟨[⟨0, 50, 5⟩, ⟨1, 51, 0⟩], false, false⟩) h₀ trivial rfl
    have h₂ := Reached.step .receive h₁ trivial rfl
    have h₃ := Reached.step (.process ⟨[⟨2, 52, 0⟩], false, false⟩) h₂ trivial rfl
    have h₄ := Reached.step .receive h₃ trivial rfl
    have h₅ := Reached.step (.process ⟨[⟨1, 51, 0⟩], false, false⟩) h₄ trivial rfl
    exact ⟨_, h₅, rfl, fun hmirrored => hmirrored _ _ rfl _ rfl⟩
  · have h₁ := Reached.step (.process ⟨[⟨1, 51, 0⟩], false, true⟩) h₀ trivial rfl
    have h₂ := Reached.step (.process ⟨[⟨1, 51, 0⟩], false, false⟩) h₁ trivial rfl
    exact ⟨_, h₂, rfl, fun hmirrored => hmirrored _ _ rfl _ rfl⟩

end LoptVllm.Multimodal
