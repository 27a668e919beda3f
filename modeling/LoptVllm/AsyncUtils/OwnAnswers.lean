import LoptVllm.Lib.Runs
import LoptVllm.AsyncUtils.Microbatch

/-!
# What the callers of the batched tokenizer get

The encode batches run with the keyword arguments of their last member, the decode batches with
none, and an exception of one member goes to all: a batch in which that makes a difference does not
agree.
-/

namespace LoptVllm.AsyncUtils

open List Except EncodeBatcher

open Prod (fst snd)

variable {P I W T : Type*}

/-- A batch call equals the element-wise calls whenever none of them raises. -/
structure Tokenizer.Elementwise (tokenizer : Tokenizer P I W T) : Prop where
  callBatch : ∀ prompts kwargs encodings,
    prompts.Forall₂ (fun p enc => tokenizer.call p kwargs = .ok enc) encodings →
    ∃ results, tokenizer.callBatch prompts kwargs = .ok results ∧
      ∀ i enc, encodings[i]? = some enc → entry results i = .ok enc
  batchDecode : ∀ ids texts, ids.Forall₂ (fun t text => tokenizer.decode t ∅ = ok text) texts →
    tokenizer.batchDecode ids = .ok texts

variable (tokenizer : Tokenizer P I W T)

/-- What the caller would get alone. -/
def Call.own : Call P I → Except PyErr (Answer W T)
  | .encode prompt kwargs => (tokenizer.call prompt kwargs).map .encoding
  | .decode tokenIds kwargs => (tokenizer.decode tokenIds kwargs).map .text

/-- The value of the caller's own call, or an exception where the own call raises. -/
def AsAlone {α : Type*} (own : Except PyErr α) : Except PyErr α → Prop
  | .ok v => own = .ok v
  | .error _ => ∃ e, own = .error e

/-- The members of an encode batch agree: a batch call gives each of them what it would get with
its own keyword arguments; of separate calls all succeed or all raise. -/
def EncodeBatcher.Agrees (b : EncodeBatcher P) (calls : List (Call P I)) : Prop :=
  if b.canBatch ∧ 1 < b.prompts.length then
    ∀ fut ∈ b.resultFutures, ∀ p kw, calls[fut]? = some (.encode p kw) →
      ∃ enc, tokenizer.call p kw = .ok enc ∧ tokenizer.call p b.kwargs = .ok enc
  else
    (∀ fut ∈ b.resultFutures, ∀ p kw, calls[fut]? = some (.encode p kw) →
      ∃ enc, tokenizer.call p kw = .ok enc) ∨
    ∀ fut ∈ b.resultFutures, ∀ p kw, calls[fut]? = some (.encode p kw) →
      ∃ e, tokenizer.call p kw = .error e

/-- The members of a decode batch agree: each would get the same without keyword arguments. -/
def DecodeBatcher.Agrees (b : DecodeBatcher I) (calls : List (Call P I)) : Prop :=
  ∀ fut ∈ b.resultFutures, ∀ ids kw, calls[fut]? = some (.decode ids kw) →
    ∃ text, tokenizer.decode ids kw = .ok text ∧ tokenizer.decode ids ∅ = .ok text

/-! ### Resolving futures -/

namespace Answers

variable {answers : Answers W T}

theorem done_eq_false {fut : ℕ} : answers.done fut = false ↔ fut ∉ answers.map fst := by
  simp [done]

/-- Futures that wait are resolved one by one. -/
theorem setResults_ok {results : List (ℕ × Answer W T)} : ∀ {answers : Answers W T},
      (answers.map fst ++ results.map fst).Nodup →
      answers.setResults (results.map fun r => (r.1, ok r.2)) =
        (answers ++ results.map fun r => (r.1, ok r.2), none) := by
  induction results with
  | nil => simp [setResults]
  | cons r results ih =>
    intro answers hnodup
    have hr : answers.done r.1 = false := by
      rw [done_eq_false]
      exact fun h => (nodup_append.1 hnodup).2.2 _ h r.1 (.head _) rfl
    have hrest : ((answers ++ [(r.1, ok r.2)]).map fst ++ results.map fst).Nodup := by
      rw [map_append, append_assoc]
      exact hnodup
    rw [map_cons, setResults, if_neg (by rw [hr]; decide)]
    rw [ih hrest, append_assoc]
    rfl

theorem setException_eq {e : PyErr} {futs : List ℕ} :
    ∀ {answers : Answers W T}, (answers.map fst ++ futs).Nodup →
      answers.setException e futs = answers ++ futs.map fun fut => (fut, .error e) := by
  induction futs with
  | nil => simp [setException]
  | cons fut futs ih =>
    intro answers hnodup
    have hfut : answers.done fut = false := by
      rw [done_eq_false]
      exact fun h => (nodup_append.1 hnodup).2.2 _ h fut (.head _) rfl
    have hrest : ((answers ++ [(fut, (.error e : Except PyErr (Answer W T)))]).map fst
        ++ futs).Nodup := by
      rw [map_append, append_assoc]
      exact hnodup
    rw [setException, if_neg (by rw [hfut]; decide), ih hrest, append_assoc]
    rfl

end Answers

/-! ### The batchers -/

/-- The futures of the batch and of the queue. -/
def EncodeBatcher.futures (b : EncodeBatcher P) : List ℕ :=
  b.resultFutures ++ b.queue.map fun item => item.2.2

def DecodeBatcher.futures (b : DecodeBatcher I) : List ℕ := b.resultFutures ++ b.queue.map snd

/-- The local variables are those of the batch's members, and the requests are those of the
calls. -/
structure EncodeBatcher.Holds (b : EncodeBatcher P) (calls : List (Call P I)) : Prop where
  queued : ∀ item ∈ b.queue, calls[item.2.2]? = some (.encode item.1 item.2.1)
  batch : ∃ members : List (P × Kwargs × ℕ),
    b.prompts = members.map fst ∧ b.resultFutures = members.map (fun m => m.2.2) ∧
    (b.kwargsList = bif b.canBatch then (members.map fun m => m.2.1).take 1
      else members.map fun m => m.2.1) ∧
    ∀ m ∈ members, calls[m.2.2]? = some (.encode m.1 m.2.1)

structure DecodeBatcher.Holds (b : DecodeBatcher I) (calls : List (Call P I)) : Prop where
  queued : ∀ item ∈ b.queue, ∃ kw, calls[item.2]? = some (.decode item.1 kw)
  batch : ∃ members : List (I × ℕ),
    b.tokenIdsList = members.map fst ∧ b.resultFutures = members.map snd ∧
    ∀ m ∈ members, ∃ kw, calls[m.2]? = some (.decode m.1 kw)

section Batchers

variable {calls : List (Call P I)} {maxBatchSize : ℕ}

theorem getElem?_append_of_eq_some {α : Type*} {l : List α} {a : α} {i : ℕ} (h : l[i]? = some a)
    (b : α) : (l ++ [b])[i]? = some a := by
  rw [getElem?_append_left (List.getElem?_eq_some_iff.1 h).1]
  exact h

variable {b : EncodeBatcher P}

theorem EncodeBatcher.Holds.append (h : b.Holds calls) (c : Call P I) : b.Holds (calls ++ [c]) := by
  obtain ⟨members, hp, hf, hk, hm⟩ := h.batch
  exact ⟨fun item hitem => getElem?_append_of_eq_some (h.queued item hitem) c, members, hp, hf, hk,
    fun m hmem => getElem?_append_of_eq_some (hm m hmem) c⟩

theorem DecodeBatcher.Holds.append {b : DecodeBatcher I} (h : b.Holds calls) (c : Call P I) :
    b.Holds (calls ++ [c]) := by
  obtain ⟨members, hp, hf, hm⟩ := h.batch
  refine ⟨fun item hitem => ?_, members, hp, hf, fun m hmem => ?_⟩
  · obtain ⟨kw, hkw⟩ := h.queued item hitem
    exact ⟨kw, getElem?_append_of_eq_some hkw c⟩
  · obtain ⟨kw, hkw⟩ := hm m hmem
    exact ⟨kw, getElem?_append_of_eq_some hkw c⟩

theorem EncodeBatcher.holds_new (canBatch : Bool) : (new canBatch : EncodeBatcher P).Holds calls where
  queued := nofun
  batch := ⟨[], rfl, rfl, by simp [new], nofun⟩

theorem DecodeBatcher.holds_new : (new : DecodeBatcher I).Holds calls where
  queued := nofun
  batch := ⟨[], rfl, rfl, nofun⟩

theorem EncodeBatcher.Holds.put (h : b.Holds calls) {p : P} {kw : Kwargs} {fut : ℕ}
    (hfut : calls[fut]? = some (.encode p kw)) : (b.put (p, kw, fut)).Holds calls where
  queued := fun item hitem => by
    rcases mem_append.1 hitem with hitem | hitem
    · exact h.queued item hitem
    · obtain rfl := mem_singleton.1 hitem
      exact hfut
  batch := h.batch

theorem DecodeBatcher.Holds.put {b : DecodeBatcher I} (h : b.Holds calls) {ids : I} {kw : Kwargs}
    {fut : ℕ} (hfut : calls[fut]? = some (.decode ids kw)) : (b.put (ids, fut)).Holds calls where
  queued := fun item hitem => by
    rcases mem_append.1 hitem with hitem | hitem
    · exact h.queued item hitem
    · obtain rfl := mem_singleton.1 hitem
      exact ⟨kw, hfut⟩
  batch := h.batch

theorem EncodeBatcher.Holds.restart (h : b.Holds calls) : b.restart.Holds calls where
  queued := h.queued
  batch := ⟨[], rfl, rfl, by cases hcan : b.canBatch <;> simp [EncodeBatcher.restart], nofun⟩

theorem DecodeBatcher.Holds.restart {b : DecodeBatcher I} (h : b.Holds calls) :
    b.restart.Holds calls where
  queued := h.queued
  batch := ⟨[], rfl, rfl, nofun⟩

/-- The batch has a future for each prompt. -/
theorem EncodeBatcher.Holds.resultFutures_pos (h : b.Holds calls)
    (hne : b.prompts.isEmpty = false) : 0 < b.resultFutures.length := by
  obtain ⟨members, hp, hf, -⟩ := h.batch
  rw [hf, length_map, ← length_map, ← hp]
  exact length_pos_iff.2 fun hnil => by simp [hnil] at hne

theorem DecodeBatcher.Holds.resultFutures_pos {b : DecodeBatcher I} (h : b.Holds calls)
    (hne : b.tokenIdsList.isEmpty = false) : 0 < b.resultFutures.length := by
  obtain ⟨members, hp, hf, -⟩ := h.batch
  rw [hf, length_map, ← length_map, ← hp]
  exact length_pos_iff.2 fun hnil => by simp [hnil] at hne

theorem EncodeBatcher.Holds.futures_eq_nil (h : b.Holds calls) (hprompts : b.prompts.isEmpty = true)
    (hqueue : b.queue = []) : b.futures = [] := by
  obtain ⟨members, hp, hf, -⟩ := h.batch
  rw [hp, List.isEmpty_iff, map_eq_nil_iff] at hprompts
  rw [EncodeBatcher.futures, hf, hqueue, hprompts]
  rfl

theorem DecodeBatcher.Holds.futures_eq_nil {b : DecodeBatcher I} (h : b.Holds calls)
    (hids : b.tokenIdsList.isEmpty = true) (hqueue : b.queue = []) : b.futures = [] := by
  obtain ⟨members, hp, hf, -⟩ := h.batch
  rw [hp, List.isEmpty_iff, map_eq_nil_iff] at hids
  rw [DecodeBatcher.futures, hf, hqueue, hids]
  rfl

theorem EncodeBatcher.Holds.get {b' : EncodeBatcher P} (h : b.Holds calls)
    (hget : b.get maxBatchSize = some b') :
    b'.Holds calls ∧ b'.futures = b.futures ∧ b.queue.length = b'.queue.length + 1 := by
  obtain ⟨members, hp, hf, hk, hm⟩ := h.batch
  obtain ⟨canBatch, queue, prompts, kwargsList, kwargs, resultFutures⟩ := b
  dsimp only at hp hf hk
  subst hp hf hk
  cases queue with
  | nil => cases hget
  | cons item queue =>
    have hqueue : ∀ i ∈ queue, calls[i.2.2]? = some (.encode i.1 i.2.1) :=
      fun i hi => h.queued i (.tail _ hi)
    have hitem := h.queued item (.head _)
    simp only [get] at hget
    by_cases hempty : (members.map fst).isEmpty
    · -- the first of a batch
      rw [if_pos hempty] at hget
      obtain rfl := Option.some.inj hget
      obtain rfl : members = [] := by simpa using hempty
      refine ⟨⟨hqueue, [item], rfl, rfl, ?_, ?_⟩, rfl, rfl⟩
      · cases canBatch <;> rfl
      · intro m hmem
        obtain rfl := mem_singleton.1 hmem
        exact hitem
    · rw [if_neg hempty] at hget
      by_cases hlt : (members.map fst).length < maxBatchSize
      · rw [if_pos hlt] at hget
        obtain rfl := Option.some.inj hget
        refine ⟨⟨hqueue, members ++ [item], by simp, by simp, ?_, ?_⟩, by simp [futures], rfl⟩
        · cases canBatch with
          | true =>
            cases members with
            | nil => exact absurd rfl hempty
            | cons m members => rfl
          | false => simp
        · intro m hmem
          rcases mem_append.1 hmem with hmem | hmem
          · exact hm m hmem
          · obtain rfl := mem_singleton.1 hmem
            exact hitem
      · rw [if_neg hlt] at hget
        cases hget

theorem DecodeBatcher.Holds.get {b b' : DecodeBatcher I} (h : b.Holds calls)
    (hget : b.get maxBatchSize = some b') :
    b'.Holds calls ∧ b'.futures = b.futures ∧ b.queue.length = b'.queue.length + 1 := by
  obtain ⟨members, hp, hf, hm⟩ := h.batch
  obtain ⟨queue, tokenIdsList, resultFutures⟩ := b
  subst hp hf
  cases queue with
  | nil => cases hget
  | cons item queue =>
    simp only [DecodeBatcher.get] at hget
    split_ifs at hget with hlt
    obtain rfl := Option.some.inj hget
    refine ⟨⟨fun i hi => h.queued i (.tail _ hi), members ++ [item], by simp,
      by simp, ?_⟩, by simp [futures], rfl⟩
    intro m hmem
    rcases mem_append.1 hmem with hmem | hmem
    · exact hm m hmem
    · obtain rfl := mem_singleton.1 hmem
      exact h.queued m (.head _)

end Batchers

/-! ### Answering a batch -/

section Answering

variable {tokenizer : Tokenizer P I W T} {calls : List (Call P I)} {answers : Answers W T}
variable (tokenizer)
variable (calls)

/-- The calls of the futures have these own values. -/
def OwnValues (futs : List ℕ) (values : List (Answer W T)) : Prop :=
  futs.Forall₂ (fun fut v => ∃ call, calls[fut]? = some call ∧ call.own tokenizer = .ok v) values

/-- What a batch adds to the answers. -/
def Answered (futs : List ℕ) (outs : Answers W T) : Prop :=
  outs.map fst = futs ∧
    ∀ fut r, (fut, r) ∈ outs → ∃ call, calls[fut]? = some call ∧ AsAlone (call.own tokenizer) r

variable {calls}
variable {tokenizer} {futs : List ℕ} {values : List (Answer W T)}

theorem OwnValues.answered (h : OwnValues tokenizer calls futs values) :
    Answered tokenizer calls futs ((futs.zip values).map fun r => (r.1, ok r.2)) := by
  induction h with
  | nil => exact ⟨rfl, nofun⟩
  | @cons fut v futs values hv _ ih =>
    refine ⟨congrArg (fut :: ·) ih.1, fun fut' r hr => ?_⟩
    rcases mem_cons.1 hr with hr | hr
    · cases hr
      exact hv
    · exact ih.2 fut' r hr

/-- The results are the own values. -/
theorem OwnValues.resolve (h : OwnValues tokenizer calls futs values)
    (hnodup : (answers.map fst ++ futs).Nodup) : ∃ outs, answers.resolve futs
        (.ok ((futs.zip values).map fun r => (r.1, ok r.2))) = answers ++ outs ∧
      Answered tokenizer calls futs outs := by
  refine ⟨_, ?_, h.answered⟩
  have hfst : (futs.zip values).map fst = futs := map_fst_zip (Forall₂.length_eq h).le
  rw [Answers.resolve, Answers.setResults_ok (by rw [hfst]; exact hnodup)]

theorem answered_error (e : PyErr)
    (h : ∀ fut ∈ futs, ∃ call, calls[fut]? = some call ∧ ∃ e, call.own tokenizer = .error e)
    (hnodup : (answers.map fst ++ futs).Nodup) :
    ∃ outs, answers.resolve futs (.error e) = answers ++ outs ∧
      Answered tokenizer calls futs outs := by
  refine ⟨_, Answers.setException_eq hnodup, ?_, fun fut r hr => ?_⟩
  · rw [map_map]
    exact List.map_id _
  · obtain ⟨_, hfut, heq⟩ := mem_map.1 hr
    cases heq
    exact h fut hfut

theorem exists_forall₂ {α β : Type*} {R : α → β → Prop} {l : List α} (h : ∀ a ∈ l, ∃ b, R a b) :
    ∃ l', l.Forall₂ R l' := by
  induction l with
  | nil => exact ⟨[], .nil⟩
  | cons a l ih =>
    obtain ⟨b, hb⟩ := h a (.head _)
    obtain ⟨l', hl'⟩ := ih fun a ha => h a (.tail _ ha)
    exact ⟨b :: l', .cons hb hl'⟩

theorem ownValues_encodings {members : List (P × Kwargs × ℕ)}
    (hm : ∀ m ∈ members, calls[m.2.2]? = some (.encode m.1 m.2.1))
    {encodings : List (OrderedDict String W)}
    (henc : members.Forall₂ (fun m enc => tokenizer.call m.1 m.2.1 = .ok enc) encodings) :
    OwnValues tokenizer calls (members.map fun m => m.2.2) (encodings.map .encoding) := by
  rw [OwnValues, forall₂_map_left_iff, forall₂_map_right_iff]
  refine Forall₂.imp (fun m enc h => ⟨_, h.1, ?_⟩) ((forall₂_and_left _ _).2 ⟨hm, henc⟩)
  rw [Call.own, h.2]
  rfl

/-- A batch whose members agree is answered as its members would be alone. -/
theorem EncodeBatcher.Holds.resolve {b : EncodeBatcher P} (h : b.Holds calls)
    (htok : tokenizer.Elementwise) (hagrees : b.Agrees tokenizer calls)
    (hne : b.prompts.isEmpty = false) (hnodup : (answers.map fst ++ b.resultFutures).Nodup) :
    ∃ outs, answers.resolve b.resultFutures (b.results tokenizer) = answers ++ outs ∧
      Answered tokenizer calls b.resultFutures outs := by
  obtain ⟨members, hp, hf, hk, hm⟩ := h.batch
  have hfut : ∀ m ∈ members, m.2.2 ∈ b.resultFutures := fun m hmem =>
    hf ▸ mem_map_of_mem hmem
  rw [Agrees] at hagrees
  rw [results]
  by_cases hbatch : b.canBatch ∧ 1 < b.prompts.length
  · rw [if_pos hbatch] at hagrees ⊢
    obtain ⟨encodings, henc⟩ := exists_forall₂ fun m hmem =>
      hagrees m.2.2 (hfut m hmem) m.1 m.2.1 (hm m hmem)
    obtain ⟨results, hresults, hentry⟩ := htok.callBatch b.prompts b.kwargs encodings (by
      rw [hp, forall₂_map_left_iff]
      exact henc.imp fun _ _ h => h.2)
    have hown : OwnValues tokenizer calls b.resultFutures (encodings.map .encoding) :=
      hf ▸ ownValues_encodings hm (henc.imp fun _ _ h => h.1)
    have hlen : encodings.length = b.resultFutures.length := by
      rw [hf, length_map, henc.length_eq]
    have hzip : (b.resultFutures.zipIdx.map fun p =>
        ((p.1, (entry results p.2).map .encoding) : ℕ × Except PyErr (Answer W T))) =
        (b.resultFutures.zip (encodings.map .encoding)).map fun r => (r.1, ok r.2) := by
      refine ext_getElem (by simp [hlen]) fun i hi _ => ?_
      have hi' : i < encodings.length := by simpa [hlen] using hi
      simp [hentry i _ (getElem?_eq_getElem hi'), Except.map]
    rw [hresults]
    show ∃ outs, answers.resolve _ (.ok (List.map _ _)) = _ ∧ _
    rw [hzip]
    exact hown.resolve hnodup
  · rw [if_neg hbatch] at hagrees ⊢
    -- each prompt goes with its own keyword arguments
    have hpairs : b.prompts.zip b.kwargsList = members.map fun m => (m.1, m.2.1) := by
      rw [hp, hk, zip_eq_zipWith]
      cases hcan : b.canBatch with
      | false => simp [zipWith_map]
      | true =>
        have hlen : members.length ≤ 1 := by
          rw [hp, length_map] at hbatch
          exact Nat.le_of_not_lt fun h => hbatch ⟨hcan, h⟩
        cases members with
        | nil => rfl
        | cons m members =>
          rw [eq_nil_of_length_eq_zero (Nat.le_zero.1 (Nat.le_of_succ_le_succ hlen))]
          rfl
    rw [hpairs]
    rcases hagrees with hok | herr
    · obtain ⟨encodings, henc⟩ := exists_forall₂ fun m hmem =>
        hok m.2.2 (hfut m hmem) m.1 m.2.1 (hm m hmem)
      have hmap : (members.map fun m => (m.1, m.2.1)).mapM
          (fun pk : P × Kwargs => tokenizer.call pk.1 pk.2) = .ok encodings := by
        rw [mapM_eq_ok, forall₂_map_left_iff]
        exact henc
      have hown := ownValues_encodings hm henc
      rw [← hf] at hown
      have hzip : (b.resultFutures.zip (encodings.map fun enc =>
          (.ok (.encoding enc) : Except PyErr (Answer W T)))) =
          (b.resultFutures.zip (encodings.map .encoding)).map fun r => (r.1, ok r.2) := by
        rw [zip_map_right, zip_map_right, map_map]
        rfl
      rw [hmap]
      show ∃ outs, answers.resolve _ (.ok (zip _ _)) = _ ∧ _
      rw [hzip]
      exact hown.resolve hnodup
    · obtain ⟨m, members', rfl⟩ : ∃ m members', members = m :: members' := by
        cases members with
        | nil =>
          rw [hp] at hne
          cases hne
        | cons m members' => exact ⟨m, members', rfl⟩
      obtain ⟨e, he⟩ := herr m.2.2 (hfut m (.head _)) m.1 m.2.1 (hm m (.head _))
      have hmap : ((m :: members').map fun m => (m.1, m.2.1)).mapM
          (fun pk : P × Kwargs => tokenizer.call pk.1 pk.2) = .error e := by
        rw [map_cons, mapM_cons, he]
        rfl
      rw [hmap]
      refine answered_error e (fun fut hmem => ?_) hnodup
      rw [hf] at hmem
      obtain ⟨m', hm', rfl⟩ := mem_map.1 hmem
      obtain ⟨e', he'⟩ := herr m'.2.2 (hfut m' hm') m'.1 m'.2.1 (hm m' hm')
      refine ⟨_, hm m' hm', e', ?_⟩
      rw [Call.own, he']
      rfl

theorem DecodeBatcher.Holds.resolve {b : DecodeBatcher I} (h : b.Holds calls)
    (htok : tokenizer.Elementwise) (hagrees : b.Agrees tokenizer calls)
    (hnodup : (answers.map fst ++ b.resultFutures).Nodup) :
    ∃ outs, answers.resolve b.resultFutures (b.results tokenizer) = answers ++ outs ∧
      Answered tokenizer calls b.resultFutures outs := by
  obtain ⟨members, hp, hf, hm⟩ := h.batch
  obtain ⟨texts, htexts⟩ := exists_forall₂ (l := members)
      (R := fun m text => (∃ kw, calls[m.2]? = some (.decode m.1 kw) ∧
        tokenizer.decode m.1 kw = .ok text) ∧ tokenizer.decode m.1 ∅ = .ok text) fun m hmem => by
    obtain ⟨kw, hkw⟩ := hm m hmem
    obtain ⟨text, hown, hnone⟩ := hagrees m.2 (hf ▸ mem_map_of_mem hmem) m.1 kw hkw
    exact ⟨text, ⟨kw, hkw, hown⟩, hnone⟩
  have hbatch : tokenizer.batchDecode b.tokenIdsList = .ok texts := htok.batchDecode _ _ (by
    rw [hp, forall₂_map_left_iff]
    exact htexts.imp fun _ _ h => h.2)
  have hown : OwnValues tokenizer calls b.resultFutures (texts.map .text) := by
    rw [OwnValues, hf, forall₂_map_left_iff, forall₂_map_right_iff]
    refine htexts.imp fun m text h => ?_
    obtain ⟨kw, hkw, hown⟩ := h.1
    refine ⟨_, hkw, ?_⟩
    rw [Call.own, hown]
    rfl
  have hzip : (b.resultFutures.zip (texts.map fun res =>
      (.ok (.text res) : Except PyErr (Answer W T)))) =
      (b.resultFutures.zip (texts.map .text)).map fun r => (r.1, ok r.2) := by
    rw [zip_map_right, zip_map_right, map_map]
    rfl
  rw [DecodeBatcher.results, hbatch]
  show ∃ outs, answers.resolve _ (.ok (zip _ _)) = _ ∧ _
  rw [hzip]
  exact hown.resolve hnodup

end Answering

end LoptVllm.AsyncUtils
