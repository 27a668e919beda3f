import LoptVllm.AsyncUtils.OwnAnswers
import Mathlib.Algebra.Ring.Nat

/-!
# Every interleaving of the callers and the batchers
-/

namespace LoptVllm.AsyncUtils

open List Option OrderedDict Prod EncodeBatcher Perm

variable {P I W T : Type*} {tokenizer : Tokenizer P I W T} {maxBatchSize : ℕ}
  {s s' : AsyncMicrobatchTokenizer P I W T}

namespace AsyncMicrobatchTokenizer

/-- The futures that are in a queue or in a batch. -/
def waitingIn (encodeQueues : OrderedDict QueueKey (EncodeBatcher P))
    (decodeQueue : Option (DecodeBatcher I)) : List ℕ :=
  encodeQueues.values.flatMap futures ++ decodeQueue.elim [] DecodeBatcher.futures

variable (s)

def waiting : List ℕ :=
  waitingIn s.encodeQueues s.decodeQueue

/-- The moves that the batchers have to make: a request is taken, and then its batch is run. -/
def work : ℕ :=
  (s.encodeQueues.values.map fun b => 2 * b.queue.length + b.resultFutures.length).sum +
    s.decodeQueue.elim 0 fun b => 2 * b.queue.length + b.resultFutures.length

variable {s}

/-- An event under which no caller is treated otherwise than alone: the key of a call can be
hashed, or the own call raises too; the members of the batch that is run agree. -/
def Admissible (tokenizer : Tokenizer P I W T) (s : AsyncMicrobatchTokenizer P I W T) :
    Event P I → Prop
  | .call prompt kwargs => (queueKey tokenizer kwargs).hashable = true ∨
      ∃ e, tokenizer.call prompt kwargs = .error e
  | .move (.runEncode key) => ∀ b, s.encodeQueues.lookup key = some b → b.Agrees tokenizer s.calls
  | .move .runDecode => ∀ b, s.decodeQueue = some b → b.Agrees tokenizer s.calls
  | _ => True

/-- The states of the runs whose events are admissible. -/
inductive Run (tokenizer : Tokenizer P I W T) (maxBatchSize : ℕ) :
    AsyncMicrobatchTokenizer P I W T → Prop
  | new : Run tokenizer maxBatchSize new
  | step {s s' : AsyncMicrobatchTokenizer P I W T} {e : Event P I}
      (hrun : Run tokenizer maxBatchSize s) (hok : s.Admissible tokenizer e)
      (hstep : s.step tokenizer maxBatchSize e = some s') : Run tokenizer maxBatchSize s'

/-- The batchers hold requests of the calls. -/
structure Holding (s : AsyncMicrobatchTokenizer P I W T) : Prop where
  encode : ∀ key b, s.encodeQueues.lookup key = some b → b.Holds s.calls
  decode : ∀ b, s.decodeQueue = some b → b.Holds s.calls

/-- Every call is answered once or waits once; an answer is the one the caller gets alone. -/
structure Serves (tokenizer : Tokenizer P I W T) (s : AsyncMicrobatchTokenizer P I W T) : Prop
    extends Holding s where
  accounted : (s.answers.map fst ++ s.waiting).Perm (range s.calls.length)
  answered : ∀ fut r, (fut, r) ∈ s.answers →
    ∃ call, s.calls[fut]? = some call ∧ AsAlone (call.own tokenizer) r

theorem serves_new : Serves tokenizer new where
  encode := fun _ _ h => by cases h
  decode := nofun
  accounted := .refl _
  answered := nofun

/-! ### What waits -/

section Waiting

variable (encodeQueues : OrderedDict QueueKey (EncodeBatcher P))
  (decodeQueue : Option (DecodeBatcher I)) (key : QueueKey)

theorem waitingIn_setItem (b : EncodeBatcher P) :
    (waitingIn (encodeQueues.setItem key b) decodeQueue).Perm
      (b.futures ++ waitingIn (encodeQueues.erase key) decodeQueue) := by
  unfold waitingIn
  rw [← append_assoc]
  refine append_right _ ?_
  exact (values_setItem_perm encodeQueues key b).flatMap_right _

variable {b : EncodeBatcher P}

variable {encodeQueues key} in
theorem waitingIn_of_lookup (h : encodeQueues.lookup key = some b) :
    (waitingIn encodeQueues decodeQueue).Perm
      (b.futures ++ waitingIn (encodeQueues.erase key) decodeQueue) := by
  unfold waitingIn
  rw [← append_assoc]
  refine append_right _ ?_
  exact (values_perm_cons_erase h).flatMap_right _

/-- A queue that is not there yet is empty. -/
theorem waitingIn_getD (canBatch : Bool) : (waitingIn encodeQueues decodeQueue).Perm
    (((encodeQueues.lookup key).getD (.new canBatch)).futures ++
      waitingIn (encodeQueues.erase key) decodeQueue) := by
  cases h : encodeQueues.lookup key with
  | some b => exact waitingIn_of_lookup decodeQueue h
  | none =>
    have herase : ∀ k, encodeQueues.lookup k = (encodeQueues.erase key).lookup k := fun k => by
      rw [lookup_erase']
      by_cases hk : k = key
      · rw [if_pos hk, hk, h]
      · rw [if_neg hk]
    refine append_right _ (flatMap_right _ ?_)
    exact List.Perm.map (fun e : Sigma fun _ : QueueKey => EncodeBatcher P => e.2)
      (entries_perm_of_lookup herase)

end Waiting

/-! ### One event -/

section

variable (h : Serves tokenizer s)

include h

theorem Serves.nodup : (s.answers.map fst ++ s.waiting).Nodup :=
  h.accounted.nodup_iff.2 nodup_range

theorem Serves.call {prompt : P} {kwargs : Kwargs}
    (hok : (queueKey tokenizer kwargs).hashable = true ∨
      ∃ e, tokenizer.call prompt kwargs = .error e) :
    Serves tokenizer (s.call tokenizer prompt kwargs) := by
  have hnew : (s.calls ++ [.encode prompt kwargs])[s.calls.length]? = some (.encode prompt kwargs) :=
    getElem?_concat_length
  have hold : ∀ fut r, (fut, r) ∈ s.answers → ∃ call,
      (s.calls ++ [.encode prompt kwargs])[fut]? = some call ∧ AsAlone (call.own tokenizer) r :=
    fun fut r hr => by
      obtain ⟨c, hc, halone⟩ := h.answered fut r hr
      exact ⟨c, getElem?_append_of_eq_some hc _, halone⟩
  have hrange : range (s.calls ++ [Call.encode prompt kwargs]).length =
      range s.calls.length ++ [s.calls.length] := by
    rw [length_append, length_singleton, range_succ]
  unfold AsyncMicrobatchTokenizer.call
  by_cases hhash : (queueKey tokenizer kwargs).hashable = true
  · rw [if_pos hhash]
    refine ⟨⟨fun key b hb => ?_, fun b hb => (h.decode b hb).append _⟩, ?_, hold⟩
    · dsimp only at hb
      rw [lookup_setItem] at hb
      by_cases hkey : key = queueKey tokenizer kwargs
      · rw [if_pos hkey] at hb
        obtain rfl := some.inj hb
        have hqueue : (s.getQueue (queueKey tokenizer kwargs)).Holds s.calls := by
          cases hq : s.encodeQueues.lookup (queueKey tokenizer kwargs) with
          | none =>
            rw [getQueue, hq]
            exact holds_new _
          | some b =>
            rw [getQueue, hq]
            exact h.encode _ b hq
        exact (hqueue.append _).put hnew
      · rw [if_neg hkey] at hb
        exact (h.encode key b hb).append _
    · rw [hrange]
      refine perm_iff_count.2 fun x => ?_
      have hacc := perm_iff_count.1 h.accounted x
      have hset := perm_iff_count.1 (waitingIn_setItem s.encodeQueues s.decodeQueue
        (queueKey tokenizer kwargs)
        ((s.getQueue (queueKey tokenizer kwargs)).put (prompt, kwargs, s.calls.length))) x
      have hget := perm_iff_count.1 (waitingIn_getD s.encodeQueues s.decodeQueue
        (queueKey tokenizer kwargs) (queueKey tokenizer kwargs).canBatch) x
      simp only [waiting, getQueue, count_append, futures, put,
        map_append, map_cons, map_nil] at hacc hset hget ⊢
      omega
  · -- the key cannot be hashed: the caller gets an exception at once
    rw [if_neg hhash]
    obtain ⟨e, he⟩ := hok.resolve_left hhash
    refine ⟨⟨fun key b hb => (h.encode key b hb).append _, fun b hb => (h.decode b hb).append _⟩,
      ?_, fun fut r hr => ?_⟩
    · rw [hrange]
      refine perm_iff_count.2 fun x => ?_
      have hacc := perm_iff_count.1 h.accounted x
      simp only [waiting, count_append, map_append, map_cons, map_nil] at hacc ⊢
      omega
    · rcases mem_append.1 hr with hr | hr
      · exact hold fut r hr
      · cases mem_singleton.1 hr
        refine ⟨_, hnew, e, ?_⟩
        rw [Call.own, he]
        rfl

theorem Serves.decodeCall (tokenIds : I) (kwargs : Kwargs) :
    Serves tokenizer (s.decode tokenIds kwargs) := by
  have hnew : (s.calls ++ [.decode tokenIds kwargs])[s.calls.length]? =
      some (.decode tokenIds kwargs) := getElem?_concat_length
  refine ⟨⟨fun key b hb => (h.encode key b hb).append _, fun b hb => ?_⟩, ?_, fun fut r hr => ?_⟩
  · obtain rfl := some.inj hb
    have hqueue : (s.decodeQueue.getD .new).Holds s.calls := by
      cases hq : s.decodeQueue with
      | none => exact DecodeBatcher.holds_new
      | some b => exact h.decode b hq
    exact (hqueue.append _).put hnew
  · have hrange : range (s.calls ++ [Call.decode tokenIds kwargs]).length =
        range s.calls.length ++ [s.calls.length] := by
      rw [length_append, length_singleton, range_succ]
    show List.Perm _ (range (s.calls ++ [_]).length)
    rw [hrange]
    refine perm_iff_count.2 fun x => ?_
    have hacc := perm_iff_count.1 h.accounted x
    unfold waiting waitingIn AsyncMicrobatchTokenizer.decode at *
    cases hq : s.decodeQueue with
    | none =>
      rw [hq] at hacc
      simp only [elim_none, elim_some, getD_none, count_append,
        DecodeBatcher.futures, DecodeBatcher.put, DecodeBatcher.new, nil_append, map_cons,
        map_nil, count_nil] at hacc ⊢
      omega
    | some b =>
      rw [hq] at hacc
      simp only [elim_some, getD_some, count_append, DecodeBatcher.futures,
        DecodeBatcher.put, map_append, map_cons, map_nil] at hacc ⊢
      omega
  · obtain ⟨c, hc, halone⟩ := h.answered fut r hr
    exact ⟨c, getElem?_append_of_eq_some hc _, halone⟩

/-- The answers to a batch whose members agree. -/
theorem Serves.answered_append {futs : List ℕ} {outs : Answers W T}
    (houts : Answered tokenizer s.calls futs outs) : ∀ fut r, (fut, r) ∈ s.answers ++ outs →
      ∃ call, s.calls[fut]? = some call ∧ AsAlone (call.own tokenizer) r := by
  intro fut r hr
  rcases mem_append.1 hr with hr | hr
  · exact h.answered fut r hr
  · exact houts.2 fut r hr

end

theorem Holding.setItem (h : Holding s) (key : QueueKey)
    (hb : b.Holds s.calls) {k : QueueKey} {c : EncodeBatcher P}
    (hc : (s.encodeQueues.setItem key b).lookup k = some c) : c.Holds s.calls := by
  rw [lookup_setItem] at hc
  split_ifs at hc with hk
  · obtain rfl := some.inj hc
    exact hb
  · exact h.encode k c hc

theorem Holding.move (h : Holding s) {m : Move}
    (hmove : s.move tokenizer maxBatchSize m = some s') : Holding s' := by
  cases m with
  | getEncode key =>
    obtain ⟨b, hb, hmove⟩ := bind_eq_some_iff.1 hmove
    obtain ⟨b', hb', rfl⟩ := map_eq_some_iff.1 hmove
    exact ⟨fun k c hc => h.setItem key ((h.encode key b hb).get hb').1 hc, h.decode⟩
  | runEncode key =>
    obtain ⟨b, hb, hmove⟩ := bind_eq_some_iff.1 hmove
    split_ifs at hmove with hempty
    obtain rfl := some.inj hmove
    exact ⟨fun k c hc => h.setItem key (h.encode key b hb).restart hc, h.decode⟩
  | getDecode =>
    obtain ⟨b, hb, hmove⟩ := bind_eq_some_iff.1 hmove
    obtain ⟨b', hb', rfl⟩ := map_eq_some_iff.1 hmove
    exact ⟨h.encode, fun c hc => some.inj hc ▸ ((h.decode b hb).get hb').1⟩
  | runDecode =>
    obtain ⟨b, hb, hmove⟩ := bind_eq_some_iff.1 hmove
    split_ifs at hmove with hempty
    obtain rfl := some.inj hmove
    exact ⟨h.encode, fun c hc => some.inj hc ▸ (h.decode b hb).restart⟩

theorem Serves.move (h : Serves tokenizer s) (htok : tokenizer.Elementwise) {m : Move}
    (hok : s.Admissible tokenizer (.move m)) (hmove : s.move tokenizer maxBatchSize m = some s') :
    Serves tokenizer s' := by
  have hholding : Holding s' := h.toHolding.move hmove
  cases m with
  | getEncode key =>
    obtain ⟨b, hb, hmove⟩ := bind_eq_some_iff.1 hmove
    obtain ⟨b', hb', rfl⟩ := map_eq_some_iff.1 hmove
    refine ⟨hholding, ?_, h.answered⟩
    refine (append_left _ ?_).trans h.accounted
    refine (waitingIn_setItem s.encodeQueues s.decodeQueue key b').trans ?_
    rw [((h.encode key b hb).get hb').2.1]
    exact (waitingIn_of_lookup s.decodeQueue hb).symm
  | runEncode key =>
    obtain ⟨b, hb, hmove⟩ := bind_eq_some_iff.1 hmove
    split_ifs at hmove with hempty
    obtain rfl := some.inj hmove
    have hwaiting := waitingIn_of_lookup s.decodeQueue hb
    -- the futures of the batch are not answered yet
    have hnodup : (s.answers.map fst ++ b.resultFutures).Nodup := by
      have hperm := (append_left (s.answers.map fst) hwaiting).nodup_iff.1 h.nodup
      rw [futures, append_assoc, ← append_assoc] at hperm
      exact hperm.of_append_left
    obtain ⟨outs, hresolve, houts⟩ := (h.encode key b hb).resolve htok (hok b hb)
      (Bool.eq_false_iff.2 hempty) hnodup
    rw [hresolve] at hholding ⊢
    refine ⟨hholding, perm_iff_count.2 fun x => ?_, h.answered_append houts⟩
    have hacc := perm_iff_count.1 h.accounted x
    have hset := perm_iff_count.1 (waitingIn_setItem s.encodeQueues s.decodeQueue key b.restart) x
    have hget := perm_iff_count.1 hwaiting x
    simp only [waiting, map_append, houts.1, count_append, futures,
      restart, count_nil] at hacc hset hget ⊢
    omega
  | getDecode =>
    obtain ⟨b, hb, hmove⟩ := bind_eq_some_iff.1 hmove
    obtain ⟨b', hb', rfl⟩ := map_eq_some_iff.1 hmove
    refine ⟨hholding, ?_, h.answered⟩
    have hacc := h.accounted
    rw [waiting, hb] at hacc
    rw [waiting]
    unfold waitingIn at hacc ⊢
    rw [elim_some] at hacc ⊢
    rw [((h.decode b hb).get hb').2.1]
    exact hacc
  | runDecode =>
    obtain ⟨b, hb, hmove⟩ := bind_eq_some_iff.1 hmove
    split_ifs at hmove with hempty
    obtain rfl := some.inj hmove
    have hacc := h.accounted
    rw [waiting, waitingIn, hb, elim_some] at hacc
    -- the futures of the batch are not answered yet
    have hnodup : (s.answers.map fst ++ b.resultFutures).Nodup := by
      have hperm := hacc.nodup_iff.2 nodup_range
      refine hperm.sublist (Sublist.append_left ?_ _)
      exact (sublist_append_left _ _).trans (sublist_append_right _ _)
    obtain ⟨outs, hresolve, houts⟩ := (h.decode b hb).resolve htok (hok b hb) hnodup
    rw [hresolve] at hholding ⊢
    refine ⟨hholding, perm_iff_count.2 fun x => ?_, h.answered_append houts⟩
    have hacc := perm_iff_count.1 hacc x
    simp only [waiting, waitingIn, elim_some, map_append, houts.1, count_append,
      DecodeBatcher.futures, DecodeBatcher.restart, count_nil] at hacc ⊢
    omega

theorem Run.serves (htok : tokenizer.Elementwise) (hrun : Run tokenizer maxBatchSize s) :
    Serves tokenizer s := by
  induction hrun with
  | new => exact serves_new
  | @step s s' e _ hok hstep ih =>
    cases e with
    | call prompt kwargs => exact some.inj hstep ▸ ih.call hok
    | decode tokenIds kwargs => exact some.inj hstep ▸ ih.decodeCall tokenIds kwargs
    | move m => exact ih.move htok hok hstep

/-! ### The batchers come to an end -/

/-- What a batcher has to do does not count the requests under other keys. -/
theorem work_setItem {key : QueueKey}
    (h : s.encodeQueues.lookup key = some b) (b' : EncodeBatcher P) :
    (s.encodeQueues.values.map fun b => 2 * b.queue.length + b.resultFutures.length).sum +
        (2 * b'.queue.length + b'.resultFutures.length) =
      ((s.encodeQueues.setItem key b').values.map fun b =>
          2 * b.queue.length + b.resultFutures.length).sum +
        (2 * b.queue.length + b.resultFutures.length) := by
  rw [((values_perm_cons_erase h).map _).sum_eq,
    ((values_setItem_perm s.encodeQueues key b').map _).sum_eq, map_cons,
    map_cons, sum_cons, sum_cons]
  omega

/-- Taking a request, or answering a batch, leaves less to do. -/
theorem Holding.move_descends (h : Holding s) {m : Move}
    (hmove : s.move tokenizer maxBatchSize m = some s') : s'.work < s.work := by
  unfold work
  cases m with
  | getEncode key =>
    obtain ⟨b, hb, hmove⟩ := bind_eq_some_iff.1 hmove
    obtain ⟨b', hb', rfl⟩ := map_eq_some_iff.1 hmove
    obtain ⟨-, hfutures, hqueue⟩ := (h.encode key b hb).get hb'
    have hwork := work_setItem hb b'
    have hlen := congrArg length hfutures
    simp only [futures, length_append, length_map] at hlen
    dsimp only
    omega
  | runEncode key =>
    obtain ⟨b, hb, hmove⟩ := bind_eq_some_iff.1 hmove
    split_ifs at hmove with hempty
    obtain rfl := some.inj hmove
    have hwork := work_setItem hb b.restart
    have hpos := (h.encode key b hb).resultFutures_pos (Bool.eq_false_iff.2 hempty)
    simp only [restart, length_nil] at hwork ⊢
    omega
  | getDecode =>
    obtain ⟨b, hb, hmove⟩ := bind_eq_some_iff.1 hmove
    obtain ⟨b', hb', rfl⟩ := map_eq_some_iff.1 hmove
    obtain ⟨-, hfutures, hqueue⟩ := (h.decode b hb).get hb'
    have hlen := congrArg length hfutures
    simp only [DecodeBatcher.futures, length_append, length_map] at hlen
    rw [hb]
    simp only [elim_some]
    omega
  | runDecode =>
    obtain ⟨b, hb, hmove⟩ := bind_eq_some_iff.1 hmove
    split_ifs at hmove with hempty
    obtain rfl := some.inj hmove
    have hpos := (h.decode b hb).resultFutures_pos (Bool.eq_false_iff.2 hempty)
    rw [hb]
    simp only [elim_some, DecodeBatcher.restart, length_nil]
    omega

theorem Holding.waiting_eq_nil (h : Holding s)
    (hstuck : ∀ m, s.move tokenizer maxBatchSize m = none) : s.waiting = [] := by
  refine append_eq_nil_iff.2 ⟨flatMap_eq_nil_iff.2 fun b hb => ?_, ?_⟩
  · obtain ⟨⟨key, b⟩, he, rfl⟩ := List.mem_map.1 hb
    have hlookup := mem_entries.1 he
    have hprompts : b.prompts.isEmpty = true := by
      by_contra hne
      have hrun := hstuck (.runEncode key)
      rw [AsyncMicrobatchTokenizer.move, hlookup, bind_some, if_neg hne] at hrun
      cases hrun
    have hqueue : b.queue = [] := by
      have hget := hstuck (.getEncode key)
      rw [AsyncMicrobatchTokenizer.move, hlookup, bind_some, map_eq_none_iff] at hget
      cases hq : b.queue with
      | nil => rfl
      | cons item queue =>
        rw [EncodeBatcher.get, hq] at hget
        simp only [hprompts] at hget
        cases hget
    exact (h.encode key b hlookup).futures_eq_nil hprompts hqueue
  · cases hd : s.decodeQueue with
    | none => rfl
    | some b =>
      have hids : b.tokenIdsList.isEmpty = true := by
        by_contra hne
        have hrun := hstuck .runDecode
        rw [AsyncMicrobatchTokenizer.move, hd, bind_some, if_neg hne] at hrun
        cases hrun
      have hqueue : b.queue = [] := by
        have hget := hstuck .getDecode
        rw [AsyncMicrobatchTokenizer.move, hd, bind_some, map_eq_none_iff] at hget
        cases hq : b.queue with
        | nil => rfl
        | cons item queue =>
          rw [DecodeBatcher.get, hq] at hget
          simp only [hids, true_or] at hget
          cases hget
      exact (h.decode b hd).futures_eq_nil hids hqueue

/-- Every caller is answered once, as if alone: in every run whose batches agree an answer is the
one of the caller's own call, no future is resolved twice, the batchers do not move for ever
without a new call, and once they cannot move every future is resolved. -/
theorem answers_as_alone (htok : tokenizer.Elementwise) (hrun : Run tokenizer maxBatchSize s) :
    (∀ fut r, (fut, r) ∈ s.answers →
      ∃ call, s.calls[fut]? = some call ∧ AsAlone (call.own tokenizer) r) ∧
    (s.answers.map fst).Nodup ∧
    (∀ (moves : List Move) s', moves.foldlM (move tokenizer maxBatchSize) s = some s' →
      moves.length + s'.work ≤ s.work) ∧ ((∀ m, s.move tokenizer maxBatchSize m = none) →
      ∀ fut < s.calls.length, ∃ r, (fut, r) ∈ s.answers) := by
  have hserves := hrun.serves htok
  refine ⟨hserves.answered, hserves.nodup.of_append_left, fun moves s' hmoves => ?_,
    fun hstuck fut hfut => ?_⟩
  · exact Lib.foldlM_descends (fun hI hmove => ⟨hI.move hmove, hI.move_descends hmove⟩)
      hserves.toHolding hmoves
  · have hmem : fut ∈ s.answers.map fst := by
      have hacc := hserves.accounted
      rw [hserves.waiting_eq_nil hstuck, append_nil] at hacc
      exact hacc.mem_iff.2 (mem_range.2 hfut)
    obtain ⟨⟨fut', r⟩, hr, rfl⟩ := List.mem_map.1 hmem
    exact ⟨r, hr⟩

/-! ### A tokenizer that pads -/

/-- Token ids as prompts; `padding` adds a padding token, `skip_special_tokens` drops it. -/
def paddingTokenizer : Tokenizer (List ℕ) (List ℕ) (List ℕ) (List ℕ) where
  modelMaxLength := .none
  call := fun prompt kwargs =>
    let ids := if (kwargs.get "padding" (.bool false)).truthy then prompt ++ [0] else prompt
    .ok (setItem ∅ "input_ids" ids)
  callBatch := fun prompts kwargs =>
    let ids := prompts.map fun prompt =>
      if (kwargs.get "padding" (.bool false)).truthy then prompt ++ [0] else prompt
    .ok (setItem ∅ "input_ids" ids)
  decode := fun ids kwargs =>
    let skip := (kwargs.get "skip_special_tokens" (.bool false)).truthy
    .ok (if skip then ids.filter (· ≠ 0) else ids)
  batchDecode := .ok

theorem paddingTokenizer_elementwise : paddingTokenizer.Elementwise where
  callBatch := fun prompts kwargs encodings h => by
    refine ⟨_, rfl, fun i enc hi => ?_⟩
    obtain ⟨hlen, hget⟩ := forall₂_iff_get.1 h
    obtain ⟨hlt, rfl⟩ := List.getElem?_eq_some_iff.1 hi
    have hcall := hget i (hlen ▸ hlt) hlt
    rw [get_eq_getElem, get_eq_getElem] at hcall
    show List.foldlM _ ∅ [("input_ids", _)] = _
    rw [foldlM_cons]
    rw [getElem?_map, getElem?_eq_getElem, ← hcall]
    rfl
  batchDecode := fun ids texts h => by
    have heq : ids.Forall₂ (· = ·) texts := h.imp fun _ _ h => Except.ok.inj h
    rw [forall₂_eq_eq_eq] at heq
    exact congrArg Except.ok heq

def padded : Kwargs := setItem ∅ "padding" (.str "max_length")

/-- The key of both `padding="max_length"` and no keyword argument. -/
def defaultKey : QueueKey := .encode (.int 1) false none

/-- Two callers of which the first asks for padding, in one batch. -/
def mixedBatch : List (Event (List ℕ) (List ℕ)) :=
  [.call [5] padded, .call [7] ∅, .move (.getEncode defaultKey), .move (.getEncode defaultKey),
    .move (.runEncode defaultKey)]

/-- The first caller gets an encoding without padding: the keyword arguments of the second one are
used for both. -/
theorem mixedBatch_not_as_alone : ¬ ∀ (tokenizer : Tokenizer (List ℕ) (List ℕ) (List ℕ) (List ℕ))
        (events : List (Event (List ℕ) (List ℕ)))
        (s : AsyncMicrobatchTokenizer (List ℕ) (List ℕ) (List ℕ) (List ℕ)),
      tokenizer.Elementwise → events.foldlM (step tokenizer 32) new = some s →
      ∀ fut r, (fut, r) ∈ s.answers →
        ∃ call, s.calls[fut]? = some call ∧ AsAlone (call.own tokenizer) r := by
  intro h
  obtain ⟨call, hcall, halone⟩ := h paddingTokenizer mixedBatch _ paddingTokenizer_elementwise rfl
    0 _ (.head _)
  obtain rfl := some.inj hcall
  have hids := congrArg (fun r : Except PyErr (Answer (List ℕ) (List ℕ)) =>
    match r with
    | .ok (.encoding data) => data.lookup "input_ids"
    | _ => none) halone
  exact absurd hids (by decide)

/-- Two callers that ask for padding, in one batch. -/
theorem answers_as_alone_padded : ∃ s : AsyncMicrobatchTokenizer _ _ _ _,
    [Event.call [5] padded, .call [7] padded, .move (.getEncode defaultKey),
        .move (.getEncode defaultKey), .move (.runEncode defaultKey)].foldlM
      (step paddingTokenizer 32) new = some s ∧ s.answers.map fst = [0, 1] ∧
    ∀ fut r, (fut, r) ∈ s.answers →
      ∃ call, s.calls[fut]? = some call ∧ AsAlone (call.own paddingTokenizer) r := by
  have hfirst : Run paddingTokenizer 32 (call paddingTokenizer new [5] padded) :=
    .step .new (e := .call [5] padded) (.inl rfl) rfl
  have hsecond : Run paddingTokenizer 32
      (call paddingTokenizer (call paddingTokenizer new [5] padded) [7] padded) :=
    .step hfirst (e := .call [7] padded) (.inl rfl) rfl
  refine ⟨_, rfl, rfl, (answers_as_alone paddingTokenizer_elementwise (.step
    (.step (.step hsecond (e := .move (.getEncode defaultKey)) trivial rfl)
      (e := .move (.getEncode defaultKey)) trivial rfl)
    (e := .move (.runEncode defaultKey)) (fun b hb => ?_) rfl)).1⟩
  obtain rfl : _ = b := some.inj ((rfl : _ = some _).symm.trans hb)
  intro fut _ p kw hcall
  have hkw : kw = padded := by
    cases fut with
    | zero =>
      cases hcall
      rfl
    | succ fut =>
      cases fut with
      | zero =>
        cases hcall
        rfl
      | succ fut => cases hcall
  subst hkw
  exact ⟨_, rfl, rfl⟩

end AsyncMicrobatchTokenizer

end LoptVllm.AsyncUtils
