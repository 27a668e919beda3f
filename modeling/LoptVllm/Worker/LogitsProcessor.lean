import LoptVllm.Lib.Rows
import LoptVllm.Python
import Mathlib.Algebra.Order.Ring.Rat
import Mathlib.Data.List.Sort

/-!
# Logits processors

The logits processors keep their state by the rows of the batch. The batch records what happens to
its rows in a step, and the processors apply the record at the end of the step.
-/

namespace LoptVllm.Worker

open OrderedDict AList Function

/-- `SamplingParams`, with the numbers as they are before they are rounded. -/
structure SamplingParams where
  temperature : ℚ
  seed : Option ℕ
  topP : ℚ
  topK : ℤ
  frequencyPenalty : ℚ
  presencePenalty : ℚ
  repetitionPenalty : ℚ
  logprobs : Option ℤ
  minTokens : ℕ
  allStopTokenIds : List ℕ
  logitBias : Option (OrderedDict ℕ ℚ)
  allowedTokenIds : Option (List ℕ)
  badWordsTokenIds : Option (List (List ℕ))

/-- `MoveDirectionality`. -/
inductive MoveDirectionality
  | unidirectional
  | swap
  deriving DecidableEq

/-- An added request. Its list of output tokens is shared with the request with the id
`outputTokIds`. -/
structure AddedRequest where
  index : ℕ
  params : SamplingParams
  promptTokIds : Option (List ℤ)
  outputTokIds : ℕ

/-- A move of a row. -/
abbrev MovedRequest := ℕ × ℕ × MoveDirectionality

/-- `BatchUpdate`. -/
structure BatchUpdate where
  batchSize : ℕ
  removed : List ℕ
  added : List AddedRequest
  moved : List MovedRequest

/-- `BatchUpdateBuilder`. The list `removed` is in the reverse order, so that the lowest index comes
first when it is sorted. -/
structure BatchUpdateBuilder where
  removed : List ℕ
  isRemovedSorted : Bool
  added : List AddedRequest
  moved : List MovedRequest
  batchChanged : Bool

namespace BatchUpdateBuilder

/-- `BatchUpdateBuilder()`. -/
def new : BatchUpdateBuilder := ⟨[], false, [], [], false⟩

variable (b : BatchUpdateBuilder)

/-- `_ensure_removed_sorted`. -/
def ensureRemovedSorted : BatchUpdateBuilder := if b.isRemovedSorted then b
  else { b with removed := b.removed.insertionSort (· ≤ ·), isRemovedSorted := true }

/-- `removed_append`. -/
def removedAppend (index : ℕ) : Except PyErr BatchUpdateBuilder :=
  if b.isRemovedSorted then .error (.runtimeError
    "Cannot register new removed request after self.removed has been read.")
  else .ok { b with removed := index :: b.removed, batchChanged := true }

/-- `pop_removed`. -/
def popRemoved : Option ℕ × BatchUpdateBuilder := if b.removed = [] then (none, b)
  else
    let b := b.ensureRemovedSorted
    (b.removed.head?, { b with removed := b.removed.tail })

/-- `reset`. -/
def reset : Bool × BatchUpdateBuilder := (b.batchChanged, new)

/-- `get_and_reset`. -/
def getAndReset (batchSize : ℕ) : Option BatchUpdate × BatchUpdateBuilder :=
  if b.removed = [] ∧ b.moved = [] ∧ b.added = [] then
    (none, { b with isRemovedSorted := false, batchChanged := false })
  else (some ⟨batchSize, b.removed, b.added, b.moved⟩, new)

end BatchUpdateBuilder

variable {T : Type}

/-- A new entry of `process_dict_updates`. -/
def addEntry (newState : AddedRequest → Option T) (entries : OrderedDict ℕ T) (a : AddedRequest) :
    OrderedDict ℕ T :=
  match newState a with
  | some state => entries.setItem a.index state
  | none => entries.erase a.index

/-- A move of `process_dict_updates`. -/
def moveDictEntry (entries : OrderedDict ℕ T) : MovedRequest → OrderedDict ℕ T
  | (aIndex, bIndex, direct) =>
    let aEntry := entries.lookup aIndex
    let entries := entries.erase aIndex
    let bEntry := entries.lookup bIndex
    let entries := entries.erase bIndex
    let entries := match aEntry with
      | some e => setItem entries bIndex e
      | none => entries
    match bEntry with
    | some e => if direct = .swap then setItem entries aIndex e else entries
    | none => entries

/-- `process_dict_updates`. -/
def processDictUpdates (reqEntries : OrderedDict ℕ T) (batchUpdate : Option BatchUpdate)
    (newState : AddedRequest → Option T) : OrderedDict ℕ T :=
  match batchUpdate with
  | none => reqEntries
  | some u =>
    let reqEntries := u.added.foldl (addEntry newState) reqEntries
    if reqEntries.entries = [] then reqEntries
    else u.moved.foldl moveDictEntry (u.removed.foldl (fun d i => d.erase i) reqEntries)

/-- The new state of `LogitBiasLogitsProcessor`: `params.logit_bias or None`. -/
def SamplingParams.bias (params : SamplingParams) : Option (OrderedDict ℕ ℚ) :=
  params.logitBias.filter fun d => d.entries ≠ []

/-- `LogitBiasLogitsProcessor.update_state`, on `biases`. -/
def LogitBiasLogitsProcessor.updateState (biases : OrderedDict ℕ (OrderedDict ℕ ℚ))
    (batchUpdate : Option BatchUpdate) : OrderedDict ℕ (OrderedDict ℕ ℚ) :=
  processDictUpdates biases batchUpdate fun a => a.params.bias

/-- An entry of `MinTokensLogitsProcessor`. -/
structure MinTokensEntry where
  minToks : ℕ
  outTokIds : ℕ
  stopTokIds : List ℕ
  deriving DecidableEq

namespace MinTokensLogitsProcessor

variable (outputs : ℕ → List ℤ)

/-- `MinTokensLogitsProcessor.add_request`. -/
def addRequest (a : AddedRequest) : Option MinTokensEntry :=
  if a.params.minTokens = 0 ∨ a.params.minTokens ≤ (outputs a.outputTokIds).length then none
  else some ⟨a.params.minTokens, a.outputTokIds, a.params.allStopTokenIds⟩

/-- `MinTokensLogitsProcessor.update_state`, on `min_toks`. -/
def updateState (minToks : OrderedDict ℕ MinTokensEntry)
    (batchUpdate : Option BatchUpdate) : OrderedDict ℕ MinTokensEntry :=
  let minToks := processDictUpdates minToks batchUpdate (addRequest outputs)
  let toRemove := (minToks.items.filter fun e =>
    e.2.minToks ≤ (outputs e.2.outTokIds).length).map Prod.fst
  toRemove.foldl (fun d i => d.erase i) minToks

end MinTokensLogitsProcessor

/-! ### Row by row -/

/-- A move of the entries. -/
def moveEntry (f : ℕ → Option T) (m : MovedRequest) : ℕ → Option T :=
  fun k => if k = m.2.1 then f m.1
    else if k = m.1 then (if m.2.2 = .swap then f m.2.1 else none) else f k

variable (newState : AddedRequest → Option T)

/-- The entries after the events of a step. -/
def applyUpdates (removed : List ℕ) (added : List AddedRequest)
    (moved : List MovedRequest) (f : ℕ → Option T) : ℕ → Option T :=
  moved.foldl moveEntry fun k => if k ∈ removed then none
    else added.foldl (fun f a => update f a.index (newState a)) f k

theorem lookup_addEntry (d : OrderedDict ℕ T) (a : AddedRequest) :
    (fun k => (addEntry newState d a).lookup k) =
      update (fun k => d.lookup k) a.index (newState a) := by
  funext k
  unfold addEntry
  cases newState a with
  | none => simp [lookup_erase', update_apply]
  | some s => simp [lookup_setItem, update_apply]

theorem lookup_foldl_addEntry (added : List AddedRequest) :
    ∀ d : OrderedDict ℕ T, (fun k => (added.foldl (addEntry newState) d).lookup k) =
      added.foldl (fun f a => update f a.index (newState a)) fun k => d.lookup k := by
  induction added with
  | nil => exact fun _ => rfl
  | cons a added ih =>
    intro d
    rw [List.foldl_cons, ih, lookup_addEntry]
    rfl

theorem lookup_foldl_erase (l : List ℕ) :
    ∀ (d : OrderedDict ℕ T) (k : ℕ), (l.foldl (fun d i => d.erase i) d).lookup k =
      if k ∈ l then none else d.lookup k := by
  induction l with
  | nil => simp
  | cons i l ih =>
    intro d k
    rw [List.foldl_cons, ih, lookup_erase']
    by_cases hk : k ∈ l <;> by_cases hi : k = i <;> simp [hk]

theorem lookup_moveDictEntry (d : OrderedDict ℕ T) (m : MovedRequest) :
    (fun k => (moveDictEntry d m).lookup k) = moveEntry (fun k => d.lookup k) m := by
  obtain ⟨a, b, direct⟩ := m
  funext k
  unfold moveDictEntry moveEntry
  dsimp only
  by_cases hab : b = a
  · -- the entry is taken out and put back
    subst hab
    cases ha : d.lookup b with
    | none => by_cases hk : k = b <;> simp [lookup_erase']
    | some e => by_cases hk : k = b <;> simp [lookup_setItem, hk]
  · cases ha : d.lookup a with
    | none =>
      cases hb : d.lookup b with
      | none => simp [lookup_erase', hb]
      | some e =>
        by_cases hdir : direct = .swap <;> by_cases hka : k = a <;> by_cases hkb : k = b <;>
          simp_all [lookup_erase', lookup_setItem]
    | some e =>
      cases hb : d.lookup b with
      | none =>
        by_cases hka : k = a <;> by_cases hkb : k = b <;> simp_all [lookup_erase', lookup_setItem]
      | some e' =>
        by_cases hdir : direct = .swap <;> by_cases hka : k = a <;> by_cases hkb : k = b <;>
          simp_all [lookup_erase', lookup_setItem]

variable (moved : List MovedRequest)

theorem lookup_foldl_moveDictEntry :
    ∀ d : OrderedDict ℕ T, (fun k => (moved.foldl moveDictEntry d).lookup k) =
      moved.foldl moveEntry fun k => d.lookup k := by
  induction moved with
  | nil => exact fun _ => rfl
  | cons m moved ih =>
    intro d
    rw [List.foldl_cons, ih, lookup_moveDictEntry]
    rfl

/-- Without entries there is nothing to move. -/
theorem foldl_moveEntry_none :
    moved.foldl moveEntry (fun _ => (none : Option T)) = fun _ => none := by
  induction moved with
  | nil => rfl
  | cons m moved ih =>
    have hmove : moveEntry (fun _ => (none : Option T)) m = fun _ => none := by
      funext k
      simp [moveEntry]
    rw [List.foldl_cons, hmove, ih]

/-- The entries of a processor after a step. -/
theorem lookup_processDictUpdates (d : OrderedDict ℕ T) (u : BatchUpdate)
    (newState : AddedRequest → Option T) (k : ℕ) :
    (processDictUpdates d (some u) newState).lookup k =
      applyUpdates newState u.removed u.added u.moved (fun k => d.lookup k) k := by
  have hadd := lookup_foldl_addEntry newState u.added d
  unfold processDictUpdates applyUpdates
  dsimp only
  rw [← hadd]
  split
  · next hempty =>
    have hnone : ∀ k, (u.added.foldl (addEntry newState) d).lookup k = none := fun k => by
      rw [lookup_eq_none, mem_keys, keys, hempty]
      exact List.not_mem_nil
    simp [hnone, foldl_moveEntry_none]
  · refine (congrFun (lookup_foldl_moveDictEntry u.moved _) k).trans ?_
    simp [lookup_foldl_erase]

variable {newState : AddedRequest → Option T} {removed : List ℕ} {added : List AddedRequest}
  {moved : List MovedRequest} {f : ℕ → Option T}

theorem applyUpdates_remove {i k : ℕ} (hk : k ≠ i) :
    applyUpdates newState (i :: removed) added [] f k =
      applyUpdates newState removed added [] f k := by
  unfold applyUpdates
  simp [hk]

theorem applyUpdates_add (a : AddedRequest) (k : ℕ) :
    applyUpdates newState removed (added ++ [a]) [] f k =
      if k = a.index ∧ k ∉ removed then newState a
      else applyUpdates newState removed added [] f k := by
  unfold applyUpdates
  by_cases hk : k = a.index <;> by_cases hr : k ∈ removed <;> simp_all

theorem applyUpdates_move (m : MovedRequest) :
    applyUpdates newState removed added (moved ++ [m]) f =
      moveEntry (applyUpdates newState removed added moved f) m := by
  unfold applyUpdates
  rw [List.foldl_append]
  rfl

/-- A row that is not moved is not read. -/
theorem foldl_moveEntry_congr {e : ℕ} (hmoved : ∀ m ∈ moved, m.1 ≠ e ∧ m.2.1 ≠ e) :
    ∀ {f g : ℕ → Option T}, (∀ k, k ≠ e → f k = g k) →
      ∀ k, k ≠ e → moved.foldl moveEntry f k = moved.foldl moveEntry g k := by
  induction moved with
  | nil => exact fun h => h
  | cons m moved ih =>
    intro f g h k hk
    obtain ⟨ha, hb⟩ := hmoved m (.head _)
    have hmove : ∀ k, k ≠ e → moveEntry f m k = moveEntry g m k := fun k hk => by
      unfold moveEntry
      rw [h _ ha, h _ hb, h k hk]
    exact ih (fun m hm => hmoved m (List.mem_cons_of_mem _ hm)) hmove k hk

/-- A removed row that is not moved has no effect on the others. -/
theorem applyUpdates_remove_of_notMem {e : ℕ} (hmoved : ∀ m ∈ moved, m.1 ≠ e ∧ m.2.1 ≠ e) {k : ℕ}
    (hk : k ≠ e) : applyUpdates newState (e :: removed) added moved f k =
      applyUpdates newState removed added moved f k := by
  refine foldl_moveEntry_congr hmoved (fun k hk => ?_) k hk
  simp [hk]

end LoptVllm.Worker
