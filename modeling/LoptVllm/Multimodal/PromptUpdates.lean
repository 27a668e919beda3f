import Mathlib.Data.List.Sort

/-!
# Prompt updates

A multi-modal processor replaces (or inserts after) targets in the prompt of a request by the
placeholder tokens of its items, and then looks for the placeholders in the new prompt.
-/

namespace LoptVllm.Multimodal

/-- `UpdateMode`. -/
inductive UpdateMode
  | insert
  | replace
  deriving DecidableEq

/-- `PromptSeq`: a text or token ids. -/
inductive PromptSeq
  | text (s : String)
  | tokens (ids : List ℕ)

/-- `UpdateTarget`: a sequence, or a `PromptIndex`, which finds an index from a start on. -/
inductive UpdateTarget
  | seq (s : PromptSeq)
  | index (getMatchIndex : List ℕ → ℕ → Option ℕ)

/-- `ResolvedPromptUpdate`, with the full content only. -/
structure ResolvedPromptUpdate where
  mode : UpdateMode
  target : UpdateTarget
  content : PromptSeq

/-- `MultiModalPromptUpdates`: for each modality, in the order of the dictionary, and for each of its
items the updates that may be applied. -/
abbrev MultiModalPromptUpdates := List (List (List ResolvedPromptUpdate))

/-- `_seq2tokens`. -/
def seq2tokens (encode : String → List ℕ) : PromptSeq → List ℕ
  | .text s => encode s
  | .tokens ids => ids

/-- `l[start:stop]`. -/
def slice (l : List ℕ) (start stop : ℕ) : List ℕ := (l.take stop).drop start

/-- The loop of `iter_token_matches`; it ends, as `start_idx` increases. -/
def iterTokenMatchesFrom (tokenIds matchIds : List ℕ) : ℕ → ℕ → List (ℕ × ℕ)
  | 0, _ => []
  | fuel + 1, startIdx =>
    if startIdx + matchIds.length < tokenIds.length + 1 then
      let endIdx := startIdx + matchIds.length
      if slice tokenIds startIdx endIdx = matchIds then
        (startIdx, endIdx) :: iterTokenMatchesFrom tokenIds matchIds fuel endIdx
      else iterTokenMatchesFrom tokenIds matchIds fuel (startIdx + 1)
    else []

/-- `iter_token_matches`: the occurrences of `match_ids`; empty matches are ignored. -/
def iterTokenMatches (tokenIds matchIds : List ℕ) (startIdx : ℕ) : List (ℕ × ℕ) :=
  if matchIds.length = 0 then []
  else iterTokenMatchesFrom tokenIds matchIds (tokenIds.length + 1) startIdx

variable (encode : String → List ℕ)

/-- `ResolvedPromptUpdate.iter_token_matches`. -/
def ResolvedPromptUpdate.iterMatches (update : ResolvedPromptUpdate) (prompt : List ℕ)
    (startIdx : ℕ) : List (ℕ × ℕ) :=
  match update.target with
  | .index getMatchIndex => ((getMatchIndex prompt startIdx).map fun i => (i, i)).toList
  | .seq s => iterTokenMatches prompt (seq2tokens encode s) startIdx

/-! ### Applying the updates -/

/-- `_MatchToApply`: the item, its match, and the update with its index. -/
structure MatchToApply where
  modality : ℕ
  itemIdx : ℕ
  startIdx : ℕ
  endIdx : ℕ
  updateIdx : ℕ
  update : ResolvedPromptUpdate

/-- The items with their modality, their index and their updates. -/
def itemsOf (updates : MultiModalPromptUpdates) : List (ℕ × ℕ × List ResolvedPromptUpdate) :=
  updates.zipIdx.flatMap fun (items, modality) =>
    items.zipIdx.map fun (itemUpdates, itemIdx) => (modality, itemIdx, itemUpdates)

/-- The first match of an item, from its updates with their indices. All matches of a mode have the
mode of the first one; the matches of an update with another mode are skipped. -/
def findItemMatch (prompt : List ℕ) (prevEndIdx modality itemIdx : ℕ) (mode : Option UpdateMode) :
    List (ResolvedPromptUpdate × ℕ) → Option MatchToApply
  | [] => none
  | (update, updateIdx) :: updates =>
    match (update.iterMatches encode prompt prevEndIdx).head? with
    | none => findItemMatch prompt prevEndIdx modality itemIdx mode updates
    | some (startIdx, endIdx) =>
      if mode = none ∨ mode = some update.mode then
        some ⟨modality, itemIdx, startIdx, endIdx, updateIdx, update⟩
      else findItemMatch prompt prevEndIdx modality itemIdx mode updates

/-- The loops of `_find_matches` over the items. -/
def findAllMatches (prompt : List ℕ) (prevEndIdx : ℕ) (currentResult : ℕ → ℕ → Option ℕ) :
    Option UpdateMode → List (ℕ × ℕ × List ResolvedPromptUpdate) →
      Option UpdateMode × List MatchToApply
  | mode, [] => (mode, [])
  | mode, (modality, itemIdx, itemUpdates) :: items =>
    if (currentResult modality itemIdx).isSome then
      -- updates have already been applied for this item
      findAllMatches prompt prevEndIdx currentResult mode items
    else
      match findItemMatch encode prompt prevEndIdx modality itemIdx mode itemUpdates.zipIdx with
      | none => findAllMatches prompt prevEndIdx currentResult mode items
      | some match' =>
        let (mode, matches') :=
          findAllMatches prompt prevEndIdx currentResult (some match'.update.mode) items
        (mode, match' :: matches')

/-- Whether a match is not after another one. -/
def MatchToApply.le (a b : MatchToApply) : Prop :=
  a.startIdx < b.startIdx ∨ a.startIdx = b.startIdx ∧ a.endIdx ≤ b.endIdx

instance : DecidableRel MatchToApply.le := fun _ _ => inferInstanceAs (Decidable (_ ∨ _ ∧ _))

/-- Only one non-empty match is replaced at a time. -/
def oneNonEmpty : Bool → List MatchToApply → List MatchToApply
  | _, [] => []
  | hasNonEmptyMatches, item :: items =>
    if item.startIdx = item.endIdx then item :: oneNonEmpty hasNonEmptyMatches items
    else if hasNonEmptyMatches then oneNonEmpty hasNonEmptyMatches items
    else item :: oneNonEmpty true items

/-- `_find_matches`. -/
def findMatches (prompt : List ℕ) (updates : MultiModalPromptUpdates) (prevEndIdx : ℕ)
    (currentResult : ℕ → ℕ → Option ℕ) : Option UpdateMode × List MatchToApply :=
  let (mode, mmMatches) := findAllMatches encode prompt prevEndIdx currentResult none (itemsOf updates)
  -- prioritize earlier matches
  let matchesToApply := mmMatches.insertionSort MatchToApply.le
  (mode, if mode = some .replace then oneNonEmpty false matchesToApply else matchesToApply)

/-- The variables of `_apply_matches`, with the matches that were applied so far. -/
structure ApplyState where
  outSeqs : List (List ℕ)
  outResult : ℕ → ℕ → Option ℕ
  prevEndIdx : ℕ
  applied : List MatchToApply

variable (updates : MultiModalPromptUpdates) (result : ℕ → ℕ → Option ℕ)

/-- `_all_items_found`. -/
def allItemsFound : Bool :=
  (itemsOf updates).all fun (modality, itemIdx, _) => (result modality itemIdx).isSome

/-- A match is applied. -/
def applyMatch (prompt : List ℕ) (mode : UpdateMode) (s : ApplyState) (match' : MatchToApply) :
    ApplyState :=
  let endIdxToInsert := match mode with
    | .insert => match'.endIdx
    | .replace => match'.startIdx
  { outSeqs := s.outSeqs ++
      [slice prompt s.prevEndIdx endIdxToInsert, seq2tokens encode match'.update.content]
    outResult := fun modality itemIdx =>
      if modality = match'.modality ∧ itemIdx = match'.itemIdx then some match'.updateIdx
      else s.outResult modality itemIdx
    prevEndIdx := match'.endIdx
    applied := s.applied ++ [match'] }

/-- The loop of `_apply_matches`. A turn finds an item, so there are no more turns than items. -/
def applyLoop (prompt : List ℕ) (updates : MultiModalPromptUpdates) : ℕ → ApplyState → ApplyState
  | 0, s => s
  | fuel + 1, s =>
    match findMatches encode prompt updates s.prevEndIdx s.outResult with
    | (none, _) => s
    | (some mode, matchesToApply) =>
      let s := matchesToApply.foldl (applyMatch encode prompt mode) s
      if allItemsFound updates s.outResult then s else applyLoop prompt updates fuel s

/-- The variables at the end of the loop of `_apply_matches`. -/
def applyMatches (prompt : List ℕ) (updates : MultiModalPromptUpdates) : ApplyState :=
  let s := ⟨[], fun _ _ => none, 0, []⟩
  if allItemsFound updates s.outResult then s
  else applyLoop encode prompt updates (itemsOf updates).length s

/-- `apply_token_matches`: the new prompt, and the update of each item. -/
def applyTokenMatches (prompt : List ℕ) (updates : MultiModalPromptUpdates) :
    List ℕ × (ℕ → ℕ → Option ℕ) :=
  let s := applyMatches encode prompt updates
  ((s.outSeqs ++ [prompt.drop s.prevEndIdx]).flatten, s.outResult)

/-! ### Finding the placeholders -/

/-- `PlaceholderFeaturesInfo`. -/
structure PlaceholderFeaturesInfo where
  modality : ℕ
  itemIdx : ℕ
  startIdx : ℕ
  tokens : List ℕ
  deriving DecidableEq

/-- The content of an update, if it is at an index of the prompt and not empty. -/
def contentAt (prompt : List ℕ) (startIdx : ℕ) (update : ResolvedPromptUpdate) : Option (List ℕ) :=
  let contentTokensFull := seq2tokens encode update.content
  let endIdxFull := startIdx + contentTokensFull.length
  if contentTokensFull.length = 0 ∨ endIdxFull > prompt.length then none
  else if slice prompt startIdx endIdxFull = contentTokensFull then some contentTokensFull
  else none

/-- The first modality whose next item has its content at an index of the prompt. -/
def findAt (prompt : List ℕ) (updates : MultiModalPromptUpdates) (itemIdxByModality : ℕ → ℕ)
    (startIdx : ℕ) : Option (ℕ × List ℕ) :=
  updates.zipIdx.findSome? fun (items, modality) =>
    match items[itemIdxByModality modality]? with
    | none => none
    | some itemUpdates =>
      (itemUpdates.findSome? (contentAt encode prompt startIdx)).map fun tokens => (modality, tokens)

/-- `_all_items_found`, for the numbers of items. -/
def allCounted (itemIdxByModality : ℕ → ℕ) : Bool :=
  updates.zipIdx.all fun (items, modality) => decide (itemIdxByModality modality ≥ items.length)

/-- The loop of `_iter_placeholders`; it ends, as `start_idx` increases. -/
def iterPlaceholdersFrom (prompt : List ℕ) (updates : MultiModalPromptUpdates) :
    ℕ → ℕ → (ℕ → ℕ) → List PlaceholderFeaturesInfo
  | 0, _, _ => []
  | fuel + 1, startIdx, itemIdxByModality =>
    if startIdx < prompt.length then
      match findAt encode prompt updates itemIdxByModality startIdx with
      | none => iterPlaceholdersFrom prompt updates fuel (startIdx + 1) itemIdxByModality
      | some (modality, tokens) =>
        let itemIdx := itemIdxByModality modality
        let itemIdxByModality := Function.update itemIdxByModality modality (itemIdx + 1)
        ⟨modality, itemIdx, startIdx, tokens⟩ ::
          if allCounted updates itemIdxByModality then []
          else iterPlaceholdersFrom prompt updates fuel (startIdx + tokens.length) itemIdxByModality
    else []

/-- `_iter_placeholders`. -/
def iterPlaceholders (prompt : List ℕ) (updates : MultiModalPromptUpdates) :
    List PlaceholderFeaturesInfo :=
  if allCounted updates fun _ => 0 then []
  else iterPlaceholdersFrom encode prompt updates prompt.length 0 fun _ => 0

/-- `find_mm_placeholders`: the placeholders of each modality. -/
def findMmPlaceholders (prompt : List ℕ) (updates : MultiModalPromptUpdates) (modality : ℕ) :
    List PlaceholderFeaturesInfo :=
  (iterPlaceholders encode prompt updates).filter fun p => p.modality = modality

/-- `matched_updates` in `_apply_prompt_updates`: the update that was applied for each item. -/
def matchedUpdates : MultiModalPromptUpdates :=
  updates.zipIdx.map fun (items, modality) =>
    items.zipIdx.map fun (itemUpdates, itemIdx) =>
      match result modality itemIdx with
      | none => []
      | some updateIdx => itemUpdates[updateIdx]?.toList

end LoptVllm.Multimodal
