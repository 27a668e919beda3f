import Mathlib.Data.List.TakeWhile
import LoptVllm.Lib.Pieces
import LoptVllm.Reasoning.ThinkingParser

/-!
# Streamed and whole outputs
-/

namespace LoptVllm

open List Int

namespace Reasoning

variable {p : DeepSeekR1ReasoningParser} {text : ℤ → Text} {tokens : List ℤ}

/-- The tokens' texts are the marker strings, and these stand in the output only there. -/
structure Marks (p : DeepSeekR1ReasoningParser) (text : ℤ → Text) (tokens : List ℤ) : Prop where
  start_text : text p.startTokenId = startToken
  end_text : text p.endTokenId = endToken
  start_only : StandsOnlyAt text p.startTokenId tokens
  end_only : StandsOnlyAt text p.endTokenId tokens

variable (p) (tokens)

/-- The tokens after the first start token, or all. -/
def afterStart : List ℤ :=
  if p.startTokenId ∈ tokens then (tokens.dropWhile (· ≠ p.startTokenId)).tail else tokens

/-- The tokens before the first end token. -/
def beforeEnd : List ℤ :=
  tokens.takeWhile (· ≠ p.endTokenId)

/-- The tokens after the first end token. -/
def afterEnd : List ℤ :=
  (tokens.dropWhile (· ≠ p.endTokenId)).tail

variable {tokens} {p}

section Tokens

variable {id : ℤ} {pre post : List ℤ}

theorem ne_of_mem (h : id ∉ pre) : ∀ a ∈ pre, decide (a ≠ id) = true := fun a ha =>
  decide_eq_true fun he : a = id => h (he ▸ ha)

theorem takeWhile_ne_append (h : id ∉ pre) : (pre ++ id :: post).takeWhile (· ≠ id) = pre := by
  rw [takeWhile_append_of_pos (ne_of_mem h)]
  simp

theorem dropWhile_ne_append (h : id ∉ pre) :
    (pre ++ id :: post).dropWhile (· ≠ id) = id :: post := by
  rw [dropWhile_append_of_pos (ne_of_mem h)]
  simp

theorem takeWhile_ne_of_notMem (h : id ∉ tokens) : tokens.takeWhile (· ≠ id) = tokens :=
  takeWhile_eq_self_iff.2 (ne_of_mem h)

theorem dropWhile_ne_of_notMem (h : id ∉ tokens) : tokens.dropWhile (· ≠ id) = [] :=
  dropWhile_eq_nil_iff.2 fun a ha => ne_of_mem h a ha

theorem exists_first (h : id ∈ tokens) : ∃ pre post, tokens = pre ++ id :: post ∧ id ∉ pre :=
  eq_append_cons_of_mem h

end Tokens

/-- The reasoning and the content of a message. -/
def emitted (m : Option DeltaMessage) : Text × Text :=
  ((m.bind DeltaMessage.reasoning).getD [], (m.bind DeltaMessage.content).getD [])

theorem startToken_ne_nil : startToken ≠ [] := by decide

theorem endToken_ne_nil : endToken ≠ [] := by decide

theorem orNone_getD (t : Text) : (orNone t).getD [] = t := by
  cases t <;> rfl

theorem findFrom_eq_coe {t w : Text} {i : ℕ} (h : findFrom w t 0 = some i) : find t w = i := by
  rw [find, h]

namespace Marks

theorem ne (h : Marks p text tokens) : p.startTokenId ≠ p.endTokenId := fun heq => by
  have := h.start_text.symm.trans (heq ▸ h.end_text)
  exact absurd this (by decide)

theorem part {A B : List ℤ} (h : Marks p text (A ++ tokens ++ B)) : Marks p text tokens where
  start_text := h.start_text
  end_text := h.end_text
  start_only := h.start_only.part (h.start_text ▸ startToken_ne_nil)
  end_only := h.end_only.part (h.end_text ▸ endToken_ne_nil)

section Splits

variable {pre post : List ℤ}

theorem findFrom_start (h : Marks p text (pre ++ p.startTokenId :: post))
    (hpre : p.startTokenId ∉ pre) :
    findFrom startToken ((pre ++ p.startTokenId :: post).flatMap text) 0 =
      some (pre.flatMap text).length := by
  have := h.start_only.findFrom_eq (h.start_text ▸ startToken_ne_nil) hpre
  rwa [h.start_text] at this

theorem findFrom_end (h : Marks p text (pre ++ p.endTokenId :: post)) (hpre : p.endTokenId ∉ pre) :
    findFrom endToken ((pre ++ p.endTokenId :: post).flatMap text) 0 =
      some (pre.flatMap text).length := by
  have := h.end_only.findFrom_eq (h.end_text ▸ endToken_ne_nil) hpre
  rwa [h.end_text] at this

theorem findFrom_start_none (h : Marks p text tokens) (hid : p.startTokenId ∉ tokens) :
    findFrom startToken (tokens.flatMap text) 0 = none :=
  h.start_text ▸ h.start_only.findFrom_eq_none hid

theorem findFrom_end_none (h : Marks p text tokens) (hid : p.endTokenId ∉ tokens) :
    findFrom endToken (tokens.flatMap text) 0 = none :=
  h.end_text ▸ h.end_only.findFrom_eq_none hid

end Splits

/-- The text before a token, and the text after it. -/
theorem take_drop_piece {id : ℤ} {w : Text} (hid : text id = w) (pre post : List ℤ) :
    ((pre ++ id :: post).flatMap text).take (pre.flatMap text).length = pre.flatMap text ∧
    ((pre ++ id :: post).flatMap text).drop ((pre.flatMap text).length + w.length) =
      post.flatMap text := by
  subst hid
  rw [flatMap_append, flatMap_cons]
  refine ⟨take_left, ?_⟩
  rw [← drop_drop, drop_left, drop_left]

/-- Reasoning and content of the whole output. -/
theorem extractReasoning_eq (h : Marks p text tokens) : extractReasoning (tokens.flatMap text) =
      (some ((beforeEnd p (afterStart p tokens)).flatMap text),
        orNone ((afterEnd p (afterStart p tokens)).flatMap text)) := by
  -- the text after the start token
  have hstart : (if (partition (tokens.flatMap text) startToken).2.1 ≠ [] then
      (partition (tokens.flatMap text) startToken).2.2
      else (partition (tokens.flatMap text) startToken).1) =
      (afterStart p tokens).flatMap text ∧ Marks p text (afterStart p tokens) := by
    by_cases hmem : p.startTokenId ∈ tokens
    · obtain ⟨pre, post, rfl, hpre⟩ := exists_first hmem
      have hafter : afterStart p (pre ++ p.startTokenId :: post) = post := by
        rw [afterStart, if_pos hmem, dropWhile_ne_append hpre, tail_cons]
      rw [partition, h.findFrom_start hpre, hafter]
      refine ⟨?_, ?_⟩
      · rw [if_pos startToken_ne_nil]
        exact (take_drop_piece h.start_text pre post).2
      · refine Marks.part (A := pre ++ [p.startTokenId]) (B := []) ?_
        simpa using h
    · rw [partition, h.findFrom_start_none hmem, afterStart, if_neg hmem]
      exact ⟨rfl, h⟩
  unfold extractReasoning
  dsimp only
  rw [hstart.1]
  have hmarks := hstart.2
  generalize afterStart p tokens = rest at hmarks
  by_cases hmem : p.endTokenId ∈ rest
  · obtain ⟨pre, post, rfl, hpre⟩ := exists_first hmem
    have hfind := hmarks.findFrom_end hpre
    rw [if_neg (by rw [hfind]; exact Option.some_ne_none _), partition, hfind, beforeEnd, afterEnd,
      takeWhile_ne_append hpre, dropWhile_ne_append hpre]
    dsimp only
    rw [(take_drop_piece hmarks.end_text pre post).1, (take_drop_piece hmarks.end_text pre post).2,
      tail_cons]
  · rw [if_pos (hmarks.findFrom_end_none hmem), beforeEnd, afterEnd, takeWhile_ne_of_notMem hmem,
      dropWhile_ne_of_notMem hmem]
    rfl

/-! ### One delta -/

/-- The message that splits a delta at its end token. -/
theorem split_end {D : List ℤ} (h : Marks p text D) (hmem : p.endTokenId ∈ D) :
    sliceTo (D.flatMap text) (find (D.flatMap text) endToken) = (beforeEnd p D).flatMap text ∧
    sliceFrom (D.flatMap text) (find (D.flatMap text) endToken + endToken.length) =
      (afterEnd p D).flatMap text := by
  obtain ⟨pre, post, rfl, hpre⟩ := exists_first hmem
  obtain ⟨htake, hdrop⟩ := take_drop_piece h.end_text pre post
  rw [findFrom_eq_coe (h.findFrom_end hpre), beforeEnd, afterEnd, takeWhile_ne_append hpre,
    dropWhile_ne_append hpre, sliceTo_natCast, htake, ← natCast_add, sliceFrom_natCast, hdrop,
    tail_cons]
  exact ⟨rfl, rfl⟩

/-- The end token is looked for in the delta, and then in what came before. -/
theorem emitted_split {D : List ℤ} (h : Marks p text D) (P : List ℤ) : emitted (
      if p.endTokenId ∈ D then
        some ⟨some (sliceTo (D.flatMap text) (find (D.flatMap text) endToken)), orNone
          (sliceFrom (D.flatMap text) (find (D.flatMap text) endToken + endToken.length))⟩
      else if p.endTokenId ∈ P then some ⟨none, some (D.flatMap text)⟩
      else some ⟨some (D.flatMap text), none⟩) =
      if p.endTokenId ∈ D then ((beforeEnd p D).flatMap text, (afterEnd p D).flatMap text)
      else if p.endTokenId ∈ P then ([], D.flatMap text) else (D.flatMap text, []) := by
  by_cases hmem : p.endTokenId ∈ D
  · rw [if_pos hmem, if_pos hmem, (h.split_end hmem).1, (h.split_end hmem).2]
    exact Prod.ext rfl (orNone_getD _)
  · rw [if_neg hmem, if_neg hmem]
    split_ifs <;> rfl

/-- A delta that is not the start token alone, after the start token or without one. -/
theorem emit_plain {P D : List ℤ} (h : Marks p text D) (hD : D ≠ [p.startTokenId])
    (hS : p.startTokenId ∈ P ∨ p.startTokenId ∉ D) :
    emitted (p.extractReasoningStreaming (D.flatMap text) P D) =
      if p.endTokenId ∈ D then ((beforeEnd p D).flatMap text, (afterEnd p D).flatMap text)
      else if p.endTokenId ∈ P then ([], D.flatMap text) else (D.flatMap text, []) := by
  by_cases hE : D = [p.endTokenId]
  · -- the end token alone gives no message
    subst hE
    have hbase : p.baseExtractReasoningStreaming ([p.endTokenId].flatMap text) P [p.endTokenId] =
        none := if_pos (.inr rfl)
    rw [DeepSeekR1ReasoningParser.extractReasoningStreaming, hbase, if_neg (by simp),
      if_pos (.head _), beforeEnd, afterEnd]
    simp [emitted]
  · unfold DeepSeekR1ReasoningParser.extractReasoningStreaming
    by_cases hP : p.startTokenId ∈ P
    · dsimp only
      rw [if_neg fun hc => hc.2.1 hP]
      unfold DeepSeekR1ReasoningParser.baseExtractReasoningStreaming
      rw [if_neg (not_or.2 ⟨hD, hE⟩), if_pos hP]
      exact h.emitted_split P
    · have hD' := hS.resolve_left hP
      have hbase : p.baseExtractReasoningStreaming (D.flatMap text) P D =
          some ⟨none, some (D.flatMap text)⟩ := by
        unfold DeepSeekR1ReasoningParser.baseExtractReasoningStreaming
        rw [if_neg (not_or.2 ⟨hD, hE⟩), if_neg hP, if_neg hD']
      rw [hbase, if_pos ⟨rfl, hP, hD'⟩]
      exact h.emitted_split P

/-- A delta with the start token and then the end token. -/
theorem emit_start {P pre mid post : List ℤ}
    (h : Marks p text (pre ++ p.startTokenId :: (mid ++ p.endTokenId :: post)))
    (hP : p.startTokenId ∉ P) (hpre : p.startTokenId ∉ pre) (hend : p.endTokenId ∉ pre)
    (hmid : p.endTokenId ∉ mid) : emitted (p.extractReasoningStreaming
      ((pre ++ p.startTokenId :: (mid ++ p.endTokenId :: post)).flatMap text) P
      (pre ++ p.startTokenId :: (mid ++ p.endTokenId :: post))) =
      (mid.flatMap text, post.flatMap text) := by
  have hsplit : pre ++ p.startTokenId :: (mid ++ p.endTokenId :: post) =
      (pre ++ p.startTokenId :: mid) ++ p.endTokenId :: post := by simp
  have hnot : p.endTokenId ∉ pre ++ p.startTokenId :: mid := by
    simp [hend, hmid, h.ne.symm]
  have hfindS := findFrom_eq_coe (h.findFrom_start hpre)
  have hfindE := findFrom_eq_coe ((hsplit ▸ h : Marks p text
    ((pre ++ p.startTokenId :: mid) ++ p.endTokenId :: post)).findFrom_end hnot)
  rw [← hsplit] at hfindE
  obtain ⟨htake, hdrop⟩ := take_drop_piece h.end_text (pre ++ p.startTokenId :: mid) post
  rw [← hsplit] at htake hdrop
  have hlen : 2 ≤ (pre ++ p.startTokenId :: (mid ++ p.endTokenId :: post)).length := by
    simp only [length_append, length_cons]
    omega
  have hne : ∀ t : ℤ, pre ++ p.startTokenId :: (mid ++ p.endTokenId :: post) ≠ [t] := fun t ht => by
    rw [ht, length_singleton] at hlen
    omega
  unfold DeepSeekR1ReasoningParser.extractReasoningStreaming
  rw [if_neg fun hc => hc.2.2 (by simp)]
  unfold DeepSeekR1ReasoningParser.baseExtractReasoningStreaming
  rw [if_neg (not_or.2 ⟨hne _, hne _⟩), if_neg hP, if_pos (by simp), if_pos (by simp), hfindS, hfindE]
  refine Prod.ext ?_ ?_
  · show slice _ _ _ = _
    rw [slice, sliceTo_natCast, htake, ← natCast_add, if_neg (by omega), toNat_natCast]
    exact (take_drop_piece h.start_text pre mid).2
  · show (orNone _).getD [] = _
    rw [orNone_getD, ← natCast_add, sliceFrom_natCast, hdrop]

end Marks

/-! ### The deltas of an output -/

/-- The reasoning and the content of all messages. -/
def emittedAll (messages : List (Option DeltaMessage)) : Text × Text :=
  (reasoningOf messages, contentOf messages)

theorem emittedAll_cons (m : Option DeltaMessage) (messages : List (Option DeltaMessage)) :
    emittedAll (m :: messages) =
      ((emitted m).1 ++ (emittedAll messages).1, (emitted m).2 ++ (emittedAll messages).2) := rfl

theorem emittedAll_append (ms ms' : List (Option DeltaMessage)) : emittedAll (ms ++ ms') =
      ((emittedAll ms).1 ++ (emittedAll ms').1, (emittedAll ms).2 ++ (emittedAll ms').2) := by
  simp [emittedAll, reasoningOf, contentOf]

theorem stream_append (P : List ℤ) (l r : List (List ℤ)) :
    p.stream text P (l ++ r) = p.stream text P l ++ p.stream text (P ++ l.flatten) r := by
  induction l generalizing P with
  | nil => simp [DeepSeekR1ReasoningParser.stream]
  | cons D l ih =>
    rw [cons_append, DeepSeekR1ReasoningParser.stream, DeepSeekR1ReasoningParser.stream, ih,
      flatten_cons, append_assoc, cons_append]

/-- The deltas after the start token, or of an output without one. -/
def Plain (p : DeepSeekR1ReasoningParser) (P : List ℤ) (deltas : List (List ℤ)) : Prop :=
  ∀ D ∈ deltas, D ≠ [p.startTokenId] ∧ (p.startTokenId ∈ P ∨ p.startTokenId ∉ D)

variable {P : List ℤ} {deltas : List (List ℤ)}

theorem Plain.cons {D : List ℤ} (h : Plain p P (D :: deltas)) :
    Plain p (P ++ D) deltas := fun D' hD' => by
  obtain ⟨hne, hS⟩ := h D' (.tail _ hD')
  exact ⟨hne, hS.imp_left (mem_append_left D)⟩

/-- No delta contains the end token. -/
theorem stream_of_notMem (hmarks : ∀ D ∈ deltas, Marks p text D) (hplain : Plain p P deltas)
    (hend : ∀ D ∈ deltas, p.endTokenId ∉ D) :
    emittedAll (p.stream text P deltas) = if p.endTokenId ∈ P then ([], deltas.flatten.flatMap text)
      else (deltas.flatten.flatMap text, []) := by
  induction deltas generalizing P with
  | nil => split_ifs <;> rfl
  | cons D deltas ih =>
    have hD := hplain D (.head _)
    have hDend := hend D (.head _)
    have hmem : p.endTokenId ∈ P ++ D ↔ p.endTokenId ∈ P := by simp [hDend]
    rw [DeepSeekR1ReasoningParser.stream, emittedAll_cons,
      (hmarks D (.head _)).emit_plain hD.1 hD.2, if_neg hDend,
      ih (fun D' h => hmarks D' (.tail _ h)) hplain.cons
        (fun D' h => hend D' (.tail _ h)), flatten_cons, flatMap_append]
    by_cases hP : p.endTokenId ∈ P
    · rw [if_pos hP, if_pos (hmem.2 hP), if_pos hP]
      rfl
    · rw [if_neg hP, if_neg (fun h => hP (hmem.1 h)), if_neg hP]
      rfl

/-- The deltas before the first one that contains the end token have no text. -/
def TextlessBeforeEnd (p : DeepSeekR1ReasoningParser) (text : ℤ → Text) (deltas : List (List ℤ)) :
    Prop :=
  ∀ D ∈ deltas.takeWhile (p.endTokenId ∉ ·), D.flatMap text = []

/-- At most one delta contains the end token: the output is split there. -/
theorem stream_split (hmarks : ∀ D ∈ deltas, Marks p text D) (hplain : Plain p P deltas)
    (hone : deltas.countP (p.endTokenId ∈ ·) ≤ 1)
    (hP : p.endTokenId ∈ P → TextlessBeforeEnd p text deltas) :
    emittedAll (p.stream text P deltas) =
      ((beforeEnd p deltas.flatten).flatMap text, (afterEnd p deltas.flatten).flatMap text) := by
  induction deltas generalizing P with
  | nil => rfl
  | cons D deltas ih =>
    have hD := hplain D (.head _)
    have hmarks' : ∀ D' ∈ deltas, Marks p text D' := fun D' h => hmarks D' (.tail _ h)
    rw [DeepSeekR1ReasoningParser.stream, emittedAll_cons,
      (hmarks D (.head _)).emit_plain hD.1 hD.2]
    by_cases hDend : p.endTokenId ∈ D
    · -- the delta with the end token; none follows
      rw [if_pos hDend]
      rw [countP_cons_of_pos (by simpa using hDend)] at hone
      have hnone : ∀ D' ∈ deltas, p.endTokenId ∉ D' := fun D' hD' => by
        have := countP_eq_zero.1 (Nat.le_zero.1 (Nat.le_of_succ_le_succ hone)) D' hD'
        simpa using this
      rw [stream_of_notMem hmarks' hplain.cons hnone, if_pos (mem_append_right _ hDend),
        flatten_cons]
      obtain ⟨pre, post, rfl, hpre⟩ := exists_first hDend
      rw [beforeEnd, afterEnd, beforeEnd, afterEnd, append_assoc, cons_append,
        takeWhile_ne_append hpre, takeWhile_ne_append hpre, dropWhile_ne_append hpre,
        dropWhile_ne_append hpre, tail_cons, tail_cons, flatMap_append,
        append_nil]
    · rw [if_neg hDend]
      rw [countP_cons_of_neg (by simpa using hDend)] at hone
      have hmem : p.endTokenId ∈ P ++ D ↔ p.endTokenId ∈ P := by simp [hDend]
      have htake : (D :: deltas).takeWhile (p.endTokenId ∉ ·) =
          D :: deltas.takeWhile (p.endTokenId ∉ ·) :=
        takeWhile_cons_of_pos (decide_eq_true hDend)
      have hrest : p.endTokenId ∈ P ++ D → TextlessBeforeEnd p text deltas := fun h D' hD' =>
        hP (hmem.1 h) D' (htake ▸ .tail _ hD')
      rw [ih hmarks' hplain.cons hone hrest, flatten_cons, beforeEnd, afterEnd, beforeEnd,
        afterEnd, takeWhile_append_of_pos (ne_of_mem hDend),
        dropWhile_append_of_pos (ne_of_mem hDend), flatMap_append]
      by_cases hPend : p.endTokenId ∈ P
      · have htext : D.flatMap text = [] := hP hPend D (htake ▸ mem_cons_self)
        rw [if_pos hPend, htext]
        rfl
      · rw [if_neg hPend]
        rfl

/-- The outputs and cuts for which streaming gives the same as the whole output. Without a start
token at most one delta contains the end token. Otherwise the deltas before the first start token
have no text but an end token, the start token is alone in its delta or is followed there by the end
token, no later delta is a start token alone, and from then on at most one contains the end token. -/
def Handled (p : DeepSeekR1ReasoningParser) (text : ℤ → Text) (deltas : List (List ℤ)) : Prop :=
  ((∀ D ∈ deltas, p.startTokenId ∉ D) ∧ deltas.countP (p.endTokenId ∈ ·) ≤ 1) ∨
  ∃ before delta after, deltas = before ++ delta :: after ∧
    (∀ D ∈ before, p.startTokenId ∉ D ∧ (D.erase p.endTokenId).flatMap text = []) ∧
    [p.startTokenId] ∉ after ∧
    ((delta = [p.startTokenId] ∧ after.countP (p.endTokenId ∈ ·) ≤ 1 ∧
        (p.endTokenId ∈ before.flatten → TextlessBeforeEnd p text after)) ∨
      ((∃ pre mid post, delta = pre ++ p.startTokenId :: (mid ++ p.endTokenId :: post) ∧
          p.startTokenId ∉ pre ∧ p.endTokenId ∉ pre ∧ p.endTokenId ∉ mid) ∧
        ∀ D ∈ after, p.endTokenId ∉ D))

/-- The deltas before the start token give nothing. -/
theorem stream_before {before : List (List ℤ)} (hmarks : ∀ D ∈ before, Marks p text D)
    (hP : p.startTokenId ∉ P)
    (hbefore : ∀ D ∈ before, p.startTokenId ∉ D ∧ (D.erase p.endTokenId).flatMap text = []) :
    emittedAll (p.stream text P before) = ([], []) := by
  induction before generalizing P with
  | nil => rfl
  | cons D before ih =>
    obtain ⟨hstart, htext⟩ := hbefore D (.head _)
    have hne : D ≠ [p.startTokenId] := fun h => hstart (h ▸ mem_cons_self)
    rw [DeepSeekR1ReasoningParser.stream, emittedAll_cons,
      (hmarks D (.head _)).emit_plain hne (.inr hstart),
      ih (fun D' h => hmarks D' (.tail _ h)) (by simp [hP, hstart])
        (fun D' h => hbefore D' (.tail _ h))]
    by_cases hend : p.endTokenId ∈ D
    · obtain ⟨pre, post, rfl, hpre⟩ := exists_first hend
      rw [erase_append_right _ hpre, erase_cons_head, flatMap_append, append_eq_nil_iff] at htext
      rw [if_pos hend, beforeEnd, afterEnd, takeWhile_ne_append hpre, dropWhile_ne_append hpre,
        tail_cons, htext.1, htext.2]
      rfl
    · rw [erase_of_not_mem hend] at htext
      rw [if_neg hend, htext]
      split_ifs <;> rfl

/-- Streaming the deltas gives the reasoning and the content of the whole output. -/
theorem streaming_agrees (deltas : List (List ℤ)) (hmarks : Marks p text deltas.flatten)
    (h : Handled p text deltas) : reasoningOf (p.stream text [] deltas) =
        (extractReasoning (deltas.flatten.flatMap text)).1.getD [] ∧
      contentOf (p.stream text [] deltas) =
        (extractReasoning (deltas.flatten.flatMap text)).2.getD [] := by
  have hpart : ∀ D ∈ deltas, Marks p text D := fun D hD => by
    obtain ⟨l, r, rfl⟩ := append_of_mem hD
    refine Marks.part (A := l.flatten) (B := r.flatten) ?_
    simpa using hmarks
  suffices hall : emittedAll (p.stream text [] deltas) =
      ((beforeEnd p (afterStart p deltas.flatten)).flatMap text,
        (afterEnd p (afterStart p deltas.flatten)).flatMap text) by
    rw [hmarks.extractReasoning_eq, orNone_getD]
    exact Prod.mk.inj hall
  -- there is no start token, or it is in `delta`
  rcases h with ⟨hstart, hone⟩ | ⟨before, delta, after, rfl, hbefore, hlone, hcase⟩
  · have hnot : p.startTokenId ∉ deltas.flatten := fun hmem => by
      obtain ⟨D, hD, hS⟩ := mem_flatten.1 hmem
      exact hstart D hD hS
    rw [afterStart, if_neg hnot]
    exact stream_split hpart (fun D hD => ⟨fun h => hstart D hD (h ▸ mem_cons_self),
      .inr (hstart D hD)⟩) hone nofun
  · have hnot : p.startTokenId ∉ before.flatten := fun hmem => by
      obtain ⟨D, hD, hS⟩ := mem_flatten.1 hmem
      exact (hbefore D hD).1 hS
    have hbeforeMarks : ∀ D ∈ before, Marks p text D := fun D hD =>
      hpart D (mem_append_left _ hD)
    have hafterMarks : ∀ D ∈ after, Marks p text D := fun D hD =>
      hpart D (mem_append_right _ (.tail _ hD))
    rw [stream_append, emittedAll_append, stream_before hbeforeMarks not_mem_nil hbefore,
      DeepSeekR1ReasoningParser.stream, emittedAll_cons]
    simp only [nil_append]
    have hplain : p.startTokenId ∈ delta → Plain p (before.flatten ++ delta) after := fun hS D hD =>
      ⟨fun h => hlone (h ▸ hD), .inl (mem_append_right _ hS)⟩
    rcases hcase with ⟨rfl, hone, htextless⟩ | ⟨⟨pre, mid, post, rfl, hpre, hend, hmid⟩, hnone⟩
    · -- the start token alone
      have hlone' : p.extractReasoningStreaming ([p.startTokenId].flatMap text) before.flatten
          [p.startTokenId] = none := by
        have hbase : p.baseExtractReasoningStreaming ([p.startTokenId].flatMap text)
            before.flatten [p.startTokenId] = none := if_pos (.inl rfl)
        rw [DeepSeekR1ReasoningParser.extractReasoningStreaming, hbase, if_neg (by simp)]
      have hafter : afterStart p (before ++ [p.startTokenId] :: after).flatten = after.flatten := by
        rw [flatten_append, flatten_cons, singleton_append, afterStart,
          if_pos (by simp), dropWhile_ne_append hnot, tail_cons]
      rw [hlone', hafter, stream_split hafterMarks (hplain mem_cons_self) hone fun hmem => by
        refine htextless ((mem_append.1 hmem).resolve_right fun h => ?_)
        exact hmarks.ne (mem_singleton.1 h).symm]
      rfl
    · -- the start token and the end token in one delta
      have hmark := hpart (pre ++ p.startTokenId :: (mid ++ p.endTokenId :: post))
        (mem_append_right _ (.head _))
      have hafter : afterStart p (before ++
          (pre ++ p.startTokenId :: (mid ++ p.endTokenId :: post)) :: after).flatten =
          mid ++ p.endTokenId :: (post ++ after.flatten) := by
        have hsplit : (before ++ (pre ++ p.startTokenId :: (mid ++ p.endTokenId :: post)) ::
            after).flatten = (before.flatten ++ pre) ++ p.startTokenId ::
              (mid ++ p.endTokenId :: (post ++ after.flatten)) := by simp
        rw [hsplit, afterStart, if_pos (by simp), dropWhile_ne_append (by simp [hnot, hpre]),
          tail_cons]
      rw [hafter, hmark.emit_start hnot hpre hend hmid,
        stream_of_notMem hafterMarks (hplain (by simp)) hnone, if_pos (by simp), beforeEnd, afterEnd,
        takeWhile_ne_append hmid, dropWhile_ne_append hmid, tail_cons, flatMap_append]
      simp

/-! ### A start token that is not alone -/

/-- The texts of three tokens. -/
def sampleText (t : ℤ) : Text := if t = 1 then startToken else if t = 2 then endToken else ['x']

def sampleParser : DeepSeekR1ReasoningParser := ⟨1, 2⟩

theorem sampleMarks (hstart : ∀ o < (tokens.flatMap sampleText).length,
      OccursAt startToken (tokens.flatMap sampleText) o →
        ∃ i < tokens.length, tokens[i]? = some 1 ∧ ((tokens.take i).flatMap sampleText).length = o)
    (hend : ∀ o < (tokens.flatMap sampleText).length,
      OccursAt endToken (tokens.flatMap sampleText) o →
        ∃ i < tokens.length, tokens[i]? = some 2 ∧ ((tokens.take i).flatMap sampleText).length = o) :
    Marks sampleParser sampleText tokens :=
  ⟨rfl, rfl, standsOnlyAt_of_forall_lt startToken_ne_nil hstart,
    standsOnlyAt_of_forall_lt endToken_ne_nil hend⟩

/-- A start token alone, and an end token with the end of the reasoning. -/
theorem streaming_agrees_sample :
    reasoningOf (sampleParser.stream sampleText [] [[1], [3, 2], [3]]) =
        (extractReasoning ([1, 3, 2, 3].flatMap sampleText)).1.getD [] ∧
      contentOf (sampleParser.stream sampleText [] [[1], [3, 2], [3]]) =
        (extractReasoning ([1, 3, 2, 3].flatMap sampleText)).2.getD [] :=
  streaming_agrees [[1], [3, 2], [3]] (sampleMarks (by decide) (by decide))
    (.inr ⟨[], [1], [[3, 2], [3]], rfl, nofun, by decide, .inl ⟨rfl, by decide, nofun⟩⟩)

/-- The start token and the first token of the reasoning in one delta: the marker string becomes
part of the reasoning. -/
theorem streaming_keeps_marker :
    ¬ ∀ (p : DeepSeekR1ReasoningParser) (text : ℤ → Text) (deltas : List (List ℤ)),
      Marks p text deltas.flatten → (∀ D ∈ deltas, D ≠ []) → reasoningOf (p.stream text [] deltas) =
          (extractReasoning (deltas.flatten.flatMap text)).1.getD [] ∧
        contentOf (p.stream text [] deltas) =
          (extractReasoning (deltas.flatten.flatMap text)).2.getD [] := by
  intro h
  have hmarks : Marks sampleParser sampleText [1, 3] := sampleMarks (by decide) (by decide)
  exact absurd (h sampleParser sampleText [[1, 3]] hmarks (by decide)).1 (by decide)

end Reasoning

end LoptVllm
