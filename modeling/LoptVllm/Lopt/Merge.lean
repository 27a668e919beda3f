import LoptVllm.Lib.Tiling
import LoptVllm.Lopt.Chunks
import LoptVllm.Lopt.Match
import LoptVllm.Python

/-!
# Merging the shards

The tokens of a chunk are a *shard*. `_parallel_encode` matches every shard with the next one,
assembles the numbers that `lopt_cpp.match` returns into one flat list, and `lopt_cpp.merge`
slices every shard between the two numbers at its place in that list, both counted from the end
of the shard.

The shards are arbitrary tilings of the chunks here (`Sharding`): neighbouring shards need not
agree outside the run that was matched.
-/

namespace LoptVllm.Lopt

open List Except Nat Int

open Lib

/-- A token: its span in the text it was tokenized from, and its id. -/
structure Token where
  start : ℕ
  stop : ℕ
  id : ℤ
  deriving DecidableEq, Repr

variable (c : ℕ) (t : Token)

/-- The same token `c` characters further right. -/
def Token.shift : Token := ⟨t.start + c, t.stop + c, t.id⟩

@[simp] theorem Token.shift_id : (t.shift c).id = t.id := rfl

@[simp] theorem Token.shift_start : (t.shift c).start = t.start + c := rfl

@[simp] theorem Token.shift_stop : (t.shift c).stop = t.stop + c := rfl

@[simp] theorem Token.shift_zero : t.shift 0 = t := rfl

theorem Token.shift_shift (c d : ℕ) (t : Token) : (t.shift c).shift d = t.shift (c + d) := by
  simp [Token.shift, Nat.add_assoc]

/-- The tokens tile `[a, b)`. -/
abbrev TokensTile (a : ℕ) (tokens : List Token) (b : ℕ) : Prop :=
  Tiles Token.start Token.stop a tokens b

/-- `flatten(shard["offset_mapping"])[::2]`: the start offsets of a shard. -/
def starts (shard : List Token) : List ℤ := shard.map fun t => (t.start : ℤ)

/-- `_cpp_match_wrapper`. -/
def cppMatchWrapper (chunkSize : ℕ) (tokensA tokensB : List ℤ) : Except PyErr (ℤ × ℤ) :=
  let res := cppMatch tokensA tokensB chunkSize 2
  if res.1 < 0 then .error (.runtimeError "C++ match returned error: (-1, -1)") else .ok res

/-- `reduce(lambda x, y: x + y, matches)` on the matched pairs. -/
def reduceMatches : List (ℤ × ℤ) → Except PyErr (List ℤ)
  | [] => .error (.typeError "reduce() of empty iterable with no initial value")
  | rs => .ok (rs.flatMap fun r => [r.1, r.2])

/-- The `matches` list of `_parallel_encode`: match all neighbours, concatenate the results, and
add the outer ends of the first and the last shard. -/
def assembleMatches (cfg : ChunkConfig) (tokensShards : List (List ℤ)) : Except PyErr (List ℤ) := do
  let rs ← (pairs tokensShards).mapM fun p => cppMatchWrapper cfg.chunkSize p.1 p.2
  match tokensShards with
  | [] => .error (.indexError "list index out of range")
  | first :: _ =>
    let flat ← reduceMatches rs
    return [(first.length : ℤ)] ++ flat ++ [0]

/-- `for (int j = start; j < end; j++) result.push_back(buf(j));` with `n = end - start` rounds. -/
def readRange {β : Type*} (buf : List β) (start : ℤ) : ℕ → Except PyErr (List β)
  | 0 => .ok []
  | n + 1 =>
    if start < 0 then .error .outOfBounds
    else match buf[start.toNat]? with
      | none => .error .outOfBounds
      | some v => (readRange buf (start + 1) n).map (v :: ·)

/-- The loop of `lopt_cpp.merge` over the shards, two entries of `matches` at a time. -/
def mergeLoop {β : Type*} : List (List β) → List ℤ → Except PyErr (List β)
  | buf :: chunks, l :: r :: ms => do
    let start := buf.length - l
    let stop := buf.length - r
    let piece ← readRange buf start (stop - start).toNat
    let rest ← mergeLoop chunks ms
    return piece ++ rest
  | _, _ => return []

/-- `lopt_cpp.merge`. -/
def cppMerge {β : Type*} (chunks : List (List β)) (ms : List ℤ) : Except PyErr (List β) :=
  if ms.length ≠ chunks.length * 2 then
    .error (.runtimeError "merge: matches.size() != chunks.size() * 2")
  else mergeLoop chunks ms

/-- A sharding of a text: every chunk tokenized in some way, not necessarily the same way. -/
def Sharding {α : Type*} (cfg : ChunkConfig) (text : List α) (shards : List (List Token)) : Prop :=
  Forall₂ (fun (chunk : List α) shard => TokensTile 0 shard chunk.length)
    (chunks cfg text) shards

/-! ### Slices -/

variable {β : Type*}

theorem readRange_eq (buf : List β) (s n : ℕ) (h : s + n ≤ buf.length) :
    readRange buf s n = .ok ((buf.drop s).take n) := by
  induction n generalizing s with
  | zero => simp [readRange]
  | succ n ih =>
    have hs : s < buf.length := by omega
    have hih := ih (s + 1) (by omega)
    push_cast at hih
    simp only [readRange, toNat_natCast, getElem?_eq_getElem hs, hih, Except.map]
    rw [if_neg (by omega), drop_eq_getElem_cons hs, take_succ_cons]

variable {x y : ℕ}

/-- A slice of `merge` whose bounds, counted from the end, are the indices `y ≤ x`. -/
theorem readRange_slice (buf : List β) (hyx : y ≤ x) (hx : x ≤ buf.length) :
    readRange buf (buf.length - (buf.length - (y : ℤ)))
      (buf.length - (buf.length - (x : ℤ)) - (buf.length - (buf.length - (y : ℤ)))).toNat =
      .ok ((buf.take x).drop y) := by
  have e₁ : (buf.length : ℤ) - (buf.length - (y : ℤ)) = y := by omega
  have e₂ : ((buf.length : ℤ) - (buf.length - (x : ℤ)) - y).toNat = x - y := by omega
  rw [e₁, e₂, readRange_eq buf y (x - y) (by omega), drop_take]

@[simp] theorem length_starts (shard : List Token) : (starts shard).length = shard.length := by
  simp [starts]

theorem getD_starts {shard : List Token} {k : ℕ} (hk : k < shard.length) :
    (starts shard).getD k 0 = (shard[k].start : ℤ) := by
  simp [starts, hk]

/-! ### The cut between two shards -/

/-- Neighbouring shards are cut before the tokens `x` and `y`: the four starts around the cut
agree in the text. -/
structure CutAt (c : ℕ) (shard next : List Token) (x y : ℕ) : Prop where
  two_le_left : 2 ≤ x
  two_le_right : 2 ≤ y
  agree : Agree (starts shard) (starts next) c (x - 2) (y - 2) 4

variable {cfg : ChunkConfig} {c : ℕ} {shard next : List Token} {x y : ℕ}

section

variable (h : CutAt c shard next x y)

include h

theorem CutAt.left_lt : x + 1 < shard.length := by
  have := h.agree.1
  simp only [length_starts] at *
  omega

theorem CutAt.right_lt : y + 1 < next.length := by
  have := h.agree.2.1
  simp only [length_starts] at *
  omega

theorem CutAt.start_eq {k : ℕ} (hk : k < 4)
    (hl : x - 2 + k < shard.length) (hr : y - 2 + k < next.length) :
    shard[x - 2 + k].start = next[y - 2 + k].start + c := by
  have := h.agree.2.2 k hk
  rw [getD_starts hl, getD_starts hr] at this
  omega

/-- The two cuts are the same place of the text. -/
theorem CutAt.cut_eq (m n : ℕ) : cut Token.start shard x m = cut Token.start next y n + c := by
  have h₂ := h.two_le_left
  have h₂' := h.two_le_right
  have hl := h.left_lt
  have hr := h.right_lt
  have := h.start_eq (k := 2) (by omega) (by omega) (by omega)
  rw [cut_of_lt, cut_of_lt]
  simpa only [Nat.sub_add_cancel h₂, Nat.sub_add_cancel h₂'] using this

theorem CutAt.chunkSize_le (m : ℕ) : c ≤ cut Token.start shard x m := by
  rw [h.cut_eq m 0]
  exact le_add_left _ _

/-- Also the token right of the cut starts left of `overlap` in the next shard. -/
theorem CutAt.next_start_lt {m overlap : ℕ} (ht : TokensTile 0 shard m) (hm : m ≤ overlap + c) :
    cut Token.start next (y + 1) 0 < overlap := by
  have h₂ := h.two_le_left
  have h₂' := h.two_le_right
  have hl := h.left_lt
  have hr := h.right_lt
  have heq := h.start_eq (k := 3) (by omega) (by omega) (by omega)
  have hlt := ht.lo_lt (k := x - 2 + 3) (by omega)
  rw [cut_of_lt hr]
  have ey : y - 2 + 3 = y + 1 := by omega
  simp only [ey] at heq
  omega

end

/-- What may stand at the left end of a slice: the first token, or a token left of `chunk_size`,
as the cut with the previous shard is. -/
def LeftCut (c : ℕ) (shard : List Token) (y : ℕ) : Prop :=
  y = 0 ∨ (y < shard.length ∧ cut Token.start shard y 0 < c)

theorem CutAt.leftCut (h : CutAt cfg.chunkSize shard next x y) {m n : ℕ}
    (ht : TokensTile 0 shard m) (hm : m ≤ cfg.overlap + cfg.chunkSize)
    (hn : TokensTile 0 next n) : LeftCut cfg.chunkSize next y := by
  have hr := h.right_lt
  have hlt := h.next_start_lt ht hm
  have hmono := hn.lo_strictMono (lt_succ_self y) hr
  have hle := cfg.overlap_le
  rw [cut_of_lt hr] at hlt
  exact .inr ⟨by omega, by rw [cut_of_lt (by omega)]; simp only [succ_eq_add_one] at hmono; omega⟩

/-- **The two cuts of a shard are in order.** -/
theorem LeftCut.le (hy : LeftCut c shard y) {n y' : ℕ} (ht : TokensTile 0 shard n)
    (h : CutAt c shard next x y') : y ≤ x := by
  rcases hy with rfl | ⟨hlt, hc⟩
  · exact zero_le _
  · have hx : x < shard.length := lt_of_succ_lt h.left_lt
    have hge := h.chunkSize_le 0
    rw [cut_of_lt hlt] at hc
    rw [cut_of_lt hx] at hge
    exact (ht.lt_of_lo_lt hlt hx (hc.trans_le hge)).le

/-! ### The assembled list -/

/-- The results `rs` of matching the neighbours of a list of shards, as cuts. -/
def CutsOk (c : ℕ) : List (List Token) → List (ℤ × ℤ) → Prop
  | [_], [] => True
  | shard :: next :: rest, r :: rs =>
    (∃ x y : ℕ, r = (shard.length - (x : ℤ), next.length - (y : ℤ)) ∧ CutAt c shard next x y) ∧
      CutsOk c (next :: rest) rs
  | _, _ => False

/-- The entries of `matches` after the first one. -/
def flatMatches (rs : List (ℤ × ℤ)) : List ℤ := rs.flatMap (fun r => [r.1, r.2]) ++ [0]

theorem cutAt_of_wrapper {r : ℤ × ℤ} (h : cppMatchWrapper c (starts shard) (starts next) = .ok r) :
    ∃ x y : ℕ, r = (shard.length - (x : ℤ), next.length - (y : ℤ)) ∧ CutAt c shard next x y := by
  simp only [cppMatchWrapper] at h
  split_ifs at h with hneg
  obtain rfl := ok.inj h
  obtain ⟨x, y, hx, hy, hr, hagree⟩ := cppMatch_commonRun rfl (not_lt.1 hneg)
  exact ⟨x, y, by simpa using hr, hx, hy, hagree⟩

variable {shards : List (List Token)} {rs : List (ℤ × ℤ)}

theorem cutsOk_of_mapM (hne : shards ≠ [])
    (h : ((pairs (shards.map starts)).mapM fun p => cppMatchWrapper c p.1 p.2) = .ok rs) :
    CutsOk c shards rs := by
  induction shards generalizing rs with
  | nil => exact absurd rfl hne
  | cons shard rest ih =>
    cases rest with
    | nil =>
      obtain rfl := ok.inj h
      trivial
    | cons next rest =>
      simp only [map_cons, pairs, mapM_cons, bind, Except.bind, pure] at h
      split at h
      · cases h
      · rename_i r hr
        split at h
        · cases h
        · rename_i rs' hrs
          obtain rfl := ok.inj h
          exact ⟨cutAt_of_wrapper hr, ih (cons_ne_nil _ _) hrs⟩

variable {ms : List ℤ}

theorem assembleMatches_ok (h : assembleMatches cfg (shards.map starts) = .ok ms) :
    ∃ shard rest rs, shards = shard :: rest ∧ CutsOk cfg.chunkSize shards rs ∧ rs ≠ [] ∧
      ms = (shard.length : ℤ) :: flatMatches rs := by
  cases shards with
  | nil => cases h
  | cons shard rest =>
    simp only [assembleMatches, bind, Except.bind, pure] at h
    split at h
    · cases h
    · rename_i rs hrs
      cases rs with
      | nil => cases h
      | cons r rs =>
        refine ⟨shard, rest, r :: rs, rfl, cutsOk_of_mapM (cons_ne_nil _ _) hrs,
          cons_ne_nil _ _, ?_⟩
        simpa [flatMatches] using (ok.inj h).symm

theorem CutsOk.length_eq (h : CutsOk c shards rs) : shards.length = rs.length + 1 := by
  induction shards generalizing rs with
  | nil => exact absurd h (by simp [CutsOk])
  | cons shard rest ih =>
    match rest, rs, h with
    | [], [], _ => rfl
    | next :: rest, r :: rs, h => simpa using ih h.2

@[simp] theorem length_flatMatches (rs : List (ℤ × ℤ)) :
    (flatMatches rs).length = 2 * rs.length + 1 := by
  induction rs with
  | nil => rfl
  | cons r rs ih =>
    simp only [flatMatches, flatMap_cons, length_append, length_cons, length_nil] at ih ⊢
    omega

/-! ### The merged tokens -/

/-- The shards with their spans moved to the text, the first one being shard `k`. -/
def shiftFrom (c k : ℕ) (shards : List (List Token)) : List (List Token) :=
  shards.mapIdx fun i shard => shard.map (Token.shift ((k + i) * c))

@[simp] theorem shiftFrom_cons (k : ℕ) (rest : List (List Token)) :
    shiftFrom c k (shard :: rest) = shard.map (Token.shift (k * c)) :: shiftFrom c (k + 1) rest := by
  simp [shiftFrom, Nat.add_assoc, Nat.add_comm 1]

@[simp] theorem shiftFrom_nil (k : ℕ) : shiftFrom c k [] = [] := rfl

theorem mergeLoop_nil (ms : List ℤ) : mergeLoop ([] : List (List β)) ms = .ok [] := rfl

/-- One round of `merge`, at a shard with left cut `y` and right cut `x`. -/
theorem mergeLoop_cons (buf : List β) {chunks : List (List β)} {rest : List β} (hyx : y ≤ x)
    (hx : x ≤ buf.length) (h : mergeLoop chunks ms = .ok rest) :
    mergeLoop (buf :: chunks) ((buf.length - (y : ℤ)) :: (buf.length - (x : ℤ)) :: ms) =
      .ok ((buf.take x).drop y ++ rest) := by
  simp only [mergeLoop, h, readRange_slice buf hyx hx, ok_bind, pure, Except.pure]

/-- The last round of `merge` takes the whole tail of the last shard. -/
theorem mergeLoop_last (buf : List β) (hy : y ≤ buf.length) :
    mergeLoop [buf] [buf.length - (y : ℤ), 0] = .ok (buf.drop y) := by
  have h := mergeLoop_cons buf hy le_rfl (mergeLoop_nil [])
  simpa using h

/-- The bounds of the slices of `merge`, counted from the start, are in order. -/
def BoundsOk : List (List Token) → List ℤ → Prop
  | buf :: chunks, l :: r :: ms =>
    (0 ≤ buf.length - l ∧ buf.length - l ≤ buf.length - r ∧ buf.length - r ≤ buf.length) ∧
      BoundsOk chunks ms
  | _, _ => True

theorem LeftCut.le_length (hy : LeftCut c shard y) : y ≤ shard.length := by
  rcases hy with rfl | ⟨hlt, -⟩
  · exact zero_le _
  · exact hlt.le

/-- The slices from a shard with left cut `y` on are in bounds and tile the text from there. -/
theorem merge_tiles_from {α : Type*} (s : List α) :
    ∀ (k y : ℕ) (shard : List Token) (rest : List (List Token)) (rs : List (ℤ × ℤ)),
      Sharding cfg s (shard :: rest) → CutsOk cfg.chunkSize (shard :: rest) rs →
      LeftCut cfg.chunkSize shard y →
      BoundsOk (shard :: rest) ((shard.length - (y : ℤ)) :: flatMatches rs) ∧
      ∃ merged, mergeLoop (shiftFrom cfg.chunkSize k (shard :: rest))
          ((shard.length - (y : ℤ)) :: flatMatches rs) = .ok merged ∧
        TokensTile (cut Token.start shard y s.length + k * cfg.chunkSize) merged
          (s.length + k * cfg.chunkSize) := by
  induction s using chunks_induction cfg with
  -- the last shard has no cut on its right
  | last s hs =>
    intro k y shard rest rs hsh hcuts hy
    rw [Sharding, chunks_of_short hs] at hsh
    obtain ⟨ht, hnil⟩ := forall₂_cons.1 hsh
    obtain rfl := forall₂_nil_left_iff.1 hnil
    obtain rfl : rs = [] := by
      cases rs with
      | nil => rfl
      | cons r rs => exact absurd hcuts.length_eq (by simp)
    have hle := hy.le_length
    refine ⟨⟨⟨by omega, by omega, by omega⟩, trivial⟩,
      (shard.drop y).map (Token.shift (k * cfg.chunkSize)), ?_, ?_⟩
    · have h := mergeLoop_last (shard.map (Token.shift (k * cfg.chunkSize))) (by simpa using hle)
      simpa [flatMatches] using h
    · exact (ht.drop y).map_shift (fun _ => rfl) (fun _ => rfl)
  | round s hs ih =>
    intro k y shard rest rs hsh hcuts hy
    rw [Sharding, chunks_of_long hs] at hsh
    obtain ⟨ht, htail⟩ := forall₂_cons.1 hsh
    have hm : (s.take (cfg.overlap + cfg.chunkSize)).length ≤ cfg.overlap + cfg.chunkSize :=
      length_take_le _ _
    match rest, rs, hcuts, htail with
    | [], _, _, htail =>
      exact absurd (forall₂_nil_right_iff.1 htail) (chunks_ne_nil cfg _)
    | next :: rest, r :: rs, ⟨⟨x, y', hr, hcut⟩, hcuts⟩, htail =>
      subst hr
      obtain ⟨chunk, -, hn, -, -⟩ := forall₂_cons_right_iff.1 htail
      have hyx := hy.le ht hcut
      have hx := hcut.left_lt
      obtain ⟨hb, merged, hmerged, htiles⟩ :=
        ih (k + 1) y' next rest rs htail hcuts (hcut.leftCut ht hm hn)
      refine ⟨⟨⟨by omega, by omega, by omega⟩, hb⟩,
        ((shard.take x).drop y).map (Token.shift (k * cfg.chunkSize)) ++ merged, ?_, ?_⟩
      · have h := mergeLoop_cons (shard.map (Token.shift (k * cfg.chunkSize))) hyx
          (by simp; omega) hmerged
        simpa [flatMatches] using h
      · -- the slice of this shard ends where the merged rest starts
        refine Tiles.append (c := cut Token.start shard x s.length + k * cfg.chunkSize) ?_ ?_
        · have hslice := ht.slice hyx
          rw [cut_congr (by omega) _, cut_congr (k := x) (by omega) _] at hslice
          exact hslice.map_shift (fun _ => rfl) (fun _ => rfl)
        · rw [hcut.cut_eq _]
          have e : (s.drop cfg.chunkSize).length + (k + 1) * cfg.chunkSize =
              s.length + k * cfg.chunkSize := by
            rw [length_drop, succ_mul]
            omega
          rwa [e, succ_mul, Nat.add_comm (k * _), ← Nat.add_assoc] at htiles

theorem length_shiftFrom (k : ℕ) (shards : List (List Token)) :
    (shiftFrom c k shards).length = shards.length := by
  simp [shiftFrom]

/-- Every neighbouring pair of shards is matched. -/
def AllMatched (cfg : ChunkConfig) (shards : List (List Token)) : Prop :=
  ∀ p ∈ pairs (shards.map starts), 0 ≤ (cppMatch p.1 p.2 cfg.chunkSize 2).1

instance (cfg : ChunkConfig) (shards : List (List Token)) : Decidable (AllMatched cfg shards) :=
  inferInstanceAs (Decidable (∀ p ∈ pairs (shards.map starts), _))

theorem cppMatchWrapper_of_matched {a b : List ℤ} (h : 0 ≤ (cppMatch a b c 2).1) :
    cppMatchWrapper c a b = .ok (cppMatch a b c 2) := by
  simp only [cppMatchWrapper]
  rw [if_neg (by omega)]

/-- When all neighbours match, the code has one shard or an assembled list. -/
theorem AllMatched.assemble (h : AllMatched cfg shards)
    (hlen : 2 ≤ shards.length) : ∃ ms, assembleMatches cfg (shards.map starts) = .ok ms := by
  match shards, hlen with
  | a :: b :: rest, _ =>
    simp only [assembleMatches, mapM_ok _ fun p hp => cppMatchWrapper_of_matched (h p hp)]
    exact ⟨_, rfl⟩

theorem readRange_ok (buf : List β) (hx : x ≤ buf.length) :
    ∃ r, readRange buf (buf.length - (buf.length - (y : ℤ)))
      (buf.length - (buf.length - (x : ℤ)) - (buf.length - (buf.length - (y : ℤ)))).toNat =
        .ok r := by
  rcases le_total y x with hyx | hxy
  · exact ⟨_, readRange_slice buf hyx hx⟩
  · have e : ((buf.length : ℤ) - (buf.length - (x : ℤ)) - (buf.length - (buf.length - (y : ℤ)))).toNat
        = 0 := by omega
    rw [e]
    exact ⟨[], rfl⟩

theorem mergeLoop_ok (f : Token → β) {rest : List (List Token)} (h : CutsOk c (shard :: rest) rs)
    (hyl : y ≤ shard.length) : ∃ r, mergeLoop ((shard :: rest).map (List.map f))
      ((shard.length - (y : ℤ)) :: flatMatches rs) = .ok r := by
  induction rest generalizing shard rs y with
  | nil =>
    obtain rfl : rs = [] := by
      cases rs with
      | nil => rfl
      | cons r rs => exact h.elim
    have hlast := mergeLoop_last (shard.map f) (by simpa using hyl)
    exact ⟨(shard.map f).drop y, by simpa [flatMatches] using hlast⟩
  | cons next rest ih =>
    match rs, h with
    | r :: rs, ⟨⟨x, y', hr, hcut⟩, hcuts⟩ =>
      subst hr
      have hx := hcut.left_lt
      have hy' := hcut.right_lt
      obtain ⟨merged, hmerged⟩ := ih hcuts (y := y') (by omega)
      obtain ⟨piece, hpiece⟩ := readRange_ok (shard.map f) (x := x) (by rw [length_map]; omega)
      rw [length_map] at hpiece
      refine ⟨piece ++ merged, ?_⟩
      simp only [map_cons, flatMatches, flatMap_cons, cons_append,
        nil_append, mergeLoop, length_map, bind] at hmerged ⊢
      rw [hpiece, hmerged]
      rfl

/-- `merge` never reads outside a shard, whatever the shards are. -/
theorem cppMerge_ok (f : Token → β) (h : assembleMatches cfg (shards.map starts) = .ok ms) :
    ∃ r, cppMerge (shards.map (List.map f)) ms = .ok r := by
  obtain ⟨shard, rest, rs, rfl, hcuts, -, hms⟩ := assembleMatches_ok h
  obtain ⟨r, hr⟩ := mergeLoop_ok f hcuts (zero_le _)
  rw [Int.natCast_zero, Int.sub_zero, ← hms] at hr
  have hlen : ms.length = (shard :: rest).length * 2 := by
    rw [hcuts.length_eq, hms, length_cons, length_flatMatches]
    omega
  exact ⟨r, by rw [cppMerge, length_map, if_neg (not_not.2 hlen), hr]⟩

theorem BoundsOk.getD (h : BoundsOk shards ms) (hlen : ms.length = shards.length * 2) {i : ℕ}
    (hi : i < shards.length) :
    let n : ℤ := shards[i].length
    0 ≤ n - ms.getD (2 * i) 0 ∧ n - ms.getD (2 * i) 0 ≤ n - ms.getD (2 * i + 1) 0 ∧
      n - ms.getD (2 * i + 1) 0 ≤ n := by
  induction shards generalizing ms i with
  | nil => exact absurd hi (not_lt_zero i)
  | cons buf shards ih =>
    rcases ms with _ | ⟨l, _ | ⟨r, ms⟩⟩
    · simp at hlen
    · simp only [length_cons, length_nil] at hlen
      omega
    · obtain ⟨hb, hrest⟩ := h
      simp only [length_cons] at hlen hi
      cases i with
      | zero => exact hb
      | succ i => exact ih hrest (by omega) (by omega)

/-- **LoPT never loses or duplicates text.**  However the chunks were tokenized, if all
neighbouring shards match then the bounds of every slice are in order and the merged tokens, moved
to their place, tile the whole text. A single shard is not merged and tiles the text by itself. -/
theorem merge_tiles {α : Type*} (cfg : ChunkConfig) (text : List α) (shards : List (List Token))
    (hsh : Sharding cfg text shards) (hmatch : AllMatched cfg shards) :
    (∃ shard, shards = [shard] ∧ TokensTile 0 shard text.length) ∨
    ∃ ms, assembleMatches cfg (shards.map starts) = .ok ms ∧
      (∀ (i : ℕ) (hi : i < shards.length), let n : ℤ := shards[i].length
        0 ≤ n - ms.getD (2 * i) 0 ∧ n - ms.getD (2 * i) 0 ≤ n - ms.getD (2 * i + 1) 0 ∧
          n - ms.getD (2 * i + 1) 0 ≤ n) ∧
      ∃ merged, cppMerge
          (shards.mapIdx fun i shard => shard.map (Token.shift (i * cfg.chunkSize))) ms = .ok merged ∧
        TokensTile 0 merged text.length := by
  match shards, hsh, hmatch with
  | [], hsh, _ => exact absurd (forall₂_nil_right_iff.1 hsh) (chunks_ne_nil cfg text)
  | [shard], hsh, _ =>
    have hlen := hsh.length_eq
    have hs := length_chunks_eq_one_iff.1 hlen
    rw [Sharding, chunks_of_short hs] at hsh
    exact .inl ⟨shard, rfl, (forall₂_cons.1 hsh).1⟩
  | shard :: next :: rest, hsh, hmatch =>
    obtain ⟨ms, hms⟩ := hmatch.assemble (by simp)
    obtain ⟨shard', rest', rs, heq, hcuts, -, hmseq⟩ := assembleMatches_ok hms
    obtain ⟨rfl, rfl⟩ := cons_eq_cons.1 heq
    obtain ⟨hb, merged, hmerged, htiles⟩ :=
      merge_tiles_from text 0 0 shard (next :: rest) rs hsh hcuts (.inl rfl)
    have hcut0 : cut Token.start shard 0 text.length = 0 := by
      obtain ⟨chunk, chunks', ht, -, -⟩ := forall₂_cons_right_iff.1 hsh
      have hne : 0 < shard.length := by
        rcases rs with _ | ⟨r, rs⟩
        · exact hcuts.elim
        · obtain ⟨⟨x, y, -, hcut⟩, -⟩ := hcuts
          exact lt_of_le_of_lt (zero_le _) hcut.left_lt
      rw [cut_congr hne _, ht.cut_zero]
    simp only [Int.natCast_zero, Int.sub_zero, Nat.zero_mul, hcut0] at hb hmerged htiles
    rw [← hmseq] at hb hmerged
    have hlen : ms.length = (shard :: next :: rest).length * 2 := by
      rw [hcuts.length_eq, hmseq, length_cons, length_flatMatches]
      omega
    refine .inr ⟨ms, hms, fun i hi => hb.getD hlen hi, merged, ?_, htiles⟩
    have hmap : ((shard :: next :: rest).mapIdx fun i s => s.map (Token.shift (i * cfg.chunkSize)))
        = shiftFrom cfg.chunkSize 0 (shard :: next :: rest) := by
      simp [shiftFrom]
    rw [hmap, cppMerge, length_shiftFrom, if_neg (not_not.2 hlen), hmerged]

/-- Two shards that disagree at the ends of the overlap. -/
theorem merge_tiles_two_shards :
    let cfg : ChunkConfig := ⟨6, 6, by decide, by decide⟩
    let text := List.replicate 107 ()
    let span := fun a b : ℕ => (⟨a, b, 0⟩ : Token)
    let shards := [[span 0 7, span 7 8, span 8 9, span 9 10, span 10 12],
      [span 0 1, span 1 2, span 2 3, span 3 4, span 4 101]]
    Sharding cfg text shards ∧ AllMatched cfg shards ∧
    ((∃ shard, shards = [shard] ∧ TokensTile 0 shard text.length) ∨
      ∃ ms, assembleMatches cfg (shards.map starts) = .ok ms ∧
        (∀ (i : ℕ) (hi : i < shards.length), let n : ℤ := shards[i].length
          0 ≤ n - ms.getD (2 * i) 0 ∧ n - ms.getD (2 * i) 0 ≤ n - ms.getD (2 * i + 1) 0 ∧
            n - ms.getD (2 * i + 1) 0 ≤ n) ∧
        ∃ merged, cppMerge
            (shards.mapIdx fun i shard => shard.map (Token.shift (i * cfg.chunkSize))) ms =
              .ok merged ∧
          TokensTile 0 merged text.length) := by
  intro cfg text span shards
  have hsh : Sharding cfg text shards := by
    refine .cons ?_ (.cons ?_ .nil) <;> decide +kernel
  have hmatch : AllMatched cfg shards := by decide +kernel
  exact ⟨hsh, hmatch, merge_tiles cfg text shards hsh hmatch⟩

end LoptVllm.Lopt
