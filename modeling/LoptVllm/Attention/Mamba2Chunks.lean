import LoptVllm.KVCache.Spec
import LoptVllm.Lib.Tiling
import LoptVllm.Python
import Mathlib.Data.Fin.VecNotation

/-!
# The chunks of Mamba2 prefills

The kernels of Mamba2 go over the new tokens of the prefills chunk by chunk. A chunk belongs to one
request, and does not cross a multiple of the chunk size: tokens are counted from the first one of
the request, and a request whose computed tokens end inside a chunk finishes that chunk first.
-/

namespace LoptVllm.Attention

open List Lib KVCache Nat

/-- The prefills of a batch, each with at least one new token: what has been computed of them, and
where their new tokens start and end. -/
structure Prefills (n : ℕ) where
  chunkSize : ℕ
  numComputedTokens : Fin n → ℕ
  queryStartLoc : Fin (n + 1) → ℕ
  chunkSize_pos : 0 < chunkSize
  queryStartLoc_zero : queryStartLoc 0 = 0
  strictMono : StrictMono queryStartLoc

/-- The local variables of `_compute_chunk_metadata`. -/
structure ChunkState (n : ℕ) where
  cuChunkSeqlen : List ℕ
  seqIdx : List (Fin n)
  lastChunkIndices : List ℤ
  seqlenPos : ℕ

variable {n : ℕ}

/-- The next `chunkLen` tokens are a chunk of the request. -/
def ChunkState.addChunk (st : ChunkState n) (reqIdx : Fin n) (chunkLen : ℕ) : ChunkState n :=
  { st with
    seqIdx := st.seqIdx ++ [reqIdx]
    cuChunkSeqlen := st.cuChunkSeqlen ++ [st.seqlenPos]
    seqlenPos := st.seqlenPos + chunkLen }

/-- A chunk: the request it belongs to, and its tokens among the new tokens of the batch. -/
structure Chunk (n : ℕ) where
  req : Fin n
  start : ℕ
  stop : ℕ

namespace Prefills

variable (p : Prefills n)

/-- The first chunk of a request whose computed tokens are not chunk-aligned, and the number of the
new tokens that are left. -/
def finishChunk (reqIdx : Fin n) (newTokens : ℕ) (st : ChunkState n) : ℕ × ChunkState n :=
  let numComputed := p.numComputedTokens reqIdx
  if numComputed % p.chunkSize ≠ 0 then
    let chunkLen := min (cdiv numComputed p.chunkSize * p.chunkSize - numComputed) newTokens
    (newTokens - chunkLen, st.addChunk reqIdx chunkLen)
  else (newTokens, st)

/-- The loop over the other chunks of a request. -/
def chunkLoop (reqIdx : Fin n) : ℕ → ℕ → ChunkState n → ℕ × ChunkState n
  | 0, newTokens, st => (newTokens, st)
  | nChunks + 1, newTokens, st =>
    let chunkLen := min p.chunkSize newTokens
    chunkLoop reqIdx nChunks (newTokens - chunkLen) (st.addChunk reqIdx chunkLen)

/-- The body of the loop over the requests. -/
def addRequest (st : ChunkState n) (reqIdx : Fin n) : Except PyErr (ChunkState n) :=
  let newTokens := p.queryStartLoc reqIdx.succ - p.queryStartLoc reqIdx.castSucc
  let (newTokens, st) := p.finishChunk reqIdx newTokens st
  let (newTokens, st) := p.chunkLoop reqIdx (cdiv newTokens p.chunkSize) newTokens st
  if newTokens = 0 then
    .ok { st with
      lastChunkIndices := st.lastChunkIndices ++ [(st.cuChunkSeqlen.length : ℤ) - 1] }
  else .error (.assertionError "")

/-- `_compute_chunk_metadata`: `cu_chunk_seqlen`, `seq_idx` and `last_chunk_indices`. -/
def computeChunkMetadata : Except PyErr (List ℕ × List (Fin n) × List ℤ) := do
  let st ← (finRange n).foldlM p.addRequest ⟨[], [], [], 0⟩
  return (st.cuChunkSeqlen ++ [st.seqlenPos], st.seqIdx, st.lastChunkIndices)

/-! ### The chunks -/

/-- A chunk lies in its request and in one aligned interval of its positions. The position of the
new token at `x` is `numComputedTokens + x - queryStartLoc`. -/
structure Fits (t : Chunk n) : Prop where
  start : p.queryStartLoc t.req.castSucc ≤ t.start
  stop : t.stop ≤ p.queryStartLoc t.req.succ
  aligned : ∃ m,
    m * p.chunkSize + p.queryStartLoc t.req.castSucc ≤ p.numComputedTokens t.req + t.start ∧
    p.numComputedTokens t.req + t.stop ≤ (m + 1) * p.chunkSize + p.queryStartLoc t.req.castSucc

/-- The lists stand for the chunks. -/
structure Chunked (st : ChunkState n) (chunks : List (Chunk n)) : Prop where
  cuChunkSeqlen : st.cuChunkSeqlen = chunks.map Chunk.start
  seqIdx : st.seqIdx = chunks.map Chunk.req
  tiles : Tiles Chunk.start Chunk.stop 0 chunks st.seqlenPos
  fits : ∀ t ∈ chunks, p.Fits t

/-- The index is the one of the last chunk of the request. -/
def IsLastChunk (chunks : List (Chunk n)) (r : Fin n) (index : ℤ) : Prop :=
  ∃ (k : ℕ) (t : Chunk n), index = k ∧ chunks[k]? = some t ∧ t.req = r ∧
    t.stop = p.queryStartLoc r.succ

variable {p} {r : Fin n} {st : ChunkState n} {chunks : List (Chunk n)} {left : ℕ}

theorem Chunked.addChunk (h : p.Chunked st chunks) {chunkLen m : ℕ} (hpos : 0 < chunkLen)
    (hstart : p.queryStartLoc r.castSucc ≤ st.seqlenPos)
    (hstop : st.seqlenPos + chunkLen ≤ p.queryStartLoc r.succ)
    (hlo : m * p.chunkSize + p.queryStartLoc r.castSucc ≤ p.numComputedTokens r + st.seqlenPos)
    (hhi : p.numComputedTokens r + (st.seqlenPos + chunkLen) ≤
      (m + 1) * p.chunkSize + p.queryStartLoc r.castSucc) : p.Chunked (st.addChunk r chunkLen)
      (chunks ++ [⟨r, st.seqlenPos, st.seqlenPos + chunkLen⟩]) where
  cuChunkSeqlen := by simp [ChunkState.addChunk, h.cuChunkSeqlen]
  seqIdx := by simp [ChunkState.addChunk, h.seqIdx]
  tiles := h.tiles.append ⟨rfl, Nat.lt_add_of_pos_right hpos, rfl⟩
  fits t ht := by
    rcases mem_append.1 ht with ht | ht
    · exact h.fits t ht
    · rw [mem_singleton.1 ht]
      exact ⟨hstart, hstop, m, hlo, hhi⟩

/-- What is left after the first chunk starts at a multiple of the chunk size. -/
theorem Chunked.finishChunk (h : p.Chunked st chunks)
    (hq : st.seqlenPos = p.queryStartLoc r.castSucc) (hleft : 0 < left)
    (hend : st.seqlenPos + left = p.queryStartLoc r.succ) : ∃ left' st' own,
      p.finishChunk r left st = (left', st') ∧ p.Chunked st' (chunks ++ own) ∧
      st'.lastChunkIndices = st.lastChunkIndices ∧ p.queryStartLoc r.castSucc ≤ st'.seqlenPos ∧
      st'.seqlenPos + left' = p.queryStartLoc r.succ ∧ (0 < left' → ∃ m,
        p.numComputedTokens r + st'.seqlenPos = m * p.chunkSize + p.queryStartLoc r.castSucc) := by
  have hsize := p.chunkSize_pos
  unfold Prefills.finishChunk
  by_cases hmod : p.numComputedTokens r % p.chunkSize = 0
  · refine ⟨left, st, [], if_neg (not_not_intro hmod), by rwa [append_nil], rfl, hq.ge, hend,
      fun _ => ⟨p.numComputedTokens r / p.chunkSize, ?_⟩⟩
    rw [Nat.div_mul_cancel (dvd_of_mod_eq_zero hmod), hq]
  · -- the chunk that was begun is the one before the multiple `cdiv numComputed chunkSize`
    obtain ⟨m, hm⟩ : ∃ m, cdiv (p.numComputedTokens r) p.chunkSize = m + 1 := by
      refine exists_eq_succ_of_ne_zero fun h0 => hmod ?_
      have hle := (cdiv_le_iff hsize).1 h0.le
      rw [Nat.zero_mul, le_zero] at hle
      rw [hle, zero_mod]
    have hle : p.numComputedTokens r ≤ (m + 1) * p.chunkSize := hm ▸ le_cdiv_mul hsize
    have hne : p.numComputedTokens r ≠ (m + 1) * p.chunkSize := fun h0 =>
      hmod (h0 ▸ mul_mod_left _ _)
    have hlt : m * p.chunkSize < p.numComputedTokens r := Nat.lt_of_not_le fun h0 => by
      have := (cdiv_le_iff hsize).2 h0
      omega
    refine ⟨_, _, _, (if_pos hmod).trans rfl, h.addChunk (m := m) ?_ hq.ge ?_ ?_ ?_, rfl, ?_, ?_,
      fun hleft => ⟨m + 1, ?_⟩⟩
    all_goals
      simp only [ChunkState.addChunk, hm] at *
      omega

/-- The loop makes exactly the chunks that are needed. -/
theorem Chunked.chunkLoop {nChunks : ℕ} : ∀ {left : ℕ} {st : ChunkState n}
    {chunks : List (Chunk n)}, p.Chunked st chunks →
    p.queryStartLoc r.castSucc ≤ st.seqlenPos → st.seqlenPos + left = p.queryStartLoc r.succ →
    left ≤ nChunks * p.chunkSize → (∀ j < nChunks, j * p.chunkSize < left) → (0 < left → ∃ m,
      p.numComputedTokens r + st.seqlenPos = m * p.chunkSize + p.queryStartLoc r.castSucc) →
    ∃ st' own, p.chunkLoop r nChunks left st = (0, st') ∧ p.Chunked st' (chunks ++ own) ∧
      st'.lastChunkIndices = st.lastChunkIndices ∧ st'.seqlenPos = p.queryStartLoc r.succ := by
  induction nChunks with
  | zero =>
    intro left st chunks h _ hend hle _ _
    obtain rfl : left = 0 := by omega
    exact ⟨st, [], rfl, by rwa [append_nil], rfl, hend⟩
  | succ nChunks ih =>
    intro left st chunks h hq hend hle hlt hstart
    have hleft : 0 < left := by simpa using hlt 0 (succ_pos _)
    have hsize := p.chunkSize_pos
    obtain ⟨m, hm⟩ := hstart hleft
    rw [succ_mul] at hle
    have hnext := Nat.add_one_mul m p.chunkSize
    have hcut : p.Chunked (st.addChunk r (min p.chunkSize left)) _ :=
      h.addChunk (m := m) (by omega) hq (by omega) (by omega) (by omega)
    obtain ⟨st', own, hrun, h', hlast, hpos⟩ := @ih (left - min p.chunkSize left) _ _ hcut
      (le_add_right_of_le hq) ((Nat.add_assoc _ _ _).trans (by omega)) (by omega)
      (fun j hj => by
        have := hlt (j + 1) (by omega)
        rw [succ_mul] at this
        omega)
      (fun hrest => ⟨m + 1, by
        show _ + (st.seqlenPos + _) = _
        omega⟩)
    exact ⟨st', _, hrun, append_assoc chunks _ own ▸ h', hlast, hpos⟩

/-- A request is cut into chunks, and the assertion holds. -/
theorem Chunked.addRequest (h : p.Chunked st chunks)
    (hq : st.seqlenPos = p.queryStartLoc r.castSucc) : ∃ st' own,
      p.addRequest st r = .ok st' ∧ p.Chunked st' (chunks ++ own) ∧
      st'.seqlenPos = p.queryStartLoc r.succ ∧ st'.lastChunkIndices =
        st.lastChunkIndices ++ [((chunks ++ own).length : ℤ) - 1] := by
  have hsize := p.chunkSize_pos
  have hnew := p.strictMono (Fin.castSucc_lt_succ (i := r))
  obtain ⟨left, st₁, own₁, hfirst, h₁, hlast₁, hfrom, hend, hstart⟩ :=
    h.finishChunk hq (Nat.sub_pos_of_lt hnew) (by rw [hq, Nat.add_sub_cancel' hnew.le])
  obtain ⟨st₂, own₂, hloop, h₂, hlast₂, hpos⟩ := h₁.chunkLoop hfrom hend (le_cdiv_mul hsize)
    (fun j hj => Nat.lt_of_not_le fun h => absurd ((cdiv_le_iff hsize).2 h) (by omega)) hstart
  rw [append_assoc] at h₂
  have hrun : p.addRequest st r = .ok { st₂ with
      lastChunkIndices := st₂.lastChunkIndices ++ [(st₂.cuChunkSeqlen.length : ℤ) - 1] } := by
    unfold Prefills.addRequest
    simp only [hfirst, hloop, if_true]
  refine ⟨_, own₁ ++ own₂, hrun, ⟨h₂.cuChunkSeqlen, h₂.seqIdx, h₂.tiles, h₂.fits⟩, hpos, ?_⟩
  simp only [hlast₂, hlast₁, h₂.cuChunkSeqlen, length_map]

theorem Chunked.isLastChunk (h : p.Chunked st chunks)
    (hpos : st.seqlenPos = p.queryStartLoc r.succ) :
    p.IsLastChunk chunks r ((chunks.length : ℤ) - 1) := by
  have htokens : 0 < st.seqlenPos := hpos ▸ (zero_le _).trans_lt (p.strictMono (Fin.succ_pos r))
  obtain ⟨before, t, rfl, hstop⟩ := h.tiles.exists_last htokens
  obtain ⟨hstart, hle, -⟩ := h.fits t (by simp)
  have hlt := h.tiles.lo_lt (k := before.length) (by simp)
  rw [getElem_concat_length rfl, hpos] at hlt
  rw [hstop, hpos] at hle
  have hbelow := p.strictMono.lt_iff_lt.1 (hstart.trans_lt hlt)
  have habove := p.strictMono.le_iff_le.1 hle
  refine ⟨before.length, t, by simp, getElem?_concat_length, ?_, hstop.trans hpos⟩
  exact le_antisymm (Fin.castSucc_lt_succ_iff.1 hbelow) (Fin.succ_le_succ_iff.1 habove)

/-- Requests one after the other are cut into chunks. -/
theorem Chunked.foldlM {total : ℕ} : ∀ {l : List (Fin n)} {st : ChunkState n}
    {chunks : List (Chunk n)},
    Tiles (fun r => p.queryStartLoc r.castSucc) (fun r => p.queryStartLoc r.succ) st.seqlenPos l
      total → p.Chunked st chunks → ∃ st' own indices,
      l.foldlM p.addRequest st = .ok st' ∧ p.Chunked st' (chunks ++ own) ∧ st'.seqlenPos = total ∧
      st'.lastChunkIndices = st.lastChunkIndices ++ indices ∧
      Forall₂ (p.IsLastChunk (chunks ++ own)) l indices := by
  intro l
  induction l with
  | nil =>
    intro st chunks htiles h
    exact ⟨st, [], [], rfl, by rwa [append_nil], htiles, (append_nil _).symm, .nil⟩
  | cons r l ih =>
    rintro st chunks ⟨hq, -, hrest⟩ h
    obtain ⟨st₁, own₁, hrun, h₁, hpos, hindex⟩ := h.addRequest hq.symm
    obtain ⟨st', own₂, indices, hloop, h', htotal, hindices, hlast⟩ := ih (hpos ▸ hrest) h₁
    rw [append_assoc] at h' hlast
    refine ⟨st', own₁ ++ own₂, _ :: indices, bind_ok.2 ⟨st₁, hrun, hloop⟩, h', htotal,
      by rw [hindices, hindex, append_assoc, singleton_append], .cons ?_ hlast⟩
    -- later chunks do not change the ones that are there
    obtain ⟨k, t, hk, ht, hr⟩ := h₁.isLastChunk hpos
    refine ⟨k, t, hk, ?_, hr⟩
    rw [← append_assoc, getElem?_append_left (List.getElem?_eq_some_iff.1 ht).1, ht]

/-- A chunk ends at every multiple of the chunk size among the positions of the new tokens. -/
theorem Chunked.exists_stop (h : p.Chunked st chunks)
    (hpos : st.seqlenPos = p.queryStartLoc (Fin.last n)) {m : ℕ}
    (hlo : p.numComputedTokens r < m * p.chunkSize)
    (hhi : m * p.chunkSize + p.queryStartLoc r.castSucc ≤
      p.numComputedTokens r + p.queryStartLoc r.succ) : ∃ t ∈ chunks, t.req = r ∧
      p.numComputedTokens r + t.stop = m * p.chunkSize + p.queryStartLoc r.castSucc := by
  -- the token before the multiple
  obtain ⟨x, hx⟩ := Nat.exists_eq_add_of_lt (Nat.lt_add_right (p.queryStartLoc r.castSucc) hlo)
  have hend := p.strictMono.monotone (Fin.le_last r.succ)
  obtain ⟨t, ht, hstart, hstop⟩ := h.tiles.exists_mem (zero_le x) (by omega)
  obtain ⟨hfrom, hto, m', hlow, hhigh⟩ := h.fits t ht
  have hreq : t.req = r := by
    rcases lt_trichotomy t.req r with hlt | heq | hgt
    · have := p.strictMono.monotone (Fin.succ_le_castSucc_iff.2 hlt)
      omega
    · exact heq
    · have := p.strictMono.monotone (Fin.succ_le_castSucc_iff.2 hgt)
      omega
  subst hreq
  have hlt : m' < m := Nat.lt_of_mul_lt_mul_right (a := p.chunkSize) (by omega)
  have := mul_le_mul_right p.chunkSize (show m' + 1 ≤ m from hlt)
  exact ⟨t, ht, rfl, by omega⟩

/-- **The chunks of the prefills.**  The assertion holds; the chunks tile the new tokens in order;
each lies in its request and in one aligned interval of its positions, so that one ends at every
multiple of the chunk size; and the last chunk of each request is named. -/
theorem chunk_metadata (p : Prefills n) : ∃ (chunks : List (Chunk n)) (lastChunkIndices : List ℤ),
      p.computeChunkMetadata = .ok (chunks.map Chunk.start ++ [p.queryStartLoc (Fin.last n)],
        chunks.map Chunk.req, lastChunkIndices) ∧
      Tiles Chunk.start Chunk.stop 0 chunks (p.queryStartLoc (Fin.last n)) ∧
      (∀ t ∈ chunks, p.Fits t) ∧ (∀ r m, p.numComputedTokens r < m * p.chunkSize →
        m * p.chunkSize + p.queryStartLoc r.castSucc ≤
          p.numComputedTokens r + p.queryStartLoc r.succ → ∃ t ∈ chunks, t.req = r ∧
          p.numComputedTokens r + t.stop = m * p.chunkSize + p.queryStartLoc r.castSucc) ∧
      Forall₂ (p.IsLastChunk chunks) (finRange n) lastChunkIndices := by
  have hstart : p.Chunked ⟨[], [], [], 0⟩ [] := ⟨rfl, rfl, rfl, nofun⟩
  have hreqs := tiles_finRange p.strictMono
  rw [p.queryStartLoc_zero] at hreqs
  obtain ⟨st, chunks, indices, hrun, h, hpos, hindices, hlast⟩ := hstart.foldlM hreqs
  refine ⟨chunks, indices, ?_, hpos ▸ h.tiles, h.fits, fun r m => h.exists_stop hpos, hlast⟩
  unfold computeChunkMetadata
  rw [hrun, ← hpos, ← show st.lastChunkIndices = indices from hindices]
  exact congrArg Except.ok (by rw [h.cuChunkSeqlen, h.seqIdx]; rfl)

/-- Two requests, whose new tokens start and end inside chunks. -/
def unaligned : Prefills 2 where
  chunkSize := 2
  numComputedTokens := ![3, 5]
  queryStartLoc := ![0, 2, 8]
  chunkSize_pos := Nat.two_pos
  queryStartLoc_zero := rfl
  strictMono := by decide

theorem chunk_metadata_unaligned : ∃ chunks : List (Chunk 2), chunks.map Chunk.start = [0, 1, 2, 3, 5, 7] ∧
    chunks.map Chunk.req = [0, 0, 1, 1, 1, 1] ∧ Tiles Chunk.start Chunk.stop 0 chunks 8 ∧
      (∀ t ∈ chunks, unaligned.Fits t) ∧
      Forall₂ (unaligned.IsLastChunk chunks) (finRange 2) [1, 5] := by
  obtain ⟨chunks, indices, hrun, htiles, hfits, -, hlast⟩ := chunk_metadata unaligned
  have hmetadata : unaligned.computeChunkMetadata =
    .ok ([0, 1, 2, 3, 5, 7, 8], [0, 0, 1, 1, 1, 1], [1, 5]) := by
    decide
  rw [hmetadata] at hrun
  obtain ⟨hstarts, hreqs, rfl⟩ : [0, 1, 2, 3, 5, 7, 8] = chunks.map Chunk.start ++ [8] ∧
      [0, 0, 1, 1, 1, 1] = chunks.map Chunk.req ∧ [1, 5] = indices := by
    simpa [unaligned] using hrun
  have hstarts' : [0, 1, 2, 3, 5, 7] = chunks.map Chunk.start :=
    append_cancel_right (show [0, 1, 2, 3, 5, 7] ++ [8] = _ from hstarts)
  exact ⟨chunks, hstarts'.symm, hreqs.symm, htiles, hfits, hlast⟩

end Prefills

end LoptVllm.Attention
