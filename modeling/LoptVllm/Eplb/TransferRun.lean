import LoptVllm.Eplb.TransferRows
import LoptVllm.Lib.Arrays
import LoptVllm.Lib.Runs

/-!
# Runs of the transfer

The ranks run in any order. What they post for each other agrees, so that no run gets stuck, and each
matched pair of operations carries an expert to a row that is to have it.
-/

namespace LoptVllm.Eplb

open List Function Prod Or Nat

open Lib

variable {m : ℕ} {α : Type}

namespace Exchange

variable (x : Exchange) {a b k : ℕ}

/-- The sends of a rank to another. -/
def sendsTo (m a b : ℕ) : List (P2POp m) := (x.postSends a m).filter fun op => decide (op.peer = b)

/-- The receives of a rank from another. -/
def recvsFrom (m b a : ℕ) : List (P2POp m) := (x.postRecvs b m).filter fun op => decide (op.peer = a)

variable {x}

theorem label_sendsTo (ha : a < x.epSize) (hb : b < x.epSize) :
    (x.sendsTo m a b).map P2POp.label = (x.recvsFrom m b a).map P2POp.label :=
  postSends_eq_postRecvs ha hb

variable {op : P2POp m}

theorem peer_lt_of_mem_postSends (ha : a < x.epSize) (h : op ∈ x.postSends a m) :
    op.peer < x.epSize := by
  obtain ⟨send, hsend, hop⟩ := mem_flatMap.1 h
  have hmem : send.1 ∈ (x.sendRows a).map fst := mem_map_of_mem hsend
  rw [getEpRanksWithExpertsBatch_fst x hmem, getEpRanksWithExpertsBatch_snd x hmem] at hop
  obtain ⟨dst, hdst, hop⟩ := mem_flatMap.1 hop
  obtain ⟨w, -, rfl⟩ := mem_map.1 hop
  obtain ⟨hne, hold⟩ := mem_sendRows_fst.1 hmem
  have hrecv := ((mem_sendTargets_iff (nodup_ranksWith _ _ _) ((nodup_ranksWith _ _ _).filter _)
    ((mem_sendRanks hne).2 ⟨ha, hold⟩)).1 hdst).1
  exact ((mem_recvRanks hne).1 hrecv).1

/-- The receives of a row that a rank posts are from a rank that has its expert. -/
theorem mem_postRecvs : op ∈ x.postRecvs b m ↔ ∃ p ∈ x.recvRows b,
    recvSource b (x.sendRanks p.1) (x.recvRanks p.1) = some op.peer ∧ op.expert = p.1 ∧ op.row = p.2 := by
  unfold postRecvs
  simp only [mem_flatMap]
  refine exists_congr fun p => and_congr_right fun hp => ?_
  have hmem : p.1 ∈ (x.recvRows b).map fst := mem_map_of_mem hp
  rw [getEpRanksWithExpertsBatch_fst x hmem, getEpRanksWithExpertsBatch_snd x hmem]
  cases recvSource b (x.sendRanks p.1) (x.recvRanks p.1) with
  | none => simp
  | some src =>
    rw [mem_map]
    constructor
    · rintro ⟨w, -, rfl⟩
      exact ⟨rfl, rfl, rfl⟩
    · rintro ⟨hsrc, hexpert, hrow⟩
      refine ⟨op.tensor, mem_finRange _, ?_⟩
      obtain rfl := Option.some.inj hsrc
      rw [← hexpert, ← hrow]

theorem mem_recvRanks_of_mem_recvRows (hb : b < x.epSize) {p : ℤ × ℕ} (hp : p ∈ x.recvRows b) :
    p.1 ≠ -1 ∧ b ∈ x.recvRanks p.1 := by
  obtain ⟨hne, hnew, hold⟩ := mem_recvRows_fst.1 (mem_map_of_mem hp)
  exact ⟨hne, (mem_recvRanks hne).2 ⟨hb, hnew, hold⟩⟩

theorem peer_lt_of_mem_postRecvs (hb : b < x.epSize) (h : op ∈ x.postRecvs b m) :
    op.peer < x.epSize := by
  obtain ⟨p, hp, hsource, -, -⟩ := mem_postRecvs.1 h
  obtain ⟨hne, hmem⟩ := mem_recvRanks_of_mem_recvRows hb hp
  exact ((mem_sendRanks hne).1 (mem_of_recvSource hmem hsource)).1

/-- A row that is to be received is received, if a rank has its expert. -/
theorem exists_mem_postRecvs (hb : b < x.epSize) {p : ℤ × ℕ} (hp : p ∈ x.recvRows b)
    (hold : p.1 ∈ x.oldIndices) (w : Fin m) : ∃ op ∈ x.postRecvs b m, op.row = p.2 ∧ op.tensor = w := by
  obtain ⟨-, hmem⟩ := mem_recvRanks_of_mem_recvRows hb hp
  have hsend : x.sendRanks p.1 ≠ [] := by
    obtain ⟨i, hi, hget⟩ := mem_iff_getElem.1 hold
    refine @ne_nil_of_mem _ (i / x.numLocalExperts) _ ((uniqueInOrder_spec _).2 _ |>.2
      (mem_map.2 ⟨i, mem_filter.2 ⟨mem_range.2 hi, decide_eq_true ?_⟩, rfl⟩))
    rw [getD_eq_getElem _ _ hi, hget]
  obtain ⟨src, hsrc⟩ : ∃ src, recvSource b (x.sendRanks p.1) (x.recvRanks p.1) = some src := by
    unfold recvSource
    rw [if_neg (not_or.2 ⟨hsend, ne_nil_of_mem hmem⟩)]
    exact ⟨_, rfl⟩
  exact ⟨⟨src, p.1, p.2, w⟩, mem_postRecvs.2 ⟨p, hp, hsrc, rfl, rfl⟩, rfl, rfl⟩

end Exchange

open Exchange

/-! ### What a step does -/

section

variable {x : Exchange} {s s' : State m α} {k : ℕ}

theorem step_start (h : step x s (.start k) = some s') : k < x.epSize ∧ (s.ranks k).phase = .idle ∧
    s'.ranks k =
      { phase := .waiting
        weights := (s.ranks k).weights
        buffers := (x.localMoves k).foldl
          (fun b p => copyRow b p.1 (s.ranks k).weights p.2) (s.ranks k).buffers } ∧
    (∀ b, s'.sends k b = x.sendsTo m k b) ∧ (∀ a, s'.recvs k a = x.recvsFrom m k a) ∧
    ∀ j, j ≠ k → s'.ranks j = s.ranks j ∧ s'.sends j = s.sends j ∧ s'.recvs j = s.recvs j := by
  unfold step at h
  simp only at h
  split_ifs at h with hk
  obtain rfl := Option.some.inj h
  refine ⟨hk.1, hk.2, update_self .., fun b => ?_, fun a => ?_, fun j hj => ?_⟩
  · simp only [update_self]
    rfl
  · simp only [update_self]
    rfl
  · simp [update_of_ne hj, and_self]

theorem step_transfer {src dst : ℕ} (h : step x s (.transfer src dst) = some s') :
    ∃ send sends recv recvs, s.sends src dst = send :: sends ∧ s.recvs dst src = recv :: recvs ∧
      (∀ j, (s'.ranks j).phase = (s.ranks j).phase ∧ (s'.ranks j).weights = (s.ranks j).weights) ∧
      (∀ j w r, (s'.ranks j).buffers w r = if j = dst ∧ w = recv.tensor ∧ r = recv.row
        then (s.ranks src).weights send.tensor send.row else (s.ranks j).buffers w r) ∧
      (∀ a b, s'.sends a b = if a = src ∧ b = dst then sends else s.sends a b) ∧
      ∀ b a, s'.recvs b a = if a = src ∧ b = dst then recvs else s.recvs b a := by
  unfold step at h
  cases hsends : s.sends src dst with
  | nil => simp [hsends] at h
  | cons send sends =>
    cases hrecvs : s.recvs dst src with
    | nil => simp [hrecvs] at h
    | cons recv recvs =>
      simp only [hsends, hrecvs] at h
      obtain rfl := Option.some.inj h
      refine ⟨send, sends, recv, recvs, rfl, rfl, fun j => ?_, fun j w r => ?_, fun a b => ?_,
        fun b a => ?_⟩
      · by_cases hj : j = dst
        · subst hj
          simp [update_self, and_self]
        · simp [update_of_ne hj, and_self]
      · by_cases hj : j = dst
        · subst hj
          simp only [update_self, true_and]
          exact update_update_apply ..
        · rw [if_neg fun h => hj h.1]
          simp [update_of_ne hj]
      · exact update_update_apply ..
      · simp only [and_comm]
        exact update_update_apply ..

theorem step_finish (h : step x s (.finish k) = some s') : k < x.epSize ∧ (s.ranks k).phase = .waiting ∧
    (∀ p < x.epSize, s.sends k p = [] ∧ s.recvs k p = []) ∧
    s'.ranks k =
      { s.ranks k with
        phase := .done
        weights := moveFromBuffer x k (s.ranks k) } ∧
    (∀ j, j ≠ k → s'.ranks j = s.ranks j) ∧ s'.sends = s.sends ∧ s'.recvs = s.recvs := by
  unfold step at h
  simp only at h
  split_ifs at h with hk
  obtain rfl := Option.some.inj h
  exact ⟨hk.1, hk.2.1, hk.2.2, update_self .., fun j hj => update_of_ne hj .., rfl, rfl⟩

end

/-! ### Reachable states -/

section

variable (x : Exchange) (expertWeights : ℤ → Fin m → α) (unused buffers : ℕ → Rows m α)

/-- What holds in every reachable state, where `matched a b` operations from `a` to `b` are complete. -/
structure Reached (s : State m α) (matched : ℕ → ℕ → ℕ) : Prop where
  outside : ∀ k, x.epSize ≤ k → (s.ranks k).phase = .idle
  weights : ∀ k, (s.ranks k).phase ≠ .done →
    (s.ranks k).weights = ((initial x expertWeights unused buffers).ranks k).weights
  sends : ∀ a b, s.sends a b =
    if (s.ranks a).phase = .idle then [] else (x.sendsTo m a b).drop (matched a b)
  recvs : ∀ b a, s.recvs b a =
    if (s.ranks b).phase = .idle then [] else (x.recvsFrom m b a).drop (matched a b)
  unmatched : ∀ a b, (s.ranks a).phase = .idle ∨ (s.ranks b).phase = .idle → matched a b = 0
  moved : ∀ k, (s.ranks k).phase ≠ .idle → ∀ p ∈ x.localMoves k, ∀ w,
    (s.ranks k).buffers w p.1 = expertWeights (x.newLocal k p.1) w
  received : ∀ b a, ∀ op ∈ (x.recvsFrom m b a).take (matched a b),
    (s.ranks b).buffers op.tensor op.row = expertWeights (x.newLocal b op.row) op.tensor
  complete : ∀ k, (s.ranks k).phase = .done → ∀ p < x.epSize, s.sends k p = [] ∧ s.recvs k p = []
  installed : ∀ k, (s.ranks k).phase = .done → ∀ r < x.numLocalExperts, ∀ w,
    (x.newLocal k r ≠ -1 → (s.ranks k).weights w r = expertWeights (x.newLocal k r) w) ∧
    (x.isUnchanged k r = true →
      (s.ranks k).weights w r = ((initial x expertWeights unused buffers).ranks k).weights w r)

variable {x expertWeights unused buffers}

theorem Reached.initial : Reached x expertWeights unused buffers
    (initial x expertWeights unused buffers) fun _ _ => 0 where
  outside _ _ := rfl
  weights _ _ := rfl
  sends _ _ := rfl
  recvs _ _ := rfl
  unmatched _ _ _ := rfl
  moved _ h := absurd rfl h
  received _ _ op hop := by
    cases hop
  complete _ h := nomatch h
  installed _ h := nomatch h

/-- The rows of an expert hold its weights. -/
theorem initial_weights {k r : ℕ} {e : ℤ} (h : x.oldLocal k r = e) (he : e ≠ -1) (w : Fin m) :
    ((initial x expertWeights unused buffers).ranks k).weights w r = expertWeights e w := by
  subst h
  exact if_neg he

variable {s s' : State m α} {matched : ℕ → ℕ → ℕ}

section

variable (hs : Reached x expertWeights unused buffers s matched)

include hs

theorem Reached.start {k : ℕ}
    (h : step x s (.start k) = some s') : Reached x expertWeights unused buffers s' matched := by
  obtain ⟨hlt, hidle, hrank, hsends, hrecvs, hother⟩ := step_start h
  have hphase : (s'.ranks k).phase = .waiting := by rw [hrank]
  have hweights := hs.weights k (by rw [hidle]; decide)
  constructor
  · intro j hj
    rw [(hother j (by omega)).1]
    exact hs.outside j hj
  · intro j hj
    by_cases hjk : j = k
    · rw [hjk, hrank]
      exact hweights
    · rw [(hother j hjk).1] at hj ⊢
      exact hs.weights j hj
  · intro a b
    by_cases hak : a = k
    · rw [hak, hphase, hs.unmatched k b (inl hidle)]
      exact hsends b
    · rw [(hother a hak).1, (hother a hak).2.1]
      exact hs.sends a b
  · intro b a
    by_cases hbk : b = k
    · rw [hbk, hphase, hs.unmatched a k (inr hidle)]
      exact hrecvs a
    · rw [(hother b hbk).1, (hother b hbk).2.2]
      exact hs.recvs b a
  · have hsame : ∀ j, (s'.ranks j).phase = .idle → (s.ranks j).phase = .idle := by
      intro j hj
      by_cases hjk : j = k
      · rw [hjk]
        exact hidle
      · rwa [(hother j hjk).1] at hj
    exact fun a b hab => hs.unmatched a b (hab.imp (hsame a) (hsame b))
  · intro j hj p hp w
    by_cases hjk : j = k
    · subst hjk
      rw [hrank]
      refine @foldl_copyRow m α (const _ (s.ranks j).weights)
        (fun r w => expertWeights (x.newLocal j r) w) _ (fun _ => False) _
        (fun _ _ q hq w => ?_) (fun _ h => h.elim) p.1 (inr (mem_map_of_mem hp)) w
      obtain ⟨hne, hold⟩ := localMoves_spec hq
      rw [const_apply, hweights]
      exact initial_weights hold hne w
    · rw [(hother j hjk).1] at hj ⊢
      exact hs.moved j hj p hp w
  · intro b a op hop
    by_cases hbk : b = k
    · rw [hs.unmatched a b (inr (by rw [hbk, hidle])), take_zero] at hop
      cases hop
    · rw [(hother b hbk).1]
      exact hs.received b a op hop
  · intro j hj
    by_cases hjk : j = k
    · rw [hjk, hphase] at hj
      cases hj
    · rw [(hother j hjk).1] at hj
      rw [(hother j hjk).2.1, (hother j hjk).2.2]
      exact hs.complete j hj
  · intro j hj
    by_cases hjk : j = k
    · rw [hjk, hphase] at hj
      cases hj
    · rw [(hother j hjk).1] at hj ⊢
      exact hs.installed j hj

/-- A matched pair of operations carries the expert that the row is to have. -/
theorem Reached.value {src dst : ℕ}
    {send recv : P2POp m} {sends recvs : List (P2POp m)} (hsend : s.sends src dst = send :: sends)
    (hrecv : s.recvs dst src = recv :: recvs) : src < x.epSize ∧ dst < x.epSize ∧
    (x.sendsTo m src dst).drop (matched src dst) = send :: sends ∧
    (x.recvsFrom m dst src).drop (matched src dst) = recv :: recvs ∧
    (s.ranks src).weights send.tensor send.row = expertWeights (x.newLocal dst recv.row) recv.tensor := by
  have hsends := hs.sends src dst
  have hrecvs := hs.recvs dst src
  rw [hsend] at hsends
  rw [hrecv] at hrecvs
  split_ifs at hsends with hsrc
  split_ifs at hrecvs with hdst
  have hsrc' : src < x.epSize := not_le.1 fun hle => hsrc (hs.outside src hle)
  have hdst' : dst < x.epSize := not_le.1 fun hle => hdst (hs.outside dst hle)
  refine ⟨hsrc', hdst', hsends.symm, hrecvs.symm, ?_⟩
  -- both are at the same place of what the ranks posted
  have hlabel : send.label = recv.label := by
    have hdrop := congrArg (List.drop (matched src dst)) (label_sendsTo (m := m) hsrc' hdst')
    rw [← map_drop, ← map_drop, ← hsends, ← hrecvs] at hdrop
    exact (cons.inj hdrop).1
  obtain ⟨hexpert, htensor⟩ := mk.inj hlabel
  have hsendMem : send ∈ x.sendsTo m src dst := mem_of_mem_drop (hsends ▸ mem_cons_self)
  have hrecvMem : recv ∈ x.recvsFrom m dst src := mem_of_mem_drop (hrecvs ▸ mem_cons_self)
  obtain ⟨hne, hold⟩ := postSends_row (mem_filter.1 hsendMem).1
  have hnew := (postRecvs_row (mem_filter.1 hrecvMem).1).2
  -- the sender has not copied from its buffers yet
  have hbefore : (s.ranks src).phase ≠ .done := by
    intro hdone
    have := (hs.complete src hdone dst hdst').1
    rw [hsend] at this
    cases this
  rw [hs.weights src hbefore, initial_weights hold hne, hnew, hexpert, htensor]

theorem Reached.transfer {src dst : ℕ} (h : step x s (.transfer src dst) = some s') : ∃ matched',
    Reached x expertWeights unused buffers s' matched' := by
  obtain ⟨send, sends, recv, recvs, hsend, hrecv, hrank, hbuffers, hsends, hrecvs⟩ := step_transfer h
  obtain ⟨hsrc, hdst, hsendDrop, hrecvDrop, hvalue⟩ := hs.value hsend hrecv
  -- whatever a row was to hold, it holds after the write
  have hkeep : ∀ j w r, (s.ranks j).buffers w r = expertWeights (x.newLocal j r) w →
      (s'.ranks j).buffers w r = expertWeights (x.newLocal j r) w := by
    intro j w r hj
    rw [hbuffers]
    by_cases hwrite : j = dst ∧ w = recv.tensor ∧ r = recv.row
    · obtain ⟨rfl, rfl, rfl⟩ := hwrite
      rw [if_pos ⟨rfl, rfl, rfl⟩, hvalue]
    · rw [if_neg hwrite, hj]
  have hsrcActive : (s.ranks src).phase ≠ .idle := by
    intro hidle
    have := hs.sends src dst
    rw [if_pos hidle, hsend] at this
    cases this
  have hdstActive : (s.ranks dst).phase ≠ .idle := by
    intro hidle
    have := hs.recvs dst src
    rw [if_pos hidle, hrecv] at this
    cases this
  refine ⟨fun a b => if a = src ∧ b = dst then matched src dst + 1 else matched a b, ?_⟩
  constructor
  · intro j hj
    rw [(hrank j).1]
    exact hs.outside j hj
  · intro j hj
    rw [(hrank j).1] at hj
    rw [(hrank j).2]
    exact hs.weights j hj
  · intro a b
    rw [hsends, (hrank a).1]
    by_cases hpair : a = src ∧ b = dst
    · obtain ⟨rfl, rfl⟩ := hpair
      rw [if_pos ⟨rfl, rfl⟩, if_neg hsrcActive, if_pos ⟨rfl, rfl⟩, ← drop_drop, hsendDrop]
      rfl
    · rw [if_neg hpair, if_neg hpair]
      exact hs.sends a b
  · intro b a
    rw [hrecvs, (hrank b).1]
    by_cases hpair : a = src ∧ b = dst
    · obtain ⟨rfl, rfl⟩ := hpair
      rw [if_pos ⟨rfl, rfl⟩, if_neg hdstActive, if_pos ⟨rfl, rfl⟩, ← drop_drop, hrecvDrop]
      rfl
    · rw [if_neg hpair, if_neg hpair]
      exact hs.recvs b a
  · intro a b hab
    rw [(hrank a).1, (hrank b).1] at hab
    have hpair : ¬(a = src ∧ b = dst) := by
      rintro ⟨rfl, rfl⟩
      exact hab.elim hsrcActive hdstActive
    rw [if_neg hpair]
    exact hs.unmatched a b hab
  · intro j hj p hp w
    rw [(hrank j).1] at hj
    exact hkeep j w p.1 (hs.moved j hj p hp w)
  · intro b a op hop
    by_cases hpair : a = src ∧ b = dst
    · obtain ⟨rfl, rfl⟩ := hpair
      rw [if_pos ⟨rfl, rfl⟩, take_add, hrecvDrop] at hop
      rcases mem_append.1 hop with hop | hop
      · exact hkeep _ _ _ (hs.received b a op hop)
      · rw [mem_singleton.1 hop, hbuffers, if_pos ⟨rfl, rfl, rfl⟩, hvalue]
    · rw [if_neg hpair] at hop
      exact hkeep _ _ _ (hs.received b a op hop)
  · intro j hj p hp
    rw [(hrank j).1] at hj
    obtain ⟨hnoSends, hnoRecvs⟩ := hs.complete j hj p hp
    constructor
    · rw [hsends, if_neg, hnoSends]
      rintro ⟨rfl, rfl⟩
      rw [hsend] at hnoSends
      cases hnoSends
    · rw [hrecvs, if_neg, hnoRecvs]
      rintro ⟨rfl, rfl⟩
      rw [hrecv] at hnoRecvs
      cases hnoRecvs
  · intro j hj
    rw [(hrank j).1] at hj
    rw [(hrank j).2]
    exact hs.installed j hj

end

theorem mem_newIndices {k r : ℕ} (h : x.newLocal k r ≠ -1) : x.newLocal k r ∈ x.newIndices := by
  unfold newLocal at h ⊢
  by_cases hlt : k * x.numLocalExperts + r < x.newIndices.length
  · rw [getD_eq_getElem _ _]
    exact getElem_mem hlt
  · rw [getD_eq_default _ _ (not_lt.1 hlt)] at h
    exact absurd rfl h

theorem Reached.finish (hs : Reached x expertWeights unused buffers s matched)
    (hold : ∀ e ∈ x.newIndices, e ≠ -1 → e ∈ x.oldIndices) {k : ℕ}
    (h : step x s (.finish k) = some s') : Reached x expertWeights unused buffers s' matched := by
  obtain ⟨hk, hwaiting, hcomplete, hrank, hother, hsends, hrecvs⟩ := step_finish h
  have hphase : (s'.ranks k).phase = .done := by rw [hrank]
  have hactive : (s.ranks k).phase ≠ .idle := by rw [hwaiting]; decide
  have hweights := hs.weights k (by rw [hwaiting]; decide)
  -- only `k` changes, and it was not idle before
  have hidle : ∀ j, (s'.ranks j).phase = .idle ↔ (s.ranks j).phase = .idle := by
    intro j
    by_cases hjk : j = k
    · rw [hjk, hphase, hwaiting]
      decide
    · rw [hother j hjk]
  have hbuffers : ∀ j, (s'.ranks j).buffers = (s.ranks j).buffers := by
    intro j
    by_cases hjk : j = k
    · rw [hjk, hrank]
    · rw [hother j hjk]
  constructor
  · exact fun j hj => (hidle j).2 (hs.outside j hj)
  · intro j hj
    by_cases hjk : j = k
    · rw [hjk] at hj
      exact absurd hphase hj
    · rw [hother j hjk] at hj ⊢
      exact hs.weights j hj
  · intro a b
    simp only [hsends, hidle]
    exact hs.sends a b
  · intro b a
    simp only [hrecvs, hidle]
    exact hs.recvs b a
  · intro a b hab
    rw [hidle, hidle] at hab
    exact hs.unmatched a b hab
  · intro j hj p hp w
    rw [hbuffers]
    exact hs.moved j (fun h => hj ((hidle j).2 h)) p hp w
  · intro b a op hop
    rw [hbuffers]
    exact hs.received b a op hop
  · intro j hj
    rw [hsends, hrecvs]
    by_cases hjk : j = k
    · rw [hjk]
      exact hcomplete
    · rw [hother j hjk] at hj
      exact hs.complete j hj
  -- a rank that is done has the experts of its rows
  · intro j hj r hr w
    by_cases hjk : j = k
    · subst hjk
      rw [hrank]
      refine ⟨fun hne => ?_, fun hunchanged => ?_⟩
      · refine moveFromBuffer_installs (hs.moved j hactive) (fun p hp w => ?_)
          (fun r hunchanged hne w => ?_) hr hne w
        · -- all receives are complete
          have hneed := (mem_recvRanks_of_mem_recvRows hk hp).1
          have hrow := (recvRows_row hp).2.2
          have hmem : p.1 ∈ x.oldIndices := by
            rw [← hrow] at hneed ⊢
            exact hold _ (mem_newIndices hneed) hneed
          obtain ⟨op, hop, hoprow, rfl⟩ := exists_mem_postRecvs hk hp hmem w
          have hnone := (hcomplete op.peer (peer_lt_of_mem_postRecvs hk hop)).2
          rw [hs.recvs, if_neg hactive, drop_eq_nil_iff] at hnone
          have hreceived := hs.received j op.peer op (by
            rw [take_of_length_le hnone]
            exact mem_filter.2 ⟨hop, decide_eq_true rfl⟩)
          rwa [hoprow] at hreceived
        · rw [hweights]
          exact initial_weights (of_decide_eq_true hunchanged) hne w
      · rw [← hweights]
        exact moveFromBuffer_isUnchanged hunchanged w
    · rw [hother j hjk] at hj ⊢
      exact hs.installed j hj r hr w

theorem Reached.step (hs : ∃ matched, Reached x expertWeights unused buffers s matched)
    (hold : ∀ e ∈ x.newIndices, e ≠ -1 → e ∈ x.oldIndices) {action : Action}
    (h : Eplb.step x s action = some s') : ∃ matched,
      Reached x expertWeights unused buffers s' matched := by
  obtain ⟨matched, hs⟩ := hs
  cases action with
  | start k => exact ⟨matched, hs.start h⟩
  | transfer src dst => exact hs.transfer h
  | finish k => exact ⟨matched, hs.finish hold h⟩

/-! ### Progress -/

/-- Unless all ranks are done, something can happen. -/
theorem Reached.progress (hs : Reached x expertWeights unused buffers s matched) :
    (∀ k < x.epSize, (s.ranks k).phase = .done) ∨ ∃ action s', Eplb.step x s action = some s' := by
  by_cases hall : ∀ k < x.epSize, (s.ranks k).phase = .done
  · exact inl hall
  right
  by_cases hidle : ∃ k < x.epSize, (s.ranks k).phase = .idle
  · obtain ⟨k, hk, hphase⟩ := hidle
    exact ⟨.start k, _, if_pos ⟨hk, hphase⟩⟩
  have hactive : ∀ k < x.epSize, (s.ranks k).phase ≠ .idle := fun k hk h => hidle ⟨k, hk, h⟩
  have hlength : ∀ a < x.epSize, ∀ b < x.epSize, (s.sends a b).length = (s.recvs b a).length := by
    intro a ha b hb
    have := congrArg List.length (label_sendsTo (m := m) ha hb)
    rw [length_map, length_map] at this
    rw [hs.sends, hs.recvs, if_neg (hactive a ha), if_neg (hactive b hb), length_drop,
      length_drop, this]
  by_cases hsends : ∀ a < x.epSize, ∀ b < x.epSize, s.sends a b = []
  · push Not at hall
    obtain ⟨k, hk, hphase⟩ := hall
    have hwaiting : (s.ranks k).phase = .waiting := by
      cases h : (s.ranks k).phase with
      | idle => exact absurd h (hactive k hk)
      | waiting => rfl
      | done => exact absurd h hphase
    refine ⟨.finish k, _, if_pos ⟨hk, hwaiting, fun p hp => ⟨hsends k hk p hp, ?_⟩⟩⟩
    rw [← length_eq_zero_iff, ← hlength p hp k hk, hsends p hp k hk, length_nil]
  · push Not at hsends
    obtain ⟨a, ha, b, hb, hne⟩ := hsends
    obtain ⟨send, sends, hsend⟩ := exists_cons_of_ne_nil hne
    have hne' : s.recvs b a ≠ [] := by
      intro hnil
      have := hlength a ha b hb
      rw [hsend, hnil] at this
      cases this
    obtain ⟨recv, recvs, hrecv⟩ := exists_cons_of_ne_nil hne'
    refine ⟨.transfer a b, ?_⟩
    unfold Eplb.step
    simp only [hsend, hrecv]
    exact ⟨_, rfl⟩

/-- What a rank has left to do. -/
def rankPending (x : Exchange) (s : State m α) (k : ℕ) : ℕ := (match (s.ranks k).phase with
    | .idle => 2 + ∑ b ∈ Finset.range x.epSize, (x.sendsTo m k b).length
    | .waiting => 1
    | .done => 0) + ∑ b ∈ Finset.range x.epSize, (s.sends k b).length

/-- What the ranks have left to do. -/
def pending (x : Exchange) (s : State m α) : ℕ := ∑ k ∈ Finset.range x.epSize, rankPending x s k

/-- A step leaves less to do. -/
theorem pending_step (hs : Reached x expertWeights unused buffers s matched) {action : Action}
    (h : Eplb.step x s action = some s') : pending x s' < pending x s := by
  cases action with
  | start k =>
    obtain ⟨hk, hidle, hrank, hsends, -, hother⟩ := step_start h
    refine sum_range_lt hk ?_ fun j hj => ?_
    · unfold rankPending
      simp only [hrank, hidle, hsends]
      exact lt_of_lt_of_le (Nat.add_lt_add_right one_lt_two _) (le_add_right _ _)
    · unfold rankPending
      rw [(hother j hj).1, (hother j hj).2.1]
  | transfer src dst =>
    obtain ⟨send, sends, recv, recvs, hsend, hrecv, hrank, -, hsends, -⟩ := step_transfer h
    obtain ⟨hsrc, hdst, -⟩ := hs.value hsend hrecv
    refine sum_range_lt hsrc ?_ fun j hj => ?_
    · unfold rankPending
      rw [(hrank src).1]
      refine Nat.add_lt_add_left (sum_range_lt hdst ?_ fun b hb => ?_) _
      · rw [hsends, if_pos ⟨rfl, rfl⟩, hsend]
        exact lt_succ_self _
      · rw [hsends, if_neg fun h => hb h.2]
    · unfold rankPending
      rw [(hrank j).1]
      congr 1
      refine Finset.sum_congr rfl fun b _ => ?_
      rw [hsends, if_neg fun h => hj h.1]
  | finish k =>
    obtain ⟨hk, hwaiting, -, hrank, hother, hsends, -⟩ := step_finish h
    refine sum_range_lt hk ?_ fun j hj => ?_
    · unfold rankPending
      simp only [hrank, hwaiting, hsends]
      omega
    · unfold rankPending
      rw [hother j hj, hsends]

end

/-- **The transfer moves every expert to its place.**  What two ranks post for each other agrees, no run
gets stuck, and a rank that is done has its new experts and its unchanged rows. -/
theorem transfer_moves_experts {epSize numLocalExperts : ℕ} {rankMapping : Option (OrderedDict ℕ ℤ)}
    {oldIndices newIndices : List ℤ} {x : Exchange}
    (hx : ofIndices epSize numLocalExperts rankMapping oldIndices newIndices = some x)
    (hold : ∀ e ∈ x.newIndices, e ≠ -1 → e ∈ x.oldIndices) (expertWeights : ℤ → Fin m → α)
    (unused buffers : ℕ → Rows m α) : x.epSize = epSize ∧ x.numLocalExperts = numLocalExperts ∧
    (∀ a < epSize, ∀ b < epSize,
      ((x.postSends a m).filter fun op => decide (op.peer = b)).map P2POp.label =
        ((x.postRecvs b m).filter fun op => decide (op.peer = a)).map P2POp.label) ∧
    (∀ a < epSize, (∀ op ∈ x.postSends a m, op.peer < epSize) ∧ ∀ op ∈ x.postRecvs a m, op.peer < epSize) ∧
    ∃ bound, ∀ actions s, run x (initial x expertWeights unused buffers) actions = some s →
      actions.length ≤ bound ∧
      ((∀ k < epSize, (s.ranks k).phase = .done) ∨ ∃ action s', step x s action = some s') ∧
      ∀ k < epSize, (s.ranks k).phase = .done →
        (∀ p < epSize, s.sends k p = [] ∧ s.recvs k p = []) ∧ ∀ r < numLocalExperts, ∀ w,
          (x.newLocal k r ≠ -1 → (s.ranks k).weights w r = expertWeights (x.newLocal k r) w) ∧
          (x.isUnchanged k r = true → r ∉ x.copyRows k ∧ r ∉ (x.duplicates k).map Prod.fst ∧
            (s.ranks k).weights w r = ((initial x expertWeights unused buffers).ranks k).weights w r) := by
  have hsize : x.epSize = epSize ∧ x.numLocalExperts = numLocalExperts := by
    obtain ⟨indices, -, hx⟩ := Option.bind_eq_some_iff.1 hx
    simp only at hx
    split_ifs at hx
    obtain rfl := Option.some.inj hx
    exact ⟨rfl, rfl⟩
  obtain ⟨rfl, rfl⟩ := hsize
  refine ⟨rfl, rfl, fun a ha b hb => postSends_eq_postRecvs ha hb, fun a ha =>
    ⟨fun op hop => peer_lt_of_mem_postSends ha hop, fun op hop => peer_lt_of_mem_postRecvs ha hop⟩,
    pending x (initial x expertWeights unused buffers), fun actions s hrun => ?_⟩
  have hstart : ∃ matched, Reached x expertWeights unused buffers
      (initial x expertWeights unused buffers) matched := ⟨_, Reached.initial⟩
  have hbound := foldlM_descends (fun hs h => ⟨Reached.step hs hold h, pending_step hs.choose_spec h⟩)
    hstart hrun
  obtain ⟨matched, hs⟩ := foldlM_keeps (fun hs h => Reached.step hs hold h) hstart hrun
  refine ⟨by omega, hs.progress, fun k hk hdone => ⟨hs.complete k hdone, fun r hr w => ?_⟩⟩
  obtain ⟨hnew, hunchanged⟩ := hs.installed k hdone r hr w
  refine ⟨hnew, fun h => ?_⟩
  obtain ⟨hcopy, hduplicate⟩ := notMem_of_isUnchanged h
  exact ⟨hcopy, hduplicate, hunchanged h⟩

/-- Two ranks of two slots scale up to three. -/
theorem transfer_moves_experts_scaleUp : ∃ x bound,
    ofIndices 3 2 (some (AList.insert 1 1 (AList.insert 0 0 ∅))) [0, 1, 2, 1] [2, 0, 1, 0, 2, 2] =
      some x ∧
    ∀ actions s, run x
        (initial x (fun e (_ : Fin 1) => e) (fun _ _ _ => 0) fun _ _ _ => 0) actions = some s →
      actions.length ≤ bound ∧
      ∀ k < 3, (s.ranks k).phase = .done → ∀ r < 2, ∀ w, x.newLocal k r ≠ -1 →
        (s.ranks k).weights w r = x.newLocal k r := by
  have hx : ofIndices 3 2 (some (AList.insert 1 1 (AList.insert 0 0 ∅))) [0, 1, 2, 1]
      [2, 0, 1, 0, 2, 2] = some ⟨3, 2, [0, 1, 2, 1, -1, -1], [2, 0, 1, 0, 2, 2], rfl, rfl⟩ := rfl
  obtain ⟨-, -, -, -, bound, h⟩ := @transfer_moves_experts 1 ℤ 3 2 _ _ _ _ hx (by decide) (fun e _ => e)
    (fun _ _ _ => 0) fun _ _ _ => 0
  refine ⟨_, bound, hx, fun actions s hrun => ?_⟩
  obtain ⟨hle, -, hdone⟩ := h actions s hrun
  exact ⟨hle, fun k hk hphase r hr w hne => ((hdone k hk hphase).2 r hr w).1 hne⟩

end LoptVllm.Eplb
