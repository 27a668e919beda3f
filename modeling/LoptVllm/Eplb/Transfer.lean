import LoptVllm.Lib.Grouping
import LoptVllm.Lib.OrderedDict
import Mathlib.Algebra.Order.Ring.Int
import Mathlib.Data.Prod.Lex

/-!
# Transfer of expert weights

`move_to_buffer` and `move_from_buffer`, on every rank. Each rank finds out by itself what it sends and
receives; the operations of two ranks are matched in the order in which they are posted.
-/

namespace LoptVllm.Eplb

open Lib Function Prod List

/-- The old and the new experts of all rows of a layer, where -1 is no expert. -/
structure Exchange where
  epSize : ℕ
  numLocalExperts : ℕ
  oldIndices : List ℤ
  newIndices : List ℤ
  length_oldIndices : oldIndices.length = epSize * numLocalExperts
  length_newIndices : newIndices.length = epSize * numLocalExperts

/-! ### Rank mappings -/

/-- `mapped[a : a + n] = indices[b : b + n]`. -/
def copySlice (mapped indices : List ℤ) (a b n : ℕ) : List ℤ :=
  mapped.take a ++ (indices.drop b).take n ++ mapped.drop (a + n)

/-- `_map_old_expert_indices_with_rank_mapping`, for a layer. -/
def mapOldExpertIndices (oldIndices : List ℤ) (rankMapping : OrderedDict ℕ ℤ) (newEpSize : ℕ) : List ℤ :=
  let oldEpSize := rankMapping.items.length
  let n := oldIndices.length / oldEpSize
  (range oldEpSize).foldl (fun mapped oldRank =>
    match rankMapping.lookup oldRank with
    | some newRank =>
      if 0 ≤ newRank ∧ newRank < newEpSize then
        copySlice mapped oldIndices (newRank.toNat * n) (oldRank * n) n
      else mapped
    | none => mapped) (replicate (newEpSize * n) (-1))

/-- `_map_new_expert_indices_with_rank_mapping`, for a layer. A rank that is not in the mapping raises. -/
def mapNewExpertIndices (newIndices : List ℤ) (rankMapping : OrderedDict ℕ ℤ) : Option (List ℤ) :=
  let oldEpSize := rankMapping.items.length
  let newEpSize := (rankMapping.items.filter fun item => decide (item.2 ≠ -1)).length
  let n := newIndices.length / newEpSize
  if newEpSize = 0 then none
  else
    (range oldEpSize).foldlM (fun mapped oldRank => do
      let newRank ← rankMapping.lookup oldRank
      if 0 ≤ newRank ∧ newRank < newEpSize then
        some (copySlice mapped newIndices (oldRank * n) (newRank.toNat * n) n)
      else some mapped) (replicate (oldEpSize * n) (-1))

/-- The vectors that the ranks exchange by, and the assertions on their sizes. -/
def Exchange.ofIndices (epSize numLocalExperts : ℕ) (rankMapping : Option (OrderedDict ℕ ℤ))
    (oldIndices newIndices : List ℤ) : Option Exchange := do
  let (oldIndices, newIndices) ← (match rankMapping with
    | none => some (oldIndices, newIndices)
    | some rankMapping =>
      if rankMapping.items = [] then none
      else if rankMapping.items.length = epSize then
        (mapNewExpertIndices newIndices rankMapping).map fun newIndices => (oldIndices, newIndices)
      else some (mapOldExpertIndices oldIndices rankMapping epSize, newIndices))
  if h : oldIndices.length = epSize * numLocalExperts ∧ newIndices.length = epSize * numLocalExperts then
    some ⟨epSize, numLocalExperts, oldIndices, newIndices, h.1, h.2⟩
  else none

namespace Exchange

variable (x : Exchange) (k : ℕ) (r : ℕ)

/-- The old expert of a row of rank `k`. -/
def oldLocal : ℤ := x.oldIndices.getD (k * x.numLocalExperts + r) (-1)

/-- The new expert of a row of rank `k`. -/
def newLocal : ℤ := x.newIndices.getD (k * x.numLocalExperts + r) (-1)

/-- `local_rows`. -/
def localRows : List ℕ := range x.numLocalExperts

/-- `is_unchanged`. -/
def isUnchanged : Bool := decide (x.oldLocal k r = x.newLocal k r)

/-- `is_received_locally`. -/
def isReceivedLocally : Bool := x.isUnchanged k r ||
    (decide (x.newLocal k r ≠ -1) && decide (x.newLocal k r ∈ x.localRows.map (x.oldLocal k)))

/-- `np.unique(experts, return_index=True)`: the sorted experts of some rows, with their first rows. -/
def uniqueRows (expertAt : ℕ → ℤ) (rows : List ℕ) : List (ℤ × ℕ) :=
  (sortedUnique (rows.map expertAt)).map fun e =>
    (e, (rows.find? fun r => decide (expertAt r = e)).getD 0)

/-- `send_expert_ids` and `send_src_rows`. -/
def sendRows : List (ℤ × ℕ) :=
  uniqueRows (x.oldLocal k) (x.localRows.filter fun r => decide (x.oldLocal k r ≠ -1))

/-- `recv_expert_ids` and `recv_dst_rows`. -/
def recvRows : List (ℤ × ℕ) := uniqueRows (x.newLocal k)
    (x.localRows.filter fun r => !x.isReceivedLocally k r && decide (x.newLocal k r ≠ -1))

/-- `recv_primary_mask`. -/
def recvPrimaryMask (r : ℕ) : Bool := decide (r ∈ (x.recvRows k).map snd)

/-! ### Who sends to whom -/

/-- The ranks of the positions of each expert, sorted by expert and position. -/
def rankGroups (numLocalExperts : ℕ) (uniqueExperts indices : List ℤ) : List (ℤ × List ℕ) :=
  let relevantPositions := (range indices.length).filter fun p =>
    decide (indices.getD p 0 ∈ uniqueExperts)
  let sorted := (relevantPositions.map fun p => (indices.getD p 0, p)).mergeSort fun a b =>
    decide (a.1 < b.1 ∨ a.1 = b.1 ∧ a.2 ≤ b.2)
  (segments fst sorted).map fun g =>
    ((g.head?.map fst).getD 0, uniqueInOrder (g.map fun p => p.2 / numLocalExperts))

/-- The entry of an expert, or the empty list. -/
def ranksOf (groups : List (ℤ × List ℕ)) (e : ℤ) : List ℕ :=
  (groups.find? fun group => decide (group.1 = e)).elim [] snd

/-- `get_ep_ranks_with_experts_batch`: `ranks_to_send_map` and `ranks_to_recv_map`. -/
def getEpRanksWithExpertsBatch (expertIds : List ℤ) : List (ℤ × List ℕ) × List (ℤ × List ℕ) :=
  let uniqueExperts := sortedUnique expertIds
  let ranksToSendMap := rankGroups x.numLocalExperts uniqueExperts x.oldIndices
  let ranksToRecvMap := (rankGroups x.numLocalExperts uniqueExperts x.newIndices).map fun group =>
    (group.1, group.2.filter fun r => decide (r ∉ ranksOf ranksToSendMap group.1))
  (ranksToSendMap, ranksToRecvMap)

variable (ranksToSend ranksToRecv : List ℕ)

/-- The ranks that rank `k` sends an expert to. -/
def sendTargets : List ℕ :=
  if ranksToSend = [] ∨ ranksToRecv = [] then []
  else
    let numDstPerSender := ranksToRecv.length / ranksToSend.length
    let senderPos := ranksToSend.idxOf k
    let recvBegin := senderPos * numDstPerSender
    let recvRanks := (ranksToRecv.drop recvBegin).take numDstPerSender
    let remainderStart := ranksToSend.length * numDstPerSender
    let recverPos := remainderStart + senderPos
    if recverPos < ranksToRecv.length then recvRanks ++ [ranksToRecv.getD recverPos 0] else recvRanks

/-- The rank that rank `k` receives an expert from. -/
def recvSource : Option ℕ :=
  if ranksToSend = [] ∨ ranksToRecv = [] then none
  else
    let numDstPerSender := ranksToRecv.length / ranksToSend.length
    let recverPos := ranksToRecv.idxOf k
    let remainderStart := ranksToSend.length * numDstPerSender
    some (if recverPos < remainderStart then ranksToSend.getD (recverPos / numDstPerSender) 0
      else ranksToSend.getD (recverPos - remainderStart) 0)

/-- An operation with another rank, on a row of a weight tensor or of its buffer. The transport does not
see the expert. -/
structure P2POp (m : ℕ) where
  peer : ℕ
  expert : ℤ
  row : ℕ
  tensor : Fin m

/-- The sends that rank `k` posts. -/
def postSends (m : ℕ) : List (P2POp m) :=
  let maps := x.getEpRanksWithExpertsBatch ((x.sendRows k).map fst)
  (x.sendRows k).flatMap fun send =>
    (sendTargets k (ranksOf maps.1 send.1) (ranksOf maps.2 send.1)).flatMap fun dst =>
      (finRange m).map fun w => ⟨dst, send.1, send.2, w⟩

/-- The receives that rank `k` posts. -/
def postRecvs (m : ℕ) : List (P2POp m) :=
  let maps := x.getEpRanksWithExpertsBatch ((x.recvRows k).map fst)
  (x.recvRows k).flatMap fun recv =>
    match recvSource k (ranksOf maps.1 recv.1) (ranksOf maps.2 recv.1) with
    | none => []
    | some src => (finRange m).map fun b => ⟨src, recv.1, recv.2, b⟩

/-! ### Copies -/

/-- The local moves into the buffers: destination and source. -/
def localMoves : List (ℕ × ℕ) :=
  (x.localRows.filter fun r => !x.isUnchanged k r && x.isReceivedLocally k r).filterMap fun dst =>
    ((x.sendRows k).lookup (x.newLocal k dst)).map fun src => (dst, src)

/-- The rows that are copied from the buffers. -/
def copyRows : List ℕ := x.localRows.filter fun r =>
    !x.isUnchanged k r && (x.isReceivedLocally k r || x.recvPrimaryMask k r)

/-- `np.searchsorted`. -/
def searchsorted (sorted : List ℤ) (e : ℤ) : ℕ := sorted.countP fun a => decide (a < e)

/-- The rows of experts that another row received: destination and source. -/
def duplicates : List (ℕ × ℕ) :=
  let primExperts := (x.recvRows k).map fst
  let primDsts := (x.recvRows k).map snd
  if primExperts = [] then []
  else
    (x.localRows.filter fun r => !x.isUnchanged k r && !x.isReceivedLocally k r &&
        !x.recvPrimaryMask k r && decide (x.newLocal k r ≠ -1)).filterMap fun dst =>
      let pos := searchsorted primExperts (x.newLocal k dst)
      if pos < primExperts.length ∧
          primExperts.getD (min pos (primExperts.length - 1)) (-1) = x.newLocal k dst then
        some (dst, primDsts.getD pos 0)
      else none

end Exchange

/-! ### The ranks together -/

/-- The tensors of a rank: a value for each weight and row. -/
abbrev Rows (m : ℕ) (α : Type) := Fin m → ℕ → α

/-- `target[dst].copy_(source[src])`, for all weights. -/
def copyRow {m : ℕ} {α : Type} (target : Rows m α) (dst : ℕ) (source : Rows m α) (src : ℕ) : Rows m α :=
  fun w => update (target w) dst (source w src)

/-- Where a rank is. -/
inductive Phase
  | idle
  | waiting
  | done
  deriving DecidableEq

/-- A rank: its weights and buffers. -/
structure RankState (m : ℕ) (α : Type) where
  phase : Phase
  weights : Rows m α
  buffers : Rows m α

/-- The ranks, and for each pair of ranks the posted sends and receives that are not matched yet. -/
structure State (m : ℕ) (α : Type) where
  ranks : ℕ → RankState m α
  sends : ℕ → ℕ → List (Exchange.P2POp m)
  recvs : ℕ → ℕ → List (Exchange.P2POp m)

/-- What can happen: a rank does its local moves and posts its operations; the first send of a pair of
ranks is matched with the first receive; a rank whose operations are complete copies from its buffers. -/
inductive Action
  | start (k : ℕ)
  | transfer (src dst : ℕ)
  | finish (k : ℕ)

section

variable {m : ℕ} {α : Type} (x : Exchange)

/-- The copies of `move_from_buffer`. -/
def moveFromBuffer (k : ℕ) (r : RankState m α) : Rows m α :=
  let weights := (x.copyRows k).foldl (fun w dst => copyRow w dst r.buffers dst) r.weights
  (x.duplicates k).foldl (fun w p => copyRow w p.1 w p.2) weights

/-- A step, if it can happen. -/
def step (s : State m α) : Action → Option (State m α)
  | .start k =>
    if k < x.epSize ∧ (s.ranks k).phase = .idle then
      some
        { ranks := update s.ranks k
            { phase := .waiting
              weights := (s.ranks k).weights
              buffers := (x.localMoves k).foldl
                (fun b p => copyRow b p.1 (s.ranks k).weights p.2) (s.ranks k).buffers }
          sends := update s.sends k fun b =>
            (x.postSends k m).filter fun op => decide (op.peer = b)
          recvs := update s.recvs k fun a =>
            (x.postRecvs k m).filter fun op => decide (op.peer = a) }
    else none
  | .transfer src dst =>
    match s.sends src dst, s.recvs dst src with
    | send :: sends, recv :: recvs =>
      some
        { ranks := update s.ranks dst
            { s.ranks dst with
              buffers := update (s.ranks dst).buffers recv.tensor
                (update ((s.ranks dst).buffers recv.tensor) recv.row
                  ((s.ranks src).weights send.tensor send.row)) }
          sends := update s.sends src (update (s.sends src) dst sends)
          recvs := update s.recvs dst (update (s.recvs dst) src recvs) }
    | _, _ => none
  | .finish k =>
    if k < x.epSize ∧ (s.ranks k).phase = .waiting ∧
        ∀ p < x.epSize, s.sends k p = [] ∧ s.recvs k p = [] then
      some
        { s with
          ranks := update s.ranks k
            { s.ranks k with
              phase := .done
              weights := moveFromBuffer x k (s.ranks k) } }
    else none

/-- The ranks before the transfer: the rows of an expert hold its weights. -/
def initial (expertWeights : ℤ → Fin m → α) (unused : ℕ → Rows m α) (buffers : ℕ → Rows m α) :
    State m α where
  ranks k :=
    { phase := .idle
      weights := fun w r => if x.oldLocal k r = -1 then unused k w r
        else expertWeights (x.oldLocal k r) w
      buffers := buffers k }
  sends _ _ := []
  recvs _ _ := []

/-- The steps of a run. -/
def run (s : State m α) (actions : List Action) : Option (State m α) := actions.foldlM (step x) s

end

end LoptVllm.Eplb
