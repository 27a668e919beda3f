import LoptVllm.Lib.Arrays
import Mathlib.Algebra.Order.Field.Rat
import Mathlib.Data.Finset.Card

/-!
# The rebalancing policy

`DefaultEplbPolicy`. An array is a function of its indices, with its shape beside it; where the source
would raise, there is no result. A load that overflows in float32 is `⊤`, and so is a sum with one.
-/

namespace LoptVllm.Eplb

open Lib Function List

/-- What is left to torch and numpy: the conversion of a load to float32, the float32 sum of a row, the
rounding of a float64 value, the order of equal entries in `np.argsort(-weight)`, and the content of
`np.empty_like`. -/
structure Numpy where
  float : ℚ≥0 → WithTop ℚ
  sum : List (WithTop ℚ) → WithTop ℚ
  sum_top : ∀ l, ⊤ ∈ l → sum l = ⊤
  round : ℚ → ℚ
  argsort : ℕ → (ℕ → WithTop ℚ) → List ℕ
  argsort_perm : ∀ n weight, (argsort n weight).Perm (range n)
  argsort_sorted : ∀ n weight, (argsort n weight).Pairwise fun i j => weight j ≤ weight i
  empty : ℕ → ℕ → ℕ

variable (np : Numpy)

/-- The sum of two float64 values. -/
def Numpy.add (a b : WithTop ℚ) : WithTop ℚ := WithTop.map₂ (fun a b => np.round (a + b)) a b

/-- A load for each of `n` replicas. -/
def Numpy.div (load : WithTop ℚ) (n : ℕ) : WithTop ℚ := load.map fun load => np.round (load / n)

/-- `np.take_along_axis`. -/
def takeAlongAxis {α : Type*} (rows size cols : ℕ) (a : ℕ → ℕ → α) (idx : ℕ → ℕ → ℕ) :
    Option (ℕ → ℕ → α) :=
  if ∀ row < rows, ∀ col < cols, idx row col < size then some fun row col => a row (idx row col)
  else none

/-- `inverse`: of several assignments to an entry the last one stays, and entries without one have what the
memory had. There is nothing outside of the array. -/
def inverse (rows cols : ℕ) (perm : ℕ → ℕ → ℕ) : Option (ℕ → ℕ → ℕ) :=
  if ∀ row < rows, ∀ col < cols, perm row col < cols then
    some fun row i => if row < rows ∧ i < cols then
      (lastIndex cols fun col => decide (perm row col = i)).getD (np.empty row i) else 0
  else none

/-! ### Packing -/

/-- A row that is being packed. -/
structure Packs where
  packIndex : ℕ → ℕ
  rankInPack : ℕ → ℕ
  packWeights : ℕ → WithTop ℚ
  packItems : ℕ → ℕ

/-- The next group goes to the lightest pack. -/
def Packs.add (numPacks groupsPerPack : ℕ) (weight : ℕ → WithTop ℚ) (s : Packs) (group : ℕ) : Packs :=
  let pack := argmin numPacks s.packWeights
  { packIndex := update s.packIndex group pack
    rankInPack := update s.rankInPack group (s.packItems pack)
    packWeights := update s.packWeights pack
      (if s.packItems pack + 1 = groupsPerPack then ⊤ else np.add (s.packWeights pack) (weight group))
    packItems := update s.packItems pack (s.packItems pack + 1) }

/-- The groups of a row, the heaviest first. All entries of the indices are assigned. -/
def packRow (numGroups numPacks groupsPerPack : ℕ) (weight : ℕ → WithTop ℚ) : Packs :=
  (np.argsort numGroups weight).foldl (Packs.add np numPacks groupsPerPack weight)
    { packIndex := fun _ => 0
      rankInPack := fun _ => 0
      packWeights := fun _ => 0
      packItems := fun _ => 0 }

/-- `balanced_packing`. -/
def balancedPacking (numGroups : ℕ) (weight : ℕ → ℕ → WithTop ℚ) (numPacks : ℕ) :
    Option ((ℕ → ℕ → ℕ) × (ℕ → ℕ → ℕ)) :=
  if numPacks = 0 ∨ numGroups % numPacks ≠ 0 then none
  else
    let groupsPerPack := numGroups / numPacks
    if groupsPerPack = 1 then some (fun _ group => group, fun _ _ => 0)
    else
      some (fun row => (packRow np numGroups numPacks groupsPerPack (weight row)).packIndex,
        fun row => (packRow np numGroups numPacks groupsPerPack (weight row)).rankInPack)

/-! ### Replication -/

/-- A row that is being replicated. -/
structure Replicas where
  phy2log : ℕ → ℕ
  replicaIdx : ℕ → ℕ
  logcnt : ℕ → ℕ

/-- Slot `i` goes to the expert with the greatest load for a replica. -/
def Replicas.add (numLog : ℕ) (weight : ℕ → WithTop ℚ) (s : Replicas) (i : ℕ) : Replicas :=
  let redundant := argmax numLog fun l => np.div (weight l) (s.logcnt l)
  { phy2log := update s.phy2log i redundant
    replicaIdx := update s.replicaIdx i (s.logcnt redundant)
    logcnt := update s.logcnt redundant (s.logcnt redundant + 1) }

/-- The replicas of a row. -/
def replicateRow (numLog numPhy : ℕ) (weight : ℕ → WithTop ℚ) : Replicas :=
  (range' numLog (numPhy - numLog)).foldl (Replicas.add np numLog weight)
    { phy2log := id
      replicaIdx := fun _ => 0
      logcnt := fun _ => 1 }

/-- `replicate_experts`. -/
def replicateExperts (numLog numPhy : ℕ) (weight : ℕ → ℕ → WithTop ℚ) : Option (ℕ → Replicas) :=
  if numPhy < numLog then none else some fun row => replicateRow np numLog numPhy (weight row)

/-! ### The hierarchical policy -/

/-- `tokens_per_group`. -/
def tokensPerGroup (groupSize : ℕ) (weight : ℕ → ℕ → WithTop ℚ) (layer group : ℕ) : WithTop ℚ :=
  np.sum ((range groupSize).map fun i => weight layer (group * groupSize + i))

/-- The second and the third step: the replicas of each node, and which of them is at each place. There is
a row for each layer and node. -/
def packReplicas (rows numLog numPhy numGpus phyExpertsPerGpu : ℕ) (tokensPerMlog : ℕ → ℕ → WithTop ℚ) :
    Option ((ℕ → Replicas) × (ℕ → ℕ → ℕ)) := do
  -- 2. replicas within the nodes
  let replicas ← replicateExperts np numLog numPhy tokensPerMlog
  -- 3. replicas to GPUs
  let tokensPerPhy ← takeAlongAxis rows numLog numPhy
    (fun row l => np.div (tokensPerMlog row l) ((replicas row).logcnt l))
    fun row => (replicas row).phy2log
  let (packIndex, rankInPack) ← balancedPacking np numPhy tokensPerPhy numGpus
  let phy2pphy row p := packIndex row p * phyExpertsPerGpu + rankInPack row p
  let pphy2phy ← inverse np rows numPhy phy2pphy
  some (replicas, pphy2phy)

/-- What is at the places of all nodes, by the ids of the experts, and the numbers of their replicas. -/
def gatherSlots (numLayers numLogicalExperts numPhysicalExperts numNodes numLog numPhy : ℕ)
    (log2mlog mlog2log : ℕ → ℕ → ℕ) (replicas : ℕ → Replicas) (pphy2phy : ℕ → ℕ → ℕ) :
    Option ((ℕ → ℕ → ℕ) × (ℕ → ℕ → ℕ) × (ℕ → ℕ → ℕ)) := do
  let nodePphy2mlog ← takeAlongAxis (numLayers * numNodes) numPhy numPhy
    (fun row => (replicas row).phy2log) pphy2phy
  let pphy2mlog layer p :=
    p / numPhy * numLog + nodePphy2mlog (layer * numNodes + p / numPhy) (p % numPhy)
  let pphy2log ← takeAlongAxis numLayers numLogicalExperts numPhysicalExperts mlog2log pphy2mlog
  let nodeReplicasIdx ← takeAlongAxis (numLayers * numNodes) numPhy numPhy
    (fun row => (replicas row).replicaIdx) pphy2phy
  let pphyReplicasIdx layer p := nodeReplicasIdx (layer * numNodes + p / numPhy) (p % numPhy)
  let logcnt ← takeAlongAxis numLayers numLogicalExperts numLogicalExperts
    (fun layer l => (replicas (layer * numNodes + l / numLog)).logcnt (l % numLog)) log2mlog
  some (pphy2log, pphyReplicasIdx, logcnt)

variable (numLayers numLogicalExperts : ℕ) (weight : ℕ → ℕ → WithTop ℚ)

/-- `rebalance_experts_hierarchical`: `pphy2log`, `pphy_replicas_idx` and `logcnt`. -/
def rebalanceExpertsHierarchical (numPhysicalExperts numGroups numNodes numGpus : ℕ) :
    Option ((ℕ → ℕ → ℕ) × (ℕ → ℕ → ℕ) × (ℕ → ℕ → ℕ)) := do
  guard (numGroups ≠ 0 ∧ numLogicalExperts % numGroups = 0)
  let groupSize := numLogicalExperts / numGroups
  guard (numNodes ≠ 0 ∧ numGroups % numNodes = 0)
  let groupsPerNode := numGroups / numNodes
  guard (numGpus % numNodes = 0)
  guard (numGpus ≠ 0 ∧ numPhysicalExperts % numGpus = 0)
  let phyExpertsPerGpu := numPhysicalExperts / numGpus
  -- 1. groups to nodes
  let (groupPackIndex, groupRankInPack) ←
    balancedPacking np numGroups (tokensPerGroup np groupSize weight) numNodes
  let log2mlog layer l :=
    (groupPackIndex layer (l / groupSize) * groupsPerNode + groupRankInPack layer (l / groupSize)) *
      groupSize + l % groupSize
  let mlog2log ← inverse np numLayers numLogicalExperts log2mlog
  let tokens ← takeAlongAxis numLayers numLogicalExperts numLogicalExperts weight mlog2log
  let numLog := numLogicalExperts / numNodes
  let numPhy := numPhysicalExperts / numNodes
  guard (numLog ≠ 0 ∧ numLayers ≠ 0)
  let (replicas, pphy2phy) ← packReplicas np (numLayers * numNodes) numLog numPhy (numGpus / numNodes)
    phyExpertsPerGpu fun row i => tokens (row / numNodes) (row % numNodes * numLog + i)
  gatherSlots numLayers numLogicalExperts numPhysicalExperts numNodes numLog numPhy log2mlog mlog2log
    replicas pphy2phy

/-! ### Slots that stay -/

/-- The slots of a rank, while they are assigned. -/
structure Slots where
  postPhy2log : ℕ → ℕ
  postReplicasIdx : ℕ → ℕ
  usedNewIndices : ℕ → Bool
  preservedPositions : ℕ → Bool

/-- A new slot goes to an old one. -/
def Slots.assign (new newIdx : ℕ → ℕ) (s : Slots) (dst src : ℕ) : Slots :=
  { s with
    postPhy2log := update s.postPhy2log dst (new src)
    postReplicasIdx := update s.postReplicasIdx dst (newIdx src) }

/-- The first pass at a slot: the first unused new slot with the same expert. -/
def Slots.preserve (slots : ℕ) (old : ℕ → ℤ) (new newIdx : ℕ → ℕ) (s : Slots) (slot : ℕ) : Slots :=
  match (range slots).find? fun i => decide ((new i : ℤ) = old slot) && !s.usedNewIndices i with
  | some i =>
    { s.assign new newIdx slot i with
      usedNewIndices := update s.usedNewIndices i true
      preservedPositions := update s.preservedPositions slot true }
  | none => s

/-- The slots of a rank after both passes. The second pass puts the remaining new slots into the remaining
positions, both in ascending order. -/
def preserveSlots (slots : ℕ) (old : ℕ → ℤ) (new newIdx : ℕ → ℕ) : Slots :=
  let s := (range slots).foldl (Slots.preserve slots old new newIdx)
    { postPhy2log := new
      postReplicasIdx := newIdx
      usedNewIndices := fun _ => false
      preservedPositions := fun _ => false }
  let remainingIndices := (range slots).filter fun i => !s.usedNewIndices i
  let fillIndices := (range slots).filter fun i => !s.preservedPositions i
  (fillIndices.zip remainingIndices).foldl (fun s p => s.assign new newIdx p.1 p.2) s

/-- An old map, with a row for each layer. Its rows may have another length than those of the new one. -/
structure OldMap where
  numSlots : ℕ
  phy2log : ℕ → ℕ → ℤ

/-- `preserve_intragpu_slots`. -/
def preserveIntragpuSlots (numPhyExperts : ℕ) (phy2log phyReplicasIdx : ℕ → ℕ → ℕ) (numRanks : ℕ)
    (oldPhy2log : OldMap) : Option ((ℕ → ℕ → ℕ) × (ℕ → ℕ → ℕ)) :=
  if numRanks = 0 ∨ numPhyExperts % numRanks ≠ 0 then some (phy2log, phyReplicasIdx)
  -- a slice stops at the end of the old map, and `old_local[:, slot_idx]` is an `IndexError` behind it
  else if oldPhy2log.numSlots < numPhyExperts then none
  else
    let slotsPerGpu := numPhyExperts / numRanks
    let gpu layer k := preserveSlots slotsPerGpu (fun i => oldPhy2log.phy2log layer (k * slotsPerGpu + i))
      (fun i => phy2log layer (k * slotsPerGpu + i)) fun i => phyReplicasIdx layer (k * slotsPerGpu + i)
    some (fun layer p => (gpu layer (p / slotsPerGpu)).postPhy2log (p % slotsPerGpu),
      fun layer p => (gpu layer (p / slotsPerGpu)).postReplicasIdx (p % slotsPerGpu))

/-! ### The policy -/

/-- The maps that are returned. -/
structure ExpertMaps where
  phy2log : ℕ → ℕ → ℕ
  log2phy : ℕ → ℕ → ℕ → ℤ
  logcnt : ℕ → ℕ → ℕ

/-- A row of `log2phy`: -1 where no slot is assigned. -/
def log2phyRow (numReplicas : ℕ) (phy2log phyReplicasIdx : ℕ → ℕ) (e j : ℕ) : ℤ :=
  match lastIndex numReplicas fun p => decide (phy2log p = e ∧ phyReplicasIdx p = j) with
  | some p => (p : ℤ)
  | none => -1

/-- `rebalance_experts`. -/
def rebalanceExperts (weight : ℕ → ℕ → ℚ≥0) (numReplicas numGroups numNodes numRanks : ℕ)
    (oldGlobalExpertIndices : Option OldMap) : Option ExpertMaps := do
  let weight layer l := np.float (weight layer l)
  guard (numNodes ≠ 0)
  let (phy2log, phyReplicasIdx, logcnt) ← (if numGroups % numNodes = 0 then
      rebalanceExpertsHierarchical np numLayers numLogicalExperts weight numReplicas numGroups numNodes
        numRanks
    else
      rebalanceExpertsHierarchical np numLayers numLogicalExperts weight numReplicas 1 1 numRanks)
  let (phy2log, phyReplicasIdx) ← match oldGlobalExpertIndices with
    | some old => preserveIntragpuSlots numReplicas phy2log phyReplicasIdx numRanks old
    | none => some (phy2log, phyReplicasIdx)
  let maxlogcnt := numReplicas - numLogicalExperts + 1
  guard (∀ layer < numLayers, ∀ p < numReplicas,
    phy2log layer p < numLogicalExperts ∧ phyReplicasIdx layer p < maxlogcnt)
  some
    { phy2log := phy2log
      log2phy := fun layer => log2phyRow numReplicas (phy2log layer) (phyReplicasIdx layer)
      logcnt := logcnt }

end LoptVllm.Eplb
