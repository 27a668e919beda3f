import LoptVllm.KVConfig.Spec
import LoptVllm.Lib.Dealing

/-!
# The groups of layers

The layers are grouped so that the layers of a group can share a block table. If all specs can be
merged, or are of one type, there is one group. Otherwise the page sizes are made equal, and the layers
with the same spec are dealt out to groups of about the same size.
-/

namespace LoptVllm.KVConfig

open List KVCacheSpec UniformTypeKVCacheSpecs

open Prod (fst snd)

open Lib (strided)

/-- A dictionary of layer specs, in insertion order. -/
abbrev LayerSpecs := List (String × KVCacheSpec)

variable (kvCacheSpec : LayerSpecs)

/-- `kv_cache_spec[layer_name]`. -/
def getSpec (layerName : String) : Except PyErr KVCacheSpec :=
  match kvCacheSpec.lookup layerName with
  | some spec => .ok spec
  | none => .error (.keyError layerName)

/-- `create_kv_cache_group_specs`. -/
def createKvCacheGroupSpecs (groupedLayerNames : List (List String)) :
    Except PyErr (List KVCacheGroupSpec) :=
  groupedLayerNames.mapM fun layerNames => do
    let layerSpecs ← layerNames.mapM (getSpec kvCacheSpec)
    return ⟨layerNames, .layer (← merge layerSpecs)⟩

/-- `is_kv_cache_spec_uniform`. -/
def isKvCacheSpecUniform : Except PyErr Bool :=
  if kvCacheSpec = [] then .ok true
  else match merge (kvCacheSpec.map snd) with
    | .ok _ => .ok true
    | .error (.assertionError _) => .ok false
    | .error e => .error e

/-! ### One type for all layers -/

/-- `FullAttentionSpec(...)`, of which the other fields have their default values. -/
def AttentionSpec.toFull (spec : AttentionSpec) (slidingWindow attentionChunkSize : Option ℕ) :
    KVCacheSpec :=
  .full ⟨{ spec with pageSizePadded := none }, spec.headSize, slidingWindow, attentionChunkSize⟩

namespace KVCacheSpec

/-- `isinstance(spec, SlidingWindowSpec)`. -/
def isSlidingWindow : KVCacheSpec → Bool
  | slidingWindow _ => true
  | _ => false

/-- `isinstance(spec, ChunkedLocalAttentionSpec)`. -/
def isChunkedLocal : KVCacheSpec → Bool
  | chunkedLocal _ => true
  | _ => false

/-- The conversion of a layer with a sliding window or local attention. -/
def convert : KVCacheSpec → KVCacheSpec
  | slidingWindow spec => spec.toFull (some spec.slidingWindow) none
  | chunkedLocal spec => spec.toFull none (some spec.attentionChunkSize)
  | spec => spec

end KVCacheSpec

variable (kvCacheSpec : LayerSpecs)

/-- `is_kv_cache_spec_uniform(...) or UniformTypeKVCacheSpecs.is_uniform_type(...)`. -/
def isUnified : Except PyErr Bool := do
  if ← isKvCacheSpecUniform kvCacheSpec then return true
  else isUniformType kvCacheSpec

/-- `unify_hybrid_kv_cache_specs`, which returns the dictionary that it leaves behind. -/
def unifyHybridKvCacheSpecs : Except PyErr LayerSpecs := do
  if ← isUnified kvCacheSpec then return kvCacheSpec
  else
    let hasFullAttention := kvCacheSpec.any fun p => p.2.full?.isSome
    let hasSlidingWindow := kvCacheSpec.any fun p => p.2.isSlidingWindow
    let hasChunkedLocalAttention := kvCacheSpec.any fun p => p.2.isChunkedLocal
    let converted := if hasFullAttention && (hasSlidingWindow || hasChunkedLocalAttention) then
        kvCacheSpec.map fun p => (p.1, p.2.convert)
      else kvCacheSpec
    if ← isUnified converted then return converted
    else .error (.valueError ("Hybrid KV cache manager is disabled but failed to " ++
      "convert the KV cache specs to one unified type."))

/-! ### One page size for all layers -/

/-- The spec of a layer with pages of `maxPageSize` bytes. -/
def unifyPageSize (maxPageSize : ℕ) (layerSpec : KVCacheSpec) : Except PyErr KVCacheSpec := do
  let layerPageSize ← layerSpec.pageSizeBytes
  if layerPageSize = maxPageSize then return layerSpec
  else if layerPageSize = 0 then .error .zeroDivisionError
  else if maxPageSize % layerPageSize ≠ 0 then .error .notImplementedError
  else
    let ratio := maxPageSize / layerPageSize
    if h : 0 < ratio then do
      let newSpec := layerSpec.withBlockSize (layerSpec.blockSize * ratio)
        (Nat.mul_pos layerSpec.blockSize_pos h)
      let newPageSize ← newSpec.pageSizeBytes
      assert (newPageSize = maxPageSize) ""
      return newSpec
    -- not with the greatest page size; a block of no tokens would have an empty page
    else .error (.assertionError "")

/-- `unify_kv_cache_spec_page_size`. -/
def unifyKvCacheSpecPageSize : Except PyErr LayerSpecs := do
  let pageSizes ← kvCacheSpec.mapM fun p => p.2.pageSizeBytes
  if pageSizes.dedup.length ≤ 1 then return kvCacheSpec
  else
    let maxPageSize := pageSizes.foldr max 0
    kvCacheSpec.mapM fun p => do return (p.1, ← unifyPageSize maxPageSize p.2)

/-- `same_type_layers[layer_spec].append(layer_name)`. -/
def appendLayer (layer : String × KVCacheSpec) :
    List (KVCacheSpec × List String) → List (KVCacheSpec × List String)
  | [] => [(layer.2, [layer.1])]
  | (spec, layers) :: rest =>
    if spec = layer.2 then (spec, layers ++ [layer.1]) :: rest
    else (spec, layers) :: appendLayer layer rest

/-- `same_type_layers`. -/
def sameTypeLayers : List (KVCacheSpec × List String) :=
  kvCacheSpec.foldl (fun layers layer => appendLayer layer layers) []

/-- `group_size`, from the numbers of layers of the types; 1.25 is five fourths. -/
def chooseGroupSize : List ℕ → Except PyErr ℕ
  | [] => .error (.valueError "min() iterable argument is empty")
  | n :: ns =>
    let minNumLayers := ns.foldl min n
    let maxNumLayers := ns.foldl max n
    .ok (if 4 * maxNumLayers < 5 * minNumLayers then maxNumLayers else minNumLayers)

/-- The groups of the layers of one type: `layers[i::num_groups]`. -/
def dealLayers (groupSize : ℕ) (layers : List String) : List (List String) :=
  let numGroups := (cdiv layers.length groupSize).toNat
  (List.range numGroups).map fun i => strided layers i numGroups

/-- `_get_kv_cache_groups_uniform_page_size`. -/
def getKvCacheGroupsUniformPageSize : Except PyErr (List KVCacheGroupSpec) := do
  let layers := (sameTypeLayers kvCacheSpec).map snd
  let groupSize ← chooseGroupSize (layers.map List.length)
  createKvCacheGroupSpecs kvCacheSpec (layers.flatMap (dealLayers groupSize))

/-! ### The groups -/

variable (cfg : VllmConfig)

/-- The specs after `unify_hybrid_kv_cache_specs`, if it is called. -/
def unifyIfDisabled (kvCacheSpec : LayerSpecs) : Except PyErr LayerSpecs :=
  if cfg.disableHybridKvCacheManager then unifyHybridKvCacheSpecs kvCacheSpec else .ok kvCacheSpec

/-- `get_kv_cache_groups`. -/
def getKvCacheGroups (kvCacheSpec : LayerSpecs) : Except PyErr (List KVCacheGroupSpec) := do
  let kvCacheSpec ← unifyIfDisabled cfg kvCacheSpec
  if kvCacheSpec = [] then return []
  else if ← isKvCacheSpecUniform kvCacheSpec then
    createKvCacheGroupSpecs kvCacheSpec [kvCacheSpec.map fst]
  else match ← fromSpecs kvCacheSpec with
    | some spec => return [⟨spec.kvCacheSpecs.map fst, .uniformType spec⟩]
    | none => do
      let kvCacheSpec ← unifyKvCacheSpecPageSize kvCacheSpec
      getKvCacheGroupsUniformPageSize kvCacheSpec

/-- The specs of which the groups are made. -/
def specsToGroup (kvCacheSpec : LayerSpecs) : Except PyErr LayerSpecs := do
  let kvCacheSpec ← unifyIfDisabled cfg kvCacheSpec
  if kvCacheSpec = [] then return []
  else if ← isKvCacheSpecUniform kvCacheSpec then return kvCacheSpec
  else if ← isUniformType kvCacheSpec then return kvCacheSpec
  else unifyKvCacheSpecPageSize kvCacheSpec

/-! ### Every layer is in one group -/

variable {cfg} {kvCacheSpec kvCacheSpec' : LayerSpecs} {groups : List KVCacheGroupSpec}

theorem keys_unifyIfDisabled (h : unifyIfDisabled cfg kvCacheSpec = .ok kvCacheSpec') :
    kvCacheSpec'.map fst = kvCacheSpec.map fst := by
  unfold unifyIfDisabled at h
  split_ifs at h
  · obtain ⟨unified, -, h⟩ := bind_ok.1 h
    split_ifs at h
    · cases h
      rfl
    · obtain ⟨unified', -, h⟩ := bind_ok.1 h
      split_ifs at h <;> cases h
      all_goals simp
  · cases h
    rfl

/-- A comprehension that keeps a part of its elements. -/
theorem map_eq_of_mapM {α β γ : Type} {f : α → Except PyErr β} {g : α → γ} {g' : β → γ}
    (hf : ∀ a b, f a = .ok b → g' b = g a) {l : List α} {r : List β} (h : l.mapM f = .ok r) :
    r.map g' = l.map g := by
  have hall := mapM_eq_ok.1 h
  clear h
  induction hall with
  | nil => rfl
  | cons hb _ ih => rw [map_cons, map_cons, hf _ _ hb, ih]

theorem exists_mem_of_mapM {α β : Type} {f : α → Except PyErr β} {l : List α} {r : List β}
    (h : l.mapM f = .ok r) {a : α} (ha : a ∈ l) : ∃ b ∈ r, f a = .ok b := by
  have hall := mapM_eq_ok.1 h
  clear h
  induction hall with
  | nil => cases ha
  | cons hb _ ih =>
    rcases mem_cons.1 ha with rfl | ha
    · exact ⟨_, .head _, hb⟩
    · obtain ⟨b, hmem, hb⟩ := ih ha
      exact ⟨b, .tail _ hmem, hb⟩

theorem exists_mem_of_mem_mapM {α β : Type} {f : α → Except PyErr β} {l : List α} {r : List β}
    (h : l.mapM f = .ok r) {b : β} (hb : b ∈ r) : ∃ a ∈ l, f a = .ok b := by
  have hall := mapM_eq_ok.1 h
  clear h
  induction hall with
  | nil => cases hb
  | cons ha _ ih =>
    rcases mem_cons.1 hb with rfl | hb
    · exact ⟨_, .head _, ha⟩
    · obtain ⟨a, hmem, ha⟩ := ih hb
      exact ⟨a, .tail _ hmem, ha⟩

theorem keys_unifyKvCacheSpecPageSize (h : unifyKvCacheSpecPageSize kvCacheSpec = .ok kvCacheSpec') :
    kvCacheSpec'.map fst = kvCacheSpec.map fst := by
  obtain ⟨pageSizes, -, h⟩ := bind_ok.1 h
  split_ifs at h
  · cases h
    rfl
  · refine map_eq_of_mapM (fun p p' hp => ?_) h
    obtain ⟨spec, -, hp⟩ := bind_ok.1 hp
    cases hp
    rfl

theorem appendLayer_perm (layer : String × KVCacheSpec) (layers : List (KVCacheSpec × List String)) :
    ((appendLayer layer layers).flatMap snd).Perm (layer.1 :: layers.flatMap snd) := by
  induction layers with
  | nil => simp [appendLayer]
  | cons p rest ih =>
    unfold appendLayer
    split_ifs
    · simp only [flatMap_cons, append_assoc]
      exact perm_middle
    · simp only [flatMap_cons]
      exact (ih.append_left _).trans perm_middle

variable {layer : String × KVCacheSpec}

theorem length_appendLayer_pos {layers : List (KVCacheSpec × List String)}
    (h : ∀ p ∈ layers, 0 < p.2.length) :
    ∀ p ∈ appendLayer layer layers, 0 < p.2.length := by
  induction layers with
  | nil => simp [appendLayer]
  | cons q rest ih =>
    obtain ⟨hq, hrest⟩ := forall_mem_cons.1 h
    unfold appendLayer
    split_ifs
    · exact forall_mem_cons.2 ⟨by simp, hrest⟩
    · exact forall_mem_cons.2 ⟨hq, ih hrest⟩

theorem sameTypeLayers_spec (kvCacheSpec : LayerSpecs) :
    ((sameTypeLayers kvCacheSpec).flatMap snd).Perm (kvCacheSpec.map fst) ∧
      ∀ p ∈ sameTypeLayers kvCacheSpec, 0 < p.2.length := by
  have hfold : ∀ (specs : LayerSpecs) (layers : List (KVCacheSpec × List String)),
      (∀ p ∈ layers, 0 < p.2.length) →
      ((specs.foldl (fun layers layer => appendLayer layer layers) layers).flatMap snd).Perm
        (layers.flatMap snd ++ specs.map fst) ∧
      ∀ p ∈ specs.foldl (fun layers layer => appendLayer layer layers) layers, 0 < p.2.length := by
    intro specs
    induction specs with
    | nil => exact fun layers h => ⟨by simp, h⟩
    | cons layer specs ih =>
      intro layers h
      obtain ⟨hperm, hpos⟩ := ih _ (length_appendLayer_pos h)
      refine ⟨hperm.trans ?_, hpos⟩
      exact ((appendLayer_perm layer layers).append_right _).trans perm_middle.symm
  exact hfold kvCacheSpec [] nofun

theorem dealLayers_perm {groupSize : ℕ} (hsize : 0 < groupSize) {layers : List String}
    (hpos : 0 < layers.length) : (dealLayers groupSize layers).flatten.Perm layers := by
  have hgroups : 0 < (cdiv layers.length groupSize).toNat := by
    rw [cdiv_eq (by exact_mod_cast hsize)]
    have := Int.ediv_neg_of_neg_of_pos (a := -(layers.length : ℤ)) (b := groupSize) (by omega)
      (by exact_mod_cast hsize)
    omega
  exact Lib.flatMap_strided_perm layers hgroups

theorem chooseGroupSize_pos {lengths : List ℕ} {groupSize : ℕ}
    (h : chooseGroupSize lengths = .ok groupSize) (hpos : ∀ n ∈ lengths, 0 < n) : 0 < groupSize := by
  cases lengths with
  | nil => cases h
  | cons n ns =>
    obtain ⟨hn, hns⟩ := forall_mem_cons.1 hpos
    have hmin : 0 < ns.foldl min n := foldlRecOn ns min hn fun _ ha m hm => lt_min ha (hns m hm)
    have hmax : 0 < ns.foldl max n := foldlRecOn ns max hn fun _ ha _ _ => lt_max_of_lt_left ha
    cases h
    split_ifs
    · exact hmax
    · exact hmin

variable {grouped : List (List String)}

theorem layerNames_createKvCacheGroupSpecs (h : createKvCacheGroupSpecs kvCacheSpec grouped = .ok groups) :
    groups.map KVCacheGroupSpec.layerNames = grouped := by
  refine (map_eq_of_mapM (fun layerNames group hg => ?_) h).trans (List.map_id _)
  obtain ⟨layerSpecs, -, hg⟩ := bind_ok.1 hg
  obtain ⟨merged, -, hg⟩ := bind_ok.1 hg
  cases hg
  rfl

variable {group : KVCacheGroupSpec}

theorem mem_createKvCacheGroupSpecs (h : createKvCacheGroupSpecs kvCacheSpec grouped = .ok groups)
    (hgroup : group ∈ groups) :
    ∃ layerSpecs merged, group.layerNames.mapM (getSpec kvCacheSpec) = .ok layerSpecs ∧
      merge layerSpecs = .ok merged ∧ group.kvCacheSpec = .layer merged := by
  obtain ⟨layerNames, -, hg⟩ := exists_mem_of_mem_mapM h hgroup
  obtain ⟨layerSpecs, hspecs, hg⟩ := bind_ok.1 hg
  obtain ⟨merged, hmerge, hg⟩ := bind_ok.1 hg
  cases hg
  exact ⟨layerSpecs, merged, hspecs, hmerge, rfl⟩

/-- The groups of a dictionary: the layers of each are merged, or all layers are in one group and keep
their specs. -/
inductive Grouped (kvCacheSpec : LayerSpecs) : List KVCacheGroupSpec → Prop
  | merged {grouped : List (List String)} {groups : List KVCacheGroupSpec}
      (hperm : grouped.flatten.Perm (kvCacheSpec.map fst))
      (h : createKvCacheGroupSpecs kvCacheSpec grouped = .ok groups) : Grouped kvCacheSpec groups
  | uniformType (blockSize : ℕ) : Grouped kvCacheSpec
      [⟨kvCacheSpec.map fst, .uniformType ⟨blockSize, kvCacheSpec⟩⟩]

theorem Grouped.perm (h : Grouped kvCacheSpec groups) :
    (groups.flatMap KVCacheGroupSpec.layerNames).Perm (kvCacheSpec.map fst) := by
  cases h with
  | merged hperm h =>
    rw [flatMap_def, layerNames_createKvCacheGroupSpecs h]
    exact hperm
  | uniformType blockSize => simp

theorem getKvCacheGroupsUniformPageSize_grouped
    (h : getKvCacheGroupsUniformPageSize kvCacheSpec = .ok groups) : Grouped kvCacheSpec groups := by
  obtain ⟨groupSize, hsize, h⟩ := bind_ok.1 h
  obtain ⟨hperm, hpos⟩ := sameTypeLayers_spec kvCacheSpec
  have hlengths : ∀ layers ∈ (sameTypeLayers kvCacheSpec).map snd, 0 < layers.length := by
    intro layers hlayers
    obtain ⟨p, hp, rfl⟩ := mem_map.1 hlayers
    exact hpos p hp
  have hsize' := chooseGroupSize_pos hsize (forall_mem_map.2 hlengths)
  refine .merged (List.Perm.trans ?_ hperm) h
  rw [flatMap_def, flatten_flatten, map_map, ← flatMap_def, flatMap_map]
  exact Perm.flatMap_left _ fun p hp => dealLayers_perm hsize' (hpos p hp)

/-- What `get_kv_cache_groups` returns, and of what. -/
theorem getKvCacheGroups_grouped (h : getKvCacheGroups cfg kvCacheSpec = .ok groups) :
    ∃ specs, specsToGroup cfg kvCacheSpec = .ok specs ∧
      specs.map fst = kvCacheSpec.map fst ∧ Grouped specs groups := by
  obtain ⟨specs, hspecs, h⟩ := bind_ok.1 h
  have hkeys := keys_unifyIfDisabled hspecs
  by_cases hnil : specs = []
  · rw [if_pos hnil] at h
    cases h
    refine ⟨[], bind_ok.2 ⟨specs, hspecs, if_pos hnil⟩, by rw [← hkeys, hnil], ?_⟩
    exact @Grouped.merged [] [] [] (List.Perm.refl _) rfl
  rw [if_neg hnil] at h
  obtain ⟨uniform, huniform, h⟩ := bind_ok.1 h
  cases uniform with
  | true =>
    refine ⟨specs, bind_ok.2 ⟨specs, hspecs, ?_⟩, hkeys, .merged (by simp) h⟩
    rw [if_neg hnil, huniform]
    rfl
  | false =>
    obtain ⟨spec, hspec, h⟩ := bind_ok.1 h
    obtain ⟨oneType, htype, hspec⟩ := bind_ok.1 hspec
    have hused : ∀ {specs'}, (if oneType then .ok specs else unifyKvCacheSpecPageSize specs) =
        .ok specs' → specsToGroup cfg kvCacheSpec = .ok specs' := fun {specs'} hspecs' => by
      refine bind_ok.2 ⟨specs, hspecs, ?_⟩
      rw [if_neg hnil]
      exact bind_ok.2 ⟨false, huniform, bind_ok.2 ⟨oneType, htype, hspecs'⟩⟩
    cases oneType with
    | true =>
      obtain ⟨p, rest, rfl⟩ := exists_cons_of_ne_nil hnil
      cases hspec
      cases h
      exact ⟨_, hused rfl, hkeys, .uniformType _⟩
    | false =>
      cases hspec
      obtain ⟨specs', hunify, h⟩ := bind_ok.1 h
      exact ⟨specs', hused hunify, (keys_unifyKvCacheSpecPageSize hunify).trans hkeys,
        getKvCacheGroupsUniformPageSize_grouped h⟩

/-- A group whose layers keep their specs is the only one. -/
theorem Grouped.uniformType_unique (h : Grouped kvCacheSpec groups)
    (hgroup : group ∈ groups) {uniform : UniformTypeKVCacheSpecs}
    (huniform : group.kvCacheSpec = .uniformType uniform) :
    groups = [group] ∧ uniform.kvCacheSpecs = kvCacheSpec := by
  cases h with
  | merged hperm h =>
    obtain ⟨layerSpecs, merged, -, -, hmerged⟩ := mem_createKvCacheGroupSpecs h hgroup
    rw [hmerged] at huniform
    cases huniform
  | uniformType blockSize =>
    cases mem_singleton.1 hgroup
    cases huniform
    exact ⟨rfl, rfl⟩

/-! ### The page sizes of a group -/

/-- Specs that `merge` only takes for equal if their pages have the same size: full attention layers that
agree in the fields of `AttentionSpec` have the same `head_size_v`, and MLA layers with the same
`cache_dtype_str` agree in these fields. -/
structure SeesSizes (specs : List KVCacheSpec) : Prop where
  full : ∀ a ∈ specs, ∀ b ∈ specs, a.isMla = false → b.isMla = false → ∀ f g, a.full? = some f →
    b.full? = some g → f.toAttentionSpec = g.toAttentionSpec → f.headSizeV = g.headSizeV
  mla : ∀ a b, .mla a ∈ specs → .mla b ∈ specs → a.cacheDtypeStr = b.cacheDtypeStr →
    a.toAttentionSpec = b.toAttentionSpec

theorem SeesSizes.of_subset {specs specs' : List KVCacheSpec} (h : SeesSizes specs)
    (hsub : specs' ⊆ specs) : SeesSizes specs' :=
  ⟨fun a ha b hb => h.full a (hsub ha) b (hsub hb), fun a b ha hb => h.mla a b (hsub ha) (hsub hb)⟩

/-- The specs of the layers of a group. -/
def KVCacheGroupSpec.specsIn (group : KVCacheGroupSpec) (kvCacheSpec : LayerSpecs) : List KVCacheSpec :=
  (kvCacheSpec.filter fun layer => layer.1 ∈ group.layerNames).map snd

namespace KVCacheSpec

variable {spec merged : KVCacheSpec} {specs : List KVCacheSpec} {f : FullAttentionSpec}

@[simp] theorem asFull_eq_ok : spec.asFull = .ok f ↔ spec.full? = some f := by
  unfold asFull
  cases spec.full? <;> simp

theorem assert_eq_ok {p : Prop} [Decidable p] {msg : String} {u : Unit} :
    assert p msg = .ok u ↔ p := by
  unfold assert
  split_ifs with h <;> simp [h]

/-- The page of a layer with full attention. -/
theorem pageSizeBytes_of_full (hmla : spec.isMla = false)
    (hf : spec.full? = some f) : spec.pageSizeBytes = padPage f.realPageSizeBytes f.pageSizePadded := by
  cases spec with
  | full s | sinkFull s => cases hf; rfl
  | mla s => cases hmla
  | _ => cases hf

theorem realPageSizeBytes_congr {f g : FullAttentionSpec} (h : f.toAttentionSpec = g.toAttentionSpec)
    (hv : f.headSizeV = g.headSizeV) : padPage f.realPageSizeBytes f.pageSizePadded =
      padPage g.realPageSizeBytes g.pageSizePadded := by
  simp [FullAttentionSpec.realPageSizeBytes, h, hv]

theorem pageSizeBytes_of_mergeFull {cls : FullAttentionSpec → KVCacheSpec} {first : FullAttentionSpec}
    {firstSpec : KVCacheSpec} (hfirst : firstSpec.full? = some first) (hmem : firstSpec ∈ specs)
    (hcls : ∀ f, (cls f).isMla = false ∧ (cls f).full? = some f)
    (h : mergeFull cls first specs = .ok merged) (hsees : SeesSizes specs) :
    ∀ spec ∈ specs, spec.pageSizeBytes = merged.pageSizeBytes := by
  obtain ⟨fulls, hfulls, h⟩ := bind_ok.1 h
  obtain ⟨_, hmla, h⟩ := bind_ok.1 h
  obtain ⟨slidingWindow, -, h⟩ := bind_ok.1 h
  obtain ⟨attentionChunkSize, -, h⟩ := bind_ok.1 h
  obtain ⟨_, hsame, h⟩ := bind_ok.1 h
  obtain ⟨-, -, h⟩ := bind_ok.1 h
  cases h
  rw [assert_eq_ok] at hmla hsame
  intro spec hspec
  obtain ⟨f, hfmem, hf⟩ := exists_mem_of_mapM hfulls hspec
  rw [asFull_eq_ok] at hf
  rw [pageSizeBytes_of_full (hmla spec hspec) hf, pageSizeBytes_of_full (hcls _).1 (hcls _).2]
  exact realPageSizeBytes_congr (hsame f hfmem) (hsees.full spec hspec firstSpec hmem
    (hmla spec hspec) (hmla firstSpec hmem) f first hf hfirst (hsame f hfmem))

theorem pageSizeBytes_of_mergeMla {first : MLAAttentionSpec} (hmem : .mla first ∈ specs)
    (h : mergeMla first specs = .ok merged) (hsees : SeesSizes specs) :
    ∀ spec ∈ specs, spec.pageSizeBytes = merged.pageSizeBytes := by
  obtain ⟨mlas, hmlas, h⟩ := bind_ok.1 h
  obtain ⟨_, hone, h⟩ := bind_ok.1 h
  cases h
  rw [assert_eq_ok] at hone
  obtain ⟨dtypeStr, hdtype⟩ := length_eq_one_iff.1 hone
  have hstr : ∀ m, .mla m ∈ specs → m.cacheDtypeStr = dtypeStr := by
    intro m hm
    obtain ⟨m', hm', heq⟩ := exists_mem_of_mapM hmlas hm
    cases heq
    exact mem_singleton.1 (hdtype ▸ mem_dedup.2 (mem_map_of_mem hm'))
  intro spec hspec
  obtain ⟨m, hm⟩ := exists_ok_of_mapM hmlas hspec
  cases spec with
  | mla m' =>
    have hsame := (hstr m' hspec).trans (hstr first hmem).symm
    have hattention := hsees.mla m' first hspec hmem hsame
    simp [pageSizeBytes, MLAAttentionSpec.realPageSizeBytes, hsame, hattention]
  | _ => cases hm

/-- **The page of a merged spec is the page of each layer**, of specs whose sizes are compared. -/
theorem pageSizeBytes_of_merge (h : merge specs = .ok merged) (hsees : SeesSizes specs) :
    ∀ spec ∈ specs, spec.pageSizeBytes = merged.pageSizeBytes := by
  cases specs with
  | nil => cases h
  | cons first rest =>
    cases first with
    | full s =>
      exact pageSizeBytes_of_mergeFull rfl (.head _) (fun f => ⟨rfl, rfl⟩) h hsees
    | sinkFull s =>
      exact @pageSizeBytes_of_mergeFull _ _ (fun f => .sinkFull ⟨f, s.sinkLen⟩) _ _ rfl
        mem_cons_self (fun f => ⟨rfl, rfl⟩) h hsees
    | mla s => exact pageSizeBytes_of_mergeMla (.head _) h hsees
    | _ =>
      obtain ⟨_, hsame, h⟩ := bind_ok.1 h
      cases h
      rw [assert_eq_ok] at hsame
      exact fun spec hspec => by rw [hsame spec hspec]

end KVCacheSpec

theorem getSpec_eq_ok (hkeys : (kvCacheSpec.map fst).Nodup)
    (h : layer ∈ kvCacheSpec) : getSpec kvCacheSpec layer.1 = .ok layer.2 := by
  suffices kvCacheSpec.lookup layer.1 = some layer.2 by rw [getSpec, this]
  induction kvCacheSpec with
  | nil => cases h
  | cons p rest ih =>
    obtain ⟨hnotMem, hrest⟩ := nodup_cons.1 hkeys
    obtain ⟨name, spec⟩ := p
    rcases mem_cons.1 h with rfl | h
    · simp
    · have hne : layer.1 ≠ name := fun he => hnotMem (mem_map.2 ⟨layer, h, he⟩)
      simpa [lookup_cons, beq_false_of_ne hne] using ih hrest h

theorem mem_of_getSpec {layerName : String} {spec : KVCacheSpec}
    (h : getSpec kvCacheSpec layerName = .ok spec) : (layerName, spec) ∈ kvCacheSpec := by
  unfold getSpec at h
  split at h
  · next found hfound =>
    cases h
    obtain ⟨l₁, l₂, rfl, -⟩ := lookup_eq_some_iff.1 hfound
    simp
  · cases h

theorem Grouped.pageSizes (h : Grouped kvCacheSpec groups) (hkeys : (kvCacheSpec.map fst).Nodup)
    (hgroup : group ∈ groups) {merged : KVCacheSpec}
    (hmerged : group.kvCacheSpec = .layer merged) (hsees : SeesSizes (group.specsIn kvCacheSpec)) :
    ∀ spec ∈ group.specsIn kvCacheSpec, spec.pageSizeBytes = merged.pageSizeBytes := by
  intro spec hspec
  obtain ⟨layer, hfiltered, rfl⟩ := mem_map.1 hspec
  obtain ⟨hlayer, hname⟩ := mem_filter.1 hfiltered
  cases h with
  | merged hperm h =>
    obtain ⟨layerSpecs, merged', hspecs, hmerge, hlayer'⟩ := mem_createKvCacheGroupSpecs h hgroup
    cases hmerged.symm.trans hlayer'
    have hsub : layerSpecs ⊆ group.specsIn kvCacheSpec := by
      intro spec hspec
      obtain ⟨name, hmem, hname⟩ := exists_mem_of_mem_mapM hspecs hspec
      refine mem_map.2 ⟨(name, spec), mem_filter.2 ⟨mem_of_getSpec hname, ?_⟩, rfl⟩
      exact decide_eq_true hmem
    obtain ⟨spec, hspec, hget⟩ := exists_mem_of_mapM hspecs (of_decide_eq_true hname)
    rw [getSpec_eq_ok hkeys hlayer] at hget
    cases hget
    exact pageSizeBytes_of_merge hmerge (hsees.of_subset hsub) _ hspec
  | uniformType blockSize =>
    cases mem_singleton.1 hgroup
    cases hmerged

end LoptVllm.KVConfig
