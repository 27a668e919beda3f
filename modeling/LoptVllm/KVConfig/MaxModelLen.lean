import LoptVllm.KVConfig.Spec
import LoptVllm.Lib.BinarySearch

/-!
# The greatest model length that fits

`estimate_max_model_len` and `_estimate_max_model_len_from_groups` search for the greatest
`max_model_len` whose memory usage fits. The functions that compute the usage read the length from
the config, so each probe assigns it there, and a `finally` clause puts the old value back.

The config is the state of a monad with exceptions; an exception keeps the state that it was raised
in.
-/

namespace LoptVllm.KVConfig

open BinarySearch Prod Int KVCacheSpec

/-! ### Memory usage -/

/-- `a // b`. -/
def floorDiv (a b : ℤ) : Except PyErr ℤ :=
  if b = 0 then .error .zeroDivisionError else .ok (a.fdiv b)

/-- `cdiv(a, b)`, where `b` may be zero. -/
def cdiv? (a b : ℤ) : Except PyErr ℤ := (floorDiv a (-b)).map (-·)

variable {α : Type}

/-- `max(f(x) for x in l)`. -/
def maxM (f : α → Except PyErr ℤ) (l : List α) : Except PyErr ℤ := do
  match ← l.mapM f with
  | [] => .error (.valueError "max() iterable argument is empty")
  | a :: as => return as.foldl max a

/-- `UniformTypeKVCacheSpecs.max_memory_usage_bytes`. -/
def UniformTypeKVCacheSpecs.maxMemoryUsageBytes (specs : UniformTypeKVCacheSpecs)
    (cfg : VllmConfig) : Except PyErr ℤ := do
  let numPages (spec : KVCacheSpec) : Except PyErr ℤ := do
    cdiv? (← spec.maxMemoryUsageBytes cfg) (← spec.pageSizeBytes)
  let maxNumPages ← maxM (fun p => numPages p.2) specs.kvCacheSpecs
  return maxNumPages * (← specs.pageSizeBytes)

/-- `max_memory_usage_bytes` of the spec of a group. -/
def GroupKVCacheSpec.maxMemoryUsageBytes (cfg : VllmConfig) : GroupKVCacheSpec → Except PyErr ℤ
  | layer spec => spec.maxMemoryUsageBytes cfg
  | uniformType specs => specs.maxMemoryUsageBytes cfg

/-- `max_memory_usage_bytes`. -/
def maxMemoryUsageBytes (kvCacheSpecs : List KVCacheSpec) (cfg : VllmConfig) : Except PyErr ℤ :=
  sumM (fun spec => spec.maxMemoryUsageBytes cfg) kvCacheSpecs

/-- `get_uniform_page_size`. -/
def getUniformPageSize (kvCacheSpecs : List GroupKVCacheSpec) : Except PyErr ℕ := do
  match (← kvCacheSpecs.mapM GroupKVCacheSpec.pageSizeBytes).dedup with
  | [pageSize] => return pageSize
  | _ => .error (.assertionError "")

variable (kvCacheGroups : List KVCacheGroupSpec)

/-- `max(len(group.layer_names) for group in kv_cache_groups)`. -/
def groupSize : ℕ :=
  (kvCacheGroups.map fun group => group.layerNames.length).foldr max 0

/-- `_max_memory_usage_bytes_from_groups`. -/
def maxMemoryUsageBytesFromGroups (cfg : VllmConfig) : Except PyErr ℤ :=
  match kvCacheGroups with
  | [] => .ok 0
  | [⟨_, .uniformType specs⟩] => sumM (fun p => p.2.maxMemoryUsageBytes cfg) specs.kvCacheSpecs
  | group :: groups => do
    let pageSize ← getUniformPageSize ((group :: groups).map KVCacheGroupSpec.kvCacheSpec)
    let blocksNeeded ← cdiv? (← group.kvCacheSpec.maxMemoryUsageBytes cfg) pageSize
    return groupSize (group :: groups) * pageSize * blocksNeeded

/-! ### The usage does not decrease with the length -/

/-- Both computations return, and the results are related, or both raise the same exception. -/
inductive RelResult {α : Type} (r : α → α → Prop) : Except PyErr α → Except PyErr α → Prop
  | ok {a b : α} : r a b → RelResult r (.ok a) (.ok b)
  | error (e : PyErr) : RelResult r (.error e) (.error e)

section Usage

variable {α β : Type} {r : α → α → Prop} {q : β → β → Prop} {x y : Except PyErr α}

theorem RelResult.bind {f g : α → Except PyErr β} (h : RelResult r x y)
    (hf : ∀ a b, r a b → RelResult q (f a) (g b)) : RelResult q (x >>= f) (y >>= g) := by
  cases h with
  | ok h => exact hf _ _ h
  | error e => exact .error e

theorem RelResult.map {f g : α → β} (h : RelResult r x y)
    (hf : ∀ a b, r a b → q (f a) (g b)) : RelResult q (x.map f) (y.map g) := by
  cases h with
  | ok h => exact .ok (hf _ _ h)
  | error e => exact .error e

theorem relResult_eq (x : Except PyErr α) : RelResult Eq x x := by
  cases x with
  | ok a => exact .ok rfl
  | error e => exact .error e

variable {l : List β}

theorem RelResult.mapM {f g : β → Except PyErr α}
    (h : ∀ a, RelResult r (f a) (g a)) : RelResult (List.Forall₂ r) (l.mapM f) (l.mapM g) := by
  induction l with
  | nil => exact .ok .nil
  | cons a l ih =>
    simp only [List.mapM_cons]
    exact (h a).bind fun _ _ hb => ih.bind fun _ _ hbs => .ok (.cons hb hbs)

variable {f g : β → Except PyErr ℤ}

theorem RelResult.sumM (h : ∀ a, RelResult (· ≤ ·) (f a) (g a)) : RelResult (· ≤ ·) (sumM f l) (sumM g l) :=
  (RelResult.mapM h).map fun _ _ => List.Forall₂.sum_le_sum

theorem foldl_max_mono {as bs : List ℤ} (h : List.Forall₂ (· ≤ ·) as bs) :
    ∀ {a b : ℤ}, a ≤ b → as.foldl max a ≤ bs.foldl max b := by
  induction h with
  | nil => exact id
  | cons hab _ ih => exact fun h => ih (max_le_max h hab)

theorem RelResult.maxM (h : ∀ a, RelResult (· ≤ ·) (f a) (g a)) :
    RelResult (· ≤ ·) (maxM f l) (maxM g l) := by
  refine (RelResult.mapM h).bind fun as bs hab => ?_
  cases hab with
  | nil => exact .error _
  | cons h hs => exact .ok (foldl_max_mono hs h)

theorem relResult_cdiv? {a a' : ℤ} (h : a ≤ a') (b : ℕ) :
    RelResult (· ≤ ·) (cdiv? a b) (cdiv? a' b) := by
  rcases Nat.eq_zero_or_pos b with rfl | hb
  · exact .error _
  · have := cdiv_mono (b := b) (by exact_mod_cast hb) h
    simp only [cdiv?, floorDiv, if_neg (show -(b : ℤ) ≠ 0 by omega)]
    exact .ok this

theorem relResult_usageOf (spec : KVCacheSpec) {m n : ℤ} (h : m ≤ n) (extra : ℕ) :
    RelResult (· ≤ ·) (spec.usageOf m extra) (spec.usageOf n extra) := by
  refine (relResult_eq _).bind fun a b hab => .ok ?_
  subst hab
  have hb : (0 : ℤ) < spec.blockSize := by exact_mod_cast spec.blockSize_pos
  have := cdiv_mono hb h
  exact mul_le_mul_of_nonneg_right (by omega) (natCast_nonneg a)

/-- The config with another `max_model_len`. -/
def VllmConfig.withMaxModelLen (cfg : VllmConfig) (modelLen : ℤ) : VllmConfig :=
  { cfg with maxModelLen := modelLen }

variable {m n : ℤ} (hmn : m ≤ n) (cfg : VllmConfig)

include hmn

theorem fullTokens_mono : fullTokens (cfg.withMaxModelLen m) ≤
    fullTokens (cfg.withMaxModelLen n) := by
  simp only [fullTokens, VllmConfig.withMaxModelLen]
  by_cases h : 1 < cfg.decodeContextParallelSize * cfg.prefillContextParallelSize
  · simpa [h] using cdiv_mono (natCast_pos.2 (Nat.zero_lt_of_lt h)) hmn
  · simpa [h] using hmn

/-- The usage of a layer. -/
theorem relResult_spec (spec : KVCacheSpec) :
    RelResult (· ≤ ·) (spec.maxMemoryUsageBytes (cfg.withMaxModelLen m))
      (spec.maxMemoryUsageBytes (cfg.withMaxModelLen n)) := by
  cases spec with
  | full s => exact relResult_usageOf _ (fullTokens_mono hmn cfg) 0
  | mla s => exact relResult_usageOf _ (fullTokens_mono hmn cfg) 0
  | sinkFull s => exact relResult_usageOf _ (fullTokens_mono hmn cfg) 0
  | chunkedLocal s => exact relResult_usageOf _ (min_le_min_left _ hmn) 0
  | slidingWindow s =>
    exact (relResult_eq _).bind fun _ _ _ => relResult_usageOf _ (min_le_min_left _ hmn) 1
  | mamba s => exact relResult_usageOf _ hmn 0
  | encoderOnly s => exact .ok le_rfl
  | cross s => exact relResult_usageOf _ le_rfl 0

theorem relResult_uniformType (specs : UniformTypeKVCacheSpecs) :
    RelResult (· ≤ ·) (specs.maxMemoryUsageBytes (cfg.withMaxModelLen m))
      (specs.maxMemoryUsageBytes (cfg.withMaxModelLen n)) := by
  refine (RelResult.maxM fun p => ?_).bind fun a b hab => (relResult_eq _).bind fun c d hcd => ?_
  · refine (relResult_spec hmn cfg p.2).bind fun a b hab => (relResult_eq _).bind fun c d hcd => ?_
    exact hcd ▸ relResult_cdiv? hab c
  · subst hcd
    exact .ok (mul_le_mul_of_nonneg_right hab (natCast_nonneg c))

theorem relResult_maxMemoryUsageBytes (kvCacheSpecs : List KVCacheSpec) :
    RelResult (· ≤ ·) (maxMemoryUsageBytes kvCacheSpecs (cfg.withMaxModelLen m))
      (maxMemoryUsageBytes kvCacheSpecs (cfg.withMaxModelLen n)) :=
  .sumM fun spec => relResult_spec hmn cfg spec

/-- `_max_memory_usage_bytes_from_groups` does not decrease. -/
theorem relResult_maxMemoryUsageBytesFromGroups (kvCacheGroups : List KVCacheGroupSpec) :
    RelResult (· ≤ ·) (maxMemoryUsageBytesFromGroups kvCacheGroups (cfg.withMaxModelLen m))
      (maxMemoryUsageBytesFromGroups kvCacheGroups (cfg.withMaxModelLen n)) := by
  unfold maxMemoryUsageBytesFromGroups
  split
  · exact .ok le_rfl
  · exact .sumM fun p => relResult_spec hmn cfg p.2
  · refine (relResult_eq _).bind fun pageSize _ heq => ?_
    subst heq
    have hspec : ∀ spec : GroupKVCacheSpec,
        RelResult (· ≤ ·) (spec.maxMemoryUsageBytes (cfg.withMaxModelLen m))
          (spec.maxMemoryUsageBytes (cfg.withMaxModelLen n))
      | .layer spec => relResult_spec hmn cfg spec
      | .uniformType specs => relResult_uniformType hmn cfg specs
    refine (hspec _).bind fun a b hab => (relResult_cdiv? hab pageSize).bind fun c d hcd => .ok ?_
    exact mul_le_mul_of_nonneg_left hcd (mul_nonneg (natCast_nonneg _) (natCast_nonneg _))

end Usage

/-! ### The search -/

/-- Computations that read and assign to the config. -/
abbrev ConfigM := EStateM PyErr VllmConfig

/-- `vllm_config.model_config.max_model_len = model_len`. -/
def setMaxModelLen (modelLen : ℤ) : ConfigM Unit :=
  modify fun cfg => { cfg with maxModelLen := modelLen }

/-- A call of a function that reads the config. -/
def readConfig (f : VllmConfig → Except PyErr α) : ConfigM α := fun cfg =>
  match f cfg with
  | .ok a => .ok a cfg
  | .error e => .error e cfg

section Search

variable (memoryUsage : VllmConfig → Except PyErr ℤ) (availableMemory : ℤ)

/-- `fits_in_memory` and `fits`. -/
def fitsInMemory (modelLen : ℤ) : ConfigM Bool := do
  setMaxModelLen modelLen
  let memoryNeeded ← readConfig memoryUsage
  return memoryNeeded ≤ availableMemory

/-- The loop of the search. -/
def searchLoop (left right result : ℤ) : ConfigM ℤ := if left ≤ right then do
    let mid := (left + right) / 2
    if ← fitsInMemory memoryUsage availableMemory mid then searchLoop (mid + 1) right mid
    else searchLoop left (mid - 1) result
  else pure result
termination_by (right + 1 - left).toNat

/-- What is done in `try`. -/
def searchUpTo (originalMaxModelLen : ℤ) : ConfigM ℤ := do
  if ← fitsInMemory memoryUsage availableMemory 1 then
    searchLoop memoryUsage availableMemory 1 originalMaxModelLen 1
  else return 0

/-- The search, for the function that computes the memory usage. -/
def estimateWith : ConfigM ℤ := do
  let originalMaxModelLen := (← get).maxModelLen
  tryFinally (searchUpTo memoryUsage availableMemory originalMaxModelLen)
    (setMaxModelLen originalMaxModelLen)

end Search

/-- `estimate_max_model_len`. -/
def estimateMaxModelLen (kvCacheSpec : List (String × KVCacheSpec)) (availableMemory : ℤ) :
    ConfigM ℤ :=
  estimateWith (maxMemoryUsageBytes (kvCacheSpec.map snd)) availableMemory

/-- `_estimate_max_model_len_from_groups`. -/
def estimateMaxModelLenFromGroups (kvCacheGroups : List KVCacheGroupSpec) (availableMemory : ℤ) :
    ConfigM ℤ :=
  estimateWith (maxMemoryUsageBytesFromGroups kvCacheGroups) availableMemory

/-! ### What the search does to the config -/

@[simp] theorem withMaxModelLen_withMaxModelLen (cfg : VllmConfig) (m n : ℤ) :
    (cfg.withMaxModelLen m).withMaxModelLen n = cfg.withMaxModelLen n := rfl

@[simp] theorem withMaxModelLen_self (cfg : VllmConfig) :
    cfg.withMaxModelLen cfg.maxModelLen = cfg := rfl

@[simp] theorem setMaxModelLen_apply (modelLen : ℤ) (cfg : VllmConfig) :
    setMaxModelLen modelLen cfg = .ok () (cfg.withMaxModelLen modelLen) := rfl

/-- A computation that changes no more of the config than the length. -/
def Probes (x : ConfigM α) : Prop :=
  ∀ cfg, ∃ m, (∃ a, x cfg = .ok a (cfg.withMaxModelLen m)) ∨
    ∃ e, x cfg = .error e (cfg.withMaxModelLen m)

variable {memoryUsage : VllmConfig → Except PyErr ℤ} {availableMemory : ℤ} {cfg : VllmConfig}

theorem Probes.pure (a : α) : Probes (Pure.pure a) := fun cfg =>
  ⟨cfg.maxModelLen, .inl ⟨a, rfl⟩⟩

theorem Probes.bind {α β : Type} {x : ConfigM α} {f : α → ConfigM β} (hx : Probes x)
    (hf : ∀ a, Probes (f a)) : Probes (x >>= f) := by
  intro cfg
  obtain ⟨m, ⟨a, ha⟩ | ⟨e, he⟩⟩ := hx cfg
  · obtain ⟨n, h⟩ := hf a (cfg.withMaxModelLen m)
    exact ⟨n, by simpa [Bind.bind, EStateM.bind, ha] using h⟩
  · exact ⟨m, .inr ⟨e, by simp [Bind.bind, EStateM.bind, he]⟩⟩

theorem probes_fitsInMemory (modelLen : ℤ) :
    Probes (fitsInMemory memoryUsage availableMemory modelLen) := by
  refine .bind (fun cfg => ⟨modelLen, .inl ⟨(), rfl⟩⟩) fun _ => .bind (fun cfg => ?_) fun _ => .pure _
  refine ⟨cfg.maxModelLen, ?_⟩
  cases h : memoryUsage cfg with
  | ok a => exact .inl ⟨a, by simp [readConfig, h]⟩
  | error e => exact .inr ⟨e, by simp [readConfig, h]⟩

theorem probes_searchLoop (left right result : ℤ) :
    Probes (searchLoop memoryUsage availableMemory left right result) := by
  fun_induction searchLoop memoryUsage availableMemory left right result with
  | case1 left right result hle mid ih₁ ih₂ =>
    refine .bind (probes_fitsInMemory _) fun fits => ?_
    cases fits
    · exact ih₂
    · exact ih₁
  | case2 left right result hgt => exact .pure result

theorem probes_searchUpTo (originalMaxModelLen : ℤ) :
    Probes (searchUpTo memoryUsage availableMemory originalMaxModelLen) := by
  refine .bind (probes_fitsInMemory _) fun fits => ?_
  cases fits
  · exact .pure 0
  · exact probes_searchLoop _ _ _

/-- What the `finally` clause makes of the outcome of the search. -/
theorem estimateWith_apply (cfg : VllmConfig) : estimateWith memoryUsage availableMemory cfg =
      match searchUpTo memoryUsage availableMemory cfg.maxModelLen cfg with
      | .ok n cfg' => .ok n (cfg'.withMaxModelLen cfg.maxModelLen)
      | .error e cfg' => .error e (cfg'.withMaxModelLen cfg.maxModelLen) := by
  show EStateM.map _ (tryFinally' _ _) cfg = _
  simp only [tryFinally', EStateM.map]
  cases searchUpTo memoryUsage availableMemory cfg.maxModelLen cfg <;> rfl

/-- **The config after the search.**  Whether the search returns or raises, it leaves the config as
it was. -/
theorem estimateWith_restores (memoryUsage : VllmConfig → Except PyErr ℤ) (availableMemory : ℤ)
    (cfg : VllmConfig) : (∃ n, estimateWith memoryUsage availableMemory cfg = .ok n cfg) ∨
      ∃ e, estimateWith memoryUsage availableMemory cfg = .error e cfg := by
  rw [estimateWith_apply]
  obtain ⟨m, ⟨n, hn⟩ | ⟨e, he⟩⟩ :=
    @probes_searchUpTo memoryUsage availableMemory cfg.maxModelLen cfg
  · exact .inl ⟨n, by simp [hn]⟩
  · exact .inr ⟨e, by simp [he]⟩

/-! ### What the search returns -/

/-- The memory is enough for requests of length `modelLen`. -/
def Fits (memoryUsage : VllmConfig → Except PyErr ℤ) (availableMemory : ℤ) (cfg : VllmConfig)
    (modelLen : ℤ) : Prop :=
  ∃ needed, memoryUsage (cfg.withMaxModelLen modelLen) = .ok needed ∧ needed ≤ availableMemory

/-- The lengths up to `max_model_len` that fit. -/
def fittingLens (memoryUsage : VllmConfig → Except PyErr ℤ) (availableMemory : ℤ)
    (cfg : VllmConfig) : Set ℤ :=
  fun n => 1 ≤ n ∧ n ≤ cfg.maxModelLen ∧ Fits memoryUsage availableMemory cfg n

/-- The usage is defined for each length up to `max_model_len` and does not decrease with it. -/
def NonDecreasing (memoryUsage : VllmConfig → Except PyErr ℤ) (cfg : VllmConfig) : Prop :=
  ∀ m n, 1 ≤ m → m ≤ n → n ≤ cfg.maxModelLen → ∃ a b,
    memoryUsage (cfg.withMaxModelLen m) = .ok a ∧ memoryUsage (cfg.withMaxModelLen n) = .ok b ∧
      a ≤ b

/-- A usage that is defined for one length and does not decrease. -/
theorem nonDecreasing_of_relResult {cfg : VllmConfig} {usage : ℤ}
    (h : ∀ m n, m ≤ n → RelResult (· ≤ ·) (memoryUsage (cfg.withMaxModelLen m))
      (memoryUsage (cfg.withMaxModelLen n)))
    (hok : memoryUsage cfg = .ok usage) : NonDecreasing memoryUsage cfg := by
  intro m n _ hmn hn
  have hbelow := h n cfg.maxModelLen hn
  have hrel := h m n hmn
  rw [withMaxModelLen_self, hok] at hbelow
  generalize memoryUsage (cfg.withMaxModelLen n) = y at hbelow hrel
  cases hbelow with
  | ok hb =>
    generalize memoryUsage (cfg.withMaxModelLen m) = x at hrel
    cases hrel with
    | ok hab => exact ⟨_, _, rfl, rfl, hab⟩

/-- The test that a probe makes. -/
def fitsAt (memoryUsage : VllmConfig → Except PyErr ℤ) (availableMemory : ℤ) (cfg : VllmConfig)
    (modelLen : ℤ) : Bool :=
  match memoryUsage (cfg.withMaxModelLen modelLen) with
  | .ok needed => needed ≤ availableMemory
  | .error _ => false

theorem fitsAt_eq_true {n : ℤ} :
    fitsAt memoryUsage availableMemory cfg n = true ↔ Fits memoryUsage availableMemory cfg n := by
  unfold fitsAt Fits
  cases memoryUsage (cfg.withMaxModelLen n) <;> simp

theorem NonDecreasing.downClosed (h : NonDecreasing memoryUsage cfg) :
    DownClosed (fitsAt memoryUsage availableMemory cfg) 1 cfg.maxModelLen := by
  intro m n hm hmn hn hfits
  obtain ⟨a, b, ha, hb, hab⟩ := h m n hm hmn hn
  simp [fitsAt, hb] at hfits
  simp [fitsAt, ha, hab.trans hfits]

/-- A probe of a length at which the usage is defined. -/
theorem fitsInMemory_apply {n m : ℤ} {needed : ℤ}
    (h : memoryUsage (cfg.withMaxModelLen n) = .ok needed) :
    fitsInMemory memoryUsage availableMemory n (cfg.withMaxModelLen m) =
      .ok (fitsAt memoryUsage availableMemory cfg n) (cfg.withMaxModelLen n) := by
  simp [fitsInMemory, fitsAt, Bind.bind, EStateM.bind, readConfig, h, Pure.pure, EStateM.pure]

/-- The loop is the binary search with that test. -/
theorem searchLoop_apply (h : NonDecreasing memoryUsage cfg) {left right result m : ℤ}
    (hleft : 1 ≤ left) (hright : right ≤ cfg.maxModelLen) :
    ∃ m', searchLoop memoryUsage availableMemory left right result (cfg.withMaxModelLen m) =
      .ok (bisect (fitsAt memoryUsage availableMemory cfg) left right result)
        (cfg.withMaxModelLen m') := by
  fun_induction bisect (fitsAt memoryUsage availableMemory cfg) left right result
    generalizing m with
  | case1 left right result hle hfits ih =>
    obtain ⟨m', hm'⟩ := ih (m := (left + right) / 2) (by omega) hright
    obtain ⟨a, -, ha, -, -⟩ := h ((left + right) / 2) _ (by omega) le_rfl (by omega)
    rw [searchLoop, if_pos hle]
    simp [Bind.bind, EStateM.bind, fitsInMemory_apply ha, hfits, hm']
  | case2 left right result hle hfits ih =>
    obtain ⟨m', hm'⟩ := ih (m := (left + right) / 2) hleft (by omega)
    obtain ⟨a, -, ha, -, -⟩ := h ((left + right) / 2) _ (by omega) le_rfl (by omega)
    rw [searchLoop, if_pos hle]
    simp [Bind.bind, EStateM.bind, fitsInMemory_apply ha, hfits, hm']
  | case3 left right result hgt =>
    refine ⟨m, ?_⟩
    rw [searchLoop, if_neg hgt]
    rfl

/-- **The greatest length that fits.**  For a usage that does not decrease with the length, the
search returns the greatest length up to `max_model_len` that fits, or 0 if none does, and leaves the
config as it was; both functions are this search for the usage that they compute. -/
theorem estimates_isGreatest (memoryUsage : VllmConfig → Except PyErr ℤ) (availableMemory : ℤ)
    (cfg : VllmConfig) (hlen : 0 < cfg.maxModelLen) (h : NonDecreasing memoryUsage cfg) :
    ∃ n, (IsGreatest (fittingLens memoryUsage availableMemory cfg) n ∨
        n = 0 ∧ ∀ m, m ∉ fittingLens memoryUsage availableMemory cfg) ∧
      estimateWith memoryUsage availableMemory cfg = .ok n cfg ∧
      (∀ specs, memoryUsage = maxMemoryUsageBytes (specs.map snd) →
        estimateMaxModelLen specs availableMemory cfg = .ok n cfg) ∧
      (∀ groups, memoryUsage = maxMemoryUsageBytesFromGroups groups →
        estimateMaxModelLenFromGroups groups availableMemory cfg = .ok n cfg) := by
  have hpassing : Passing (fitsAt memoryUsage availableMemory cfg) 1 cfg.maxModelLen =
      fittingLens memoryUsage availableMemory cfg := by
    funext n
    simp [Passing, fittingLens, fitsAt_eq_true]
  obtain ⟨a, -, ha, -, -⟩ := h 1 1 le_rfl le_rfl hlen
  have hone : fitsInMemory memoryUsage availableMemory 1 cfg =
      .ok (fitsAt memoryUsage availableMemory cfg 1) (cfg.withMaxModelLen 1) :=
    fitsInMemory_apply ha
  suffices hrun : ∃ n m, (IsGreatest (fittingLens memoryUsage availableMemory cfg) n ∨
      n = 0 ∧ ∀ m, m ∉ fittingLens memoryUsage availableMemory cfg) ∧
      searchUpTo memoryUsage availableMemory cfg.maxModelLen cfg = .ok n (cfg.withMaxModelLen m) by
    obtain ⟨n, m, hn, hrun⟩ := hrun
    have hestimate : estimateWith memoryUsage availableMemory cfg = .ok n cfg := by
      simp [estimateWith_apply, hrun]
    refine ⟨n, hn, hestimate, ?_, ?_⟩
    · rintro specs rfl
      exact hestimate
    · rintro groups rfl
      exact hestimate
  rw [← hpassing]
  cases hfits : fitsAt memoryUsage availableMemory cfg 1 with
  | true =>
    obtain ⟨m, hm⟩ := @searchLoop_apply _ availableMemory _ h _ _ 1 1 le_rfl le_rfl
    refine ⟨_, m, .inl (bisect_isGreatest h.downClosed hlen hfits), ?_⟩
    simpa [searchUpTo, Bind.bind, EStateM.bind, hone, hfits] using hm
  | false =>
    refine ⟨0, 1, .inr ⟨rfl, notMem_passing h.downClosed hfits⟩, ?_⟩
    simp [searchUpTo, Bind.bind, EStateM.bind, hone, hfits, Pure.pure, EStateM.pure]

/-- One full attention layer with blocks of 4 tokens, of which two fit. -/
theorem estimates_isGreatest_oneLayer :
    let cfg : VllmConfig := ⟨10, 10, 1, 1, 8, 0, none, false⟩
    let spec : KVCacheSpec := .full ⟨⟨4, 1, 2, ⟨"float16", 2⟩, none, by decide⟩, 2, none, none⟩
    let usage := maxMemoryUsageBytes [spec]
    0 < cfg.maxModelLen ∧ NonDecreasing usage cfg ∧
      ∃ n, (IsGreatest (fittingLens usage 70 cfg) n ∨ n = 0 ∧ ∀ m, m ∉ fittingLens usage 70 cfg) ∧
        estimateWith usage 70 cfg = .ok n cfg ∧
        (∀ specs, usage = maxMemoryUsageBytes (specs.map snd) →
          estimateMaxModelLen specs 70 cfg = .ok n cfg) ∧
        (∀ groups, usage = maxMemoryUsageBytesFromGroups groups →
          estimateMaxModelLenFromGroups groups 70 cfg = .ok n cfg) := by
  intro cfg spec usage
  have h : NonDecreasing usage cfg := @nonDecreasing_of_relResult _ _ 96
    (fun _ _ hmn => relResult_maxMemoryUsageBytes hmn cfg [spec]) (by decide)
  exact ⟨by decide, h, estimates_isGreatest usage 70 cfg (by decide) h⟩

/-- A group of one full attention layer and one with a window of six tokens. -/
theorem relResult_maxMemoryUsageBytesFromGroups_two :
    let cfg : VllmConfig := ⟨10, 10, 1, 1, 8, 0, none, false⟩
    let attention : AttentionSpec := ⟨4, 1, 2, ⟨"float16", 2⟩, none, by decide⟩
    let groups : List KVCacheGroupSpec := [⟨["full"], .layer (.full ⟨attention, 2, none, none⟩)⟩,
      ⟨["window"], .layer (.slidingWindow ⟨attention, 6⟩)⟩]
    (3 : ℤ) ≤ 10 ∧ RelResult (· ≤ ·) (maxMemoryUsageBytesFromGroups groups (cfg.withMaxModelLen 3))
      (maxMemoryUsageBytesFromGroups groups (cfg.withMaxModelLen 10)) := by
  intro cfg attention groups
  exact ⟨by decide, relResult_maxMemoryUsageBytesFromGroups (by decide) cfg groups⟩

end LoptVllm.KVConfig
