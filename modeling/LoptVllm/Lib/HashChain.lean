import Mathlib.Data.List.Induction

/-!
# Hash chains

A list of contents is hashed one after another; the hash of each includes the hash of the one before
it, and that of the first includes a root.
-/

namespace LoptVllm.HashChain

open List

variable {δ κ : Type*}

/-- The hashes of the contents, each over its content and the hash before it. -/
def chain (H : δ → κ → δ) (root : δ) : List κ → List δ
  | [] => []
  | c :: cs => H root c :: chain H (H root c) cs

variable {H : δ → κ → δ} {root : δ}

@[simp] theorem length_chain (cs : List κ) : (chain H root cs).length = cs.length := by
  induction cs generalizing root with
  | nil => rfl
  | cons c cs ih => simp [chain, ih]

theorem chain_append (cs ds : List κ) :
    chain H root (cs ++ ds) = chain H root cs ++ chain H (cs.foldl H root) ds := by
  induction cs generalizing root with
  | nil => rfl
  | cons c cs ih => simp [chain, ih]

theorem getLast?_chain (cs : List κ) :
    (chain H root cs).getLast? = if cs = [] then none else some (cs.foldl H root) := by
  induction cs using reverseRecOn with
  | nil => rfl
  | append_singleton cs c _ => simp [chain_append, chain]

theorem getElem?_chain {cs : List κ} {i : ℕ} (hi : i < cs.length) :
    (chain H root cs)[i]? = some ((cs.take (i + 1)).foldl H root) := by
  induction cs generalizing root i with
  | nil => cases hi
  | cons c cs ih =>
    cases i with
    | zero => rfl
    | succ i => exact ih (Nat.lt_of_succ_lt_succ hi)

/-- Chains over different contents differ. -/
theorem chain_inj (hinj : ∀ p, Function.Injective (H p)) {cs ds : List κ} :
    chain H root cs = chain H root ds ↔ cs = ds := by
  refine ⟨fun h => ?_, fun h => h ▸ rfl⟩
  induction cs generalizing root ds with
  | nil => cases ds with
    | nil => rfl
    | cons d ds => cases h
  | cons c cs ih => cases ds with
    | nil => cases h
    | cons d ds =>
      obtain ⟨hcd, hrest⟩ := cons.inj h
      obtain rfl := hinj root hcd
      rw [ih hrest]

section

variable (hinj : Function.Injective2 H) (hroot : ∀ p c, H p c ≠ root)

include hinj hroot

/-- **The last hash determines the contents.** -/
theorem foldl_injective : Function.Injective (List.foldl H root) := by
  intro cs
  induction cs using reverseRecOn with
  | nil =>
    intro ds h
    cases ds using reverseRecOn with
    | nil => rfl
    | append_singleton ds d =>
      rw [foldl_append] at h
      exact absurd h.symm (hroot _ d)
  | append_singleton cs c ih =>
    intro ds h
    cases ds using reverseRecOn with
    | nil =>
      rw [foldl_append] at h
      exact absurd h (hroot _ c)
    | append_singleton ds d =>
      rw [foldl_append, foldl_append] at h
      obtain ⟨hp, rfl⟩ := hinj h
      rw [ih hp]

/-- Equal hashes of two chains are at the same place and have the same contents before them. -/
theorem getElem?_chain_eq_iff {cs ds : List κ} {i j : ℕ} (hi : i < cs.length)
    (hj : j < ds.length) : (chain H root cs)[i]? = (chain H root ds)[j]? ↔
      i = j ∧ cs.take (i + 1) = ds.take (j + 1) := by
  rw [getElem?_chain hi, getElem?_chain hj, Option.some_inj, (foldl_injective hinj hroot).eq_iff]
  refine ⟨fun h => ⟨?_, h⟩, And.right⟩
  have hlen := congrArg length h
  rw [length_take, length_take] at hlen
  omega

end

end LoptVllm.HashChain
