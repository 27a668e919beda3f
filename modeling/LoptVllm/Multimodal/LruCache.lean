import LoptVllm.Lib.OrderedDict
import Mathlib.Algebra.Ring.Nat

/-!
# Caches with a bounded size

What an LRU cache holds depends on the keys and the sizes of what is stored, and not on the values.
-/

namespace LoptVllm.Multimodal

/-- What the caches raise. -/
inductive CacheError
  | valueError
  | runtimeError
  | assertionError
  deriving DecidableEq

/-- A call returns a value, raises an exception, or does not end. -/
inductive Outcome (σ α : Type)
  | ok (value : α) (state : σ)
  | raised (e : CacheError) (state : σ)
  | diverges

/-- A cache whose state depends on the keys and the sizes of the values. -/
structure SizedCache (κ : Type) where
  State : Type
  /-- `key in cache`. -/
  contains : State → κ → Bool
  /-- `cache.touch(key)`. -/
  touch : State → κ → State
  /-- The change that `cache.get(key)` makes, if the key is there. -/
  get : State → κ → State
  /-- `cache[key] = value`, for a value of this size. -/
  setItem : State → κ → ℕ → Outcome State Unit

/-! ### The LRU cache -/

variable {κ : Type}

/-- The sizes of the values, and the keys from the least to the most recently used one. -/
structure LruCache (κ : Type) where
  sizes : OrderedDict κ ℕ
  order : List κ

namespace LruCache

/-- `LRUCache(capacity)`. -/
def new : LruCache κ := ⟨∅, []⟩

/-- `currsize`. -/
def currsize (sizes : OrderedDict κ ℕ) : ℕ := sizes.values.sum

variable [DecidableEq κ]

/-- `touch`. A key that is not in the order is added to it. -/
def touch (c : LruCache κ) (key : κ) : LruCache κ := { c with order := c.order.erase key ++ [key] }

/-- The loop `while currsize + size > maxsize: popitem()`. If the least recently used key is not in
the cache, then `popitem` removes nothing, and the loop does not end. -/
def evict (capacity size : ℕ) (sizes : OrderedDict κ ℕ) : List κ → Outcome (LruCache κ) Unit
  | [] =>
    if currsize sizes + size > capacity then .raised .runtimeError ⟨sizes, []⟩
    else .ok () ⟨sizes, []⟩
  | lruKey :: order =>
    if currsize sizes + size > capacity then
      if lruKey ∈ sizes then evict capacity size (sizes.erase lruKey) order
      else .diverges
    else .ok () ⟨sizes, lruKey :: order⟩

/-- `cache[key] = value`. -/
def setItem (capacity : ℕ) (c : LruCache κ) (key : κ) (size : ℕ) : Outcome (LruCache κ) Unit :=
  if size > capacity then .raised .valueError c
  else
    match evict capacity size c.sizes c.order with
    | .ok _ c => .ok () (LruCache.touch { c with sizes := c.sizes.setItem key size } key)
    | .raised e c => .raised e c
    | .diverges => .diverges

end LruCache

/-- `LRUCache(capacity)`, with what `cachetools` documents of its base class. -/
def lruCache (κ : Type) [DecidableEq κ] (capacity : ℕ) : SizedCache κ where
  State := LruCache κ
  contains c key := decide (key ∈ c.sizes)
  touch := LruCache.touch
  get := LruCache.touch
  setItem := LruCache.setItem capacity

end LoptVllm.Multimodal
