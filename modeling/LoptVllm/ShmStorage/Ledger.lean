import Mathlib.Tactic.Ring

/-!
# Counting the uses of an object

An object is used by a writer and by `n` readers that share one counter. The writer counts a use
when it touches the object and when it puts the object into a request; each reader counts its touch
and its get of the object, but a touch is counted only if the counter is at least `n`.
-/

namespace LoptVllm.ShmStorage

open Nat

/-- The uses of an object. -/
structure Ledger where
  /-- What the readers have counted. -/
  count : ℕ
  /-- What the writer has counted for the requests that were sent. -/
  sent : ℕ
  /-- What the writer has counted for the request that is made. -/
  unsent : ℕ
  /-- The touches and gets that the readers still have to make. -/
  pending : ℕ
  /-- The gets among them. -/
  pendingGets : ℕ
  /-- The touches that the readers have made. -/
  touches : ℕ
  /-- How often the object is in the first request that has it; zero before this request is sent. -/
  firstUses : ℕ

namespace Ledger

variable {n : ℕ} {l : Ledger}

/-- The counters of an object agree with what is left to do. -/
structure Ok (n : ℕ) (l : Ledger) : Prop where
  used : 0 < l.sent + l.unsent
  gets_le : l.pendingGets ≤ l.pending
  fresh : l.firstUses = 0 → l.count = 0 ∧ l.sent = 0 ∧ l.pending = 0 ∧ l.touches = 0
  early : 0 < l.firstUses → l.count < n →
    l.count + l.pending + l.touches = n * (l.sent + l.firstUses) ∧ n ≤ l.count + l.pendingGets
  late : n ≤ l.count → l.count + l.pending = n * l.sent

/-- The readers have counted all that the writer has counted. -/
def Free (n : ℕ) (l : Ledger) : Prop := (l.sent + l.unsent) * n ≤ l.count

/-- The writer counts a use. -/
def increment (l : Ledger) : Ledger := { l with unsent := l.unsent + 1 }

/-- A request that has the object `uses` times is sent to the readers. -/
def send (n uses : ℕ) (l : Ledger) : Ledger :=
  { l with
    sent := l.sent + l.unsent
    unsent := 0
    pending := l.pending + n * (uses + uses)
    pendingGets := l.pendingGets + n * uses
    firstUses := if l.firstUses = 0 then uses else l.firstUses }

/-- A reader touches the object. -/
def touch (n : ℕ) (l : Ledger) : Ledger :=
  { l with
    count := if l.count ≥ n then l.count + 1 else l.count
    pending := l.pending - 1
    touches := l.touches + 1 }

/-- A reader gets the object. -/
def get (l : Ledger) : Ledger :=
  { l with
    count := l.count + 1
    pending := l.pending - 1
    pendingGets := l.pendingGets - 1 }

/-- An object that was put into the storage. -/
def new : Ledger := ⟨0, 0, 1, 0, 0, 0, 0⟩

theorem new_ok (hn : 0 < n) : new.Ok n where
  used := one_pos
  gets_le := le_refl _
  fresh _ := ⟨rfl, rfl, rfl, rfl⟩
  early h := absurd h (lt_irrefl 0)
  late h := absurd hn (not_lt.2 h)

namespace Ok

theorem increment (h : l.Ok n) : l.increment.Ok n where
  used := succ_pos _
  gets_le := h.gets_le
  fresh := h.fresh
  early := h.early
  late := h.late

/-- In its first request an object is counted once for each use; in another one twice, as it is
touched before. -/
theorem send (hn : 0 < n) (h : l.Ok n) {uses : ℕ}
    (hfirst : l.firstUses = 0 → 0 < uses ∧ l.unsent = uses)
    (hother : 0 < l.firstUses → l.unsent = uses + uses) : (l.send n uses).Ok n where
  used := Nat.add_pos_left h.used 0
  gets_le := Nat.add_le_add h.gets_le (mul_le_mul_left n (le_add_right _ _))
  fresh := by
    intro hzero
    by_cases hl : l.firstUses = 0
    · have huses : (if l.firstUses = 0 then uses else l.firstUses) = 0 := hzero
      rw [if_pos hl] at huses
      exact absurd huses (hfirst hl).1.ne'
    · have huses : (if l.firstUses = 0 then uses else l.firstUses) = 0 := hzero
      exact absurd ((if_neg hl).symm.trans huses) hl
  early := by
    intro _ hcount
    show l.count + (l.pending + n * (uses + uses)) + l.touches =
      n * (l.sent + l.unsent + if l.firstUses = 0 then uses else l.firstUses) ∧
        n ≤ l.count + (l.pendingGets + n * uses)
    by_cases hl : l.firstUses = 0
    · obtain ⟨hcount, hsent, hpending, htouches⟩ := h.fresh hl
      obtain ⟨hpos, hunsent⟩ := hfirst hl
      have hle : n ≤ n * uses := Nat.le_mul_of_pos_right n hpos
      rw [if_pos hl, hcount, hsent, hpending, htouches, hunsent]
      refine ⟨?_, by omega⟩
      simp [zero_add, add_zero]
    · obtain ⟨hsum, hgets⟩ := h.early (pos_of_ne_zero hl) hcount
      rw [if_neg hl, hother (pos_of_ne_zero hl)]
      refine ⟨?_, by omega⟩
      calc l.count + (l.pending + n * (uses + uses)) + l.touches
          = l.count + l.pending + l.touches + n * (uses + uses) := by ring
        _ = n * (l.sent + (uses + uses) + l.firstUses) := by
          rw [hsum]
          ring
  late := by
    intro hcount
    show l.count + (l.pending + n * (uses + uses)) = n * (l.sent + l.unsent)
    have hl : 0 < l.firstUses := by
      refine pos_of_ne_zero fun hl => ?_
      have hzero := (h.fresh hl).1
      have hcount' : n ≤ l.count := hcount
      omega
    rw [hother hl, ← add_assoc, h.late hcount]
    ring

theorem firstUses_pos (h : l.Ok n) (hpending : 0 < l.pending) : 0 < l.firstUses :=
  pos_of_ne_zero fun hl => absurd (h.fresh hl).2.2.1 hpending.ne'

theorem touch (h : l.Ok n) (hpending : l.pendingGets < l.pending) : (l.touch n).Ok n where
  used := h.used
  gets_le := le_sub_one_of_lt hpending
  fresh hl := absurd hl (h.firstUses_pos (by omega)).ne'
  early := by
    intro hl hcount
    unfold Ledger.touch at hl hcount ⊢
    simp only at hl hcount ⊢
    split_ifs at hcount ⊢ with hge
    · omega
    · obtain ⟨hsum, hgets⟩ := h.early hl hcount
      omega
  late := by
    intro hcount
    unfold Ledger.touch at hcount ⊢
    simp only at hcount ⊢
    split_ifs at hcount ⊢ with hge
    · have := h.late hge
      omega
    · exact absurd hcount hge

/-- The get after which the readers have counted `n` must come after all the touches that are not
counted. -/
theorem get (h : l.Ok n) (hpending : 0 < l.pendingGets)
    (htouches : l.count + 1 = n → l.touches = n * l.firstUses) : l.get.Ok n where
  used := h.used
  gets_le := Nat.sub_le_sub_right h.gets_le 1
  fresh hl := absurd hl (h.firstUses_pos (lt_of_lt_of_le hpending h.gets_le)).ne'
  early := by
    intro hl hcount
    have hle := h.gets_le
    unfold Ledger.get at hl hcount ⊢
    simp only at hl hcount ⊢
    obtain ⟨hsum, hgets⟩ := h.early hl (by omega)
    omega
  late := by
    intro hcount
    have hle := h.gets_le
    unfold Ledger.get at hcount ⊢
    simp only at hcount ⊢
    rcases lt_or_ge l.count n with hlt | hge
    · obtain ⟨hsum, -⟩ := h.early (h.firstUses_pos (by omega)) hlt
      rw [htouches (by omega), mul_add] at hsum
      omega
    · have := h.late hge
      omega

/-- If the readers have counted all uses, nothing is left to do. -/
theorem idle (hn : 0 < n) (h : l.Ok n) (hfree : l.Free n) : l.pending = 0 ∧ l.unsent = 0 := by
  unfold Free at hfree
  have hused := Nat.le_mul_of_pos_left n h.used
  have hlate := h.late (by omega)
  rw [add_mul, mul_comm l.sent] at hfree
  have hunsent : l.unsent * n = 0 := by omega
  refine ⟨by omega, ?_⟩
  rcases Nat.mul_eq_zero.1 hunsent with hzero | hzero
  · exact hzero
  · omega

/-- If nothing is left to do, the readers have counted all uses. -/
theorem free (h : l.Ok n) (hpending : l.pending = 0) (hunsent : l.unsent = 0) : l.Free n := by
  have hused := h.used
  have hle := h.gets_le
  unfold Free
  rcases lt_or_ge l.count n with hlt | hge
  · have hl : 0 < l.firstUses := by
      refine pos_of_ne_zero fun hl => ?_
      have hsent := (h.fresh hl).2.1
      omega
    obtain ⟨-, hgets⟩ := h.early hl hlt
    omega
  · have hlate := h.late hge
    rw [hunsent, add_zero, mul_comm]
    omega

end Ok

end Ledger

end LoptVllm.ShmStorage
