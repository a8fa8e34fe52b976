import Mathlib.Algebra.Order.Floor.Semiring
import Mathlib.Order.Monotone.Defs
import Mathlib.Tactic.Linarith
import Mathlib.Tactic.GCongr

/-! Linear interpolation between the terms of a finite sequence. -/
namespace Partyline.Library

variable {K : Type*} [Field K] [LinearOrder K] [IsStrictOrderedRing K] [FloorSemiring K]

/-- The value at `x` between the terms `a 0, …, a last`; behind the last one the next
term is the last one again. -/
def interpolate (a : ℕ → K) (last : ℕ) (x : K) : K :=
  a ⌊x⌋₊ + (a (min (⌊x⌋₊ + 1) last) - a ⌊x⌋₊) * (x - ⌊x⌋₊)

variable {a : ℕ → K} {last : ℕ} {x y : K}

theorem floor_le_last (below : x ≤ last) : ⌊x⌋₊ ≤ last :=
  (Nat.floor_mono below).trans_eq (Nat.floor_natCast last)

theorem interpolate_natCast (k : ℕ) : interpolate a last (k : K) = a k := by
  rw [interpolate, Nat.floor_natCast, sub_self, mul_zero, add_zero]

section Monotone

variable (mono : ∀ ⦃i j : ℕ⦄, i ≤ j → j ≤ last → a i ≤ a j)

include mono

theorem segment_rises (below : x ≤ last) : 0 ≤ a (min (⌊x⌋₊ + 1) last) - a ⌊x⌋₊ := by
  have next : a ⌊x⌋₊ ≤ a (min (⌊x⌋₊ + 1) last) :=
    mono (Nat.le_min.mpr ⟨Nat.le_succ _, floor_le_last below⟩) (Nat.min_le_right _ _)
  linarith

theorem le_interpolate (positive : 0 ≤ x) (below : x ≤ last) : a ⌊x⌋₊ ≤ interpolate a last x := by
  have part : 0 ≤ x - ⌊x⌋₊ := sub_nonneg.mpr (Nat.floor_le positive)
  have rise := mul_nonneg (segment_rises mono below) part
  rw [interpolate]
  linarith

theorem interpolate_le (below : x ≤ last) :
    interpolate a last x ≤ a (min (⌊x⌋₊ + 1) last) := by
  have part : x - ⌊x⌋₊ ≤ 1 := by
    have above := Nat.lt_floor_add_one x
    linarith
  have rise := mul_le_mul_of_nonneg_left part (segment_rises mono below)
  rw [interpolate]
  linarith

/-- Interpolation rises inside a segment, and from one segment to the next. -/
theorem interpolate_mono (positive : 0 ≤ x) (less : x ≤ y) (below : y ≤ last) :
    interpolate a last x ≤ interpolate a last y := by
  cases Nat.lt_or_eq_of_le (Nat.floor_mono less) with
  | inl earlier =>
    calc interpolate a last x
        ≤ a (min (⌊x⌋₊ + 1) last) := interpolate_le mono (less.trans below)
      _ ≤ a ⌊y⌋₊ := mono ((Nat.min_le_left _ _).trans earlier) (floor_le_last below)
      _ ≤ interpolate a last y := le_interpolate mono (positive.trans less) below
  | inr same =>
    have rise := segment_rises mono (less.trans below)
    rw [interpolate, interpolate, ← same]
    gcongr

theorem interpolate_bounds (positive : 0 ≤ x) (below : x ≤ last) :
    a 0 ≤ interpolate a last x ∧ interpolate a last x ≤ a last := by
  have first : interpolate a last ((0 : ℕ) : K) = a 0 := interpolate_natCast 0
  have ends : interpolate a last ((last : ℕ) : K) = a last := interpolate_natCast last
  rw [← first, ← ends]
  constructor
  · apply interpolate_mono mono _ _ below <;> simp [positive]
  · exact interpolate_mono mono positive below le_rfl

end Monotone

end Partyline.Library
