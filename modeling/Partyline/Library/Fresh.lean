import Mathlib.Data.List.Nodup
import Mathlib.Data.List.Perm.Subperm
import Mathlib.Logic.Function.Iterate

/-! A `while` loop, and what it takes to find a name that is not in use yet by trying
one candidate after another. -/
namespace Partyline.Library

section While

variable {σ : Type*} (test : σ → Bool) (body : σ → σ)

/-- `while test: body`, for as many tests as there is fuel. -/
def whileLoop : Nat → σ → Option σ
  | 0, _ => none
  | fuel + 1, state => if test state then whileLoop fuel (body state) else some state

variable {test body}

theorem whileLoop_eq_some {fuel : Nat} {state final : σ}
    (ends : whileLoop test body fuel state = some final) :
    ∃ turns, final = body^[turns] state ∧ test final = false ∧
      ∀ k < turns, test (body^[k] state) = true := by
  induction fuel generalizing state with
  | zero => simp [whileLoop] at ends
  | succ fuel ih =>
    rw [whileLoop] at ends
    split_ifs at ends with again
    · obtain ⟨turns, last, done, before⟩ := ih ends
      refine ⟨turns + 1, last, done, fun k less => ?_⟩
      cases k with
      | zero => exact again
      | succ k => exact before k (Nat.lt_of_succ_lt_succ less)
    · obtain rfl := Option.some.inj ends
      exact ⟨0, rfl, by simpa using again, fun k less => absurd less (Nat.not_lt_zero k)⟩

/-- A loop whose test fails after some turns ends, with the same state for all fuel that
is enough for these. -/
theorem whileLoop_ends {turns : Nat} {state : σ} (stops : test (body^[turns] state) = false) :
    ∃ final, ∀ fuel, turns < fuel → whileLoop test body fuel state = some final := by
  induction turns generalizing state with
  | zero =>
    refine ⟨state, fun fuel enough => ?_⟩
    obtain ⟨fuel, rfl⟩ := Nat.exists_eq_succ_of_ne_zero (Nat.ne_zero_of_lt enough)
    have done : test state = false := stops
    rw [whileLoop, done, if_neg Bool.false_ne_true]
  | succ turns ih =>
    obtain ⟨final, rest⟩ := ih stops
    by_cases again : test state = true
    · refine ⟨final, fun fuel enough => ?_⟩
      obtain ⟨fuel, rfl⟩ := Nat.exists_eq_succ_of_ne_zero (Nat.ne_zero_of_lt enough)
      rw [whileLoop, if_pos again]
      exact rest fuel (Nat.lt_of_succ_lt_succ enough)
    · refine ⟨state, fun fuel enough => ?_⟩
      obtain ⟨fuel, rfl⟩ := Nat.exists_eq_succ_of_ne_zero (Nat.ne_zero_of_lt enough)
      rw [whileLoop, if_neg again]

end While

section Candidates

variable {κ : Type*} {candidate : Nat → κ} (distinct : Function.Injective candidate)

include distinct

theorem le_of_taken {used : List κ} {k : Nat} (taken : ∀ i < k, candidate i ∈ used) :
    k ≤ used.length := by
  have inside : (List.range k).map candidate ⊆ used := by
    intro name mem
    obtain ⟨i, below, rfl⟩ := List.mem_map.mp mem
    exact taken i (List.mem_range.mp below)
  have shorter := ((List.nodup_range.map distinct).subperm inside).length_le
  rwa [List.length_map, List.length_range] at shorter

/-- Among one candidate more than there are names in use, one is free. -/
theorem exists_free (used : List κ) : ∃ i ≤ used.length, candidate i ∉ used := by
  by_contra! all
  have more : used.length + 1 ≤ used.length :=
    le_of_taken distinct fun i below => all i (Nat.le_of_lt_succ below)
  exact Nat.not_succ_le_self _ more

end Candidates

end Partyline.Library
