import Mathlib.Data.List.Count
import Mathlib.Data.List.Perm.Basic
import Mathlib.Data.Nat.ModEq

/-! Numbers below a bound, in steps from a first one, and that none is lost and none
counted twice when they are spread over the remainders. -/
namespace Partyline.Library

/-- `first`, `first + step`, and so on below the bound. -/
def strided (bound step first : Nat) : List Nat :=
  if first < bound then
    (List.range (1 + (bound - 1 - first) / step)).map fun k => first + k * step
  else []

variable {bound step first : Nat}

theorem strided_of_le (done : bound ≤ first) : strided bound step first = [] :=
  if_neg (Nat.not_lt.mpr done)

theorem strided_next (positive : 0 < step) (below : first < bound) :
    strided bound step first = first :: strided bound step (first + step) := by
  have shift (k : Nat) : first + (k + 1) * step = first + step + k * step := by
    rw [Nat.succ_mul]
    omega
  unfold strided
  rw [if_pos below, Nat.add_comm 1, List.range_succ_eq_map, List.map_cons, List.map_map]
  simp only [Function.comp_def, Nat.succ_eq_add_one, shift, Nat.zero_mul, Nat.add_zero]
  by_cases next : first + step < bound
  · have split : bound - 1 - first = bound - 1 - (first + step) + step := by omega
    rw [if_pos next, split, Nat.add_div_right _ positive, Nat.add_comm 1]
  · have last : bound - 1 - first < step := by omega
    rw [if_neg next, Nat.div_eq_of_lt last]
    rfl

theorem strided_succ (small : first < step) : strided (bound + 1) step first =
    strided bound step first ++ if bound % step = first then [bound] else [] := by
  rcases lt_trichotomy first bound with below | rfl | above
  · have next : bound - first = bound - 1 - first + 1 := by omega
    have divides : step ∣ bound - 1 - first + 1 ↔ bound % step = first := by
      rw [← next, ← Nat.modEq_iff_dvd' below.le, Nat.ModEq, Nat.mod_eq_of_lt small]
      exact eq_comm
    unfold strided
    rw [if_pos below, if_pos (by omega), Nat.add_sub_cancel, next, Nat.succ_div, ← Nat.add_assoc]
    by_cases here : bound % step = first
    · have last : first + (1 + (bound - 1 - first) / step) * step = bound := by
        have whole : (1 + (bound - 1 - first) / step) * step = bound - 1 - first + 1 := by
          have quotient := Nat.succ_div (a := bound - 1 - first) (b := step)
          rw [if_pos (divides.mpr here)] at quotient
          rw [Nat.add_comm 1, ← quotient]
          exact Nat.div_mul_cancel (divides.mpr here)
        omega
      rw [if_pos (divides.mpr here), if_pos here, List.range_succ, List.map_append,
        List.map_singleton, last]
    · rw [if_neg (mt divides.mp here), if_neg here, Nat.add_zero, List.append_nil]
  · simp [strided, Nat.mod_eq_of_lt small]
  · have less : bound < step := above.trans small
    have other : bound % step ≠ first := by
      rw [Nat.mod_eq_of_lt less]
      exact above.ne
    rw [strided_of_le above, strided_of_le above.le, if_neg other, List.append_nil]

theorem strided_eq_filter (small : first < step) (bound : Nat) :
    strided bound step first = (List.range bound).filter fun n => n % step = first := by
  induction bound with
  | zero => exact strided_of_le (Nat.zero_le first)
  | succ bound ih =>
    rw [strided_succ small, ih, List.range_succ, List.filter_append]
    by_cases here : bound % step = first <;> simp [here]

theorem buckets_perm {α β : Type*} [DecidableEq β] (bucket : α → β) (xs : List α) {bs : List β}
    (distinct : bs.Nodup) :
    (bs.flatMap fun b => xs.filter fun x => bucket x = b).Perm
      (xs.filter fun x => bucket x ∈ bs) := by
  induction bs with
  | nil => simp
  | cons b bs ih =>
    obtain ⟨new, distinct⟩ := List.nodup_cons.mp distinct
    have here : (xs.filter fun x => bucket x ∈ b :: bs).filter (fun x => bucket x = b) =
        xs.filter fun x => bucket x = b := by
      rw [List.filter_filter]
      refine List.filter_congr fun x _ => ?_
      by_cases same : bucket x = b <;> simp [same]
    have others : (xs.filter fun x => bucket x ∈ b :: bs).filter (fun x => !decide (bucket x = b)) =
        xs.filter fun x => bucket x ∈ bs := by
      rw [List.filter_filter]
      refine List.filter_congr fun x _ => ?_
      by_cases same : bucket x = b
      · simp [same, new]
      · simp [same]
    rw [List.flatMap_cons]
    refine ((ih distinct).append_left _).trans ?_
    rw [← here, ← others]
    exact List.filter_append_perm _ _

theorem remainders_perm (positive : 0 < step) (xs : List Nat) :
    ((List.range step).flatMap fun offset => xs.filter fun n => n % step = offset).Perm xs := by
  have all : (xs.filter fun n => n % step ∈ List.range step) = xs := by
    refine List.filter_eq_self.mpr fun n _ => ?_
    simpa using Nat.mod_lt n positive
  have parts := buckets_perm (· % step) xs (List.nodup_range (n := step))
  rwa [all] at parts

end Partyline.Library
