import Mathlib.Algebra.Ring.Nat
import Mathlib.Data.List.Sort

/-! Histograms of natural numbers: a list of counts, of which the one at `v` says how
often `v` was recorded. Written out, a histogram is the sorted list of what it records. -/
namespace Partyline.Library

/-- One more of `v`, in a histogram that is made long enough for it. -/
def bump (counts : List Nat) (v : Nat) : List Nat :=
  (counts ++ List.replicate (v + 1 - counts.length) 0).modify v (· + 1)

/-- What is recorded, in order, when the first count is that of `first`. -/
def expand (first : Nat) : List Nat → List Nat
  | [] => []
  | count :: counts => List.replicate count first ++ expand (first + 1) counts

variable {first : Nat} {counts : List Nat}

theorem expand_append (first : Nat) (counts more : List Nat) :
    expand first (counts ++ more) = expand first counts ++ expand (first + counts.length) more := by
  induction counts generalizing first with
  | nil => rfl
  | cons count counts ih =>
    rw [List.cons_append, expand, expand, ih, List.append_assoc, List.length_cons,
      Nat.add_assoc, Nat.add_comm 1]

theorem expand_replicate_zero (first k : Nat) : expand first (List.replicate k 0) = [] := by
  induction k generalizing first with
  | zero => rfl
  | succ k ih => rw [List.replicate_succ, expand, ih]; rfl

theorem expand_modify (first : Nat) {v : Nat} (inside : v < counts.length) :
    (expand first (counts.modify v (· + 1))).Perm ((first + v) :: expand first counts) := by
  induction counts generalizing first v with
  | nil => exact absurd inside (Nat.not_lt_zero v)
  | cons count counts ih =>
    cases v with
    | zero =>
      rw [List.modify_zero_cons, expand, expand, List.replicate_succ]
      exact List.Perm.refl _
    | succ v =>
      have rest := ih (first + 1) (Nat.lt_of_succ_lt_succ inside)
      rw [List.modify_succ_cons, expand, expand]
      refine (rest.append_left _).trans ?_
      rw [Nat.add_assoc, Nat.add_comm 1]
      exact List.perm_middle

theorem expand_bump (first : Nat) (counts : List Nat) (v : Nat) :
    (expand first (bump counts v)).Perm ((first + v) :: expand first counts) := by
  have inside : v < (counts ++ List.replicate (v + 1 - counts.length) 0).length := by
    rw [List.length_append, List.length_replicate]
    omega
  have padded : expand first (counts ++ List.replicate (v + 1 - counts.length) 0) =
      expand first counts := by
    rw [expand_append, expand_replicate_zero, List.append_nil]
  rw [← padded]
  exact expand_modify first inside

theorem le_of_mem_expand {v : Nat} (mem : v ∈ expand first counts) : first ≤ v := by
  induction counts generalizing first with
  | nil => exact absurd mem List.not_mem_nil
  | cons count counts ih =>
    cases List.mem_append.mp mem with
    | inl here => exact (List.eq_of_mem_replicate here).ge
    | inr later => exact Nat.le_of_succ_le (ih later)

theorem expand_sorted (first : Nat) (counts : List Nat) :
    (expand first counts).Pairwise (· ≤ ·) := by
  induction counts generalizing first with
  | nil => exact List.Pairwise.nil
  | cons count counts ih =>
    rw [expand, List.pairwise_append]
    refine ⟨?_, ih (first + 1), fun x left y right => ?_⟩
    · exact List.pairwise_replicate.mpr (.inr (Nat.le_refl first))
    · rw [List.eq_of_mem_replicate left]
      exact Nat.le_of_succ_le (le_of_mem_expand right)

theorem length_expand (first : Nat) (counts : List Nat) :
    (expand first counts).length = counts.sum := by
  induction counts generalizing first with
  | nil => rfl
  | cons count counts ih =>
    rw [expand, List.length_append, List.length_replicate, ih, List.sum_cons]

theorem sum_expand (first : Nat) (counts : List Nat) :
    (expand first counts).sum = ((counts.zipIdx first).map fun entry => entry.2 * entry.1).sum := by
  induction counts generalizing first with
  | nil => rfl
  | cons count counts ih =>
    rw [expand, List.sum_append_nat, List.sum_replicate_nat, ih, List.zipIdx_cons, List.map_cons,
      List.sum_cons, Nat.mul_comm]

theorem expand_eq_mergeSort {xs : List Nat} (records : (expand 0 counts).Perm xs) :
    expand 0 counts = xs.mergeSort (· ≤ ·) := by
  apply List.Perm.eq_of_sortedLE (expand_sorted 0 counts).sortedLE List.sortedLE_mergeSort
  exact records.trans (List.mergeSort_perm xs _).symm

end Partyline.Library
