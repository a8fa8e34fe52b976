import Mathlib.Algebra.Order.Field.Basic
import Mathlib.Data.List.GetD
import Mathlib.Data.List.Sort
import Mathlib.Tactic.Linarith

/-! The median of a list. -/
namespace Partyline.Library

variable {K : Type*} [LinearOrder K]

/-- Half of the values are not above `m`, and half of them not below it. -/
structure IsMedian (values : List K) (m : K) : Prop where
  below : values.length ≤ 2 * values.countP (· ≤ m)
  above : values.length ≤ 2 * values.countP (m ≤ ·)

theorem insertionSort_congr {values values' : List K} (same : values.Perm values') :
    values.insertionSort (· ≤ ·) = values'.insertionSort (· ≤ ·) := by
  refine List.Perm.eq_of_pairwise' (List.pairwise_insertionSort _ _)
    (List.pairwise_insertionSort _ _) ?_
  exact ((List.perm_insertionSort _ _).trans same).trans (List.perm_insertionSort _ _).symm

section Sorted

variable {data : List K} (sorted : data.Pairwise (· ≤ ·)) {i : ℕ} (bound : i < data.length) {m : K}

include sorted bound

theorem countP_below (le : data[i] ≤ m) : i + 1 ≤ data.countP (· ≤ m) := by
  have front : ∀ x ∈ data.take (i + 1), decide (x ≤ m) = true := by
    intro x mem
    obtain ⟨j, small, rfl⟩ := List.mem_take_iff_getElem.mp mem
    have earlier : data[j] ≤ data[i] := by
      rcases Nat.lt_or_ge j i with less | more
      · exact List.pairwise_iff_getElem.mp sorted j i _ _ less
      · obtain rfl : j = i := by omega
        exact le_rfl
    exact decide_eq_true (earlier.trans le)
  calc i + 1 = (data.take (i + 1)).length := by
        rw [List.length_take]
        omega
    _ = (data.take (i + 1)).countP (· ≤ m) := (List.countP_eq_length.mpr front).symm
    _ ≤ data.countP (· ≤ m) := (List.take_sublist _ _).countP_le

theorem countP_above (le : m ≤ data[i]) : data.length - i ≤ data.countP (m ≤ ·) := by
  have back : ∀ x ∈ data.drop i, decide (m ≤ x) = true := by
    intro x mem
    obtain ⟨j, small, rfl⟩ := List.mem_drop_iff_getElem.mp mem
    have later : data[i] ≤ data[i + j] := by
      rcases Nat.eq_zero_or_pos j with rfl | more
      · exact le_rfl
      · exact List.pairwise_iff_getElem.mp sorted i (i + j) _ _ (by omega)
    exact decide_eq_true (le.trans later)
  calc data.length - i = (data.drop i).length := List.length_drop.symm
    _ = (data.drop i).countP (m ≤ ·) := (List.countP_eq_length.mpr back).symm
    _ ≤ data.countP (m ≤ ·) := (List.drop_sublist _ _).countP_le

end Sorted

variable [Field K]

def median (values : List K) : K :=
  let data := values.insertionSort (· ≤ ·)
  let n := data.length
  if n % 2 = 1 then data.getD (n / 2) 0
  else (data.getD (n / 2 - 1) 0 + data.getD (n / 2) 0) / 2

theorem median_congr {values values' : List K} (same : values.Perm values') :
    median values = median values' := by
  rw [median, median, insertionSort_congr same]

theorem median_isMedian [IsStrictOrderedRing K] {values : List K} (nonempty : values ≠ []) :
    IsMedian values (median values) := by
  have order := List.perm_insertionSort (· ≤ ·) values
  have sorted := List.pairwise_insertionSort (· ≤ ·) values
  obtain ⟨m, same⟩ : ∃ m, median values = m := ⟨_, rfl⟩
  rw [same]
  rw [median] at same
  generalize values.insertionSort (· ≤ ·) = data at order sorted same
  have length := order.length_eq
  have positive : 0 < data.length := by
    rw [length]
    exact List.length_pos_of_ne_nil nonempty
  have counts : data.length ≤ 2 * data.countP (· ≤ m) ∧ data.length ≤ 2 * data.countP (m ≤ ·) := by
    split_ifs at same with odd
    · have bound : data.length / 2 < data.length := by omega
      rw [List.getD_eq_getElem _ _ bound] at same
      have below := countP_below sorted bound same.le
      have above := countP_above sorted bound same.ge
      omega
    · have bound : data.length / 2 < data.length := by omega
      have bound' : data.length / 2 - 1 < data.length := by omega
      rw [List.getD_eq_getElem _ _ bound, List.getD_eq_getElem _ _ bound'] at same
      have rises : data[data.length / 2 - 1] ≤ data[data.length / 2] :=
        List.pairwise_iff_getElem.mp sorted _ _ bound' bound (by omega)
      have below := countP_below sorted bound' (m := m) (by linarith)
      have above := countP_above sorted bound (m := m) (by linarith)
      omega
  rw [order.countP_eq, order.countP_eq, length] at counts
  exact ⟨counts.1, counts.2⟩

end Partyline.Library
