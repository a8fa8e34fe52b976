import Mathlib.Data.List.Sort
import Mathlib.Data.Rat.Floor
import Partyline.Library.Interpolation

/-! `percentile` of `benchmark.py`, in exact arithmetic. -/
namespace Partyline.Benchmark

open Library

/-- `int` of a number, which rounds towards zero. -/
def truncate (x : ℚ) : ℤ := if 0 ≤ x then ⌊x⌋ else ⌈x⌉

inductive PyError where
  | indexError
deriving DecidableEq

/-- `xs[index]`, where a negative index counts from the end. -/
def getItem (xs : List ℚ) (index : ℤ) : Except PyError ℚ :=
  let index := if index < 0 then index + xs.length else index
  if index < 0 then .error .indexError
  else match xs[index.toNat]? with
    | some x => .ok x
    | none => .error .indexError

def lowerIndex (samples : List ℚ) (fraction : ℚ) : ℤ :=
  truncate ((samples.length - 1) * fraction)

def upperIndex (samples : List ℚ) (fraction : ℚ) : ℤ :=
  min (lowerIndex samples fraction + 1) (samples.length - 1)

def percentile (samples : List ℚ) (fraction : ℚ) : Except PyError (Option ℚ) :=
  if samples = [] then .ok none
  else do
    let ordered := samples.mergeSort (· ≤ ·)
    let position := (ordered.length - 1) * fraction
    let lower := lowerIndex ordered fraction
    let upper := upperIndex ordered fraction
    return some ((← getItem ordered lower) +
      ((← getItem ordered upper) - (← getItem ordered lower)) * (position - lower))

theorem getItem_natCast {xs : List ℚ} {k : ℕ} (inside : k < xs.length) :
    getItem xs k = .ok xs[k] := by
  have positive : ¬ (k : ℤ) < 0 := by omega
  rw [getItem, if_neg positive, if_neg positive, Int.toNat_natCast, List.getElem?_eq_getElem inside]

section Sample

variable {samples : List ℚ} {f g : ℚ}

theorem position_range (nonempty : samples ≠ []) (positive : 0 ≤ f) (most : f ≤ 1) :
    0 ≤ ((samples.length : ℚ) - 1) * f ∧
      ((samples.length : ℚ) - 1) * f ≤ ((samples.length - 1 : ℕ) : ℚ) := by
  have length : 1 ≤ samples.length := List.length_pos_of_ne_nil nonempty
  rw [Nat.cast_sub length, Nat.cast_one]
  have nonneg : 0 ≤ (samples.length : ℚ) - 1 := by
    have cast : (1 : ℚ) ≤ samples.length := by exact_mod_cast length
    linarith
  exact ⟨mul_nonneg nonneg positive, mul_le_of_le_one_right nonneg most⟩

theorem lowerIndex_eq (nonempty : samples ≠ []) (positive : 0 ≤ f) (most : f ≤ 1) :
    lowerIndex samples f = (⌊((samples.length : ℚ) - 1) * f⌋₊ : ℕ) := by
  have nonneg := (position_range nonempty positive most).1
  rw [lowerIndex, truncate, if_pos nonneg]
  exact (Int.natCast_floor_eq_floor nonneg).symm

theorem upperIndex_eq (nonempty : samples ≠ []) (positive : 0 ≤ f) (most : f ≤ 1) :
    upperIndex samples f =
      (min (⌊((samples.length : ℚ) - 1) * f⌋₊ + 1) (samples.length - 1) : ℕ) := by
  have length : 1 ≤ samples.length := List.length_pos_of_ne_nil nonempty
  rw [upperIndex, lowerIndex_eq nonempty positive most]
  omega

def term (samples : List ℚ) (k : ℕ) : ℚ := (samples.mergeSort (· ≤ ·)).getD k 0

theorem term_eq {k : ℕ} (inside : k < (samples.mergeSort (· ≤ ·)).length) :
    (samples.mergeSort (· ≤ ·))[k] = term samples k := by
  rw [term, List.getD_eq_getElem?_getD, List.getElem?_eq_getElem inside, Option.getD_some]

theorem term_mono (nonempty : samples ≠ []) ⦃i j : ℕ⦄ (less : i ≤ j) (below : j ≤ samples.length - 1) :
    term samples i ≤ term samples j := by
  have length : 1 ≤ samples.length := List.length_pos_of_ne_nil nonempty
  have sorted : (samples.mergeSort (· ≤ ·)).SortedLE := List.sortedLE_mergeSort
  have right : j < (samples.mergeSort (· ≤ ·)).length := by
    rw [List.length_mergeSort]
    omega
  rw [← term_eq right, ← term_eq (Nat.lt_of_le_of_lt less right)]
  exact sorted.getElem_le_getElem_of_le less

/-- Within the fractions it is called with, `percentile` interpolates the ordered samples. -/
theorem percentile_eq (nonempty : samples ≠ []) (positive : 0 ≤ f) (most : f ≤ 1) :
    percentile samples f = .ok (some (interpolate (term samples) (samples.length - 1)
      (((samples.length : ℚ) - 1) * f))) := by
  have length : 1 ≤ samples.length := List.length_pos_of_ne_nil nonempty
  have below := floor_le_last (position_range nonempty positive most).2
  have ordered : samples.mergeSort (· ≤ ·) ≠ [] := by
    rw [← List.length_pos_iff_ne_nil, List.length_mergeSort]
    exact length
  have inside : ⌊((samples.length : ℚ) - 1) * f⌋₊ < (samples.mergeSort (· ≤ ·)).length := by
    rw [List.length_mergeSort]
    omega
  have next : min (⌊((samples.length : ℚ) - 1) * f⌋₊ + 1) (samples.length - 1) <
      (samples.mergeSort (· ≤ ·)).length := by
    rw [List.length_mergeSort]
    omega
  rw [percentile, if_neg nonempty]
  dsimp only
  rw [lowerIndex_eq ordered positive most, upperIndex_eq ordered positive most,
    List.length_mergeSort, getItem_natCast inside, getItem_natCast next, term_eq, term_eq]
  rfl

theorem exists_term {s : ℚ} (mem : s ∈ samples) : ∃ k ≤ samples.length - 1, term samples k = s := by
  obtain ⟨k, inside, same⟩ := List.getElem_of_mem (List.mem_mergeSort.mpr mem)
  rw [term_eq] at same
  rw [List.length_mergeSort] at inside
  exact ⟨k, by omega, same⟩

theorem term_mem (nonempty : samples ≠ []) {k : ℕ} (below : k ≤ samples.length - 1) :
    term samples k ∈ samples := by
  have length : 1 ≤ samples.length := List.length_pos_of_ne_nil nonempty
  have inside : k < (samples.mergeSort (· ≤ ·)).length := by
    rw [List.length_mergeSort]
    omega
  rw [← term_eq inside]
  exact List.mem_mergeSort.mp (List.getElem_mem inside)

theorem min?_samples (nonempty : samples ≠ []) : samples.min? = some (term samples 0) := by
  rw [List.min?_eq_some_iff]
  refine ⟨term_mem nonempty (Nat.zero_le _), fun s mem => ?_⟩
  obtain ⟨k, below, rfl⟩ := exists_term mem
  exact term_mono nonempty (Nat.zero_le k) below

theorem max?_samples (nonempty : samples ≠ []) :
    samples.max? = some (term samples (samples.length - 1)) := by
  rw [List.max?_eq_some_iff]
  refine ⟨term_mem nonempty le_rfl, fun s mem => ?_⟩
  obtain ⟨k, below, rfl⟩ := exists_term mem
  exact term_mono nonempty below le_rfl

theorem percentile_perm {other : List ℚ} (perm : other.Perm samples) (fraction : ℚ) :
    percentile other fraction = percentile samples fraction := by
  have same : other.mergeSort (· ≤ ·) = samples.mergeSort (· ≤ ·) := by
    apply List.Perm.eq_of_sortedLE List.sortedLE_mergeSort List.sortedLE_mergeSort
    exact (List.mergeSort_perm _ _).trans (perm.trans (List.mergeSort_perm _ _).symm)
  have empty : other = [] ↔ samples = [] := by
    rw [← List.length_eq_zero_iff, ← List.length_eq_zero_iff, perm.length_eq]
  simp only [percentile, same, empty]

end Sample

/-- An index that needs no wrapping and is there. -/
def InRange (samples : List ℚ) (index : ℤ) : Prop := 0 ≤ index ∧ index < samples.length

theorem percentile_monotone {samples : List ℚ} (nonempty : samples ≠ []) {f g : ℚ} (positive : 0 ≤ f)
    (less : f ≤ g) (most : g ≤ 1) :
    ∃ low high p q, samples.min? = some low ∧ samples.max? = some high ∧
      percentile samples f = .ok (some p) ∧ percentile samples g = .ok (some q) ∧
      low ≤ p ∧ p ≤ q ∧ q ≤ high ∧
      (InRange samples (lowerIndex samples f) ∧ InRange samples (upperIndex samples f)) ∧
      (InRange samples (lowerIndex samples g) ∧ InRange samples (upperIndex samples g)) ∧
      ∀ other : List ℚ, other.Perm samples → percentile other f = percentile samples f := by
  have length : 1 ≤ samples.length := List.length_pos_of_ne_nil nonempty
  have range (h : ℚ) (least : 0 ≤ h) (h_most : h ≤ 1) :
      InRange samples (lowerIndex samples h) ∧ InRange samples (upperIndex samples h) := by
    have below := floor_le_last (position_range nonempty least h_most).2
    rw [lowerIndex_eq nonempty least h_most, upperIndex_eq nonempty least h_most, InRange, InRange]
    omega
  obtain ⟨f_positive, f_below⟩ := position_range nonempty positive (less.trans most)
  obtain ⟨g_positive, g_below⟩ := position_range nonempty (positive.trans less) most
  have rises : ((samples.length : ℚ) - 1) * f ≤ (samples.length - 1) * g := by
    apply mul_le_mul_of_nonneg_left less
    have cast : (1 : ℚ) ≤ samples.length := by exact_mod_cast length
    linarith
  exact ⟨_, _, _, _, min?_samples nonempty, max?_samples nonempty,
    percentile_eq nonempty positive (less.trans most), percentile_eq nonempty (positive.trans less) most,
    (interpolate_bounds (term_mono nonempty) f_positive f_below).1,
    interpolate_mono (term_mono nonempty) f_positive rises g_below,
    (interpolate_bounds (term_mono nonempty) g_positive g_below).2,
    range f positive (less.trans most), range g (positive.trans less) most,
    fun other perm => percentile_perm perm f⟩

theorem percentile_monotone_three : ∃ low high p q,
    [3, 1, 2].min? = some low ∧ [3, 1, 2].max? = some high ∧
      percentile [3, 1, 2] (1 / 2) = .ok (some p) ∧
      percentile [3, 1, 2] (19 / 20) = .ok (some q) ∧
      low ≤ p ∧ p ≤ q ∧ q ≤ high ∧
      (InRange [3, 1, 2] (lowerIndex [3, 1, 2] (1 / 2)) ∧
        InRange [3, 1, 2] (upperIndex [3, 1, 2] (1 / 2))) ∧
      (InRange [3, 1, 2] (lowerIndex [3, 1, 2] (19 / 20)) ∧
        InRange [3, 1, 2] (upperIndex [3, 1, 2] (19 / 20))) ∧
      ∀ other : List ℚ, other.Perm [3, 1, 2] →
        percentile other (1 / 2) = percentile [3, 1, 2] (1 / 2) :=
  percentile_monotone (by decide) (by norm_num) (by norm_num) (by norm_num)

end Partyline.Benchmark
