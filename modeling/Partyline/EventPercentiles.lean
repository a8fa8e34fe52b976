import Mathlib.Data.Rat.Floor
import Partyline.Library.Histogram
import Partyline.Metrics

/-! The percentiles of the events per wait that `serviceMetricsSignals` prints, in exact
arithmetic. -/
namespace Partyline.ServerMetrics

open Library

/-- The loop of `maxEventsPerWait`, from that size of `eventsPerWait` down. -/
def maxEventsBelow (eventsPerWait : List Nat) : Nat → Nat
  | 0 => 0
  | value + 1 =>
    if eventsPerWait.getD value 0 ≠ 0 then value else maxEventsBelow eventsPerWait value

def maxEventsPerWait (m : ServerMetrics) : Nat :=
  maxEventsBelow m.eventsPerWait m.eventsPerWait.length

/-- The loop of `eventsPercentile`, when it has come to `value` and has `seen` that many. -/
def firstReaching (target : Nat) : List Nat → Nat → Nat → Option Nat
  | [], _, _ => none
  | count :: eventsPerWait, value, seen =>
    if target ≤ seen + count then some value
    else firstReaching target eventsPerWait (value + 1) (seen + count)

def percentileTarget (m : ServerMetrics) (fraction : ℚ) : Nat :=
  max 1 ⌊fraction * m.waitCalls + 999999 / 1000000⌋₊

def eventsPercentile (m : ServerMetrics) (fraction : ℚ) : Nat :=
  if m.waitCalls = 0 then 0
  else (firstReaching (m.percentileTarget fraction) m.eventsPerWait 0 0).getD m.maxEventsPerWait

def readyCounts (tally : List Measurement) : List Nat :=
  tally.filterMap fun
    | .wait ready _ => some ready
    | _ => none

structure Waited (m : ServerMetrics) (ready : List Nat) : Prop where
  active : m.active = true
  waitCalls : m.waitCalls = ready.length
  totalEvents : m.totalEvents = ready.sum
  records : (expand 0 m.eventsPerWait).Perm ready

theorem recordWait_eventsPerWait {m : ServerMetrics} (active : m.active = true)
    (ready maxevents : Nat) :
    (m.recordWait ready maxevents).eventsPerWait = bump m.eventsPerWait ready := by
  rw [recordWait, if_neg (by simp [active])]
  rfl

theorem Waited.wait {m : ServerMetrics} {readies : List Nat} (waited : Waited m readies)
    (ready maxevents : Nat) : Waited (m.recordWait ready maxevents) (readies ++ [ready]) := by
  have active := waited.active
  constructor
  · simp [recordWait, active]
  · simp [recordWait, active, waited.waitCalls]
  · simp [recordWait, active, waited.totalEvents]
  · rw [recordWait_eventsPerWait active]
    refine (expand_bump 0 m.eventsPerWait ready).trans ?_
    rw [Nat.zero_add]
    exact (waited.records.cons ready).trans (List.perm_append_singleton ready readies).symm

theorem Waited.record {m : ServerMetrics} {ready : List Nat} (waited : Waited m ready)
    (measured : Measurement) : Waited (m.record measured) (ready ++ readyCounts [measured]) := by
  have active := waited.active
  have same {m' : ServerMetrics} (h : m'.active = m.active ∧ m'.waitCalls = m.waitCalls ∧
      m'.totalEvents = m.totalEvents ∧ m'.eventsPerWait = m.eventsPerWait) :
      Waited m' (ready ++ []) := by
    obtain ⟨h_active, h_calls, h_events, h_per⟩ := h
    rw [List.append_nil]
    exact ⟨h_active.trans active, h_calls.trans waited.waitCalls,
      h_events.trans waited.totalEvents, h_per ▸ waited.records⟩
  cases measured with
  | wait count maxevents => exact waited.wait count maxevents
  | receive result =>
    apply same
    cases result <;> simp [ServerMetrics.record, recordReceiveResult, active]
  | _ => exact same (by simp [ServerMetrics.record, whenActive, active])

theorem waited_foldl {m : ServerMetrics} {ready : List Nat} (waited : Waited m ready)
    (tally : List Measurement) : Waited (tally.foldl ServerMetrics.record m)
      (ready ++ readyCounts tally) := by
  induction tally generalizing m ready with
  | nil => simpa [readyCounts] using waited
  | cons measured tally ih =>
    have both : readyCounts (measured :: tally) = readyCounts [measured] ++ readyCounts tally := by
      rw [readyCounts, readyCounts, readyCounts, ← List.filterMap_append]
      rfl
    rw [List.foldl_cons, both, ← List.append_assoc]
    exact ih (waited.record measured)

theorem waited_reset (m : ServerMetrics) : Waited { m.reset with active := true } [] :=
  ⟨rfl, rfl, rfl, List.Perm.refl []⟩

/-- The scan reads the record in order: it stops at the value in the target's place. -/
theorem firstReaching_eq {target seen : Nat} (below : seen < target) (eventsPerWait : List Nat)
    (value : Nat) : firstReaching target eventsPerWait value seen =
      (expand value eventsPerWait)[target - seen - 1]? := by
  induction eventsPerWait generalizing value seen with
  | nil => rfl
  | cons count eventsPerWait ih =>
    rw [firstReaching, expand]
    split_ifs with reached
    · rw [List.getElem?_append_left (by rw [List.length_replicate]; omega),
        List.getElem?_replicate, if_pos (by omega)]
    · rw [List.getElem?_append_right (by rw [List.length_replicate]; omega), ih (by omega),
        List.length_replicate]
      congr 1
      omega

theorem maxEventsBelow_eq {eventsPerWait : List Nat} {k : Nat} (inside : k ≤ eventsPerWait.length) :
    maxEventsBelow eventsPerWait k = ((expand 0 (eventsPerWait.take k)).getLast?).getD 0 := by
  induction k with
  | zero => rfl
  | succ value ih =>
    have here : eventsPerWait[value]? = some (eventsPerWait.getD value 0) := by
      rw [List.getD_eq_getElem?_getD, List.getElem?_eq_getElem inside, Option.getD_some]
    rw [maxEventsBelow, List.take_add_one, here, Option.toList_some, expand_append,
      List.length_take_of_le (Nat.le_of_succ_le inside), Nat.zero_add, expand, expand,
      List.append_nil]
    split_ifs with recorded
    · have nonempty : List.replicate (eventsPerWait.getD value 0) value ≠ [] := by
        simpa using recorded
      rw [List.getLast?_append_of_ne_nil _ nonempty, List.getLast?_replicate, if_neg recorded,
        Option.getD_some]
    · rw [not_not] at recorded
      rw [recorded, List.replicate_zero, List.append_nil]
      exact ih (Nat.le_of_succ_le inside)

theorem floor_add_eq_ceil (k n : Nat) :
    ⌊(k : ℚ) / 20 * n + 999999 / 1000000⌋₊ = ⌈(k : ℚ) / 20 * n⌉₊ := by
  have product : (k : ℚ) / 20 * n = ((k * n : ℕ) : ℚ) / 20 := by
    push_cast
    ring
  rw [product]
  generalize k * n = a
  have low : a ≤ 20 * ⌈(a : ℚ) / 20⌉₊ := by
    have above := Nat.le_ceil ((a : ℚ) / 20)
    rw [div_le_iff₀ (by norm_num)] at above
    have cast : (a : ℚ) ≤ (20 * ⌈(a : ℚ) / 20⌉₊ : ℕ) := by
      push_cast
      linarith
    exact_mod_cast cast
  have high : 20 * ⌈(a : ℚ) / 20⌉₊ < a + 20 := by
    have below := Nat.ceil_lt_add_one (a := (a : ℚ) / 20) (by positivity)
    have cast : ((20 * ⌈(a : ℚ) / 20⌉₊ : ℕ) : ℚ) < (a + 20 : ℕ) := by
      push_cast
      linarith
    exact_mod_cast cast
  rw [Nat.floor_eq_iff (by positivity)]
  have low_cast : (a : ℚ) ≤ 20 * ⌈(a : ℚ) / 20⌉₊ := by exact_mod_cast low
  have high_cast : (20 * ⌈(a : ℚ) / 20⌉₊ : ℚ) + 1 ≤ a + 20 := by exact_mod_cast high
  constructor <;> linarith

section Ranks

variable {m : ServerMetrics} {ready : List Nat}

theorem Waited.sorted (waited : Waited m ready) :
    expand 0 m.eventsPerWait = ready.mergeSort (· ≤ ·) :=
  expand_eq_mergeSort waited.records

theorem Waited.percentileTarget_eq (waited : Waited m ready) (nonempty : ready ≠ []) {k : Nat}
    (positive : 0 < k) :
    m.percentileTarget (k / 20) = ⌈(k : ℚ) / 20 * ready.length⌉₊ ∧
      1 ≤ ⌈(k : ℚ) / 20 * ready.length⌉₊ := by
  have length : 0 < ready.length := List.length_pos_of_ne_nil nonempty
  have least : 1 ≤ ⌈(k : ℚ) / 20 * ready.length⌉₊ := by
    rw [Nat.one_le_ceil_iff]
    positivity
  rw [percentileTarget, waited.waitCalls, floor_add_eq_ceil]
  exact ⟨Nat.max_eq_right least, least⟩

theorem rank_le_length {f : ℚ} (most : f ≤ 1) (ready : List Nat) :
    ⌈f * ready.length⌉₊ ≤ ready.length := by
  rw [Nat.ceil_le]
  exact mul_le_of_le_one_left (Nat.cast_nonneg _) most

theorem Waited.eventsPercentile_eq (waited : Waited m ready) (nonempty : ready ≠ []) {k : Nat}
    (positive : 0 < k) (most : k ≤ 20) :
    (ready.mergeSort (· ≤ ·))[⌈(k : ℚ) / 20 * ready.length⌉₊ - 1]? =
      some (m.eventsPercentile (k / 20)) := by
  obtain ⟨target, least⟩ := waited.percentileTarget_eq nonempty positive
  have rank : ⌈(k : ℚ) / 20 * ready.length⌉₊ ≤ ready.length := by
    apply rank_le_length
    rw [div_le_one (by norm_num)]
    exact_mod_cast most
  have calls : m.waitCalls ≠ 0 := by
    rw [waited.waitCalls]
    exact Nat.ne_of_gt (List.length_pos_of_ne_nil nonempty)
  have inside : ⌈(k : ℚ) / 20 * ready.length⌉₊ - 1 < (ready.mergeSort (· ≤ ·)).length := by
    rw [List.length_mergeSort]
    omega
  rw [eventsPercentile, if_neg calls, target, firstReaching_eq (by omega), waited.sorted,
    Nat.sub_zero, List.getElem?_eq_getElem inside, Option.getD_some]

theorem Waited.maxEventsPerWait_eq (waited : Waited m ready) (nonempty : ready ≠ []) :
    (ready.mergeSort (· ≤ ·))[ready.length - 1]? = some m.maxEventsPerWait := by
  have length : 0 < ready.length := List.length_pos_of_ne_nil nonempty
  have last : (ready.mergeSort (· ≤ ·)).getLast? =
      (ready.mergeSort (· ≤ ·))[ready.length - 1]? := by
    rw [List.getLast?_eq_getElem?, List.length_mergeSort]
  have inside : ready.length - 1 < (ready.mergeSort (· ≤ ·)).length := by
    rw [List.length_mergeSort]
    omega
  rw [maxEventsPerWait, maxEventsBelow_eq (Nat.le_refl _), List.take_length, waited.sorted, last,
    List.getElem?_eq_getElem inside, Option.getD_some]

end Ranks

theorem mergeSort_place_le {ready : List Nat} {i j x y : Nat} (less : i ≤ j)
    (left : (ready.mergeSort (· ≤ ·))[i]? = some x)
    (right : (ready.mergeSort (· ≤ ·))[j]? = some y) : x ≤ y := by
  obtain ⟨_, rfl⟩ := List.getElem?_eq_some_iff.mp left
  obtain ⟨_, rfl⟩ := List.getElem?_eq_some_iff.mp right
  exact List.sortedLE_mergeSort.getElem_le_getElem_of_le less

theorem eventPercentiles_nearestRank (m : ServerMetrics) {tally : List Measurement}
    (waits : readyCounts tally ≠ []) :
    ∃ after, after = tally.foldl record { m.reset with active := true } ∧
      after.eventsPerWait.sum = after.waitCalls ∧
      ((after.eventsPerWait.zipIdx).map fun entry => entry.2 * entry.1).sum = after.totalEvents ∧
      after.waitCalls = (readyCounts tally).length ∧
      (∀ f : ℚ, f = 1 / 2 ∨ f = 19 / 20 → 1 ≤ ⌈f * (readyCounts tally).length⌉₊ ∧
        ((readyCounts tally).mergeSort (· ≤ ·))[⌈f * (readyCounts tally).length⌉₊ - 1]? =
          some (after.eventsPercentile f)) ∧
      (readyCounts tally).max? = some after.maxEventsPerWait ∧
      after.eventsPercentile (1 / 2) ≤ after.eventsPercentile (19 / 20) ∧
      after.eventsPercentile (19 / 20) ≤ after.maxEventsPerWait ∧
      after.eventsPercentile (1 / 2) ∈ readyCounts tally ∧
      after.eventsPercentile (19 / 20) ∈ readyCounts tally ∧
      after.maxEventsPerWait ∈ readyCounts tally := by
  refine ⟨_, rfl, ?_⟩
  have waited := waited_foldl (waited_reset m) tally
  rw [List.nil_append] at waited
  generalize tally.foldl record { m.reset with active := true } = after at waited ⊢
  generalize readyCounts tally = ready at waits waited ⊢
  have half : ((10 : ℕ) : ℚ) / 20 = 1 / 2 := by norm_num
  have most : ((19 : ℕ) : ℚ) / 20 = 19 / 20 := by norm_num
  have p50 := waited.eventsPercentile_eq waits (k := 10) (by decide) (by decide)
  have p95 := waited.eventsPercentile_eq waits (k := 19) (by decide) (by decide)
  have least50 := (waited.percentileTarget_eq waits (k := 10) (by decide)).2
  have least95 := (waited.percentileTarget_eq waits (k := 19) (by decide)).2
  rw [half] at p50 least50
  rw [most] at p95 least95
  have top := waited.maxEventsPerWait_eq waits
  have rank95 := rank_le_length (f := 19 / 20) (by norm_num) ready
  have ranks : ⌈(1 / 2 : ℚ) * ready.length⌉₊ ≤ ⌈(19 / 20 : ℚ) * ready.length⌉₊ := by
    apply Nat.ceil_le_ceil
    exact mul_le_mul_of_nonneg_right (by norm_num) (Nat.cast_nonneg _)
  have recorded {i x : Nat} (place : (ready.mergeSort (· ≤ ·))[i]? = some x) : x ∈ ready :=
    List.mem_mergeSort.mp (List.mem_of_getElem? place)
  have greatest : ready.max? = some after.maxEventsPerWait := by
    rw [List.max?_eq_some_iff]
    refine ⟨recorded top, fun x mem => ?_⟩
    obtain ⟨i, inside, place⟩ := List.getElem_of_mem (List.mem_mergeSort.mpr mem)
    apply mergeSort_place_le _ (List.getElem?_eq_some_iff.mpr ⟨inside, place⟩) top
    rw [List.length_mergeSort] at inside
    omega
  refine ⟨?_, ?_, waited.waitCalls, ?_, greatest, mergeSort_place_le (by omega) p50 p95,
    mergeSort_place_le (by omega) p95 top, recorded p50, recorded p95, recorded top⟩
  · rw [← length_expand 0, waited.records.length_eq, waited.waitCalls]
  · rw [← sum_expand 0, waited.records.sum_nat, waited.totalEvents]
  · rintro f (rfl | rfl)
    · exact ⟨least50, p50⟩
    · exact ⟨least95, p95⟩

theorem eventPercentiles_nearestRank_three :
    ∃ after, after = [.wait 3 4, .wait 0 4, .wait 3 4].foldl record
        { empty.reset with active := true } ∧
      after.eventsPerWait.sum = after.waitCalls ∧
      ((after.eventsPerWait.zipIdx).map fun entry => entry.2 * entry.1).sum = after.totalEvents ∧
      after.waitCalls = 3 ∧
      (∀ f : ℚ, f = 1 / 2 ∨ f = 19 / 20 → 1 ≤ ⌈f * (3 : ℕ)⌉₊ ∧
        ([3, 0, 3].mergeSort (· ≤ ·))[⌈f * (3 : ℕ)⌉₊ - 1]? = some (after.eventsPercentile f)) ∧
      [3, 0, 3].max? = some after.maxEventsPerWait ∧
      after.eventsPercentile (1 / 2) ≤ after.eventsPercentile (19 / 20) ∧
      after.eventsPercentile (19 / 20) ≤ after.maxEventsPerWait ∧
      after.eventsPercentile (1 / 2) ∈ [3, 0, 3] ∧
      after.eventsPercentile (19 / 20) ∈ [3, 0, 3] ∧ after.maxEventsPerWait ∈ [3, 0, 3] :=
  eventPercentiles_nearestRank empty (List.cons_ne_nil 3 [0, 3])

end Partyline.ServerMetrics
