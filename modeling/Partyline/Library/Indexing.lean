import Mathlib.Data.List.Nodup
import Mathlib.Logic.Function.Basic

/-! A list without repetition and the table of its positions. An entry is removed
by putting the last one in its place, and the table follows. -/
namespace Partyline.Library

variable {α : Type*} [DecidableEq α]

/-- The table gives every entry of the list its position, and nothing else one. -/
def Indexes (table : α → Option Nat) (xs : List α) : Prop :=
  ∀ a i, table a = some i ↔ xs[i]? = some a

namespace Indexes

variable {table : α → Option Nat} {xs : List α} {a : α}

omit [DecidableEq α] in
theorem mem_iff (h : Indexes table xs) : a ∈ xs ↔ ∃ i, table a = some i := by
  rw [List.mem_iff_getElem?]
  exact exists_congr fun i => (h a i).symm

omit [DecidableEq α] in
theorem nodup (h : Indexes table xs) : xs.Nodup := by
  rw [List.nodup_iff_getElem?_ne_getElem?]
  intro i j lt bound same
  have here : xs[i]? = some xs[i] := List.getElem?_eq_getElem (by omega)
  have first : table xs[i] = some i := (h _ i).mpr here
  have second : table xs[i] = some j := (h _ j).mpr (same.symm.trans here)
  have positions : i = j := Option.some.inj (first.symm.trans second)
  omega

theorem push (h : Indexes table xs) (fresh : table a = none) :
    Indexes (Function.update table a (some xs.length)) (xs ++ [a]) := by
  intro b i
  rcases Nat.lt_trichotomy i xs.length with lt | rfl | gt
  · rw [List.getElem?_append_left lt, ← h b i]
    by_cases same : b = a
    · subst same
      simp only [Function.update_self, fresh]
      simp
      omega
    · rw [Function.update_of_ne same]
  · rw [List.getElem?_concat_length]
    by_cases same : b = a
    · subst same
      simp
    · have absent : table b ≠ some xs.length := by
        rw [ne_eq, h b, List.getElem?_eq_none (by omega)]
        simp
      simp [Function.update_of_ne same, absent, Ne.symm same]
  · have absent : table b ≠ some i := by
      rw [ne_eq, h b, List.getElem?_eq_none (by omega)]
      simp
    rw [List.getElem?_eq_none (by rw [List.length_append, List.length_singleton]; omega)]
    by_cases same : b = a
    · subst same
      simp only [Function.update_self]
      simp
      omega
    · simp [Function.update_of_ne same, absent]

/-- The last entry goes where the removed one was; if that is itself the last,
the table has nothing to correct. -/
theorem swapRemove {front : List α} {last : α} {i : Nat} (h : Indexes table (front ++ [last]))
    (found : table a = some i) :
    Indexes (if i < front.length then Function.update (Function.update table a none) last (some i)
        else Function.update table a none) ((front ++ [last]).set i last).dropLast := by
  have here : (front ++ [last])[i]? = some a := (h a i).mp found
  have back : table last = some front.length := (h last _).mpr List.getElem?_concat_length
  have bound : i < front.length + 1 := by
    simpa using (List.getElem?_eq_some_iff.mp here).1
  -- the positions of the list without its last entry, in terms of the table before
  have inside (b : α) (j : Nat) : front[j]? = some b ↔ table b = some j ∧ j ≠ front.length := by
    rw [h b j]
    rcases Nat.lt_trichotomy j front.length with lt | rfl | gt
    · rw [List.getElem?_append_left lt]
      exact ⟨fun there => ⟨there, by omega⟩, And.left⟩
    · simp
    · rw [List.getElem?_eq_none (by omega), List.getElem?_eq_none (by
        rw [List.length_append, List.length_singleton]; omega)]
      simp
  have elsewhere {b : α} {j : Nat} (ne : b ≠ last) (there : table b = some j) :
      j ≠ front.length := by
    rintro rfl
    rw [h b, List.getElem?_concat_length] at there
    exact ne (Option.some.inj there).symm
  intro b j
  split_ifs with inner
  · have shorter : ((front ++ [last]).set i last).dropLast = front.set i last := by
      rw [List.set_append_left _ _ inner, List.dropLast_concat]
    have ne : a ≠ last := by
      rintro rfl
      have positions : i = front.length := Option.some.inj (found.symm.trans back)
      omega
    rw [shorter, List.getElem?_set]
    by_cases moved : b = last
    · subst moved
      rw [Function.update_self, Option.some.injEq]
      split_ifs with same
      · simp [same]
      · simp [same, inside, back]
        omega
    · rw [Function.update_of_ne moved]
      by_cases removed : b = a
      · subst removed
        rw [Function.update_self]
        split_ifs with same
        · simp [Ne.symm ne]
        · simp [inside, found, same]
      · rw [Function.update_of_ne removed]
        split_ifs with same
        · subst same
          have other : table b ≠ some i := by
            rw [ne_eq, h b i, here]
            simp [Ne.symm removed]
          simp [other, Ne.symm moved]
        · rw [inside]
          exact ⟨fun there => ⟨there, elsewhere moved there⟩, And.left⟩
  · obtain rfl : i = front.length := by omega
    obtain rfl : last = a := by simpa using here
    have shorter : ((front ++ [last]).set front.length last).dropLast = front := by simp
    rw [shorter, inside]
    by_cases removed : b = last
    · subst removed
      simp [back]
      omega
    · rw [Function.update_of_ne removed]
      exact ⟨fun there => ⟨there, elsewhere removed there⟩, And.left⟩

theorem mem_swapRemove {front : List α} {last : α} {i : Nat}
    (h : Indexes table (front ++ [last])) (found : table a = some i) {b : α} :
    b ∈ ((front ++ [last]).set i last).dropLast ↔ b ∈ front ++ [last] ∧ b ≠ a := by
  have there : a ∈ front ++ [last] := h.mem_iff.mpr ⟨i, found⟩
  rw [(h.swapRemove found).mem_iff, h.mem_iff]
  split_ifs with inner
  · by_cases moved : b = last
    · subst moved
      have back : table b = some front.length := (h b _).mpr List.getElem?_concat_length
      have ne : b ≠ a := by
        rintro rfl
        have positions : i = front.length := Option.some.inj (found.symm.trans back)
        omega
      simp [back, ne]
    · rw [Function.update_of_ne moved]
      by_cases removed : b = a
      · simp [removed]
      · simp [removed]
  · by_cases removed : b = a
    · simp [removed]
    · simp [removed]

end Indexes

end Partyline.Library
