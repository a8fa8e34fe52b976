import Mathlib.Data.List.Basic

/-! Pieces on a wire, each closed by a mark that does not occur in it. -/
namespace Partyline.Library

variable {α : Type*}

def delimited (mark : α) (pieces : List (List α)) : List α := pieces.flatMap (· ++ [mark])

@[simp] theorem delimited_nil (mark : α) : delimited mark [] = [] := rfl

@[simp] theorem delimited_append (mark : α) (first second : List (List α)) :
    delimited mark (first ++ second) = delimited mark first ++ delimited mark second := by
  simp [delimited]

@[simp] theorem delimited_cons (mark : α) (piece : List α) (pieces : List (List α)) :
    delimited mark (piece :: pieces) = piece ++ mark :: delimited mark pieces := by
  simp [delimited]

theorem tails_eq {mark : α} {front front' tail tail' : List α} (clean : mark ∉ tail)
    (clean' : mark ∉ tail') (same : front ++ mark :: tail = front' ++ mark :: tail') :
    tail = tail' := by
  rcases List.append_eq_append_iff.mp same with ⟨more, -, rest⟩ | ⟨more, -, rest⟩
  · cases more with
    | nil => exact (List.cons.inj rest).2
    | cons ch more =>
      have inside : mark ∈ tail := by
        rw [(List.cons.inj rest).2]
        simp
      exact absurd inside clean
  · cases more with
    | nil => exact (List.cons.inj rest).2.symm
    | cons ch more =>
      have inside : mark ∈ tail' := by
        rw [(List.cons.inj rest).2]
        simp
      exact absurd inside clean'

variable [DecidableEq α] {mark : α} {pieces : List (List α)}

theorem splitOn_delimited (whole : ∀ piece ∈ pieces, mark ∉ piece) (rest : List α) :
    (delimited mark pieces ++ rest).splitOn mark = pieces ++ rest.splitOn mark := by
  induction pieces with
  | nil => rfl
  | cons piece pieces ih =>
    rw [delimited_cons, List.append_assoc, List.cons_append,
      List.splitOn_append_cons_self_of_not_mem (whole piece (by simp)),
      ih fun other mem => whole other (by simp [mem]), List.cons_append]

/-- The pieces taken one after another are the first pieces of the one-shot split. -/
theorem take_splitOn_delimited (whole : ∀ piece ∈ pieces, mark ∉ piece) (rest : List α) :
    ((delimited mark pieces ++ rest).splitOn mark).take pieces.length = pieces := by
  rw [splitOn_delimited whole, List.take_left]

theorem count_delimited (whole : ∀ piece ∈ pieces, mark ∉ piece) :
    (delimited mark pieces).count mark = pieces.length := by
  induction pieces with
  | nil => rfl
  | cons piece pieces ih =>
    rw [delimited_cons, List.count_append, List.count_cons_self,
      List.count_eq_zero_of_not_mem (whole piece (by simp)),
      ih fun other mem => whole other (by simp [mem]), List.length_cons, Nat.zero_add]

theorem delimited_inj {others : List (List α)} (whole : ∀ piece ∈ pieces, mark ∉ piece)
    (whole' : ∀ piece ∈ others, mark ∉ piece) {rest rest' : List α} (clean : mark ∉ rest)
    (clean' : mark ∉ rest') (same : delimited mark pieces ++ rest = delimited mark others ++ rest') :
    pieces = others ∧ rest = rest' := by
  have split := congrArg (List.splitOn mark) same
  rw [splitOn_delimited whole, splitOn_delimited whole', List.splitOn_eq_singleton clean,
    List.splitOn_eq_singleton clean'] at split
  obtain ⟨first, last⟩ := List.append_inj' split rfl
  exact ⟨first, List.singleton_inj.mp last⟩

theorem prefix_of_delimited {others : List (List α)} (whole : ∀ piece ∈ pieces, mark ∉ piece)
    (whole' : ∀ piece ∈ others, mark ∉ piece) {rest : List α}
    (same : delimited mark pieces ++ rest = delimited mark others) : pieces <+: others := by
  have split := congrArg (List.splitOn mark) same
  have last := splitOn_delimited whole' ([] : List α)
  rw [List.append_nil] at last
  rw [splitOn_delimited whole, last] at split
  have nonempty : rest.splitOn mark ≠ [] := List.splitOn_ne_nil mark rest
  rw [← List.dropLast_append_getLast nonempty, ← List.append_assoc] at split
  exact ⟨_, (List.append_inj' split rfl).1⟩

end Partyline.Library
