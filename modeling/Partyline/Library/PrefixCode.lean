import Mathlib.Data.List.Basic

/-! Codes whose words have several lengths and can yet be read one after another, from
the left, without a mark between them. -/
namespace Partyline.Library

/-- `next` reads the word at the front. -/
structure PrefixCode (α β : Type*) where
  code : α → List β
  next : List β → Option (α × List β)
  ne_nil : ∀ a, code a ≠ []
  next_code : ∀ a rest, next (code a ++ rest) = some (a, rest)

namespace PrefixCode

variable {α β : Type*} (c : PrefixCode α β)

def encode (s : List α) : List β := s.flatMap c.code

/-- The words at the front, as many as there is fuel for, and what is left. -/
def read : Nat → List β → List α × List β
  | 0, rest => ([], rest)
  | fuel + 1, rest =>
    match c.next rest with
    | some (a, rest) => ((a :: (read fuel rest).1), (read fuel rest).2)
    | none => ([], rest)

theorem encode_cons (a : α) (s : List α) : c.encode (a :: s) = c.code a ++ c.encode s :=
  List.flatMap_cons

theorem length_le_length_encode (s : List α) : s.length ≤ (c.encode s).length := by
  induction s with
  | nil => exact Nat.le_refl 0
  | cons a s ih =>
    have word := List.length_pos_of_ne_nil (c.ne_nil a)
    rw [encode_cons, List.length_append, List.length_cons]
    omega

/-- What is encoded is read back, up to a rest that no word begins. -/
theorem read_encode {tail : List β} (stops : c.next tail = none) {s : List α} {fuel : Nat}
    (enough : s.length ≤ fuel) : c.read fuel (c.encode s ++ tail) = (s, tail) := by
  induction s generalizing fuel with
  | nil =>
    cases fuel with
    | zero => rfl
    | succ fuel =>
      have rest : c.encode [] ++ tail = tail := rfl
      rw [rest, read, stops]
  | cons a s ih =>
    obtain ⟨fuel, rfl⟩ := Nat.exists_eq_succ_of_ne_zero (Nat.ne_zero_of_lt enough)
    have rest := ih (Nat.le_of_succ_le_succ enough)
    rw [encode_cons, List.append_assoc, read, c.next_code]
    dsimp only
    rw [rest]

end PrefixCode

end Partyline.Library
