import Mathlib.Data.List.Induction
import Mathlib.Data.List.Shortlex

/-! Bijective numerals: the digits of base `b` are `1, …, b`. There is no zero digit,
so every list of digits is the numeral of exactly one number. -/
namespace Partyline.Library

def numeral (b : Nat) : Nat → List Nat
  | 0 => []
  | n + 1 => numeral b (n / b) ++ [n % b + 1]
decreasing_by exact Nat.lt_succ_of_le (Nat.div_le_self n b)

def numeralValue (b : Nat) (digits : List Nat) : Nat :=
  digits.foldl (fun acc digit => b * acc + digit) 0

variable {b : Nat}

@[simp] theorem numeral_zero (b : Nat) : numeral b 0 = [] := by
  rw [numeral]

theorem numeral_succ (b n : Nat) : numeral b (n + 1) = numeral b (n / b) ++ [n % b + 1] := by
  rw [numeral]

@[simp] theorem numeralValue_nil (b : Nat) : numeralValue b [] = 0 := rfl

theorem numeralValue_concat (b : Nat) (digits : List Nat) (digit : Nat) :
    numeralValue b (digits ++ [digit]) = b * numeralValue b digits + digit := by
  simp [numeralValue, List.foldl_append]

theorem numeral_ne_nil {n : Nat} (positive : 0 < n) : numeral b n ≠ [] := by
  cases n with
  | zero => exact absurd positive (Nat.lt_irrefl 0)
  | succ n =>
    rw [numeral_succ]
    exact List.concat_ne_nil _ _

theorem numeralValue_numeral (b n : Nat) : numeralValue b (numeral b n) = n := by
  induction n using numeral.induct b with
  | case1 => rw [numeral_zero, numeralValue_nil]
  | case2 n ih =>
    rw [numeral_succ, numeralValue_concat, ih, ← Nat.add_assoc, Nat.div_add_mod]

theorem digit_of_mem_numeral (base : 0 < b) {n digit : Nat} (mem : digit ∈ numeral b n) :
    1 ≤ digit ∧ digit ≤ b := by
  induction n using numeral.induct b with
  | case1 => simp at mem
  | case2 n ih =>
    rw [numeral_succ, List.mem_append, List.mem_singleton] at mem
    cases mem with
    | inl earlier => exact ih earlier
    | inr last =>
      have below := Nat.mod_lt n base
      omega

theorem numeral_numeralValue {digits : List Nat}
    (legal : ∀ digit ∈ digits, 1 ≤ digit ∧ digit ≤ b) :
    numeral b (numeralValue b digits) = digits := by
  induction digits using List.reverseRecOn with
  | nil => rw [numeralValue_nil, numeral_zero]
  | append_singleton digits digit ih =>
    obtain ⟨least, most⟩ := legal digit (by simp)
    obtain ⟨d, rfl⟩ : ∃ d, digit = d + 1 := ⟨digit - 1, by omega⟩
    have rest : numeral b (numeralValue b digits) = digits :=
      ih fun other mem => legal other (List.mem_append_left _ mem)
    have quotient : (b * numeralValue b digits + d) / b = numeralValue b digits := by
      rw [Nat.mul_add_div (by omega), Nat.div_eq_of_lt (by omega), Nat.add_zero]
    have remainder : (b * numeralValue b digits + d) % b = d := by
      rw [Nat.mul_add_mod, Nat.mod_eq_of_lt (by omega)]
    rw [numeralValue_concat, ← Nat.add_assoc, numeral_succ, quotient, remainder, rest]

section Order

variable {α : Type*} {r : α → α → Prop}

theorem lex_append {s t : List α} (same : s.length = t.length) (less : List.Lex r s t)
    (u v : List α) : List.Lex r (s ++ u) (t ++ v) := by
  induction less with
  | nil => simp at same
  | cons _ ih => exact List.Lex.cons (ih (Nat.succ.inj same))
  | rel here => exact List.Lex.rel here

theorem shortlex_append {s t u v : List α} (less : List.Shortlex r s t)
    (same : u.length = v.length) : List.Shortlex r (s ++ u) (t ++ v) := by
  rcases List.shortlex_def.mp less with shorter | ⟨equal, lex⟩
  · apply List.Shortlex.of_length_lt
    rw [List.length_append, List.length_append]
    omega
  · apply List.Shortlex.of_lex
    · rw [List.length_append, List.length_append, equal, same]
    · exact lex_append equal lex u v

theorem shortlex_map {β : Type*} {q : β → β → Prop} {f : α → β}
    {s t : List α} (mono : ∀ x ∈ s, ∀ y ∈ t, r x y → q (f x) (f y))
    (less : List.Shortlex r s t) : List.Shortlex q (s.map f) (t.map f) := by
  have lexical {s t : List α} (mono : ∀ x ∈ s, ∀ y ∈ t, r x y → q (f x) (f y))
      (lex : List.Lex r s t) : List.Lex q (s.map f) (t.map f) := by
    induction lex with
    | nil => exact List.Lex.nil
    | cons _ ih =>
      apply List.Lex.cons
      apply ih
      intro x left y right
      exact mono x (List.mem_cons_of_mem _ left) y (List.mem_cons_of_mem _ right)
    | rel here => exact List.Lex.rel (mono _ List.mem_cons_self _ List.mem_cons_self here)
  rcases List.shortlex_def.mp less with shorter | ⟨equal, lex⟩
  · apply List.Shortlex.of_length_lt
    simpa using shorter
  · apply List.Shortlex.of_lex
    · simpa using equal
    · exact lexical mono lex

end Order

/-- A greater number has a longer numeral, or one of the same length that comes later
in the order of dictionaries. -/
theorem numeral_shortlex {m n : Nat} (less : m < n) :
    List.Shortlex (· < ·) (numeral b m) (numeral b n) := by
  induction n using numeral.induct b generalizing m with
  | case1 => exact absurd less (Nat.not_lt_zero m)
  | case2 n ih =>
    cases m with
    | zero =>
      apply List.Shortlex.of_length_lt
      rw [numeral_zero, numeral_succ, List.length_append]
      simp
    | succ m =>
      rw [numeral_succ, numeral_succ]
      have quotients : m / b ≤ n / b := Nat.div_le_div_right (by omega)
      cases Nat.lt_or_eq_of_le quotients with
      | inl below => exact shortlex_append (ih below) rfl
      | inr same =>
        rw [same]
        apply List.Shortlex.append_left
        rw [List.shortlex_singleton_iff]
        have left := Nat.div_add_mod m b
        have right := Nat.div_add_mod n b
        rw [same] at left
        omega

end Partyline.Library
