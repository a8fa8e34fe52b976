import Mathlib.Algebra.Ring.Nat
import Mathlib.Data.List.Basic

/-! Text as the sequence of its code points, surrogates included. -/
namespace Partyline.Library

abbrev CodePoint := Fin 0x110000

abbrev Text := List CodePoint

/-- The code point of that number, for a number below `0x110000`. -/
def chr (number : Nat) : CodePoint := Fin.ofNat 0x110000 number

def text (s : String) : Text := s.toList.map fun ch => chr ch.toNat

/-- Rewriting a literal to its characters spares the kernel the decoding of its bytes. -/
theorem text_ofList (s : List Char) : text (String.ofList s) = s.map fun ch => chr ch.toNat := by
  rw [text, String.toList_ofList]

/-- `str` of a number that is not negative. -/
def str (number : Nat) : Text := text (toString number)

theorem val_chr {number : Nat} (small : number < 0x110000) : (chr number).val = number :=
  Nat.mod_eq_of_lt small

theorem chr_toNat_val (ch : Char) : (chr ch.toNat).val = ch.toNat := by
  apply val_chr
  cases ch.valid with
  | inl below => exact Nat.lt_trans below (by decide)
  | inr above => exact above.2

theorem text_injective {s t : List Char}
    (same : s.map (fun ch => chr ch.toNat) = t.map fun ch => chr ch.toNat) : s = t := by
  apply List.map_injective_iff.mpr _ same
  intro left right equal
  have values : left.toNat = right.toNat := by
    rw [← chr_toNat_val, ← chr_toNat_val right]
    exact congrArg Fin.val equal
  exact Char.toNat_inj.mp values

theorem str_eq (number : Nat) :
    str number = (Nat.toDigits 10 number).map fun ch => chr ch.toNat := by
  simp [str, text]

theorem str_injective {m n : Nat} (same : str m = str n) : m = n := by
  rw [str_eq, str_eq] at same
  rw [← Nat.ofDigitChars_ten_toDigits (n := m), text_injective same, Nat.ofDigitChars_ten_toDigits]

theorem str_ne_nil (number : Nat) : str number ≠ [] := by
  rw [str_eq]
  simp

theorem digit_of_mem_str {number : Nat} {ch : CodePoint} (mem : ch ∈ str number) :
    48 ≤ ch.val ∧ ch.val ≤ 57 := by
  rw [str_eq] at mem
  obtain ⟨digit, there, rfl⟩ := List.mem_map.mp mem
  have decimal := Nat.isDigit_of_mem_toDigits (by decide) (by decide) there
  rw [chr_toNat_val]
  simpa [Char.isDigit, UInt32.le_iff_toNat_le] using decimal

theorem length_str_le {number k : Nat} (positive : 0 < k) (small : number < 10 ^ k) :
    (str number).length ≤ k := by
  rw [str_eq, List.length_map]
  exact (Nat.length_toDigits_le_iff (by decide) positive).mpr small

end Partyline.Library
