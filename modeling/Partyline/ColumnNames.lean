import Partyline.Library.Bijective
import Partyline.Library.CodePoints

/-! The cell references of `csv_to_xlsx.py`: a column's name is its number in
bijective base 26, with the letters for digits. -/
namespace Partyline.CsvToXlsx

open Library

/-- The loop of `column_name`, with the `name` built so far. -/
def columnNameLoop (number : Nat) (name : Text) : Text :=
  if number = 0 then name
  else columnNameLoop ((number - 1) / 26) (chr (65 + (number - 1) % 26) :: name)
termination_by number
decreasing_by omega

def columnName (number : Nat) : Text := columnNameLoop number []

def columnNumber (name : Text) : Nat :=
  name.foldl (fun acc ch => 26 * acc + (ch.val - 64)) 0

def reference (column rowNumber : Nat) : Text := columnName column ++ str rowNumber

/-- The values of a row that get a cell, each with its column. -/
def filled (row : List Text) : List (Text × Nat) :=
  (row.zipIdx 1).filter fun cell => cell.1 ≠ []

def references (rowNumber : Nat) (row : List Text) : List Text :=
  (filled row).map fun cell => reference cell.2 rowNumber

def IsLetter (ch : CodePoint) : Prop := chr 65 ≤ ch ∧ ch ≤ chr 90

def letter (digit : Nat) : CodePoint := chr (64 + digit)

theorem letter_val {digit : Nat} (legal : 1 ≤ digit ∧ digit ≤ 26) :
    (letter digit).val = 64 + digit :=
  val_chr (by omega)

theorem isLetter_iff {ch : CodePoint} : IsLetter ch ↔ 65 ≤ ch.val ∧ ch.val ≤ 90 := by
  rw [IsLetter, Fin.le_def, Fin.le_def, val_chr (by decide), val_chr (by decide)]

theorem letter_isLetter {digit : Nat} (legal : 1 ≤ digit ∧ digit ≤ 26) :
    IsLetter (letter digit) := by
  rw [isLetter_iff, letter_val legal]
  omega

theorem letter_lt {d e : Nat} (left : 1 ≤ d ∧ d ≤ 26) (right : 1 ≤ e ∧ e ≤ 26) (less : d < e) :
    letter d < letter e := by
  rw [Fin.lt_def, letter_val left, letter_val right]
  omega

theorem columnNameLoop_eq (number : Nat) (name : Text) :
    columnNameLoop number name = (numeral 26 number).map letter ++ name := by
  induction number using Nat.strongRecOn generalizing name with
  | ind number ih =>
    cases number with
    | zero => simp [columnNameLoop]
    | succ n =>
      have digit : chr (65 + n % 26) = letter (n % 26 + 1) := by
        rw [letter]
        congr 1
        omega
      rw [columnNameLoop, if_neg (Nat.succ_ne_zero n), Nat.add_sub_cancel, ih (n / 26) (by omega),
        numeral_succ, digit]
      simp

theorem columnName_eq (number : Nat) : columnName number = (numeral 26 number).map letter := by
  rw [columnName, columnNameLoop_eq, List.append_nil]

theorem isLetter_of_mem_columnName {number : Nat} {ch : CodePoint}
    (mem : ch ∈ columnName number) : IsLetter ch := by
  rw [columnName_eq] at mem
  obtain ⟨digit, there, rfl⟩ := List.mem_map.mp mem
  exact letter_isLetter (digit_of_mem_numeral (by decide) there)

theorem columnNumber_map_letter {digits : List Nat}
    (legal : ∀ digit ∈ digits, 1 ≤ digit ∧ digit ≤ 26) :
    columnNumber (digits.map letter) = numeralValue 26 digits := by
  rw [columnNumber, numeralValue, List.foldl_map]
  apply List.foldl_ext
  intro acc digit mem
  rw [letter_val (legal digit mem)]
  omega

theorem columnNumber_columnName (number : Nat) : columnNumber (columnName number) = number := by
  rw [columnName_eq, columnNumber_map_letter, numeralValue_numeral]
  intro digit mem
  exact digit_of_mem_numeral (by decide) mem

theorem columnName_columnNumber {name : Text} (letters : ∀ ch ∈ name, IsLetter ch) :
    columnName (columnNumber name) = name := by
  have digits : (name.map fun ch => ch.val - 64).map letter = name := by
    rw [List.map_map]
    refine (List.map_congr_left fun ch mem => ?_).trans (List.map_id name)
    have range := isLetter_iff.mp (letters ch mem)
    apply Fin.ext
    rw [Function.comp_apply, letter_val (by omega), id]
    omega
  have legal : ∀ digit ∈ name.map (fun ch => ch.val - 64), 1 ≤ digit ∧ digit ≤ 26 := by
    intro digit mem
    obtain ⟨ch, there, rfl⟩ := List.mem_map.mp mem
    have range := isLetter_iff.mp (letters ch there)
    omega
  rw [← digits, columnNumber_map_letter legal, columnName_eq, numeral_numeralValue legal]

theorem columnName_shortlex {m n : Nat} (less : m < n) :
    List.Shortlex (· < ·) (columnName m) (columnName n) := by
  rw [columnName_eq, columnName_eq]
  apply shortlex_map _ (numeral_shortlex less)
  intro d left e right below
  exact letter_lt (digit_of_mem_numeral (by decide) left) (digit_of_mem_numeral (by decide) right)
    below

theorem reference_shortlex {m n : Nat} (less : m < n) (rowNumber : Nat) :
    List.Shortlex (· < ·) (reference m rowNumber) (reference n rowNumber) :=
  shortlex_append (columnName_shortlex less) rfl

theorem filled_ascends (row : List Text) :
    (filled row).Pairwise fun left right => left.2 < right.2 := by
  apply List.Pairwise.filter
  generalize 1 = first
  induction row generalizing first with
  | nil => exact List.Pairwise.nil
  | cons value row ih =>
    rw [List.zipIdx_cons]
    apply List.Pairwise.cons _ (ih (first + 1))
    intro cell mem
    exact List.le_snd_of_mem_zipIdx mem

theorem columnName_bijective :
    (∀ n, 0 < n → columnName n ≠ [] ∧ (∀ ch ∈ columnName n, IsLetter ch) ∧
      columnNumber (columnName n) = n) ∧
    (∀ name, name ≠ [] → (∀ ch ∈ name, IsLetter ch) →
      0 < columnNumber name ∧ columnName (columnNumber name) = name) ∧
    (∀ m n, 0 < m → m < n → List.Shortlex (· < ·) (columnName m) (columnName n)) ∧
    ∀ rowNumber row, (references rowNumber row).Pairwise fun left right =>
      left ≠ right ∧ List.Shortlex (· < ·) left right := by
  refine ⟨fun n positive => ⟨?_, fun ch mem => isLetter_of_mem_columnName mem,
    columnNumber_columnName n⟩, fun name nonempty letters => ?_,
    fun m n _ less => columnName_shortlex less, fun rowNumber row => ?_⟩
  · rw [columnName_eq]
    simpa using numeral_ne_nil positive
  · have back := columnName_columnNumber letters
    refine ⟨Nat.pos_of_ne_zero fun zero => nonempty ?_, back⟩
    rw [zero] at back
    rw [← back, columnName_eq, numeral_zero, List.map_nil]
  · rw [references, List.pairwise_map]
    apply (filled_ascends row).imp
    intro left right less
    have increases := reference_shortlex less rowNumber
    refine ⟨fun same => ?_, increases⟩
    rw [same] at increases
    exact Std.Asymm.asymm _ _ increases increases

end Partyline.CsvToXlsx
