import Mathlib.Data.List.TakeWhile
import Partyline.ColumnNames
import Partyline.Library.Xml

/-! `cell_xml` of `csv_to_xlsx.py`, and what an XML parser reads in a cell. -/
namespace Partyline.CsvToXlsx

open Library
open Library.Xml (isChar escape normalizeLineEnds parse Event Reader charsAt)

/-- `\d` in a pattern of text: the decimal digits of Unicode, of which ten are ASCII. -/
structure DecimalDigits where
  isDecimal : CodePoint → Bool
  ascii : ∀ ch : CodePoint, ch.val < 128 → (isDecimal ch = true ↔ 48 ≤ ch.val ∧ ch.val ≤ 57)

def minus : CodePoint := chr 45
def plus : CodePoint := chr 43
def point : CodePoint := chr 46

section Number

variable (d : DecimalDigits)

/-- `(?:[eE][+-]?\d+)?\Z`. -/
def exponent : Text → Bool
  | [] => true
  | ch :: s =>
    let digits := if s.head? = some plus ∨ s.head? = some minus then s.tail else s
    (ch = chr 101 || ch = chr 69) && digits ≠ [] && digits.all d.isDecimal

/-- `(?:\.\d+)?(?:[eE][+-]?\d+)?\Z`. -/
def fraction : Text → Bool
  | [] => true
  | ch :: s =>
    if ch = point then s.takeWhile d.isDecimal ≠ [] && exponent d (s.dropWhile d.isDecimal)
    else exponent d (ch :: s)

/-- `(?:0|[1-9]\d*)(?:\.\d+)?(?:[eE][+-]?\d+)?\Z`. -/
def unsigned : Text → Bool
  | [] => false
  | ch :: s =>
    if ch = chr 48 then fraction d s
    else if chr 49 ≤ ch ∧ ch ≤ chr 57 then fraction d (s.dropWhile d.isDecimal)
    else false

/-- `NUMBER.fullmatch`. -/
def isNumber (value : Text) : Bool :=
  unsigned d (if value.head? = some minus then value.tail else value)

end Number

def invalidXmlChar (ch : CodePoint) : Bool :=
  ch ≤ chr 8 || ch = chr 0xb || ch = chr 0xc || (chr 0xe ≤ ch && ch ≤ chr 0x1f)

def replacement : CodePoint := chr 0xfffd

/-- `str.isspace` of one character. -/
def isSpace (ch : CodePoint) : Bool :=
  (chr 9 ≤ ch && ch ≤ chr 13) || (chr 28 ≤ ch && ch ≤ chr 32) || ch = chr 0x85 || ch = chr 0xa0 ||
    ch = chr 0x1680 || (chr 0x2000 ≤ ch && ch ≤ chr 0x200a) || ch = chr 0x2028 || ch = chr 0x2029 ||
    ch = chr 0x202f || ch = chr 0x205f || ch = chr 0x3000

def cleaned (value : Text) : Text :=
  value.map fun ch => if invalidXmlChar ch then replacement else ch

def preserve (value : Text) : Text :=
  if value.head?.any isSpace || value.getLast?.any isSpace then text " xml:space=\"preserve\""
  else []

/-- `cell_xml`; `escape` is that of `xml.sax.saxutils`. -/
def cellXml (d : DecimalDigits) (reference value : Text) : Text :=
  let value := cleaned value
  if isNumber d value then
    text "<c r=\"" ++ reference ++ text "\"><v>" ++ value ++ text "</v></c>"
  else
    text "<c r=\"" ++ reference ++ text "\" t=\"inlineStr\"><is><t" ++ preserve value ++ text ">" ++
      escape value ++ text "</t></is></c>"

/-- The text of a cell: that of `is` and `t` in an inline string, and else that of `v`. -/
def cellText : List Event → Option Text
  | .start name attributes :: events =>
    let path := if (text "t", text "inlineStr") ∈ attributes then [text "t", text "is", text "c"]
      else [text "v", text "c"]
    some (charsAt path [] (.start name attributes :: events))
  | _ => none

def IsSurrogate (ch : CodePoint) : Prop := chr 0xd800 ≤ ch ∧ ch ≤ chr 0xdfff

instance (ch : CodePoint) : Decidable (IsSurrogate ch) :=
  inferInstanceAs (Decidable (chr 0xd800 ≤ ch ∧ ch ≤ chr 0xdfff))

/-- The character, or U+FFFD for one that XML does not allow. -/
def allowed (ch : CodePoint) : CodePoint := if isChar ch then ch else replacement

/-- The cell holds only characters that XML allows, and its text is the value's. -/
def Lossless (d : DecimalDigits) (reference value : Text) : Prop :=
  (∀ ch ∈ cellXml d reference value, isChar ch = true) ∧
    (parse (cellXml d reference value)).bind cellText = some (value.map allowed)

/-! A number has nothing to escape. -/

section Plain

variable {d : DecimalDigits}

def Plain (ch : CodePoint) : Prop := ch ≠ Xml.ampersand ∧ ch ≠ Xml.lessThan ∧ ch ≠ Xml.greaterThan

theorem plain_of_isDecimal {ch : CodePoint} (digit : d.isDecimal ch = true) : Plain ch := by
  refine ⟨?_, ?_, ?_⟩ <;>
  · rintro rfl
    have range := (d.ascii _ (by decide)).mp digit
    exact absurd range (by decide)

theorem plain_of_mem_takeWhile {s : Text} {ch : CodePoint} (mem : ch ∈ s.takeWhile d.isDecimal) :
    Plain ch :=
  plain_of_isDecimal (List.mem_takeWhile_imp mem)

theorem plain_of_exponent {s : Text} (accepts : exponent d s = true) {ch : CodePoint}
    (mem : ch ∈ s) : Plain ch := by
  cases s with
  | nil => exact absurd mem List.not_mem_nil
  | cons e s =>
    simp only [exponent, Bool.and_eq_true, Bool.or_eq_true, decide_eq_true_eq] at accepts
    obtain ⟨⟨letter, -⟩, digits⟩ := accepts
    cases mem with
    | head => rcases letter with rfl | rfl <;> exact ⟨by decide, by decide, by decide⟩
    | tail _ mem =>
      split_ifs at digits with sign
      · cases s with
        | nil => exact absurd mem List.not_mem_nil
        | cons first s =>
          cases mem with
          | head => rcases sign with same | same <;> obtain rfl := Option.some.inj same <;>
              exact ⟨by decide, by decide, by decide⟩
          | tail _ mem => exact plain_of_isDecimal (List.all_eq_true.mp digits ch mem)
      · exact plain_of_isDecimal (List.all_eq_true.mp digits ch mem)

theorem plain_of_fraction {s : Text} (accepts : fraction d s = true) {ch : CodePoint}
    (mem : ch ∈ s) : Plain ch := by
  cases s with
  | nil => exact absurd mem List.not_mem_nil
  | cons first s =>
    rw [fraction] at accepts
    split_ifs at accepts with dot
    · rw [Bool.and_eq_true] at accepts
      cases mem with
      | head => rw [dot]; exact ⟨by decide, by decide, by decide⟩
      | tail _ mem =>
        rw [← List.takeWhile_append_dropWhile (p := d.isDecimal) (l := s)] at mem
        rcases List.mem_append.mp mem with digit | rest
        · exact plain_of_mem_takeWhile digit
        · exact plain_of_exponent accepts.2 rest
    · exact plain_of_exponent accepts mem

theorem plain_of_unsigned {s : Text} (accepts : unsigned d s = true) {ch : CodePoint}
    (mem : ch ∈ s) : Plain ch := by
  cases s with
  | nil => exact absurd mem List.not_mem_nil
  | cons first s =>
    rw [unsigned] at accepts
    split_ifs at accepts with zero digit
    · cases mem with
      | head => rw [zero]; exact ⟨by decide, by decide, by decide⟩
      | tail _ mem => exact plain_of_fraction accepts mem
    · cases mem with
      | head =>
        refine ⟨?_, ?_, ?_⟩ <;>
        · rintro rfl
          exact absurd digit (by decide)
      | tail _ mem =>
        rw [← List.takeWhile_append_dropWhile (p := d.isDecimal) (l := s)] at mem
        rcases List.mem_append.mp mem with digits | after
        · exact plain_of_mem_takeWhile digits
        · exact plain_of_fraction accepts after

theorem plain_of_isNumber {value : Text} (number : isNumber d value = true) {ch : CodePoint}
    (mem : ch ∈ value) : Plain ch := by
  rw [isNumber] at number
  split_ifs at number with sign
  · cases value with
    | nil => exact absurd mem List.not_mem_nil
    | cons first value =>
      cases mem with
      | head =>
        obtain rfl := Option.some.inj sign
        exact ⟨by decide, by decide, by decide⟩
      | tail _ mem => exact plain_of_unsigned number mem
  · exact plain_of_unsigned number mem

end Plain

/-! The tags of a cell. -/

theorem referenceChar {column rowNumber : Nat} {ch : CodePoint}
    (mem : ch ∈ reference column rowNumber) :
    48 ≤ ch.val ∧ ch.val ≤ 57 ∨ 65 ≤ ch.val ∧ ch.val ≤ 90 := by
  cases List.mem_append.mp mem with
  | inl letter => exact .inr (isLetter_iff.mp (isLetter_of_mem_columnName letter))
  | inr digit => exact .inl (digit_of_mem_str digit)

theorem ne_of_mem_reference {column rowNumber : Nat} {ch : CodePoint}
    (mem : ch ∈ reference column rowNumber) (other : CodePoint)
    (apart : other.val < 48 ∨ 57 < other.val ∧ other.val < 65) : ch ≠ other := by
  rintro rfl
  have range := referenceChar mem
  omega

theorem isChar_of_mem_reference {column rowNumber : Nat} {ch : CodePoint}
    (mem : ch ∈ reference column rowNumber) : isChar ch = true := by
  have range := referenceChar mem
  have low : chr 0x20 ≤ ch := by
    rw [Fin.le_def, val_chr (by decide)]
    omega
  have high : ch ≤ chr 0xd7ff := by
    rw [Fin.le_def, val_chr (by decide)]
    omega
  simp [isChar, low, high]

theorem reference_onOneLine (column rowNumber : Nat) :
    Xml.OnOneLine (reference column rowNumber) :=
  ⟨fun mem => ne_of_mem_reference mem _ (.inl (by decide)) rfl,
    fun mem => ne_of_mem_reference mem _ (.inl (by decide)) rfl⟩

section Tags

variable (column rowNumber : Nat)

theorem run_reference : Reader.initial.run (text "<c r=\"" ++ reference column rowNumber) =
    some ⟨.value ⟨text "c", []⟩ (text "r") Xml.quotationMark (reference column rowNumber), [],
      []⟩ := by
  have start : Reader.initial.run (text "<c r=\"") =
      some ⟨.value ⟨text "c", []⟩ (text "r") Xml.quotationMark [], [], []⟩ := rfl
  rw [Reader.run_append, start, Option.bind_some, Reader.run_value, List.nil_append]
  intro ch mem
  have apart := ne_of_mem_reference mem
  refine ⟨apart _ (.inl (by decide)), apart _ (.inr (by decide)), apart _ (.inl (by decide)), ?_⟩
  simp only [Xml.isSpace, Bool.or_eq_false_iff, decide_eq_false_iff_not]
  exact ⟨⟨⟨apart _ (.inl (by decide)), apart _ (.inl (by decide))⟩, apart _ (.inl (by decide))⟩,
    apart _ (.inl (by decide))⟩

def numberFront : Text := text "<c r=\"" ++ reference column rowNumber ++ text "\"><v>"

def stringFront (value : Text) : Text :=
  text "<c r=\"" ++ reference column rowNumber ++ text "\" t=\"inlineStr\"><is><t" ++
    preserve value ++ text ">"

theorem run_numberFront : Reader.initial.run (numberFront column rowNumber) =
    some ⟨.content 0, [text "v", text "c"],
      [.start (text "c") [(text "r", reference column rowNumber)], .start (text "v") []]⟩ := by
  rw [numberFront, Reader.run_append, run_reference]
  rfl

theorem run_stringFront (value : Text) : ∃ attributes,
    Reader.initial.run (stringFront column rowNumber value) =
    some ⟨.content 0, [text "t", text "is", text "c"],
      [.start (text "c") [(text "r", reference column rowNumber), (text "t", text "inlineStr")],
        .start (text "is") [], .start (text "t") attributes]⟩ := by
  rw [stringFront, Reader.run_append, Reader.run_append, Reader.run_append, run_reference, preserve]
  split_ifs
  · exact ⟨[(text "xml:space", text "preserve")], rfl⟩
  · exact ⟨[], rfl⟩

theorem run_numberBack (brackets : Nat) (events : List Event) :
    (⟨.content brackets, [text "v", text "c"], events⟩ : Reader).run (text "</v></c>") =
      some ⟨.content 0, [], events ++ [.close (text "v"), .close (text "c")]⟩ := by
  have closed : (⟨.content brackets, [text "v", text "c"], events⟩ : Reader).run
      (text "</v></c>") =
      some ⟨.content 0, [], events ++ [.close (text "v")] ++ [.close (text "c")]⟩ := rfl
  rw [closed, List.append_assoc]
  rfl

theorem run_stringBack (brackets : Nat) (events : List Event) :
    (⟨.content brackets, [text "t", text "is", text "c"], events⟩ : Reader).run
      (text "</t></is></c>") =
      some ⟨.content 0, [], events ++ [.close (text "t"), .close (text "is"),
        .close (text "c")]⟩ := by
  have closed : (⟨.content brackets, [text "t", text "is", text "c"], events⟩ : Reader).run
      (text "</t></is></c>") =
      some ⟨.content 0, [], events ++ [.close (text "t")] ++ [.close (text "is")] ++
        [.close (text "c")]⟩ := rfl
  rw [closed, List.append_assoc, List.append_assoc]
  rfl

end Tags

/-! The value of a cell. -/

section Values

variable {d : DecimalDigits} {column rowNumber : Nat} {value : Text}

theorem cellXml_number (number : isNumber d (cleaned value) = true) :
    cellXml d (reference column rowNumber) value =
      numberFront column rowNumber ++ (escape (cleaned value) ++ text "</v></c>") := by
  have plain : escape (cleaned value) = cleaned value :=
    Xml.escape_eq_self fun ch mem => plain_of_isNumber number mem
  rw [cellXml, if_pos number, plain, numberFront]
  simp only [List.append_assoc]

theorem cellXml_string (other : isNumber d (cleaned value) = false) :
    cellXml d (reference column rowNumber) value =
      stringFront column rowNumber (cleaned value) ++
        (escape (cleaned value) ++ text "</t></is></c>") := by
  rw [cellXml, other, if_neg Bool.false_ne_true, stringFront]
  simp only [List.append_assoc]

theorem all_reference (column rowNumber : Nat) :
    (reference column rowNumber).all isChar = true :=
  List.all_eq_true.mpr fun _ mem => isChar_of_mem_reference mem

theorem all_preserve (value : Text) : (preserve value).all isChar = true := by
  rw [preserve]
  split_ifs <;> decide

theorem all_cellXml (d : DecimalDigits) (column rowNumber : Nat) (value : Text) :
    (cellXml d (reference column rowNumber) value).all isChar =
    (cleaned value).all isChar := by
  have tag : (text "<c r=\"").all isChar = true := by decide
  cases number : isNumber d (cleaned value) with
  | true =>
    have front : (text "\"><v>").all isChar = true := by decide
    have back : (text "</v></c>").all isChar = true := by decide
    rw [cellXml_number number, numberFront]
    simp only [List.all_append, tag, all_reference, front, back, Xml.all_escape, Bool.true_and,
      Bool.and_true]
  | false =>
    have front : (text "\" t=\"inlineStr\"><is><t").all isChar = true := by decide
    have last : (text ">").all isChar = true := by decide
    have back : (text "</t></is></c>").all isChar = true := by decide
    rw [cellXml_string number, stringFront]
    simp only [List.all_append, tag, all_reference, all_preserve, front, last, back, Xml.all_escape,
      Bool.true_and, Bool.and_true]

theorem numberFront_onOneLine (column rowNumber : Nat) :
    Xml.OnOneLine (numberFront column rowNumber) :=
  (Xml.OnOneLine.append (by decide) (reference_onOneLine _ _)).append (by decide)

theorem stringFront_onOneLine (column rowNumber : Nat) (value : Text) :
    Xml.OnOneLine (stringFront column rowNumber value) := by
  have space : Xml.OnOneLine (preserve value) := by
    rw [preserve]
    split_ifs <;> decide
  have tag : Xml.OnOneLine (text "<c r=\"" ++ reference column rowNumber) :=
    Xml.OnOneLine.append (by decide) (reference_onOneLine _ _)
  exact ((tag.append (by decide)).append space).append (by decide)

/-- The text of a cell is its value with the line ends of an XML document. -/
theorem cellText_cellXml (legal : (cleaned value).all isChar = true) :
    (parse (cellXml d (reference column rowNumber) value)).bind cellText =
      some (normalizeLineEnds (cleaned value)) := by
  have document := all_cellXml d column rowNumber value
  rw [legal] at document
  cases number : isNumber d (cleaned value) with
  | true =>
    rw [cellXml_number number] at document ⊢
    have other : (text "t", text "inlineStr") ∉ [(text "r", reference column rowNumber)] := by
      rw [List.mem_singleton, Prod.mk.injEq]
      exact fun same => absurd same.1 (by decide)
    rw [Xml.parse_escape document ⟨numberFront_onOneLine column rowNumber, by decide⟩
      ⟨by simp [numberFront, text], List.cons_ne_nil _ _⟩ (run_numberFront column rowNumber)
      run_numberBack, Option.bind_some]
    simp only [List.cons_append, List.nil_append, cellText, if_neg other]
    have inside := Xml.charsAt_map_char [text "v", text "c"] (normalizeLineEnds (cleaned value))
      [.close (text "v"), .close (text "c")]
    exact congrArg some (inside.trans (List.append_nil _))
  | false =>
    rw [cellXml_string number] at document ⊢
    obtain ⟨attributes, opens⟩ := run_stringFront column rowNumber (cleaned value)
    have inline : (text "t", text "inlineStr") ∈
        [(text "r", reference column rowNumber), (text "t", text "inlineStr")] :=
      List.mem_cons_of_mem _ List.mem_cons_self
    rw [Xml.parse_escape document ⟨stringFront_onOneLine column rowNumber _, by decide⟩
      ⟨by simp [stringFront, text], List.cons_ne_nil _ _⟩ opens run_stringBack, Option.bind_some]
    simp only [List.cons_append, List.nil_append, cellText, if_pos inline]
    have inside := Xml.charsAt_map_char [text "t", text "is", text "c"]
      (normalizeLineEnds (cleaned value)) [.close (text "t"), .close (text "is"), .close (text "c")]
    exact congrArg some (inside.trans (List.append_nil _))

theorem isChar_iff {ch : CodePoint} : isChar ch = true ↔ ch.val = 9 ∨ ch.val = 10 ∨ ch.val = 13 ∨
    32 ≤ ch.val ∧ ch.val ≤ 0xd7ff ∨ 0xe000 ≤ ch.val ∧ ch.val ≤ 0xfffd ∨ 0x10000 ≤ ch.val := by
  simp only [isChar, Xml.tab, Xml.lineFeed, Xml.carriageReturn, Bool.or_eq_true, Bool.and_eq_true,
    decide_eq_true_eq, Fin.ext_iff, Fin.le_def]
  rw [val_chr (by decide), val_chr (by decide), val_chr (by decide), val_chr (by decide),
    val_chr (by decide), val_chr (by decide), val_chr (by decide), val_chr (by decide)]
  omega

theorem invalidXmlChar_iff {ch : CodePoint} : invalidXmlChar ch = true ↔
    ch.val ≤ 8 ∨ ch.val = 0xb ∨ ch.val = 0xc ∨ 0xe ≤ ch.val ∧ ch.val ≤ 0x1f := by
  simp only [invalidXmlChar, Bool.or_eq_true, Bool.and_eq_true, decide_eq_true_eq, Fin.ext_iff,
    Fin.le_def]
  rw [val_chr (by decide), val_chr (by decide), val_chr (by decide), val_chr (by decide),
    val_chr (by decide)]
  omega

/-- What `INVALID_XML_CHARS` misses. -/
def Missed (ch : CodePoint) : Prop := ch = chr 0xfffe ∨ ch = chr 0xffff

theorem cleaned_char {ch : CodePoint} (scalar : ¬ IsSurrogate ch) :
    (isChar (if invalidXmlChar ch then replacement else ch) = true ↔ ¬ Missed ch) ∧
      (¬ Missed ch → (if invalidXmlChar ch then replacement else ch) = allowed ch) := by
  have surrogate : ¬ (0xd800 ≤ ch.val ∧ ch.val ≤ 0xdfff) := scalar
  have missed : Missed ch ↔ ch.val = 0xfffe ∨ ch.val = 0xffff := by
    rw [Missed, Fin.ext_iff, Fin.ext_iff, val_chr (by decide), val_chr (by decide)]
  rw [missed, allowed]
  by_cases invalid : invalidXmlChar ch = true
  · have control := invalidXmlChar_iff.mp invalid
    have refused : ¬ isChar ch = true := by
      rw [isChar_iff]
      omega
    have legal : isChar replacement = true := by decide
    rw [if_pos invalid, if_neg refused]
    refine ⟨iff_of_true legal ?_, fun _ => rfl⟩
    omega
  · have other := mt invalidXmlChar_iff.mpr invalid
    rw [if_neg invalid]
    constructor
    · rw [isChar_iff]
      omega
    · intro kept
      rw [if_pos]
      rw [isChar_iff]
      omega

theorem all_cleaned (scalars : ∀ ch ∈ value, ¬ IsSurrogate ch) :
    (cleaned value).all isChar = true ↔ ∀ ch ∈ value, ¬ Missed ch := by
  rw [List.all_eq_true, cleaned, List.forall_mem_map]
  exact forall₂_congr fun ch mem => (cleaned_char (scalars ch mem)).1

theorem cleaned_eq (scalars : ∀ ch ∈ value, ¬ IsSurrogate ch)
    (kept : ∀ ch ∈ value, ¬ Missed ch) : cleaned value = value.map allowed :=
  List.map_congr_left fun ch mem => (cleaned_char (scalars ch mem)).2 (kept ch mem)

theorem carriageReturn_mem_cleaned :
    Xml.carriageReturn ∈ cleaned value ↔ Xml.carriageReturn ∈ value := by
  rw [cleaned, List.mem_map]
  constructor
  · rintro ⟨ch, mem, same⟩
    split_ifs at same
    · exact absurd same (by decide)
    · rwa [← same]
  · intro mem
    exact ⟨Xml.carriageReturn, mem, by decide⟩

end Values

theorem cellXml_lossless_iff (d : DecimalDigits) (column rowNumber : Nat) (value : Text)
    (scalars : ∀ ch ∈ value, ¬ IsSurrogate ch) :
    Lossless d (reference column rowNumber) value ↔
      ∀ ch ∈ value, ch ≠ chr 13 ∧ ch ≠ chr 0xfffe ∧ ch ≠ chr 0xffff := by
  have split : (∀ ch ∈ value, ch ≠ chr 13 ∧ ch ≠ chr 0xfffe ∧ ch ≠ chr 0xffff) ↔
      (∀ ch ∈ value, ¬ Missed ch) ∧ Xml.carriageReturn ∉ value := by
    constructor
    · intro all
      refine ⟨fun ch mem => not_or.mpr (all ch mem).2, fun mem => (all _ mem).1 rfl⟩
    · rintro ⟨kept, clean⟩ ch mem
      refine ⟨?_, not_or.mp (kept ch mem)⟩
      rintro rfl
      exact clean mem
  rw [split, Lossless, ← List.all_eq_true, all_cellXml, all_cleaned scalars]
  refine and_congr_right fun kept => ?_
  rw [cellText_cellXml ((all_cleaned scalars).mpr kept), Option.some_inj, ← cleaned_eq scalars kept,
    Xml.normalizeLineEnds_eq_self, carriageReturn_mem_cleaned]

def asciiDigits : DecimalDigits where
  isDecimal ch := chr 48 ≤ ch && ch ≤ chr 57
  ascii ch _ := by
    rw [Bool.and_eq_true, decide_eq_true_eq, decide_eq_true_eq, Fin.le_def, Fin.le_def,
      val_chr (by decide), val_chr (by decide)]

theorem cellXml_lossless_iff_text : Lossless asciiDigits (reference 1 1) (text "a<b ") ↔
    ∀ ch ∈ text "a<b ", ch ≠ chr 13 ∧ ch ≠ chr 0xfffe ∧ ch ≠ chr 0xffff := by
  apply cellXml_lossless_iff
  have scalars : ((text "a<b ").all fun ch => decide (¬ IsSurrogate ch)) = true := by decide
  exact fun ch mem => of_decide_eq_true (List.all_eq_true.mp scalars ch mem)

/-- A carriage return is read back as a line feed, and U+FFFE is not allowed at all. -/
theorem cellXml_lossy :
    (parse (cellXml asciiDigits (reference 1 1) (text "a\rb"))).bind cellText =
        some (text "a\nb") ∧
      ¬ Lossless asciiDigits (reference 1 1) (text "a\rb") ∧
      ¬ Lossless asciiDigits (reference 1 1) [chr 0xfffe] := by
  have read : (parse (cellXml asciiDigits (reference 1 1) (text "a\rb"))).bind cellText =
      some (text "a\nb") :=
    cellText_cellXml (by decide)
  refine ⟨read, fun lossless => ?_, fun lossless => ?_⟩
  · have same : some (text "a\nb") = some ((text "a\rb").map allowed) := read.symm.trans lossless.2
    exact absurd same (by decide)
  · have legal := List.all_eq_true.mpr lossless.1
    rw [all_cellXml] at legal
    exact absurd legal (by decide)

end Partyline.CsvToXlsx
