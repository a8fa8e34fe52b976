import Partyline.Cells
import Partyline.Library.Csv
import Partyline.Library.XmlContent

/-! `worksheet_xml` of `csv_to_xlsx.py`, and what a spreadsheet shows of a worksheet. -/
namespace Partyline.CsvToXlsx

open Library
open Library.Xml (isChar Event Tag Content Free Whole parseDocument)

def xmlHeader : Text := text "<?xml version=\"1.0\" encoding=\"UTF-8\" standalone=\"yes\"?>"

def sheetNs : Text := text "http://schemas.openxmlformats.org/spreadsheetml/2006/main"

/-- A file opened as UTF-8: the text it gives, and whether it fails behind that text. -/
structure Source where
  text : Text
  fails : Bool
  scalars : ∀ ch ∈ text, ¬ IsSurrogate ch

inductive SheetError where
  | rowLimit
  | columnLimit (rowNumber : Nat)
  | csv (error : Csv.Error)
  | source
deriving DecidableEq

def byteOrderMark : CodePoint := chr 0xfeff

/-- `utf-8-sig`. -/
def withoutMark (s : Text) : Text := if s.head? = some byteOrderMark then s.tail else s

/-- What stops `csv.reader`. A failure of the file comes before the complaint about its end. -/
def Source.stops (source : Source) (ended : Option Csv.Error) : Option SheetError :=
  match ended with
  | none | some .unexpectedEnd => if source.fails then some .source else ended.map .csv
  | some error => some (.csv error)

def rowXml (d : DecimalDigits) (rowNumber : Nat) (row : List Text) : Text :=
  text "<row r=\"" ++ str rowNumber ++ text "\">" ++
    ((filled row).flatMap fun cell => cellXml d (reference cell.2 rowNumber) cell.1) ++
    text "</row>"

/-- The loop of `worksheet_xml`. -/
def rowsXml (d : DecimalDigits) : Nat → List (List Text) → Except SheetError (List Text)
  | _, [] => .ok []
  | rowNumber, row :: rows =>
    if rowNumber > 1048576 then .error .rowLimit
    else if row.length > 16384 then .error (.columnLimit rowNumber)
    else do
      let rest ← rowsXml d (rowNumber + 1) rows
      .ok (rowXml d rowNumber row :: rest)

def worksheetXml (d : DecimalDigits) (source : Source) : Except SheetError Text := do
  let (records, ended) := Csv.reader true (withoutMark source.text)
  let rows ← rowsXml d 1 records
  match source.stops ended with
  | some error => .error error
  | none =>
    .ok (xmlHeader ++ text "<worksheet xmlns=\"" ++ sheetNs ++ text "\"><sheetData>" ++
      rows.flatten ++ text "</sheetData></worksheet>")

/-! What a spreadsheet shows. -/

def digitsValue (digits : Text) : Nat :=
  digits.foldl (fun value ch => 10 * value + (ch.val - 48)) 0

def place (reference : Text) : Nat × Nat :=
  let letter := fun ch : CodePoint => decide (chr 65 ≤ ch ∧ ch ≤ chr 90)
  (columnNumber (reference.takeWhile letter), digitsValue (reference.dropWhile letter))

/-- The text of each cell, at its column and row. -/
def readCells (events : List Event) : Option (List ((Nat × Nat) × Text)) :=
  (Xml.elements (text "c") events).mapM fun (attributes, inside) => do
    let reference ← attributes.lookup (text "r")
    let value ← cellText (.start (text "c") attributes :: (inside ++ [.close (text "c")]))
    some (place reference, value)

def readSheet (document : Text) : Option (List ((Nat × Nat) × Text)) :=
  (parseDocument document).bind readCells

def shown (value : Text) : Text := Xml.normalizeLineEnds (cleaned value)

def tableCells (records : List (List Text)) : List ((Nat × Nat) × Text) :=
  (records.zipIdx 1).flatMap fun (row, rowNumber) =>
    (filled row).map fun (value, column) => ((column, rowNumber), shown value)

/-! The place of a cell. -/

theorem digitsValue_str (number : Nat) : digitsValue (str number) = number := by
  have decimal : number = Nat.ofDigitChars 10 (Nat.toDigits 10 number) 0 :=
    Nat.ofDigitChars_ten_toDigits.symm
  rw [digitsValue, str_eq, List.foldl_map]
  conv => rhs; rw [decimal]
  rw [Nat.ofDigitChars]
  apply List.foldl_ext
  intro value ch _
  rw [chr_toNat_val]
  rfl

theorem place_reference (column rowNumber : Nat) :
    place (reference column rowNumber) = (column, rowNumber) := by
  have letters : ∀ ch ∈ columnName column,
      decide (chr 65 ≤ ch ∧ ch ≤ chr 90) = true := fun ch mem =>
    decide_eq_true (isLetter_of_mem_columnName mem)
  have digits : ∀ ch ∈ str rowNumber, decide (chr 65 ≤ ch ∧ ch ≤ chr 90) = false := by
    intro ch mem
    have range := digit_of_mem_str mem
    apply decide_eq_false
    rintro ⟨low, -⟩
    rw [Fin.le_def, val_chr (by decide)] at low
    omega
  have front : (reference column rowNumber).takeWhile
      (fun ch => decide (chr 65 ≤ ch ∧ ch ≤ chr 90)) = columnName column := by
    rw [reference, List.takeWhile_append_of_pos letters]
    cases first : str rowNumber with
    | nil => exact List.append_nil _
    | cons ch rest =>
      rw [List.takeWhile_cons_of_neg, List.append_nil]
      rw [digits ch (by rw [first]; exact List.mem_cons_self)]
      exact Bool.false_ne_true
  have back : (reference column rowNumber).dropWhile
      (fun ch => decide (chr 65 ≤ ch ∧ ch ≤ chr 90)) = str rowNumber := by
    rw [reference, List.dropWhile_append_of_pos letters]
    cases first : str rowNumber with
    | nil => rfl
    | cons ch rest =>
      rw [List.dropWhile_cons_of_neg]
      rw [digits ch (by rw [first]; exact List.mem_cons_self)]
      exact Bool.false_ne_true
  rw [place, front, back, columnNumber_columnName, digitsValue_str]

/-! A cell. -/

theorem isNameChar_of_alphanumeric {ch : CodePoint}
    (range : 48 ≤ ch.val ∧ ch.val ≤ 57 ∨ 65 ≤ ch.val ∧ ch.val ≤ 90) :
    Xml.isNameChar ch = true := by
  simp only [Xml.isNameChar, Xml.isNameStart, Bool.or_eq_true, Bool.and_eq_true,
    decide_eq_true_eq, Fin.le_def, Fin.ext_iff]
  rw [val_chr (by decide), val_chr (by decide), val_chr (by decide), val_chr (by decide),
    val_chr (by decide), val_chr (by decide), val_chr (by decide), val_chr (by decide),
    val_chr (by decide), val_chr (by decide)]
  omega

theorem str_nameChars (number : Nat) : (str number).all Xml.isNameChar = true :=
  List.all_eq_true.mpr fun _ mem => isNameChar_of_alphanumeric (.inl (digit_of_mem_str mem))

theorem reference_nameChars (column rowNumber : Nat) :
    (reference column rowNumber).all Xml.isNameChar = true :=
  List.all_eq_true.mpr fun _ mem => isNameChar_of_alphanumeric (referenceChar mem)

theorem isChar_of_nameChars {s : Text} (named : s.all Xml.isNameChar = true) :
    s.all isChar = true :=
  List.all_eq_true.mpr fun ch mem => Xml.isChar_of_isNameChar (List.all_eq_true.mp named ch mem)

theorem isPlain_of_nameChars {s : Text} (named : s.all Xml.isNameChar = true) :
    s.all Xml.isPlain = true :=
  List.all_eq_true.mpr fun ch mem =>
    Xml.isPlain_of_isNameChar (List.all_eq_true.mp named ch mem)

section Cell

variable (d : DecimalDigits) (column rowNumber : Nat) (value : Text)

def cellTag : Tag :=
  ⟨text "c", (text "r", reference column rowNumber) ::
    if isNumber d (cleaned value) then [] else [(text "t", text "inlineStr")]⟩

def textTag : Tag :=
  ⟨text "t", if preserve (cleaned value) = [] then []
    else [(text "xml:space", text "preserve")]⟩

def cellEvents : List Event :=
  if isNumber d (cleaned value) then
    .start (text "v") [] :: ((shown value).map .char ++ [.close (text "v")])
  else
    .start (text "is") [] :: (.start (text "t") (textTag value).attributes ::
      ((shown value).map .char ++ [.close (text "t")]) ++ [.close (text "is")])

theorem cellTag_wellFormed : (cellTag d column rowNumber value).WellFormed := by
  have named := isChar_of_nameChars (reference_nameChars column rowNumber)
  have c : Xml.isName (text "c") = true := by decide
  have r : Xml.isName (text "r") = true := by decide
  have t : Xml.isName (text "t") = true := by decide
  have inline : (text "inlineStr").all isChar = true := by decide
  have apart : text "r" ∉ [text "t"] := by decide
  rw [cellTag]
  split_ifs
  · exact ⟨c, by simp [r], by simpa using List.all_eq_true.mp named, by simp⟩
  · exact ⟨c, by simp [r, t], by simpa using ⟨List.all_eq_true.mp named, List.all_eq_true.mp inline⟩,
      by simpa using apart⟩

theorem textTag_wellFormed : (textTag value).WellFormed := by
  rw [textTag]
  split_ifs
  · exact ⟨by decide, by decide, by decide, by decide⟩
  · exact ⟨by decide, by decide, by decide, by decide⟩

theorem numberFront_eq : numberFront column rowNumber =
    Xml.startTag ⟨text "c", [(text "r", reference column rowNumber)]⟩ ++
      Xml.startTag ⟨text "v", []⟩ := by
  have quoted := Xml.quoteattr_of_plain (isPlain_of_nameChars (reference_nameChars column rowNumber))
  have front : text "<c r=\"" = [Xml.lessThan] ++ text "c" ++ [chr 32] ++ text "r" ++
      [Xml.equalsSign, Xml.quotationMark] := rfl
  have back : text "\"><v>" = [Xml.quotationMark, Xml.greaterThan] ++
      Xml.startTag ⟨text "v", []⟩ := rfl
  have own : Xml.startTag ⟨text "c", [(text "r", reference column rowNumber)]⟩ =
      [Xml.lessThan] ++ text "c" ++ [chr 32] ++ text "r" ++ [Xml.equalsSign, Xml.quotationMark] ++
        reference column rowNumber ++ [Xml.quotationMark, Xml.greaterThan] := by
    simp [Xml.startTag, Xml.tagText, Xml.attributeText, quoted]
  rw [numberFront, front, back, own]
  simp only [List.append_assoc]

theorem stringFront_eq (other : isNumber d (cleaned value) = false) :
    stringFront column rowNumber (cleaned value) =
      Xml.startTag (cellTag d column rowNumber value) ++
        (Xml.startTag ⟨text "is", []⟩ ++ Xml.startTag (textTag value)) := by
  have quoted := Xml.quoteattr_of_plain (isPlain_of_nameChars (reference_nameChars column rowNumber))
  have front : text "<c r=\"" = [Xml.lessThan] ++ text "c" ++ [chr 32] ++ text "r" ++
      [Xml.equalsSign, Xml.quotationMark] := rfl
  have inline : text "\" t=\"inlineStr\"><is><t" = [Xml.quotationMark] ++
      Xml.attributeText (text "t", text "inlineStr") ++ [Xml.greaterThan] ++
      Xml.startTag ⟨text "is", []⟩ ++ Xml.tagText ⟨text "t", []⟩ := by decide
  have tag : Xml.startTag (textTag value) =
      Xml.tagText ⟨text "t", []⟩ ++ preserve (cleaned value) ++ text ">" := by
    rw [textTag]
    split_ifs with empty
    · rw [empty]
      rfl
    · have space : preserve (cleaned value) = text " xml:space=\"preserve\"" := by
        rw [preserve] at empty ⊢
        split_ifs at empty ⊢ with blank
        · rfl
        · exact absurd rfl empty
      rw [space]
      decide
  have own : Xml.startTag (cellTag d column rowNumber value) =
      [Xml.lessThan] ++ text "c" ++ [chr 32] ++ text "r" ++ [Xml.equalsSign, Xml.quotationMark] ++
        reference column rowNumber ++ ([Xml.quotationMark] ++
        Xml.attributeText (text "t", text "inlineStr") ++ [Xml.greaterThan]) := by
    simp [cellTag, other, Xml.startTag, Xml.tagText, Xml.attributeText, quoted]
  rw [stringFront, front, inline, tag, own]
  simp only [List.append_assoc]

theorem cellEvents_free : Free (text "c") (cellEvents d value) := by
  have v : text "v" ≠ text "c" := by decide
  have t : text "t" ≠ text "c" := by decide
  have inline : text "is" ≠ text "c" := by decide
  have chars := Free.chars (text "c") (shown value)
  rw [cellEvents]
  split_ifs
  · exact Free.element v [] chars
  · exact Free.element inline [] (Free.element t _ chars)

variable {value}

theorem cellXml_content (legal : (cleaned value).all isChar = true) :
    Content (cellXml d (reference column rowNumber) value)
      (.start (text "c") (cellTag d column rowNumber value).attributes ::
        (cellEvents d value ++ [.close (text "c")])) := by
  have value_content := Content.escape legal
  have c := cellTag_wellFormed d column rowNumber value
  cases number : isNumber d (cleaned value) with
  | true =>
    have v : (⟨text "v", []⟩ : Tag).WellFormed := ⟨by decide, by decide, by decide, by decide⟩
    have back : text "</v></c>" = Xml.closingTag (text "v") ++ Xml.closingTag (text "c") := rfl
    have tag : cellTag d column rowNumber value =
        ⟨text "c", [(text "r", reference column rowNumber)]⟩ := by
      rw [cellTag, if_pos number]
    have whole : cellXml d (reference column rowNumber) value =
        Xml.element (cellTag d column rowNumber value)
          (Xml.element ⟨text "v", []⟩ (Xml.escape (cleaned value))) := by
      rw [cellXml_number number, numberFront_eq, back, tag]
      simp only [Xml.element, List.append_assoc]
    rw [whole, cellEvents, if_pos number]
    exact (value_content.element v).element c
  | false =>
    have inline : (⟨text "is", []⟩ : Tag).WellFormed := ⟨by decide, by decide, by decide, by decide⟩
    have back : text "</t></is></c>" = Xml.closingTag (text "t") ++
        (Xml.closingTag (text "is") ++ Xml.closingTag (text "c")) := rfl
    have whole : cellXml d (reference column rowNumber) value =
        Xml.element (cellTag d column rowNumber value)
          (Xml.element ⟨text "is", []⟩ (Xml.element (textTag value) (Xml.escape (cleaned value)))) := by
      rw [cellXml_string number, stringFront_eq d column rowNumber value number, back]
      simp only [Xml.element, List.append_assoc]
      rfl
    rw [whole, cellEvents, number, if_neg Bool.false_ne_true]
    exact ((value_content.element (textTag_wellFormed value)).element inline).element c

def cellElement (cell : Text × Nat) : List Event :=
  .start (text "c") (cellTag d cell.2 rowNumber cell.1).attributes ::
    (cellEvents d cell.1 ++ [.close (text "c")])

variable (value)

theorem cellText_cellElement :
    cellText (cellElement d rowNumber (value, column)) = some (shown value) := by
  cases number : isNumber d (cleaned value) with
  | true =>
    have other : (text "t", text "inlineStr") ∉ (cellTag d column rowNumber value).attributes := by
      rw [cellTag, if_pos number, List.mem_singleton, Prod.mk.injEq]
      exact fun same => absurd same.1 (by decide)
    have inner := Xml.charsAt_map_char [text "v", text "c"] (shown value)
      ([.close (text "v")] ++ [.close (text "c")])
    rw [← List.append_assoc] at inner
    rw [cellElement, cellText, if_neg other, cellEvents, if_pos number]
    exact congrArg some (inner.trans (List.append_nil _))
  | false =>
    have inline : (text "t", text "inlineStr") ∈ (cellTag d column rowNumber value).attributes := by
      rw [cellTag, number, if_neg Bool.false_ne_true]
      exact List.mem_cons_of_mem _ List.mem_cons_self
    have inner := Xml.charsAt_map_char [text "t", text "is", text "c"] (shown value)
      ([.close (text "t")] ++ [.close (text "is")] ++ [.close (text "c")])
    rw [← List.append_assoc, ← List.append_assoc] at inner
    rw [cellElement, cellText, if_pos inline, cellEvents, number, if_neg Bool.false_ne_true]
    exact congrArg some (inner.trans (List.append_nil _))

end Cell

/-! Rows and sheets. -/

section Sheet

variable (d : DecimalDigits)

def rowTag (rowNumber : Nat) : Tag := ⟨text "row", [(text "r", str rowNumber)]⟩

theorem rowTag_wellFormed (rowNumber : Nat) : (rowTag rowNumber).WellFormed := by
  have named := isChar_of_nameChars (str_nameChars rowNumber)
  have r : Xml.isName (text "r") = true := by decide
  exact ⟨show Xml.isName (text "row") = true by decide, by simpa [rowTag] using r,
    by simpa [rowTag] using List.all_eq_true.mp named, by simp [rowTag]⟩

theorem rowXml_eq (rowNumber : Nat) (row : List Text) :
    rowXml d rowNumber row = Xml.element (rowTag rowNumber)
      ((filled row).flatMap fun cell => cellXml d (reference cell.2 rowNumber) cell.1) := by
  have quoted := Xml.quoteattr_of_plain (isPlain_of_nameChars (str_nameChars rowNumber))
  have front : text "<row r=\"" = [Xml.lessThan] ++ text "row" ++ [chr 32] ++ text "r" ++
      [Xml.equalsSign, Xml.quotationMark] := rfl
  have middle : text "\">" = [Xml.quotationMark, Xml.greaterThan] := rfl
  have back : text "</row>" = Xml.closingTag (text "row") := rfl
  have own : Xml.startTag (rowTag rowNumber) =
      [Xml.lessThan] ++ text "row" ++ [chr 32] ++ text "r" ++ [Xml.equalsSign, Xml.quotationMark] ++
        str rowNumber ++ [Xml.quotationMark, Xml.greaterThan] := by
    simp [rowTag, Xml.startTag, Xml.tagText, Xml.attributeText, quoted]
  rw [rowXml, front, middle, back, Xml.element, own]
  simp only [List.append_assoc]
  rfl

def rowElement (row : List Text × Nat) : List Event :=
  .start (text "row") [(text "r", str row.2)] ::
    ((filled row.1).flatMap (cellElement d row.2) ++ [.close (text "row")])

def sheetElement (records : List (List Text)) : List Event :=
  .start (text "worksheet") [(text "xmlns", sheetNs)] ::
    ((.start (text "sheetData") [] ::
      ((records.zipIdx 1).flatMap (rowElement d) ++ [.close (text "sheetData")])) ++
      [.close (text "worksheet")])

/-- XML allows the characters of all values, when those it does not allow are replaced. -/
def Legal (records : List (List Text)) : Prop :=
  ∀ row ∈ records, ∀ value ∈ row, (cleaned value).all isChar = true

theorem mem_of_mem_filled {row : List Text} {cell : Text × Nat} (mem : cell ∈ filled row) :
    cell.1 ∈ row := by
  obtain ⟨value, column⟩ := cell
  exact (List.mem_zipIdx (List.mem_filter.mp mem).1).2.2 ▸ List.getElem_mem _

theorem cellXml_head (column rowNumber : Nat) (value : Text) :
    ∃ s, cellXml d (reference column rowNumber) value = Xml.lessThan :: s := by
  rw [cellXml]
  split_ifs
  · exact ⟨_, rfl⟩
  · exact ⟨_, rfl⟩

theorem rowXml_content {rowNumber : Nat} {row : List Text}
    (legal : ∀ value ∈ row, (cleaned value).all isChar = true) :
    Content (rowXml d rowNumber row) (rowElement d (row, rowNumber)) := by
  rw [rowXml_eq]
  have cells : Content ((filled row).flatMap fun cell =>
      cellXml d (reference cell.2 rowNumber) cell.1)
      ((filled row).flatMap (cellElement d rowNumber)) := by
    apply Content.flatMap
    · intro cell mem
      exact cellXml_content d cell.2 rowNumber (legal cell.1 (mem_of_mem_filled mem))
    · exact fun cell _ => cellXml_head d cell.2 rowNumber cell.1
  exact cells.element (rowTag_wellFormed rowNumber)

def sheetXml (records : List (List Text)) : Text :=
  xmlHeader ++ Xml.element ⟨text "worksheet", [(text "xmlns", sheetNs)]⟩
    (Xml.element ⟨text "sheetData", []⟩
      ((records.zipIdx 1).flatMap fun row => rowXml d row.2 row.1))

theorem xmlHeader_declaration : Xml.Declaration xmlHeader where
  chars := by decide
  line := by decide
  skipped _ := rfl

theorem mem_of_mem_zipIdx {records : List (List Text)} {row : List Text × Nat} {start : Nat}
    (mem : row ∈ records.zipIdx start) : row.1 ∈ records := by
  obtain ⟨values, rowNumber⟩ := row
  exact (List.mem_zipIdx mem).2.2 ▸ List.getElem_mem _

theorem parseDocument_sheetXml {records : List (List Text)} (legal : Legal records) :
    parseDocument (sheetXml d records) = some (sheetElement d records) := by
  have rows : Content ((records.zipIdx 1).flatMap fun row => rowXml d row.2 row.1)
      ((records.zipIdx 1).flatMap (rowElement d)) := by
    apply Content.flatMap
    · intro row mem
      exact rowXml_content d (legal row.1 (mem_of_mem_zipIdx mem))
    · exact fun row _ => ⟨_, rfl⟩
  have data : (⟨text "sheetData", []⟩ : Tag).WellFormed :=
    ⟨by decide, by decide, by decide, by decide⟩
  have ns : sheetNs.all isChar = true := by decide
  have xmlns : Xml.isName (text "xmlns") = true := by decide
  have sheet : (⟨text "worksheet", [(text "xmlns", sheetNs)]⟩ : Tag).WellFormed :=
    ⟨by decide, by simpa using xmlns, by simpa using List.all_eq_true.mp ns, by simp⟩
  exact Xml.parseDocument_element xmlHeader_declaration (rows.element data) sheet

theorem cellElement_whole (rowNumber : Nat) (cell : Text × Nat) :
    Whole (text "c") (cellElement d rowNumber cell) :=
  (cellEvents_free d cell.1).own _

theorem elements_cellElement (rowNumber : Nat) (cell : Text × Nat) :
    Xml.elements (text "c") (cellElement d rowNumber cell) =
      [((cellTag d cell.2 rowNumber cell.1).attributes, cellEvents d cell.1)] := by
  have alone := Xml.elements_own (cellEvents_free d cell.1)
    (cellTag d cell.2 rowNumber cell.1).attributes []
  rwa [List.append_nil] at alone

theorem rowElement_whole (row : List Text × Nat) : Whole (text "c") (rowElement d row) :=
  Whole.other (by decide) _ (Whole.flatMap fun cell _ => cellElement_whole d row.2 cell)

theorem elements_rowElement (row : List Text × Nat) :
    Xml.elements (text "c") (rowElement d row) = (filled row.1).map fun cell =>
      ((cellTag d cell.2 row.2 cell.1).attributes, cellEvents d cell.1) := by
  have cells := Whole.flatMap fun (cell : Text × Nat) (_ : cell ∈ filled row.1) =>
    cellElement_whole d row.2 cell
  rw [rowElement, Whole.elements_other (by decide) _ cells,
    Whole.elements_flatMap fun cell _ => cellElement_whole d row.2 cell]
  simp only [elements_cellElement]
  exact List.map_eq_flatMap.symm

theorem elements_sheetElement (records : List (List Text)) :
    Xml.elements (text "c") (sheetElement d records) = (records.zipIdx 1).flatMap fun row =>
      (filled row.1).map fun cell =>
        ((cellTag d cell.2 row.2 cell.1).attributes, cellEvents d cell.1) := by
  have rows := Whole.flatMap fun (row : List Text × Nat) (_ : row ∈ records.zipIdx 1) =>
    rowElement_whole d row
  have apart : text "sheetData" ≠ text "c" := by decide
  have data := Whole.other apart [] rows
  rw [sheetElement, Whole.elements_other (by decide) _ data,
    Whole.elements_other (by decide) _ rows,
    Whole.elements_flatMap fun row _ => rowElement_whole d row]
  simp only [elements_rowElement]

theorem mapM_map_eq_some {α β γ : Type*} {f : β → Option γ} {h : α → β} {g : α → γ} {xs : List α}
    (each : ∀ x ∈ xs, f (h x) = some (g x)) : (xs.map h).mapM f = some (xs.map g) := by
  induction xs with
  | nil => rfl
  | cons x xs ih =>
    rw [List.map_cons, List.mapM_cons, each x List.mem_cons_self,
      ih fun y mem => each y (List.mem_cons_of_mem x mem)]
    rfl

/-- What is shown of a worksheet: every value that is not empty, at its column and row. -/
theorem readSheet_sheetXml {records : List (List Text)} (legal : Legal records) :
    readSheet (sheetXml d records) = some (tableCells records) := by
  have each (row : List Text × Nat) (cell : Text × Nat) :
      (do
        let reference ← (cellTag d cell.2 row.2 cell.1).attributes.lookup (text "r")
        let value ← cellText (cellElement d row.2 cell)
        some (place reference, value)) = some ((cell.2, row.2), shown cell.1) := by
    have found : (cellTag d cell.2 row.2 cell.1).attributes.lookup (text "r") =
        some (reference cell.2 row.2) := by
      rw [cellTag, List.lookup_cons_self]
    rw [found, cellText_cellElement]
    exact congrArg (fun there => some (there, shown cell.1)) (place_reference cell.2 row.2)
  have cells : (records.zipIdx 1).flatMap (fun row => (filled row.1).map fun cell =>
      ((cellTag d cell.2 row.2 cell.1).attributes, cellEvents d cell.1)) =
      ((records.zipIdx 1).flatMap fun row => (filled row.1).map fun cell => (row, cell)).map
        fun found => ((cellTag d found.2.2 found.1.2 found.2.1).attributes,
          cellEvents d found.2.1) := by
    rw [List.map_flatMap]
    simp only [List.map_map]
    rfl
  have table : tableCells records =
      ((records.zipIdx 1).flatMap fun row => (filled row.1).map fun cell => (row, cell)).map
        fun found => ((found.2.2, found.1.2), shown found.2.1) := by
    rw [tableCells, List.map_flatMap]
    simp only [List.map_map]
    rfl
  rw [readSheet, parseDocument_sheetXml d legal, Option.bind_some, readCells,
    elements_sheetElement, cells, table]
  exact mapM_map_eq_some fun found _ => each found.1 found.2

/-- What a worksheet holds at most, from that row on. -/
def WithinLimits (rowNumber : Nat) (records : List (List Text)) : Prop :=
  rowNumber + records.length ≤ 1048577 ∧ ∀ row ∈ records, row.length ≤ 16384

theorem rowsXml_ok {rowNumber : Nat} (small : rowNumber ≤ 1048577) {records : List (List Text)}
    {rows : List Text} : rowsXml d rowNumber records = .ok rows ↔
      WithinLimits rowNumber records ∧
        rows = (records.zipIdx rowNumber).map fun row => rowXml d row.2 row.1 := by
  induction records generalizing rowNumber rows with
  | nil =>
    rw [rowsXml, Except.ok.injEq]
    exact ⟨fun same => ⟨⟨small, fun _ mem => absurd mem List.not_mem_nil⟩, same.symm⟩,
      fun given => given.2.symm⟩
  | cons row records ih =>
    rw [rowsXml, WithinLimits, List.length_cons, List.forall_mem_cons]
    split_ifs with many long
    · refine iff_of_false (by simp) fun given => ?_
      have most := given.1.1
      omega
    · refine iff_of_false (by simp) fun given => ?_
      have most := given.1.2.1
      omega
    · have next : rowNumber + 1 ≤ 1048577 := by omega
      cases rest : rowsXml d (rowNumber + 1) records with
      | error error =>
        refine iff_of_false (fun same => by cases same) fun given => ?_
        obtain ⟨⟨most, -, short⟩, -⟩ := given
        have ends := (ih next).mpr ⟨⟨by omega, short⟩, rfl⟩
        rw [rest] at ends
        cases ends
      | ok found =>
        obtain ⟨⟨most, short⟩, same⟩ := (ih next).mp rest
        have ends : (do
            let rest ← (Except.ok found : Except SheetError (List Text))
            Except.ok (rowXml d rowNumber row :: rest)) = .ok (rowXml d rowNumber row :: found) := rfl
        rw [ends, Except.ok.injEq, List.zipIdx_cons, List.map_cons, ← same]
        constructor
        · intro given
          exact ⟨⟨by omega, by omega, short⟩, given.symm⟩
        · exact fun given => given.2.symm

end Sheet

def Source.records (source : Source) : List (List Text) :=
  (Csv.reader true (withoutMark source.text)).1

/-- The file gives all of its text, and that is complete CSV. -/
def Source.Complete (source : Source) : Prop :=
  source.fails = false ∧ (Csv.reader true (withoutMark source.text)).2 = none

theorem Source.stops_none {source : Source} {ended : Option Csv.Error} :
    source.stops ended = none ↔ source.fails = false ∧ ended = none := by
  cases ended with
  | none => cases fails : source.fails <;> simp [stops, fails]
  | some error => cases error <;> cases fails : source.fails <;> simp [stops, fails]

theorem sheetXml_eq (d : DecimalDigits) (records : List (List Text)) :
    sheetXml d records = xmlHeader ++ text "<worksheet xmlns=\"" ++ sheetNs ++
      text "\"><sheetData>" ++ ((records.zipIdx 1).map fun row => rowXml d row.2 row.1).flatten ++
      text "</sheetData></worksheet>" := by
  have front : text "<worksheet xmlns=\"" ++ sheetNs ++ text "\"><sheetData>" =
      Xml.startTag ⟨text "worksheet", [(text "xmlns", sheetNs)]⟩ ++
        Xml.startTag ⟨text "sheetData", []⟩ := by decide
  have back : text "</sheetData></worksheet>" =
      Xml.closingTag (text "sheetData") ++ Xml.closingTag (text "worksheet") := rfl
  rw [sheetXml, Xml.element, Xml.element, List.flatMap_def, back]
  rw [List.append_assoc xmlHeader, List.append_assoc xmlHeader, List.append_assoc xmlHeader,
    List.append_assoc xmlHeader, front]
  simp only [List.append_assoc]

/-- A worksheet is written exactly of a complete file within the limits. -/
theorem worksheetXml_ok (d : DecimalDigits) (source : Source) (document : Text) :
    worksheetXml d source = .ok document ↔
      (source.Complete ∧ WithinLimits 1 source.records) ∧ document = sheetXml d source.records := by
  have unfolded : worksheetXml d source = (rowsXml d 1 source.records).bind fun rows =>
      match source.stops (Csv.reader true (withoutMark source.text)).2 with
      | some error => .error error
      | none =>
        .ok (xmlHeader ++ text "<worksheet xmlns=\"" ++ sheetNs ++ text "\"><sheetData>" ++
          rows.flatten ++ text "</sheetData></worksheet>") := rfl
  rw [unfolded, Source.Complete, ← Source.stops_none]
  cases rows : rowsXml d 1 source.records with
  | error error =>
    refine iff_of_false (fun same => by cases same) fun given => ?_
    have ends := (rowsXml_ok d (by decide)).mpr ⟨given.1.2, rfl⟩
    rw [rows] at ends
    cases ends
  | ok found =>
    obtain ⟨within, same⟩ := (rowsXml_ok d (by decide)).mp rows
    rw [sheetXml_eq, ← same]
    cases stopped : source.stops (Csv.reader true (withoutMark source.text)).2 with
    | some error =>
      exact iff_of_false (fun same => by cases same) fun given => by cases given.1.1
    | none =>
      simp only [Except.bind, Except.ok.injEq, within, and_self, true_and]
      exact eq_comm

theorem mem_of_mem_withoutMark {s : Text} {ch : CodePoint} (mem : ch ∈ withoutMark s) : ch ∈ s := by
  rw [withoutMark] at mem
  split_ifs at mem
  · exact List.mem_of_mem_tail mem
  · exact mem

theorem Source.legal {source : Source} (kept : ∀ ch ∈ source.text, ¬ Missed ch) :
    Legal source.records := by
  intro row mem value there
  have inside {ch : CodePoint} (here : ch ∈ value) : ch ∈ source.text :=
    mem_of_mem_withoutMark (Csv.mem_of_mem_reader mem there here)
  exact (all_cleaned fun ch here => source.scalars ch (inside here)).mpr
    fun ch here => kept ch (inside here)

/-- The order of the cells in a worksheet: by rows, and in a row by columns. -/
def Precedes (cell other : (Nat × Nat) × Text) : Prop :=
  cell.1.2 < other.1.2 ∨ cell.1.2 = other.1.2 ∧ cell.1.1 < other.1.1

theorem zipIdx_ascends {α : Type*} (xs : List α) (first : Nat) :
    (xs.zipIdx first).Pairwise fun left right => left.2 < right.2 := by
  rw [← List.pairwise_map, List.zipIdx_map_snd]
  exact List.pairwise_lt_range'

theorem tableCells_ascends (records : List (List Text)) :
    (tableCells records).Pairwise Precedes := by
  rw [tableCells, List.flatMap_def, List.pairwise_flatten, List.pairwise_map, List.forall_mem_map]
  constructor
  · intro row _
    rw [List.pairwise_map]
    exact (filled_ascends row.1).imp fun less => .inr ⟨rfl, less⟩
  · apply (zipIdx_ascends records 1).imp
    intro left right less cell mem other there
    obtain ⟨value, -, rfl⟩ := List.mem_map.mp mem
    obtain ⟨value', -, rfl⟩ := List.mem_map.mp there
    exact .inl less

/-- A worksheet is written of exactly the complete files within the limits, and then shows
the values of the file that are not empty, each at its own column and row. -/
theorem worksheet_shows (d : DecimalDigits) (source : Source)
    (kept : ∀ ch ∈ source.text, ¬ Missed ch) :
    ((∃ document, worksheetXml d source = .ok document) ↔
      source.Complete ∧ WithinLimits 1 source.records) ∧
    (∀ document, worksheetXml d source = .ok document →
      readSheet document = some (tableCells source.records)) ∧
    (tableCells source.records).Pairwise Precedes := by
  refine ⟨?_, fun document ok => ?_, tableCells_ascends _⟩
  · simp only [worksheetXml_ok, exists_and_left, exists_eq, and_true]
  · rw [((worksheetXml_ok d source document).mp ok).2]
    exact readSheet_sheetXml d (Source.legal kept)

def rowSource : Source where
  text := text "a,1\r\n"
  fails := false
  scalars := by
    have all : ((text "a,1\r\n").all fun ch => decide (¬ IsSurrogate ch)) = true := by decide
    exact fun ch mem => of_decide_eq_true (List.all_eq_true.mp all ch mem)

theorem worksheet_shows_row : ∃ document, worksheetXml asciiDigits rowSource = .ok document ∧
    readSheet document = some [((1, 1), text "a"), ((2, 1), text "1")] := by
  have kept : ∀ ch ∈ rowSource.text, ¬ Missed ch := by
    have all : (rowSource.text.all fun ch => decide (¬ (ch = chr 0xfffe ∨ ch = chr 0xffff))) =
        true := by decide
    intro ch mem
    have apart : ¬ (ch = chr 0xfffe ∨ ch = chr 0xffff) :=
      of_decide_eq_true (List.all_eq_true.mp all ch mem)
    exact apart
  have records : rowSource.records = [[text "a", text "1"]] := by decide
  have whole : rowSource.Complete := ⟨rfl, by decide⟩
  have within : WithinLimits 1 rowSource.records := by
    rw [records]
    exact ⟨by decide, by decide⟩
  obtain ⟨exactly, shows, -⟩ := worksheet_shows asciiDigits rowSource kept
  obtain ⟨document, ok⟩ := exactly.mpr ⟨whole, within⟩
  refine ⟨document, ok, (shows document ok).trans ?_⟩
  rw [records]
  decide

/-! A table that has been written by `csv.writer`. -/

def valueCells (records : List (List Text)) : List ((Nat × Nat) × Text) :=
  (records.zipIdx 1).flatMap fun (row, rowNumber) =>
    (filled row).map fun (value, column) => ((column, rowNumber), value)

theorem shown_eq_self {value : Text}
    (plain : ∀ ch ∈ value, isChar ch = true ∧ ch ≠ Xml.carriageReturn) : shown value = value := by
  have same : cleaned value = value := by
    refine (List.map_congr_left fun ch mem => ?_).trans (List.map_id value)
    have allowed : invalidXmlChar ch ≠ true := fun invalid => by
      have control := invalidXmlChar_iff.mp invalid
      have legal := isChar_iff.mp (plain ch mem).1
      omega
    rw [if_neg allowed]
    rfl
  rw [shown, same]
  exact Xml.normalizeLineEnds_eq_self.mpr fun mem => (plain _ mem).2 rfl

theorem tableCells_eq_valueCells {records : List (List Text)}
    (plain : ∀ row ∈ records, ∀ value ∈ row, ∀ ch ∈ value,
      isChar ch = true ∧ ch ≠ Xml.carriageReturn) : tableCells records = valueCells records := by
  rw [tableCells, valueCells, List.flatMap_def, List.flatMap_def]
  congr 1
  apply List.map_congr_left
  intro row mem
  apply List.map_congr_left
  intro cell there
  have same := shown_eq_self (plain row.1 (mem_of_mem_zipIdx mem) cell.1 (mem_of_mem_filled there))
  exact congrArg (Prod.mk (cell.2, row.2)) same

/-- A table written by `csv.writer` is shown as it is, value by value, if it is within the
limits; otherwise there is no worksheet. -/
theorem written_shows (d : DecimalDigits) (source : Source) {records : List (List Text)}
    (written : source.text = Csv.writer records) (whole : source.fails = false)
    (unmarked : source.text.head? ≠ some byteOrderMark)
    (fits : ∀ row ∈ records, ∀ value ∈ row, value.length ≤ Csv.fieldLimit)
    (plain : ∀ row ∈ records, ∀ value ∈ row, ∀ ch ∈ value,
      isChar ch = true ∧ ch ≠ Xml.carriageReturn) :
    ((∃ document, worksheetXml d source = .ok document) ↔ WithinLimits 1 records) ∧
    ∀ document, worksheetXml d source = .ok document →
      readSheet document = some (valueCells records) := by
  have text_eq : withoutMark source.text = Csv.writer records := by
    rw [withoutMark, if_neg unmarked, written]
  have read : Csv.reader true (withoutMark source.text) = (records, none) := by
    rw [text_eq, Csv.reader_writer fits]
  have records_eq : source.records = records := congrArg Prod.fst read
  have complete : source.Complete := ⟨whole, congrArg Prod.snd read⟩
  have legal : Legal records := fun row mem value there => by
    rw [List.all_eq_true, cleaned, List.forall_mem_map]
    intro ch inside
    split_ifs
    · decide
    · exact (plain row mem value there ch inside).1
  constructor
  · simp only [worksheetXml_ok, exists_and_left, exists_eq, and_true, records_eq, complete,
      true_and]
  · intro document ok
    rw [((worksheetXml_ok d source document).mp ok).2, records_eq, readSheet_sheetXml d legal,
      tableCells_eq_valueCells plain]

theorem written_shows_row : ∃ document, worksheetXml asciiDigits rowSource = .ok document ∧
    readSheet document = some (valueCells [[text "a", text "1"]]) := by
  have plain : ([text "a", text "1"].all fun value => value.all fun ch =>
      decide (isChar ch = true ∧ ch ≠ Xml.carriageReturn)) = true := by decide
  obtain ⟨exactly, shows⟩ := written_shows asciiDigits rowSource
    (by decide : rowSource.text = Csv.writer [[text "a", text "1"]]) rfl (by decide)
    (by decide) (by
      intro row mem value there ch inside
      obtain rfl := List.mem_singleton.mp mem
      exact of_decide_eq_true (List.all_eq_true.mp (List.all_eq_true.mp plain value there) ch inside))
  obtain ⟨document, ok⟩ := exactly.mpr ⟨by decide, by decide⟩
  exact ⟨document, ok, shows document ok⟩

end Partyline.CsvToXlsx
