import Partyline.SheetNames
import Partyline.Worksheet

/-! `create_workbook` of `csv_to_xlsx.py`: the parts of the archive, and what is found by
opening it as a spreadsheet does, from the content types and the relationships on. -/
namespace Partyline.CsvToXlsx

open Library
open Library.Xml (isChar Event Tag Content Free Whole parseDocument quoteattr)

def relNs : Text := text "http://schemas.openxmlformats.org/package/2006/relationships"

def officeRelNs : Text :=
  text "http://schemas.openxmlformats.org/officeDocument/2006/relationships"

def relationshipId (index : Nat) : Text := text "rId" ++ str index

def sheetEntry (name : Text) (index : Nat) : Text :=
  text "<sheet name=" ++ quoteattr name ++ text " sheetId=\"" ++ str index ++ text "\" r:id=\"rId" ++
    str index ++ text "\"/>"

def sheetRelationship (index : Nat) : Text :=
  text "<Relationship Id=\"rId" ++ str index ++ text "\" Type=\"" ++ officeRelNs ++
    text "/worksheet\" Target=\"worksheets/sheet" ++ str index ++ text ".xml\"/>"

def sheetType (index : Nat) : Text :=
  text "<Override PartName=\"/xl/worksheets/sheet" ++ str index ++ text ".xml\" " ++
    text "ContentType=\"application/vnd.openxmlformats-officedocument." ++
    text "spreadsheetml.worksheet+xml\"/>"

/-- `range(1, len(csv_paths) + 1)`. -/
def indices (count : Nat) : List Nat := List.range' 1 count

def contentTypesXml (count : Nat) : Text :=
  xmlHeader ++
    text "<Types xmlns=\"http://schemas.openxmlformats.org/package/2006/content-types\">" ++
    text "<Default Extension=\"rels\" " ++
    text "ContentType=\"application/vnd.openxmlformats-package.relationships+xml\"/>" ++
    text "<Default Extension=\"xml\" ContentType=\"application/xml\"/>" ++
    text "<Override PartName=\"/xl/workbook.xml\" " ++
    text "ContentType=\"application/vnd.openxmlformats-officedocument." ++
    text "spreadsheetml.sheet.main+xml\"/>" ++
    (indices count).flatMap sheetType ++ text "</Types>"

def rootRelationshipsXml : Text :=
  xmlHeader ++ text "<Relationships xmlns=\"" ++ relNs ++ text "\">" ++
    text "<Relationship Id=\"rId1\" Type=\"" ++ officeRelNs ++ text "/officeDocument\" " ++
    text "Target=\"xl/workbook.xml\"/></Relationships>"

def workbookXml (names : List Text) : Text :=
  xmlHeader ++ text "<workbook xmlns=\"" ++ sheetNs ++ text "\" xmlns:r=\"" ++ officeRelNs ++
    text "\">" ++ text "<sheets>" ++
    ((names.zipIdx 1).flatMap fun (name, index) => sheetEntry name index) ++
    text "</sheets></workbook>"

def sheetRelationshipsXml (count : Nat) : Text :=
  xmlHeader ++ text "<Relationships xmlns=\"" ++ relNs ++ text "\">" ++
    (indices count).flatMap sheetRelationship ++ text "</Relationships>"

def sheetPart (index : Nat) : Text := text "xl/worksheets/sheet" ++ str index ++ text ".xml"

abbrev Archive := List (Text × Text)

inductive WorkbookError where
  | sheet (error : SheetError)
  | encoding
  | system
deriving DecidableEq

/-- `create_workbook` leaves a file, or raises. -/
structure Created where
  file : Option Archive
  raised : Option WorkbookError
deriving DecidableEq

/-- The calls of `writestr`, each with what it is given. A surrogate cannot be encoded;
`fails` says which of the writes the system refuses. -/
def writeParts (fails : Nat → Bool) :
    List (Text × Except SheetError Text) → Archive → Archive × Option WorkbookError
  | [], archive => (archive, none)
  | (name, content) :: parts, archive =>
    match content with
    | .error error => (archive, some (.sheet error))
    | .ok content =>
      if content.any fun ch => IsSurrogate ch then (archive, some .encoding)
      else if fails archive.length then (archive, some .system)
      else writeParts fails parts (archive ++ [(name, content)])

/-- The end of the `with` block, which closes the file by a write of its own, and the `except`
clause, which removes it. -/
def closeOrUnlink (fails : Nat → Bool) : Archive × Option WorkbookError → Created
  | (_, some error) => ⟨none, some error⟩
  | (archive, none) =>
    if fails archive.length then ⟨none, some .system⟩ else ⟨some archive, none⟩

section CreateWorkbook

variable {Path : Type} (c : Casefold) (d : DecimalDigits) (stem : Path → Text)
  (source : Path → Source)

def workbookParts (names : List Text) (csvPaths : List Path) :
    List (Text × Except SheetError Text) :=
  (text "[Content_Types].xml", .ok (contentTypesXml csvPaths.length)) ::
    (text "_rels/.rels", .ok rootRelationshipsXml) ::
    (text "xl/workbook.xml", .ok (workbookXml names)) ::
    (text "xl/_rels/workbook.xml.rels", .ok (sheetRelationshipsXml csvPaths.length)) ::
    (csvPaths.zipIdx 1).map fun (path, index) => (sheetPart index, worksheetXml d (source path))

/-- `create_workbook`; `none`: the names are not found with this fuel. -/
def createWorkbook (fails : Nat → Bool) (fuel : Nat) (csvPaths : List Path) : Option Created :=
  (sheetNames c stem fuel csvPaths).map fun names =>
    closeOrUnlink fails (writeParts fails (workbookParts d source names csvPaths) [])

end CreateWorkbook

/-! What a spreadsheet finds. -/

structure Relationship where
  id : Text
  type : Text
  target : Text
deriving DecidableEq

def readPart (archive : Archive) (name : Text) : Option (List Event) :=
  (archive.lookup name).bind parseDocument

def readRelationships (events : List Event) : Option (List Relationship) :=
  (Xml.elements (text "Relationship") events).mapM fun (attributes, _) => do
    some ⟨← attributes.lookup (text "Id"), ← attributes.lookup (text "Type"),
      ← attributes.lookup (text "Target")⟩

def overrideType (types : List Event) (part : Text) : Option Text := do
  let (attributes, _) ← (Xml.elements (text "Override") types).find? fun (attributes, _) =>
    attributes.lookup (text "PartName") = some (chr 47 :: part)
  attributes.lookup (text "ContentType")

def mainType : Text :=
  text "application/vnd.openxmlformats-officedocument.spreadsheetml.sheet.main+xml"

def worksheetType : Text :=
  text "application/vnd.openxmlformats-officedocument.spreadsheetml.worksheet+xml"

/-- The part that a relationship of that type leads to; `directory` is that of its source. -/
def follow (directory : Text) (relationships : List Relationship) (type : Text)
    (wanted : Relationship → Bool) : Option Text := do
  let found ← relationships.find? wanted
  if found.type = type then some (directory ++ found.target) else none

/-- The sheets of a workbook in their order, each with its name and its cells. -/
def openWorkbook (archive : Archive) : Option (List (Text × List ((Nat × Nat) × Text))) := do
  let types ← readPart archive (text "[Content_Types].xml")
  let roots ← (readPart archive (text "_rels/.rels")).bind readRelationships
  let officeDocument := officeRelNs ++ text "/officeDocument"
  let workbook ← follow [] roots officeDocument fun r => r.type = officeDocument
  if overrideType types workbook ≠ some mainType then none
  else
    let relationships ←
      (readPart archive (text "xl/_rels/workbook.xml.rels")).bind readRelationships
    (Xml.elements (text "sheet") (← readPart archive workbook)).mapM fun (attributes, _) => do
      let name ← attributes.lookup (text "name")
      let id ← attributes.lookup (text "r:id")
      let part ← follow (text "xl/") relationships (officeRelNs ++ text "/worksheet")
        fun r => r.id = id
      if overrideType types part ≠ some worksheetType then none
      else some (name, ← (archive.lookup part).bind readSheet)

/-! The documents of the package, tag by tag. -/

def entryTag (name : Text) (index : Nat) : Tag :=
  ⟨text "sheet", [(text "name", name), (text "sheetId", str index),
    (text "r:id", relationshipId index)]⟩

def sheetTarget (index : Nat) : Text := text "worksheets/sheet" ++ str index ++ text ".xml"

def relationshipTag (id type target : Text) : Tag :=
  ⟨text "Relationship", [(text "Id", id), (text "Type", type), (text "Target", target)]⟩

def overrideTag (part type : Text) : Tag :=
  ⟨text "Override", [(text "PartName", chr 47 :: part), (text "ContentType", type)]⟩

def defaultTag (extension type : Text) : Tag :=
  ⟨text "Default", [(text "Extension", extension), (text "ContentType", type)]⟩

theorem str_plain (number : Nat) : (str number).all Xml.isPlain = true :=
  isPlain_of_nameChars (str_nameChars number)

theorem relationshipId_plain (index : Nat) : (relationshipId index).all Xml.isPlain = true := by
  have front : (text "rId").all Xml.isPlain = true := by decide
  rw [relationshipId, List.all_append, front, str_plain, Bool.true_and]

theorem sheetTarget_plain (index : Nat) : (sheetTarget index).all Xml.isPlain = true := by
  have front : (text "worksheets/sheet").all Xml.isPlain = true := by decide
  have back : (text ".xml").all Xml.isPlain = true := by decide
  rw [sheetTarget, List.all_append, List.all_append, front, str_plain, back]
  rfl

theorem sheetPart_plain (index : Nat) : (sheetPart index).all Xml.isPlain = true := by
  have front : (text "xl/worksheets/sheet").all Xml.isPlain = true := by decide
  have back : (text ".xml").all Xml.isPlain = true := by decide
  rw [sheetPart, List.all_append, List.all_append, front, str_plain, back]
  rfl

theorem sheetEntry_eq (name : Text) (index : Nat) :
    sheetEntry name index = Xml.emptyTag (entryTag name index) := by
  have number := Xml.quoteattr_of_plain (str_plain index)
  have id : quoteattr (text "rId" ++ str index) =
      Xml.quotationMark :: (text "rId" ++ str index ++ [Xml.quotationMark]) :=
    Xml.quoteattr_of_plain (relationshipId_plain index)
  have front : text "<sheet name=" = [Xml.lessThan] ++ text "sheet" ++ [chr 32] ++ text "name" ++
      [Xml.equalsSign] := rfl
  have second : text " sheetId=\"" = [chr 32] ++ text "sheetId" ++
      [Xml.equalsSign, Xml.quotationMark] := rfl
  have third : text "\" r:id=\"rId" = [Xml.quotationMark, chr 32] ++ text "r:id" ++
      [Xml.equalsSign, Xml.quotationMark] ++ text "rId" := rfl
  have back : text "\"/>" = [Xml.quotationMark, Xml.solidus, Xml.greaterThan] := rfl
  rw [sheetEntry, front, second, third, back]
  simp [entryTag, Xml.emptyTag, Xml.tagText, Xml.attributeText, number, id, relationshipId]

theorem sheetRelationship_eq (index : Nat) : sheetRelationship index = Xml.emptyTag
    (relationshipTag (relationshipId index) (officeRelNs ++ text "/worksheet")
      (sheetTarget index)) := by
  have id : quoteattr (text "rId" ++ str index) =
      Xml.quotationMark :: (text "rId" ++ str index ++ [Xml.quotationMark]) :=
    Xml.quoteattr_of_plain (relationshipId_plain index)
  have type : quoteattr (officeRelNs ++ text "/worksheet") =
      Xml.quotationMark :: (officeRelNs ++ text "/worksheet" ++ [Xml.quotationMark]) := by
    apply Xml.quoteattr_of_plain
    rw [officeRelNs]
    repeat rw [text_ofList]
    decide
  have target : quoteattr (text "worksheets/sheet" ++ str index ++ text ".xml") = Xml.quotationMark ::
      (text "worksheets/sheet" ++ str index ++ text ".xml" ++ [Xml.quotationMark]) :=
    Xml.quoteattr_of_plain (sheetTarget_plain index)
  have front : text "<Relationship Id=\"rId" = [Xml.lessThan] ++ text "Relationship" ++ [chr 32] ++
      text "Id" ++ [Xml.equalsSign, Xml.quotationMark] ++ text "rId" := rfl
  have second : text "\" Type=\"" = [Xml.quotationMark, chr 32] ++ text "Type" ++
      [Xml.equalsSign, Xml.quotationMark] := rfl
  have third : text "/worksheet\" Target=\"worksheets/sheet" = text "/worksheet" ++
      [Xml.quotationMark, chr 32] ++ text "Target" ++ [Xml.equalsSign, Xml.quotationMark] ++
      text "worksheets/sheet" := rfl
  have back : text ".xml\"/>" = text ".xml" ++
      [Xml.quotationMark, Xml.solidus, Xml.greaterThan] := rfl
  rw [List.append_assoc, List.append_assoc] at target
  rw [sheetRelationship, front, second, third, back]
  simp [relationshipTag, Xml.emptyTag, Xml.tagText, Xml.attributeText, id, type, target,
    relationshipId, sheetTarget]

theorem sheetType_eq (index : Nat) :
    sheetType index = Xml.emptyTag (overrideTag (sheetPart index) worksheetType) := by
  have part : quoteattr (chr 47 :: (text "xl/worksheets/sheet" ++ (str index ++ text ".xml"))) =
      Xml.quotationMark :: chr 47 :: (text "xl/worksheets/sheet" ++ (str index ++ (text ".xml" ++
        [Xml.quotationMark]))) := by
    have plain := sheetPart_plain index
    rw [sheetPart, List.append_assoc] at plain
    have quoted := Xml.quoteattr_of_plain (s := chr 47 :: (text "xl/worksheets/sheet" ++
      (str index ++ text ".xml"))) (by rw [List.all_cons, plain]; decide)
    rw [quoted]
    simp only [List.cons_append, List.append_assoc]
  have type : quoteattr worksheetType =
      Xml.quotationMark :: (worksheetType ++ [Xml.quotationMark]) := by
    apply Xml.quoteattr_of_plain
    rw [worksheetType, text_ofList]
    decide
  have front : text "<Override PartName=\"/xl/worksheets/sheet" = [Xml.lessThan] ++
      text "Override" ++ [chr 32] ++ text "PartName" ++ [Xml.equalsSign, Xml.quotationMark, chr 47] ++
      text "xl/worksheets/sheet" := rfl
  have middle : text ".xml\" " = text ".xml" ++ [Xml.quotationMark, chr 32] := rfl
  have back : text "ContentType=\"application/vnd.openxmlformats-officedocument." ++
      text "spreadsheetml.worksheet+xml\"/>" = text "ContentType" ++ [Xml.equalsSign, Xml.quotationMark] ++
        worksheetType ++
        [Xml.quotationMark, Xml.solidus, Xml.greaterThan] := by
    rw [worksheetType]
    repeat rw [text_ofList]
    decide +kernel
  rw [sheetType, List.append_assoc _ (text "ContentType=\"application/vnd.openxmlformats-officedocument."),
    front, middle, back]
  simp [overrideTag, Xml.emptyTag, Xml.tagText, Xml.attributeText, part, type, sheetPart]

def typesTag : Tag :=
  ⟨text "Types", [(text "xmlns",
    text "http://schemas.openxmlformats.org/package/2006/content-types")]⟩

def relationshipsTag : Tag := ⟨text "Relationships", [(text "xmlns", relNs)]⟩

def workbookTag : Tag :=
  ⟨text "workbook", [(text "xmlns", sheetNs), (text "xmlns:r", officeRelNs)]⟩

def fixedTypes : List Tag :=
  [defaultTag (text "rels") (text "application/vnd.openxmlformats-package.relationships+xml"),
    defaultTag (text "xml") (text "application/xml"), overrideTag (text "xl/workbook.xml") mainType]

def typeTags (count : Nat) : List Tag :=
  fixedTypes ++ (indices count).map fun index => overrideTag (sheetPart index) worksheetType

def rootTag : Tag :=
  relationshipTag (text "rId1") (officeRelNs ++ text "/officeDocument") (text "xl/workbook.xml")

def sheetRelationshipTag (index : Nat) : Tag :=
  relationshipTag (relationshipId index) (officeRelNs ++ text "/worksheet") (sheetTarget index)

theorem contentTypesXml_eq (count : Nat) :
    contentTypesXml count = Xml.listDocument xmlHeader typesTag (typeTags count) := by
  have sheets : (indices count).flatMap sheetType = ((indices count).map fun index =>
      overrideTag (sheetPart index) worksheetType).flatMap Xml.emptyTag := by
    rw [List.flatMap_map]
    exact List.flatMap_congr fun index _ => sheetType_eq index
  have fixed : text "<Types xmlns=\"http://schemas.openxmlformats.org/package/2006/content-types\">" ++
      (text "<Default Extension=\"rels\" " ++
      (text "ContentType=\"application/vnd.openxmlformats-package.relationships+xml\"/>" ++
      (text "<Default Extension=\"xml\" ContentType=\"application/xml\"/>" ++
      (text "<Override PartName=\"/xl/workbook.xml\" " ++
      (text "ContentType=\"application/vnd.openxmlformats-officedocument." ++
      text "spreadsheetml.sheet.main+xml\"/>"))))) =
      Xml.startTag typesTag ++ fixedTypes.flatMap Xml.emptyTag := by
    unfold typesTag fixedTypes defaultTag overrideTag mainType
    repeat rw [text_ofList]
    decide +kernel
  have back : text "</Types>" = Xml.closingTag typesTag.name := rfl
  rw [contentTypesXml, sheets, back, Xml.listDocument, Xml.element, typeTags, List.flatMap_append]
  simp only [List.append_assoc]
  rw [← List.append_assoc (Xml.startTag typesTag), ← fixed]
  simp only [List.append_assoc]

theorem rootRelationshipsXml_eq :
    rootRelationshipsXml = Xml.listDocument xmlHeader relationshipsTag [rootTag] := by
  unfold rootRelationshipsXml relationshipsTag rootTag relationshipTag xmlHeader relNs officeRelNs
  repeat rw [text_ofList]
  decide +kernel

theorem sheetRelationshipsXml_eq (count : Nat) : sheetRelationshipsXml count =
    Xml.listDocument xmlHeader relationshipsTag ((indices count).map sheetRelationshipTag) := by
  have front : text "<Relationships xmlns=\"" ++ (relNs ++ text "\">") =
      Xml.startTag relationshipsTag := by
    unfold relationshipsTag relNs
    repeat rw [text_ofList]
    decide
  have back : text "</Relationships>" = Xml.closingTag relationshipsTag.name := rfl
  have sheets : (indices count).flatMap sheetRelationship =
      ((indices count).map sheetRelationshipTag).flatMap Xml.emptyTag := by
    rw [List.flatMap_map]
    exact List.flatMap_congr fun index _ => sheetRelationship_eq index
  rw [sheetRelationshipsXml, Xml.listDocument, Xml.element, ← front, sheets, back]
  simp only [List.append_assoc]

theorem workbookXml_eq (names : List Text) : workbookXml names =
    xmlHeader ++ Xml.element workbookTag (Xml.element ⟨text "sheets", []⟩
      (((names.zipIdx 1).map fun entry => entryTag entry.1 entry.2).flatMap Xml.emptyTag)) := by
  have front : text "<workbook xmlns=\"" ++ (sheetNs ++ (text "\" xmlns:r=\"" ++ (officeRelNs ++
      (text "\">" ++ text "<sheets>")))) =
      Xml.startTag workbookTag ++ Xml.startTag ⟨text "sheets", []⟩ := by
    unfold workbookTag sheetNs officeRelNs
    repeat rw [text_ofList]
    decide +kernel
  have back : text "</sheets></workbook>" =
      Xml.closingTag (text "sheets") ++ Xml.closingTag workbookTag.name := rfl
  rw [workbookXml, Xml.element, Xml.element, List.flatMap_map, back]
  simp only [sheetEntry_eq, List.append_assoc]
  rw [← List.append_assoc (Xml.startTag workbookTag), ← front]
  simp only [List.append_assoc]

/-! What is read of the documents. -/

theorem str_chars (number : Nat) : (str number).all isChar = true :=
  isChar_of_nameChars (str_nameChars number)

theorem relationshipId_chars (index : Nat) : (relationshipId index).all isChar = true := by
  have front : (text "rId").all isChar = true := by decide
  rw [relationshipId, List.all_append, front, str_chars, Bool.true_and]

theorem sheetTarget_chars (index : Nat) : (sheetTarget index).all isChar = true := by
  have front : (text "worksheets/sheet").all isChar = true := by decide
  have back : (text ".xml").all isChar = true := by decide
  rw [sheetTarget, List.all_append, List.all_append, front, str_chars, back]
  rfl

theorem sheetPart_eq (index : Nat) : text "xl/" ++ sheetTarget index = sheetPart index := by
  have front : text "xl/worksheets/sheet" = text "xl/" ++ text "worksheets/sheet" := rfl
  rw [sheetTarget, sheetPart, front]
  simp only [List.append_assoc]

theorem sheetPart_chars (index : Nat) : (sheetPart index).all isChar = true := by
  have front : (text "xl/").all isChar = true := by decide
  rw [← sheetPart_eq, List.all_append, front, sheetTarget_chars, Bool.true_and]

theorem relationshipTag_wellFormed {id type target : Text} (ids : id.all isChar = true)
    (types : type.all isChar = true) (targets : target.all isChar = true) :
    (relationshipTag id type target).WellFormed := by
  have names : Xml.isName (text "Id") = true ∧ Xml.isName (text "Type") = true ∧
      Xml.isName (text "Target") = true := by decide
  have distinct : [text "Id", text "Type", text "Target"].Nodup := by decide
  refine ⟨show Xml.isName (text "Relationship") = true by decide, ?_, ?_, distinct⟩
  · simpa [relationshipTag] using names
  · simpa [relationshipTag] using
      ⟨List.all_eq_true.mp ids, List.all_eq_true.mp types, List.all_eq_true.mp targets⟩

theorem overrideTag_wellFormed {part type : Text} (parts : part.all isChar = true)
    (types : type.all isChar = true) : (overrideTag part type).WellFormed := by
  have names : Xml.isName (text "PartName") = true ∧ Xml.isName (text "ContentType") = true := by
    decide
  have slash : isChar (chr 47) = true := by decide
  have distinct : [text "PartName", text "ContentType"].Nodup := by decide
  refine ⟨show Xml.isName (text "Override") = true by decide, ?_, ?_, distinct⟩
  · simpa [overrideTag] using names
  · simpa [overrideTag] using ⟨⟨slash, List.all_eq_true.mp parts⟩, List.all_eq_true.mp types⟩

theorem entryTag_wellFormed {name : Text} (legal : name.all isChar = true) (index : Nat) :
    (entryTag name index).WellFormed := by
  have names : Xml.isName (text "name") = true ∧ Xml.isName (text "sheetId") = true ∧
      Xml.isName (text "r:id") = true := by decide
  have distinct : [text "name", text "sheetId", text "r:id"].Nodup := by decide
  refine ⟨show Xml.isName (text "sheet") = true by decide, ?_, ?_, distinct⟩
  · simpa [entryTag] using names
  · simpa [entryTag] using ⟨List.all_eq_true.mp legal, List.all_eq_true.mp (str_chars index),
      List.all_eq_true.mp (relationshipId_chars index)⟩

theorem mem_typeTags_wellFormed {count : Nat} {tag : Tag} (mem : tag ∈ typeTags count) :
    tag.WellFormed := by
  have worksheet : worksheetType.all isChar = true := by
    rw [worksheetType, text_ofList]
    decide
  rw [typeTags, List.mem_append, List.mem_map] at mem
  rcases mem with fixed | ⟨index, -, rfl⟩
  · simp only [fixedTypes, List.mem_cons, List.not_mem_nil, or_false] at fixed
    rcases fixed with rfl | rfl | rfl <;> exact ⟨by decide, by decide, by decide, by decide⟩
  · exact overrideTag_wellFormed (sheetPart_chars index) worksheet

theorem sheetPart_injective : Function.Injective sheetPart := by
  intro i j same
  rw [sheetPart, sheetPart, List.append_left_inj, List.append_right_inj] at same
  exact str_injective same

theorem relationshipId_injective : Function.Injective relationshipId := by
  intro i j same
  rw [relationshipId, relationshipId, List.append_right_inj] at same
  exact str_injective same

end Partyline.CsvToXlsx
