import Partyline.Library.Keyed
import Partyline.Workbook

/-! The package that `create_workbook` leaves, opened as a spreadsheet opens it. -/
namespace Partyline.CsvToXlsx

open Library
open Library.Xml (isChar Event Tag Content parseDocument)

/-! The documents. -/

theorem typesTag_wellFormed : typesTag.WellFormed := by
  unfold typesTag
  repeat rw [text_ofList]
  exact ⟨by decide, by decide, by decide, by decide⟩

theorem relationshipsTag_wellFormed : relationshipsTag.WellFormed := by
  unfold relationshipsTag relNs
  repeat rw [text_ofList]
  exact ⟨by decide, by decide, by decide, by decide⟩

theorem workbookTag_wellFormed : workbookTag.WellFormed := by
  unfold workbookTag sheetNs officeRelNs
  repeat rw [text_ofList]
  exact ⟨by decide, by decide, by decide, by decide⟩

def overrides (count : Nat) : List (Text × Text) :=
  (text "xl/workbook.xml", mainType) ::
    (indices count).map fun index => (sheetPart index, worksheetType)

theorem sheetPart_ne (index : Nat) : sheetPart index ≠ text "xl/workbook.xml" := by
  intro same
  have start : (sheetPart index).take 8 = text "xl/works" := rfl
  rw [same] at start
  exact absurd start (by decide)

theorem overrides_distinct (count : Nat) : ((overrides count).map Prod.fst).Nodup := by
  rw [overrides, List.map_cons, List.map_map, List.nodup_cons]
  constructor
  · intro mem
    obtain ⟨index, -, same⟩ := List.mem_map.mp mem
    exact sheetPart_ne index same
  · exact (List.nodup_range' (h := by decide)).map sheetPart_injective

theorem filter_typeTags (count : Nat) :
    (typeTags count).filter (fun tag => tag.name = text "Override") =
      (overrides count).map fun entry => overrideTag entry.1 entry.2 := by
  have fixed : fixedTypes.filter (fun tag => tag.name = text "Override") =
      [overrideTag (text "xl/workbook.xml") mainType] := by decide
  have sheets : ((indices count).map fun index =>
      overrideTag (sheetPart index) worksheetType).filter (fun tag => tag.name = text "Override") =
      (indices count).map fun index => overrideTag (sheetPart index) worksheetType := by
    rw [List.filter_eq_self]
    intro tag mem
    obtain ⟨index, -, rfl⟩ := List.mem_map.mp mem
    exact decide_eq_true rfl
  rw [typeTags, List.filter_append, fixed, sheets, overrides, List.map_cons, List.map_map]
  rfl

theorem contentTypes_read (count : Nat) : ∃ types,
    parseDocument (contentTypesXml count) = some types ∧
      ∀ part type, (part, type) ∈ overrides count → overrideType types part = some type := by
  obtain ⟨types, read, tags⟩ := Xml.parse_listDocument xmlHeader_declaration typesTag_wellFormed
    fun tag (mem : tag ∈ typeTags count) => mem_typeTags_wellFormed mem
  refine ⟨types, by rw [contentTypesXml_eq, read], fun part type mem => ?_⟩
  have found : (overrides count).find? (fun entry => decide (entry.1 = part)) = some (part, type) :=
    (find?_key (overrides_distinct count)).mpr ⟨mem, rfl⟩
  have elements := tags (text "Override") (by decide)
  rw [filter_typeTags, List.map_map] at elements
  have wanted : (fun element : List (Text × Text) × List Event =>
      decide (element.1.lookup (text "PartName") = some (chr 47 :: part))) ∘
      ((fun tag : Tag => (tag.attributes, ([] : List Event))) ∘
        fun entry : Text × Text => overrideTag entry.1 entry.2) =
      fun entry => decide (entry.1 = part) := by
    funext entry
    have name : (overrideTag entry.1 entry.2).attributes.lookup (text "PartName") =
        some (chr 47 :: entry.1) := List.lookup_cons_self
    rw [Function.comp_apply, Function.comp_apply, name, decide_eq_decide, Option.some_inj,
      List.cons_inj_right]
  rw [overrideType, elements, List.find?_map, wanted, found]
  rfl

def relationship (tag : Tag) : Option Relationship := do
  some ⟨← tag.attributes.lookup (text "Id"), ← tag.attributes.lookup (text "Type"),
    ← tag.attributes.lookup (text "Target")⟩

theorem relationship_tag (id type target : Text) :
    relationship (relationshipTag id type target) = some ⟨id, type, target⟩ := by
  have found : (relationshipTag id type target).attributes.lookup (text "Id") = some id ∧
      (relationshipTag id type target).attributes.lookup (text "Type") = some type ∧
      (relationshipTag id type target).attributes.lookup (text "Target") = some target := by
    have apart : text "Type" ≠ text "Id" ∧ text "Target" ≠ text "Id" ∧
        text "Target" ≠ text "Type" := by decide
    simp [relationshipTag, List.lookup_cons, beq_false_of_ne apart.1, beq_false_of_ne apart.2.1,
      beq_false_of_ne apart.2.2]
  rw [relationship, found.1, found.2.1, found.2.2]
  rfl

theorem relationships_read (relationships : List Relationship)
    (legal : ∀ r ∈ relationships, r.id.all isChar = true ∧ r.type.all isChar = true ∧
      r.target.all isChar = true) :
    (parseDocument (Xml.listDocument xmlHeader relationshipsTag
      (relationships.map fun r => relationshipTag r.id r.type r.target))).bind readRelationships =
      some relationships := by
  obtain ⟨events, read, tags⟩ := Xml.parse_listDocument xmlHeader_declaration
    relationshipsTag_wellFormed fun tag mem => by
      obtain ⟨r, there, rfl⟩ := List.mem_map.mp mem
      exact relationshipTag_wellFormed (legal r there).1 (legal r there).2.1 (legal r there).2.2
  have every : (relationships.map fun r => relationshipTag r.id r.type r.target).filter
      (fun tag => tag.name = text "Relationship") =
      relationships.map fun r => relationshipTag r.id r.type r.target := by
    rw [List.filter_eq_self]
    intro tag mem
    obtain ⟨r, -, rfl⟩ := List.mem_map.mp mem
    exact decide_eq_true rfl
  rw [read, Option.bind_some, readRelationships, tags _ (by decide), every, List.map_map]
  refine (mapM_map_eq_some fun r _ => ?_).trans (congrArg some (List.map_id relationships))
  exact relationship_tag r.id r.type r.target

def rootRelationship : Relationship :=
  ⟨text "rId1", officeRelNs ++ text "/officeDocument", text "xl/workbook.xml"⟩

def sheetLink (index : Nat) : Relationship :=
  ⟨relationshipId index, officeRelNs ++ text "/worksheet", sheetTarget index⟩

theorem roots_read :
    (parseDocument rootRelationshipsXml).bind readRelationships = some [rootRelationship] := by
  rw [rootRelationshipsXml_eq]
  apply relationships_read [rootRelationship]
  unfold rootRelationship officeRelNs
  repeat rw [text_ofList]
  decide

theorem sheetLink_chars (index : Nat) : (sheetLink index).id.all isChar = true ∧
    (sheetLink index).type.all isChar = true ∧ (sheetLink index).target.all isChar = true := by
  have type : (officeRelNs ++ text "/worksheet").all isChar = true := by
    rw [officeRelNs]
    repeat rw [text_ofList]
    decide
  exact ⟨relationshipId_chars index, type, sheetTarget_chars index⟩

theorem links_read (count : Nat) :
    (parseDocument (sheetRelationshipsXml count)).bind readRelationships =
      some ((indices count).map sheetLink) := by
  have read := relationships_read ((indices count).map sheetLink) (by
    rw [List.forall_mem_map]
    exact fun index _ => sheetLink_chars index)
  rw [List.map_map] at read
  rw [sheetRelationshipsXml_eq]
  exact read

theorem follow_link {count index : Nat} (mem : index ∈ indices count) :
    follow (text "xl/") ((indices count).map sheetLink) (officeRelNs ++ text "/worksheet")
      (fun r => r.id = relationshipId index) = some (sheetPart index) := by
  have distinct : (((indices count).map sheetLink).map Relationship.id).Nodup := by
    rw [List.map_map]
    exact (List.nodup_range' (h := by decide)).map relationshipId_injective
  have found : ((indices count).map sheetLink).find? (fun r => r.id = relationshipId index) =
      some (sheetLink index) :=
    (find?_key distinct).mpr ⟨List.mem_map_of_mem mem, rfl⟩
  have type : (sheetLink index).type = officeRelNs ++ text "/worksheet" := rfl
  rw [follow, found, ← sheetPart_eq, Option.bind_eq_bind, Option.bind_some, if_pos type]
  rfl

theorem follow_root : follow [] [rootRelationship] (officeRelNs ++ text "/officeDocument")
    (fun r => r.type = officeRelNs ++ text "/officeDocument") = some (text "xl/workbook.xml") := by
  have found : [rootRelationship].find?
      (fun r => r.type = officeRelNs ++ text "/officeDocument") = some rootRelationship :=
    List.find?_cons_of_pos (decide_eq_true rfl)
  have type : rootRelationship.type = officeRelNs ++ text "/officeDocument" := rfl
  rw [follow, found, Option.bind_eq_bind, Option.bind_some, if_pos type]
  rfl

theorem entries_read {names : List Text} (legal : ∀ name ∈ names, name.all isChar = true) :
    ∃ events, parseDocument (workbookXml names) = some events ∧
      Xml.elements (text "sheet") events =
        (names.zipIdx 1).map fun entry => ((entryTag entry.1 entry.2).attributes, []) := by
  have tags : ∀ tag ∈ (names.zipIdx 1).map (fun entry => entryTag entry.1 entry.2),
      tag.WellFormed := by
    intro tag mem
    obtain ⟨⟨name, index⟩, there, rfl⟩ := List.mem_map.mp mem
    have inside : name ∈ names := (List.mem_zipIdx there).2.2 ▸ List.getElem_mem _
    exact entryTag_wellFormed (legal name inside) index
  have sheets : (⟨text "sheets", []⟩ : Tag).WellFormed :=
    ⟨by decide, by decide, by decide, by decide⟩
  have read := Xml.parseDocument_element xmlHeader_declaration
    ((Content.tags tags).element sheets) workbookTag_wellFormed
  have whole := Xml.Whole.tags (text "sheet")
    ((names.zipIdx 1).map fun entry => entryTag entry.1 entry.2)
  have outer : text "sheets" ≠ text "sheet" := by decide
  have every : ((names.zipIdx 1).map fun entry => entryTag entry.1 entry.2).filter
      (fun tag => tag.name = text "sheet") =
      (names.zipIdx 1).map fun entry => entryTag entry.1 entry.2 := by
    rw [List.filter_eq_self]
    intro tag mem
    obtain ⟨entry, -, rfl⟩ := List.mem_map.mp mem
    exact decide_eq_true rfl
  refine ⟨_, by rw [workbookXml_eq, read], ?_⟩
  rw [Xml.Whole.elements_other (by decide) _ (whole.other outer []),
    whole.elements_other outer [], Xml.elements_tags, every, List.map_map]
  rfl

/-! The archive. -/

section Archive

variable {Path : Type} (d : DecimalDigits) (source : Path → Source)

/-- The archive with everything in it. -/
def package (names : List Text) (csvPaths : List Path) : Archive :=
  (text "[Content_Types].xml", contentTypesXml csvPaths.length) ::
    (text "_rels/.rels", rootRelationshipsXml) ::
    (text "xl/workbook.xml", workbookXml names) ::
    (text "xl/_rels/workbook.xml.rels", sheetRelationshipsXml csvPaths.length) ::
    (csvPaths.zipIdx 1).map fun (path, index) =>
      (sheetPart index, sheetXml d (source path).records)

theorem writeParts_none {fails : Nat → Bool} {parts : List (Text × Except SheetError Text)}
    {archive written : Archive} (whole : writeParts fails parts archive = (written, none)) :
    ∃ more, parts = more.map (fun part => (part.1, Except.ok part.2)) ∧
      written = archive ++ more := by
  induction parts generalizing archive with
  | nil =>
    obtain rfl := (Prod.mk.inj whole).1
    exact ⟨[], rfl, (List.append_nil _).symm⟩
  | cons part parts ih =>
    obtain ⟨name, content⟩ := part
    cases content with
    | error error => cases (Prod.mk.inj whole).2
    | ok content =>
      rw [writeParts] at whole
      split_ifs at whole
      · cases (Prod.mk.inj whole).2
      · cases (Prod.mk.inj whole).2
      · obtain ⟨more, same, rest⟩ := ih whole
        refine ⟨(name, content) :: more, by rw [same]; rfl, ?_⟩
        rw [rest, List.append_assoc, List.singleton_append]

theorem writeParts_ok {fails : Nat → Bool} (works : ∀ write, fails write = false)
    {more : Archive} (encodes : ∀ part ∈ more, ∀ ch ∈ part.2, ¬ IsSurrogate ch)
    (archive : Archive) :
    writeParts fails (more.map fun part => (part.1, Except.ok part.2)) archive =
      (archive ++ more, none) := by
  induction more generalizing archive with
  | nil => rw [List.append_nil]; rfl
  | cons part more ih =>
    have clean : (part.2.any fun ch => IsSurrogate ch) = false := by
      rw [List.any_eq_false]
      exact fun ch mem => by simpa using encodes part List.mem_cons_self ch mem
    rw [List.map_cons, writeParts]
    simp only [clean, Bool.false_eq_true, if_false, works]
    rw [ih (fun other mem => encodes other (List.mem_cons_of_mem part mem)), List.append_assoc,
      List.singleton_append]

theorem exists_mem_zipIdx {paths : List Path} {path : Path} (mem : path ∈ paths) :
    ∃ index, (path, index) ∈ paths.zipIdx 1 := by
  rw [← List.zipIdx_map_fst 1 paths] at mem
  obtain ⟨⟨_, index⟩, there, rfl⟩ := List.mem_map.mp mem
  exact ⟨index, there⟩

/-- The parts are those of the package exactly where every worksheet is written. -/
theorem workbookParts_eq (names : List Text) (csvPaths : List Path) (written : Archive) :
    workbookParts d source names csvPaths = written.map (fun part => (part.1, Except.ok part.2)) ↔
    (∀ path ∈ csvPaths, (source path).Complete ∧ WithinLimits 1 (source path).records) ∧
      written = package d source names csvPaths := by
  have sheets (ok : ∀ path ∈ csvPaths,
      (source path).Complete ∧ WithinLimits 1 (source path).records) :
      workbookParts d source names csvPaths = (package d source names csvPaths).map fun part =>
        (part.1, Except.ok part.2) := by
    have each : (csvPaths.zipIdx 1).map (fun (path, index) =>
        (sheetPart index, worksheetXml d (source path))) =
        ((csvPaths.zipIdx 1).map fun (path, index) =>
          (sheetPart index, sheetXml d (source path).records)).map fun part =>
            (part.1, Except.ok part.2) := by
      rw [List.map_map]
      apply List.map_congr_left
      rintro ⟨path, index⟩ mem
      have inside : path ∈ csvPaths := (List.mem_zipIdx mem).2.2 ▸ List.getElem_mem _
      have written := (worksheetXml_ok d (source path) _).mpr ⟨ok path inside, rfl⟩
      exact congrArg (Prod.mk (sheetPart index)) written
    rw [workbookParts, each, package]
    rfl
  constructor
  · intro same
    have ok : ∀ path ∈ csvPaths,
        (source path).Complete ∧ WithinLimits 1 (source path).records := by
      intro path mem
      obtain ⟨index, there⟩ := exists_mem_zipIdx mem
      have part : (sheetPart index, worksheetXml d (source path)) ∈
          workbookParts d source names csvPaths := by
        have last : (sheetPart index, worksheetXml d (source path)) ∈ (csvPaths.zipIdx 1).map
            fun (path, index) => (sheetPart index, worksheetXml d (source path)) :=
          List.mem_map.mpr ⟨(path, index), there, rfl⟩
        exact List.mem_append_right [_, _, _, _] last
      rw [same] at part
      obtain ⟨content, -, equal⟩ := List.mem_map.mp part
      exact ((worksheetXml_ok d (source path) content.2).mp (Prod.mk.inj equal).2.symm).1
    refine ⟨ok, ?_⟩
    rw [sheets ok] at same
    refine List.map_injective_iff.mpr ?_ same.symm
    intro first second equal
    obtain ⟨name, content⟩ := Prod.mk.inj equal
    exact Prod.ext name (Except.ok.inj content)
  · rintro ⟨ok, rfl⟩
    exact sheets ok

theorem closeOrUnlink_file (fails : Nat → Bool) (written : Archive × Option WorkbookError) :
    (closeOrUnlink fails written).file = none ↔ (closeOrUnlink fails written).raised ≠ none := by
  obtain ⟨archive, raised⟩ := written
  cases raised with
  | some error => simp [closeOrUnlink]
  | none =>
    rw [closeOrUnlink]
    split_ifs <;> simp

/-- A file that is left is the whole package. -/
theorem closeOrUnlink_package {fails : Nat → Bool} {names : List Text} {csvPaths : List Path}
    {archive : Archive} (left : (closeOrUnlink fails
      (writeParts fails (workbookParts d source names csvPaths) [])).file = some archive) :
    (∀ path ∈ csvPaths, (source path).Complete ∧ WithinLimits 1 (source path).records) ∧
      archive = package d source names csvPaths := by
  cases result : writeParts fails (workbookParts d source names csvPaths) [] with
  | mk written raised =>
    rw [result] at left
    cases raised with
    | some error => cases left
    | none =>
      obtain ⟨more, parts, whole⟩ := writeParts_none result
      rw [List.nil_append] at whole
      subst whole
      rw [closeOrUnlink] at left
      split_ifs at left
      obtain rfl := Option.some.inj left
      exact (workbookParts_eq d source names csvPaths _).mp parts

def fixedNames : List Text :=
  [text "[Content_Types].xml", text "_rels/.rels", text "xl/workbook.xml",
    text "xl/_rels/workbook.xml.rels"]

theorem sheetPart_not_fixed (index : Nat) : sheetPart index ∉ fixedNames := by
  intro mem
  have start : (sheetPart index).take 8 ∈ fixedNames.map fun name => name.take 8 :=
    List.mem_map_of_mem mem
  have front : (sheetPart index).take 8 = text "xl/works" := rfl
  rw [front] at start
  exact absurd start (by decide)

theorem package_distinct (names : List Text) (csvPaths : List Path) :
    ((package d source names csvPaths).map Prod.fst).Nodup := by
  have parts : (package d source names csvPaths).map Prod.fst =
      fixedNames ++ (indices csvPaths.length).map sheetPart := by
    rw [indices, ← List.zipIdx_map_snd 1 csvPaths, List.map_map]
    simp only [package, List.map_cons, List.map_map]
    rfl
  rw [parts, List.nodup_append]
  refine ⟨by decide, (List.nodup_range' (h := by decide)).map sheetPart_injective, ?_⟩
  rintro name fixed _ mem rfl
  obtain ⟨index, -, rfl⟩ := List.mem_map.mp mem
  exact sheetPart_not_fixed index fixed

variable {d} {source}

theorem readPart_package {names : List Text} {csvPaths : List Path} {name content : Text}
    (mem : (name, content) ∈ package d source names csvPaths) :
    readPart (package d source names csvPaths) name = parseDocument content := by
  rw [readPart, lookup_key (package_distinct d source names csvPaths) mem, Option.bind_some]

theorem mem_zipIdx_of_zip {names : List Text} {csvPaths : List Path}
    (one : names.length = csvPaths.length) {name : Text} {path : Path} {index : Nat}
    (mem : ((name, path), index) ∈ (names.zip csvPaths).zipIdx 1) :
    (path, index) ∈ csvPaths.zipIdx 1 := by
  have right : (names.zip csvPaths).map Prod.snd = csvPaths := List.map_snd_zip one.ge
  rw [← right, List.zipIdx_map]
  exact List.mem_map.mpr ⟨_, mem, rfl⟩

theorem entryTag_lookup (name : Text) (index : Nat) :
    (entryTag name index).attributes.lookup (text "name") = some name ∧
      (entryTag name index).attributes.lookup (text "r:id") = some (relationshipId index) := by
  have apart : text "r:id" ≠ text "name" ∧ text "r:id" ≠ text "sheetId" := by decide
  simp [entryTag, List.lookup_cons, beq_false_of_ne apart.1, beq_false_of_ne apart.2]

/-- What is found by opening the package: the sheets in the order of the paths. -/
theorem openWorkbook_package {names : List Text} {csvPaths : List Path}
    (one : names.length = csvPaths.length) (legal : ∀ name ∈ names, name.all isChar = true)
    (kept : ∀ path ∈ csvPaths, Legal (source path).records) :
    openWorkbook (package d source names csvPaths) =
      some ((names.zip csvPaths).map fun (name, path) =>
        (name, tableCells (source path).records)) := by
  obtain ⟨types, types_read, typed⟩ := contentTypes_read csvPaths.length
  obtain ⟨entries, entries_read, sheets⟩ := entries_read legal
  have types_part : readPart (package d source names csvPaths) (text "[Content_Types].xml") =
      some types :=
    (readPart_package List.mem_cons_self).trans types_read
  have roots_part : (readPart (package d source names csvPaths) (text "_rels/.rels")).bind
      readRelationships = some [rootRelationship] := by
    rw [readPart_package (List.mem_cons_of_mem _ List.mem_cons_self), roots_read]
  have workbook_part : readPart (package d source names csvPaths) (text "xl/workbook.xml") =
      some entries :=
    (readPart_package (List.mem_cons_of_mem _ (List.mem_cons_of_mem _ List.mem_cons_self))).trans
      entries_read
  have links_part : (readPart (package d source names csvPaths)
      (text "xl/_rels/workbook.xml.rels")).bind readRelationships =
      some ((indices csvPaths.length).map sheetLink) := by
    rw [readPart_package (List.mem_cons_of_mem _ (List.mem_cons_of_mem _ (List.mem_cons_of_mem _
      List.mem_cons_self))), links_read]
  have main : overrideType types (text "xl/workbook.xml") = some mainType :=
    typed _ _ List.mem_cons_self
  -- An entry is found at the index under which its path has been written.
  have each : ∀ entry ∈ (names.zip csvPaths).zipIdx 1,
      (do
        let name ← (entryTag entry.1.1 entry.2).attributes.lookup (text "name")
        let id ← (entryTag entry.1.1 entry.2).attributes.lookup (text "r:id")
        let part ← follow (text "xl/") ((indices csvPaths.length).map sheetLink)
          (officeRelNs ++ text "/worksheet") fun r => r.id = id
        if overrideType types part ≠ some worksheetType then none
        else some (name, ← ((package d source names csvPaths).lookup part).bind readSheet)) =
      some (entry.1.1, tableCells (source entry.1.2).records) := by
    rintro ⟨⟨name, path⟩, index⟩ mem
    have there := mem_zipIdx_of_zip one mem
    have inside : path ∈ csvPaths := (List.mem_zipIdx there).2.2 ▸ List.getElem_mem _
    have numbered : index ∈ indices csvPaths.length := by
      rw [indices, ← List.zipIdx_map_snd 1 csvPaths]
      exact List.mem_map.mpr ⟨_, there, rfl⟩
    have part : (sheetPart index, sheetXml d (source path).records) ∈
        package d source names csvPaths :=
      List.mem_append_right [_, _, _, _] (List.mem_map.mpr ⟨(path, index), there, rfl⟩)
    have type := typed (sheetPart index) worksheetType
      (List.mem_cons_of_mem _ (List.mem_map.mpr ⟨index, numbered, rfl⟩))
    have cells := readSheet_sheetXml d (kept path inside)
    obtain ⟨named, linked⟩ := entryTag_lookup name index
    simp only [named, linked, follow_link numbered, type, ne_eq, not_true_eq_false, if_false,
      lookup_key (package_distinct d source names csvPaths) part, Option.bind_eq_bind,
      Option.bind_some, cells]
  have entries_zip : (names.zipIdx 1).map (fun entry =>
      ((entryTag entry.1 entry.2).attributes, ([] : List Event))) =
      ((names.zip csvPaths).zipIdx 1).map fun entry =>
        ((entryTag entry.1.1 entry.2).attributes, []) := by
    have left : (names.zip csvPaths).map Prod.fst = names := List.map_fst_zip one.le
    conv => lhs; rw [← left, List.zipIdx_map, List.map_map]
    rfl
  have result : (names.zip csvPaths).map (fun (name, path) =>
      (name, tableCells (source path).records)) = ((names.zip csvPaths).zipIdx 1).map fun entry =>
        (entry.1.1, tableCells (source entry.1.2).records) := by
    conv => lhs; rw [← List.zipIdx_map_fst 1 (names.zip csvPaths), List.map_map]
    rfl
  simp only [openWorkbook, types_part, roots_part, Option.bind_eq_bind, Option.bind_some,
    follow_root, main, ne_eq, not_true_eq_false, if_false, links_part, workbook_part, sheets,
    entries_zip, result]
  exact mapM_map_eq_some each

end Archive

/-! Sheet names in XML. -/

theorem baseName_chars {stem : Text} (legal : ∀ ch ∈ stem, isChar ch = true) {ch : CodePoint}
    (mem : ch ∈ baseName stem) : isChar ch = true := by
  rw [baseName] at mem
  split_ifs at mem with empty
  · have sheet : (text "Sheet").all isChar = true := by decide
    exact List.all_eq_true.mp sheet ch mem
  · obtain ⟨old, there, rfl⟩ := List.mem_map.mp (mem_of_mem_strip mem)
    split_ifs
    · decide
    · exact legal old there

theorem nameOf_chars {stem name : Text} (legal : ∀ ch ∈ stem, isChar ch = true)
    (given : NameOf (baseName stem) name) : name.all isChar = true := by
  rw [List.all_eq_true]
  intro ch mem
  rcases given with rfl | ⟨suffix, -, rfl⟩
  · exact baseName_chars legal (List.mem_of_mem_take mem)
  · rw [suffixed, List.mem_append, List.mem_cons] at mem
    rcases mem with front | rfl | digit
    · exact baseName_chars legal (List.mem_of_mem_take front)
    · decide
    · exact List.all_eq_true.mp (str_chars suffix) ch digit

theorem names_chars {Path : Type} {stem : Path → Text} {csvPaths : List Path} {names : List Text}
    (order : List.Forall₂ (fun path name => NameOf (baseName (stem path)) name) csvPaths names)
    (legal : ∀ path ∈ csvPaths, ∀ ch ∈ stem path, isChar ch = true) :
    ∀ name ∈ names, name.all isChar = true := by
  induction order with
  | nil => exact fun _ mem => absurd mem List.not_mem_nil
  | cons given _ ih =>
    rw [List.forall_mem_cons] at legal ⊢
    exact ⟨nameOf_chars legal.1 given, ih legal.2⟩

theorem not_isSurrogate {ch : CodePoint} (legal : isChar ch = true) : ¬ IsSurrogate ch := by
  rintro ⟨low, high⟩
  rw [Fin.le_def, val_chr (by decide)] at low high
  have range := isChar_iff.mp legal
  omega

theorem encodes_of_parse {document : Text} {events : List Event}
    (read : parseDocument document = some events) : ∀ ch ∈ document, ¬ IsSurrogate ch := by
  have legal : document.all isChar = true := by
    rw [parseDocument] at read
    split_ifs at read with legal
    exact legal
  exact fun ch mem => not_isSurrogate (List.all_eq_true.mp legal ch mem)

section Created

variable {Path : Type} (c : Casefold) (d : DecimalDigits) (stem : Path → Text)
  (source : Path → Source)

theorem package_encodes {names : List Text} {csvPaths : List Path}
    (legal : ∀ name ∈ names, name.all isChar = true)
    (kept : ∀ path ∈ csvPaths, Legal (source path).records) :
    ∀ part ∈ package d source names csvPaths, ∀ ch ∈ part.2, ¬ IsSurrogate ch := by
  obtain ⟨types, types_read, -⟩ := contentTypes_read csvPaths.length
  obtain ⟨roots, roots_read, -⟩ := Option.bind_eq_some_iff.mp roots_read
  obtain ⟨entries, entries_read, -⟩ := entries_read legal
  obtain ⟨links, links_read, -⟩ := Option.bind_eq_some_iff.mp (links_read csvPaths.length)
  rw [package]
  simp only [List.forall_mem_cons, List.forall_mem_map]
  refine ⟨encodes_of_parse types_read, encodes_of_parse roots_read, encodes_of_parse entries_read,
    encodes_of_parse links_read, fun path mem => ?_⟩
  have inside : path.1 ∈ csvPaths := by
    obtain ⟨path, index⟩ := path
    exact (List.mem_zipIdx mem).2.2 ▸ List.getElem_mem _
  exact encodes_of_parse (parseDocument_sheetXml d (kept path.1 inside))

/-- `create_workbook` leaves a whole package or no file. A package opens as the sheets in the
order of the paths, each under its name and with the values of its file; where the system
refuses nothing, it is left exactly when every file is complete and within the limits. -/
theorem createWorkbook_opens (fails : Nat → Bool) {csvPaths : List Path} {fuel : Nat}
    (enough : csvPaths.length < fuel)
    (titled : ∀ path ∈ csvPaths, ∀ ch ∈ stem path, isChar ch = true)
    (kept : ∀ path ∈ csvPaths, ∀ ch ∈ (source path).text, ¬ Missed ch) :
    ∃ created names, createWorkbook c d stem source fails fuel csvPaths = some created ∧
      sheetNames c stem fuel csvPaths = some names ∧
      (created.file = none ↔ created.raised ≠ none) ∧
      (∀ archive, created.file = some archive → (archive.map Prod.fst).Nodup ∧
        openWorkbook archive = some ((names.zip csvPaths).map fun (name, path) =>
          (name, tableCells (source path).records))) ∧
      ((∀ write, fails write = false) → (created.raised = none ↔
        ∀ path ∈ csvPaths, (source path).Complete ∧ WithinLimits 1 (source path).records)) := by
  obtain ⟨names, ends, given⟩ := sheetNames_names c stem csvPaths
  have found := ends fuel enough
  have order := given.inOrder
  have legal := names_chars order titled
  have tables : ∀ path ∈ csvPaths, Legal (source path).records := fun path mem =>
    Source.legal (kept path mem)
  have distinct := package_distinct d source names csvPaths
  have opens := openWorkbook_package (d := d) order.length_eq.symm legal tables
  refine ⟨_, names, by rw [createWorkbook, found, Option.map_some], found,
    closeOrUnlink_file fails _, fun archive left => ?_, fun works => ⟨fun quiet => ?_, fun ok => ?_⟩⟩
  · obtain ⟨-, rfl⟩ := closeOrUnlink_package d source left
    exact ⟨distinct, opens⟩
  · have left := mt (closeOrUnlink_file fails _).mp (not_not.mpr quiet)
    obtain ⟨archive, same⟩ := Option.ne_none_iff_exists'.mp left
    exact (closeOrUnlink_package d source same).1
  · have parts := (workbookParts_eq d source names csvPaths _).mpr ⟨ok, rfl⟩
    rw [parts, writeParts_ok works (package_encodes d source legal tables), closeOrUnlink, works,
      if_neg Bool.false_ne_true]

end Created

theorem createWorkbook_opens_one : ∃ created archive,
    createWorkbook asciiFolding asciiDigits (fun _ : Unit => text "run") (fun _ => rowSource)
      (fun _ => false) 2 [()] = some created ∧ created.file = some archive ∧
    openWorkbook archive = some [(text "run", [((1, 1), text "a"), ((2, 1), text "1")])] := by
  have kept : (rowSource.text.all fun ch => decide (¬ (ch = chr 0xfffe ∨ ch = chr 0xffff))) =
      true := by decide
  have titled : ((text "run").all isChar) = true := by decide
  obtain ⟨created, names, done, named, left, opens, exactly⟩ :=
    createWorkbook_opens asciiFolding asciiDigits (fun _ : Unit => text "run") (fun _ => rowSource)
      (fun _ => false) (show [()].length < 2 by decide)
      (fun _ _ ch mem => List.all_eq_true.mp titled ch mem) (by
        intro path _ ch mem
        have apart : ¬ (ch = chr 0xfffe ∨ ch = chr 0xffff) :=
          of_decide_eq_true (List.all_eq_true.mp kept ch mem)
        exact apart)
  have records : rowSource.records = [[text "a", text "1"]] := by decide
  have complete : rowSource.Complete := ⟨rfl, by decide⟩
  have within : WithinLimits 1 rowSource.records := by
    rw [records]
    exact ⟨by decide, by decide⟩
  have quiet := (exactly fun _ => rfl).mpr fun _ _ => ⟨complete, within⟩
  have some_file := mt left.mp (not_not.mpr quiet)
  obtain ⟨archive, file⟩ := Option.ne_none_iff_exists'.mp some_file
  have own : sheetNames asciiFolding (fun _ : Unit => text "run") 2 [()] = some [text "run"] := by
    decide +kernel
  obtain rfl := Option.some.inj (named.symm.trans own)
  refine ⟨created, archive, done, file, (opens archive file).2.trans ?_⟩
  rw [records]
  decide

end Partyline.CsvToXlsx
