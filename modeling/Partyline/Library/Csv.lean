import Partyline.Library.CodePoints

/-! CSV in the default dialect of Python, strict or not: what `csv.reader` makes of the text
of a file opened with `newline=""`, and what `csv.writer` writes. -/
namespace Partyline.Library.Csv

open Library

def newline : CodePoint := chr 10
def carriageReturn : CodePoint := chr 13
def quotechar : CodePoint := chr 34
def delimiter : CodePoint := chr 44

def isLineEnd (ch : CodePoint) : Bool := ch = newline || ch = carriageReturn

/-- `csv.field_size_limit()`. -/
def fieldLimit : Nat := 131072

/-- A character of a line, or the end of the line. -/
abbrev Symbol := Option CodePoint

def symbols : Text → List Symbol
  | [] => []
  | ch :: s =>
    if s = [] ∨ ch = newline ∨ (ch = carriageReturn ∧ s.head? ≠ some newline) then
      some ch :: none :: symbols s
    else some ch :: symbols s

inductive State where
  | startRecord
  | startField
  | inField
  | inQuotedField
  | quoteInQuotedField
  | eatCrnl
deriving DecidableEq

inductive Error where
  | fieldLimit
  | delimiterExpected
  | newlineSeen
  | unexpectedEnd
deriving DecidableEq

structure Parser where
  state : State
  field : Text
  fields : List Text
deriving DecidableEq

namespace Parser

def initial : Parser := ⟨.startRecord, [], []⟩

def saveField (p : Parser) (state : State) : Parser := ⟨state, [], p.fields ++ [p.field]⟩

def addChar (p : Parser) (ch : CodePoint) (state : State) : Except Error Parser :=
  if fieldLimit ≤ p.field.length then .error .fieldLimit
  else .ok ⟨state, p.field ++ [ch], p.fields⟩

def endRecord (p : Parser) : Symbol → Parser
  | none => p.saveField .startRecord
  | some _ => p.saveField .eatCrnl

def startField (p : Parser) (symbol : Symbol) : Except Error Parser :=
  match symbol with
  | none => .ok (p.endRecord none)
  | some ch =>
    if isLineEnd ch then .ok (p.endRecord symbol)
    else if ch = quotechar then .ok { p with state := .inQuotedField }
    else if ch = delimiter then .ok (p.saveField .startField)
    else p.addChar ch .inField

def processChar (strict : Bool) (p : Parser) (symbol : Symbol) : Except Error Parser :=
  match p.state, symbol with
  | .startRecord, none => .ok p
  | .startRecord, some ch =>
    if isLineEnd ch then .ok { p with state := .eatCrnl } else p.startField symbol
  | .startField, _ => p.startField symbol
  | .inField, none => .ok (p.endRecord none)
  | .inField, some ch =>
    if isLineEnd ch then .ok (p.endRecord symbol)
    else if ch = delimiter then .ok (p.saveField .startField)
    else p.addChar ch .inField
  | .inQuotedField, none => .ok p
  | .inQuotedField, some ch =>
    if ch = quotechar then .ok { p with state := .quoteInQuotedField }
    else p.addChar ch .inQuotedField
  | .quoteInQuotedField, none => .ok (p.endRecord none)
  | .quoteInQuotedField, some ch =>
    if ch = quotechar then p.addChar ch .inQuotedField
    else if ch = delimiter then .ok (p.saveField .startField)
    else if isLineEnd ch then .ok (p.endRecord symbol)
    else if strict then .error .delimiterExpected
    else p.addChar ch .inField
  | .eatCrnl, none => .ok { p with state := .startRecord }
  | .eatCrnl, some ch => if isLineEnd ch then .ok p else .error .newlineSeen

/-- The records that are read, and what stops the reader before the end of the file. -/
def read (strict : Bool) (p : Parser) : List Symbol → List (List Text) × Option Error
  | [] =>
    if p.field ≠ [] ∨ p.state = .inQuotedField then
      if strict then ([], some .unexpectedEnd) else ([p.fields ++ [p.field]], none)
    else ([], none)
  | symbol :: symbols =>
    match p.processChar strict symbol with
    | .error error => ([], some error)
    | .ok p =>
      if symbol = none ∧ p.state = .startRecord then
        ((p.fields :: (read strict initial symbols).1), (read strict initial symbols).2)
      else read strict p symbols

end Parser

def reader (strict : Bool) (s : Text) : List (List Text) × Option Error :=
  Parser.initial.read strict (symbols s)

/-- Whether the writer puts a field that has this character in quotation marks. -/
def quotes (ch : CodePoint) : Bool := ch = delimiter || ch = quotechar || isLineEnd ch

def doubled (s : Text) : Text :=
  s.flatMap fun ch => if ch = quotechar then [quotechar, quotechar] else [ch]

def quoted (s : Text) : Text := quotechar :: (doubled s ++ [quotechar])

def writeField (s : Text) : Text := if s.any quotes then quoted s else s

def joinFields : List Text → Text
  | [] => []
  | [field] => writeField field
  | field :: other :: fields => writeField field ++ delimiter :: joinFields (other :: fields)

/-- `csv.writer(...).writerow`. A record of one empty field is written in quotation marks. -/
def writeRow (row : List Text) : Text :=
  (if row = [[]] then quoted [] else joinFields row) ++ [carriageReturn, newline]

def writer (rows : List (List Text)) : Text := rows.flatMap writeRow

/-! What is written is read back. -/

theorem symbols_plain {ch : CodePoint} (plain : isLineEnd ch = false) {s : Text} (more : s ≠ []) :
    symbols (ch :: s) = some ch :: symbols s := by
  simp only [isLineEnd, Bool.or_eq_false_iff, decide_eq_false_iff_not] at plain
  rw [symbols, if_neg]
  rintro (empty | feed | ⟨back, -⟩)
  · exact more empty
  · exact plain.1 feed
  · exact plain.2 back

theorem symbols_lineEnd (s : Text) :
    symbols (carriageReturn :: newline :: s) =
      some carriageReturn :: some newline :: none :: symbols s := by
  have back : symbols (carriageReturn :: newline :: s) =
      some carriageReturn :: symbols (newline :: s) := by
    rw [symbols, if_neg]
    rintro (empty | feed | ⟨-, other⟩)
    · exact absurd empty (List.cons_ne_nil _ _)
    · exact absurd feed (by decide)
    · exact other rfl
  rw [back, symbols, if_pos (.inr (.inl rfl))]

namespace Parser

variable {strict : Bool}

theorem read_ok {p p' : Parser} {ch : CodePoint} (step : p.processChar strict (some ch) = .ok p')
    (symbols : List Symbol) : p.read strict (some ch :: symbols) = p'.read strict symbols := by
  rw [read, step]
  rfl

theorem addChar_ok {p : Parser} (room : p.field.length < fieldLimit) (ch : CodePoint)
    (state : State) : p.addChar ch state = .ok ⟨state, p.field ++ [ch], p.fields⟩ :=
  if_neg (Nat.not_le.mpr room)

theorem read_quoted {p : Parser} {ch : CodePoint} {field : Text} {fields : List Text}
    (step : p.processChar strict (some ch) = .ok ⟨.inQuotedField, field, fields⟩) (s : Text) :
    p.read strict (symbols (ch :: s)) =
      (⟨.inQuotedField, field, fields⟩ : Parser).read strict (symbols s) := by
  rw [symbols]
  split_ifs with ended
  · rw [read_ok step]
    rfl
  · exact read_ok step _

theorem read_doubled {field value : Text} (fields : List Text) (s : Text)
    (fits : field.length + value.length ≤ fieldLimit) :
    (⟨.inQuotedField, field, fields⟩ : Parser).read strict (symbols (doubled value ++ s)) =
      (⟨.inQuotedField, field ++ value, fields⟩ : Parser).read strict (symbols s) := by
  induction value generalizing field with
  | nil => rw [List.append_nil]; rfl
  | cons ch value ih =>
    rw [List.length_cons] at fits
    have rest := @ih (field ++ [ch]) (by
      rw [List.length_append, List.length_singleton]
      omega)
    have room : field.length < fieldLimit := by omega
    rw [List.append_assoc, List.singleton_append] at rest
    rw [← rest]
    by_cases quote : ch = quotechar
    · subst quote
      have both : doubled (quotechar :: value) ++ s =
          quotechar :: quotechar :: (doubled value ++ s) := rfl
      have opens : processChar strict ⟨.inQuotedField, field, fields⟩ (some quotechar) =
          .ok ⟨.quoteInQuotedField, field, fields⟩ := rfl
      have again : processChar strict ⟨.quoteInQuotedField, field, fields⟩ (some quotechar) =
          addChar ⟨.quoteInQuotedField, field, fields⟩ quotechar .inQuotedField := rfl
      rw [both, symbols_plain (by decide) (List.cons_ne_nil _ _), read_ok opens]
      exact read_quoted (again.trans (addChar_ok room _ _)) _
    · have one : doubled (ch :: value) ++ s = ch :: (doubled value ++ s) := by
        rw [doubled, List.flatMap_cons, if_neg quote]
        rfl
      have inside : processChar strict ⟨.inQuotedField, field, fields⟩ (some ch) =
          addChar ⟨.inQuotedField, field, fields⟩ ch .inQuotedField := if_neg quote
      rw [one]
      exact read_quoted (inside.trans (addChar_ok room _ _)) _

/-- The state behind a field, before what ends it. -/
inductive Ends (field : Text) (fields : List Text) : Parser → Prop where
  | empty : field = [] → Ends field fields ⟨.startField, [], fields⟩
  | plain : Ends field fields ⟨.inField, field, fields⟩
  | quoted : Ends field fields ⟨.quoteInQuotedField, field, fields⟩

theorem Ends.delimiter {field : Text} {fields : List Text} {p : Parser} (h : Ends field fields p)
    {s : Text} (more : s ≠ []) : p.read strict (symbols (Csv.delimiter :: s)) =
      (⟨.startField, [], fields ++ [field]⟩ : Parser).read strict (symbols s) := by
  rw [symbols_plain (by decide) more]
  cases h with
  | empty none =>
    subst none
    exact read_ok rfl _
  | plain => exact read_ok rfl _
  | quoted => exact read_ok rfl _

theorem Ends.lineEnd {field : Text} {fields : List Text} {p : Parser} (h : Ends field fields p)
    (s : Text) : p.read strict (symbols (carriageReturn :: newline :: s)) =
      ((fields ++ [field]) :: (initial.read strict (symbols s)).1, (initial.read strict (symbols s)).2) := by
  rw [symbols_lineEnd]
  have saved : p.read strict (some carriageReturn :: some newline :: none :: symbols s) =
      (⟨.eatCrnl, [], fields ++ [field]⟩ : Parser).read strict (some newline :: none :: symbols s) := by
    cases h with
    | empty none =>
      subst none
      exact read_ok rfl _
    | plain => exact read_ok rfl _
    | quoted => exact read_ok rfl _
  have eaten : processChar strict ⟨.eatCrnl, [], fields ++ [field]⟩ (some newline) =
      .ok ⟨.eatCrnl, [], fields ++ [field]⟩ := rfl
  rw [saved, read_ok eaten]
  rfl

theorem read_plain {field value : Text} (fields : List Text) {s : Text} (more : s ≠ [])
    (fits : field.length + value.length ≤ fieldLimit) (plain : value.any quotes = false) :
    (⟨.inField, field, fields⟩ : Parser).read strict (symbols (value ++ s)) =
      (⟨.inField, field ++ value, fields⟩ : Parser).read strict (symbols s) := by
  induction value generalizing field with
  | nil => rw [List.append_nil]; rfl
  | cons ch value ih =>
    rw [List.length_cons] at fits
    simp only [List.any_cons, Bool.or_eq_false_iff, quotes, decide_eq_false_iff_not] at plain
    obtain ⟨⟨⟨notDelimiter, -⟩, notLineEnd⟩, rest⟩ := plain
    have room : field.length < fieldLimit := by omega
    have after := @ih (field ++ [ch]) (by
      rw [List.length_append, List.length_singleton]
      omega) rest
    have step : processChar strict ⟨.inField, field, fields⟩ (some ch) =
        addChar ⟨.inField, field, fields⟩ ch .inField := by
      simp [processChar, notLineEnd, notDelimiter]
    rw [List.cons_append, symbols_plain notLineEnd (List.append_ne_nil_of_right_ne_nil _ more),
      read_ok (step.trans (addChar_ok room _ _)), after, List.append_assoc, List.singleton_append]

theorem read_writeField (field : Text) (fields : List Text) {s : Text} (more : s ≠ [])
    (fits : field.length ≤ fieldLimit) : ∃ p, Ends field fields p ∧
      (⟨.startField, [], fields⟩ : Parser).read strict (symbols (writeField field ++ s)) =
        p.read strict (symbols s) := by
  rw [writeField]
  split_ifs with special
  · refine ⟨_, .quoted, ?_⟩
    have opens : processChar strict ⟨.startField, [], fields⟩ (some quotechar) =
        .ok ⟨.inQuotedField, [], fields⟩ := rfl
    have closes : processChar strict ⟨.inQuotedField, field, fields⟩ (some quotechar) =
        .ok ⟨.quoteInQuotedField, field, fields⟩ := rfl
    rw [quoted, List.cons_append, symbols_plain (by decide) (by simp), read_ok opens,
      List.append_assoc, read_doubled fields _ (by simpa using fits), List.nil_append,
      List.singleton_append, symbols_plain (by decide) more, read_ok closes]
  · cases field with
    | nil => exact ⟨_, .empty rfl, rfl⟩
    | cons ch field =>
      refine ⟨_, .plain, ?_⟩
      rw [List.length_cons] at fits
      simp only [List.any_cons, Bool.or_eq_true, not_or, Bool.not_eq_true] at special
      have first := special.1
      simp only [quotes, Bool.or_eq_false_iff, decide_eq_false_iff_not] at first
      obtain ⟨⟨notDelimiter, notQuote⟩, notLineEnd⟩ := first
      have room : ([] : Text).length < fieldLimit := by decide
      have step : processChar strict ⟨.startField, [], fields⟩ (some ch) =
          addChar ⟨.startField, [], fields⟩ ch .inField := by
        simp [processChar, startField, notLineEnd, notDelimiter, notQuote]
      rw [List.cons_append, symbols_plain notLineEnd (List.append_ne_nil_of_right_ne_nil _ more),
        read_ok (step.trans (addChar_ok room _ _)), read_plain fields more (by simpa [Nat.add_comm] using fits) special.2]
      rfl

theorem read_joinFields (field : Text) (rest fields : List Text) (s : Text)
    (fits : ∀ value ∈ field :: rest, value.length ≤ fieldLimit) :
    (⟨.startField, [], fields⟩ : Parser).read strict
      (symbols (joinFields (field :: rest) ++ carriageReturn :: newline :: s)) =
      ((fields ++ field :: rest) :: (initial.read strict (symbols s)).1,
        (initial.read strict (symbols s)).2) := by
  induction rest generalizing field fields with
  | nil =>
    obtain ⟨p, ended, whole⟩ := read_writeField field fields
      (List.cons_ne_nil carriageReturn (newline :: s)) (fits field List.mem_cons_self)
    rw [joinFields, whole, ended.lineEnd]
  | cons other rest ih =>
    have more : joinFields (other :: rest) ++ carriageReturn :: newline :: s ≠ [] := by simp
    obtain ⟨p, ended, whole⟩ := read_writeField field fields
      (List.cons_ne_nil Csv.delimiter (joinFields (other :: rest) ++ carriageReturn :: newline :: s))
      (fits field List.mem_cons_self)
    rw [joinFields, List.append_assoc, List.cons_append, whole, ended.delimiter more,
      ih other (fields ++ [field]) fun value mem => fits value (List.mem_cons_of_mem _ mem),
      List.append_assoc, List.singleton_append]

theorem read_startRecord {ch : CodePoint} (plain : isLineEnd ch = false) {s : Text}
    (more : s ≠ []) : initial.read strict (symbols (ch :: s)) =
      (⟨.startField, [], []⟩ : Parser).read strict (symbols (ch :: s)) := by
  have same : processChar strict initial (some ch) = processChar strict ⟨.startField, [], []⟩ (some ch) := by
    simp only [initial, processChar, plain, Bool.false_eq_true, if_false, startField, addChar]
    rfl
  rw [symbols_plain plain more, read, read, same]

theorem head_writeField {field : Text} (nonempty : field ≠ []) :
    ∃ ch s, writeField field = ch :: s ∧ isLineEnd ch = false := by
  rw [writeField]
  split_ifs with special
  · exact ⟨quotechar, _, rfl, by decide⟩
  · cases field with
    | nil => exact absurd rfl nonempty
    | cons ch field =>
      simp only [List.any_cons, quotes, Bool.or_eq_true, not_or, Bool.not_eq_true] at special
      exact ⟨ch, field, rfl, special.1.2⟩

theorem head_joinFields {row : List Text} (nonempty : row ≠ []) (other : row ≠ [[]]) :
    ∃ ch s, joinFields row = ch :: s ∧ isLineEnd ch = false := by
  cases row with
  | nil => exact absurd rfl nonempty
  | cons field rest =>
    by_cases empty : field = []
    · subst empty
      cases rest with
      | nil => exact absurd rfl other
      | cons next rest => exact ⟨Csv.delimiter, joinFields (next :: rest), rfl, by decide⟩
    · obtain ⟨ch, s, whole, plain⟩ := head_writeField empty
      cases rest with
      | nil => exact ⟨ch, s, whole, plain⟩
      | cons next rest => exact ⟨ch, _, by rw [joinFields, whole]; rfl, plain⟩

theorem read_writeRow {row : List Text} (fits : ∀ value ∈ row, value.length ≤ fieldLimit)
    (s : Text) : initial.read strict (symbols (writeRow row ++ s)) =
      (row :: (initial.read strict (symbols s)).1, (initial.read strict (symbols s)).2) := by
  rw [writeRow, List.append_assoc]
  split_ifs with single
  · subst single
    have more : carriageReturn :: newline :: s ≠ [] := List.cons_ne_nil _ _
    have opens : processChar strict initial (some quotechar) = .ok ⟨.inQuotedField, [], []⟩ := rfl
    have closes : processChar strict ⟨.inQuotedField, [], []⟩ (some quotechar) =
        .ok ⟨.quoteInQuotedField, [], []⟩ := rfl
    have whole : quoted [] ++ ([carriageReturn, newline] ++ s) =
        quotechar :: quotechar :: carriageReturn :: newline :: s := rfl
    rw [whole, symbols_plain (by decide) (List.cons_ne_nil _ _), read_ok opens,
      symbols_plain (by decide) more, read_ok closes, Ends.quoted.lineEnd]
    rfl
  · cases row with
    | nil =>
      have whole : joinFields [] ++ ([carriageReturn, newline] ++ s) =
          carriageReturn :: newline :: s := rfl
      have eats : processChar strict initial (some carriageReturn) = .ok ⟨.eatCrnl, [], []⟩ := rfl
      have eaten : processChar strict ⟨.eatCrnl, [], []⟩ (some newline) = .ok ⟨.eatCrnl, [], []⟩ := rfl
      rw [whole, symbols_lineEnd, read_ok eats, read_ok eaten]
      rfl
    | cons field rest =>
      obtain ⟨ch, front, first, plain⟩ := head_joinFields (List.cons_ne_nil field rest) single
      have whole := @read_joinFields strict field rest [] s fits
      rw [first, List.cons_append] at whole
      rw [first, List.cons_append, List.cons_append, List.singleton_append,
        read_startRecord plain (by simp), whole, List.nil_append]

end Parser

/-- What `csv.writer` writes, `csv.reader` reads. -/
theorem reader_writer {strict : Bool} {rows : List (List Text)}
    (fits : ∀ row ∈ rows, ∀ field ∈ row, field.length ≤ fieldLimit) :
    reader strict (writer rows) = (rows, none) := by
  induction rows with
  | nil => rfl
  | cons row rows ih =>
    have rest := ih fun other mem => fits other (List.mem_cons_of_mem _ mem)
    rw [reader, writer] at rest ⊢
    rw [List.flatMap_cons, Parser.read_writeRow (fits row List.mem_cons_self), rest]

/-! What holds of the fields that are read. -/

theorem some_mem_symbols {ch : CodePoint} {s : Text} (mem : some ch ∈ symbols s) : ch ∈ s := by
  induction s with
  | nil => exact absurd mem List.not_mem_nil
  | cons first s ih =>
    rw [symbols] at mem
    split_ifs at mem
    · simp only [List.mem_cons, Option.some_inj, reduceCtorEq, false_or] at mem
      exact List.mem_cons.mpr (mem.imp_right ih)
    · simp only [List.mem_cons, Option.some_inj] at mem
      exact List.mem_cons.mpr (mem.imp_right ih)

namespace Parser

section Each

/-- What each field has that grows by the characters of `s`, as long as there is room. -/
structure Grows (s : Text) (P : Text → Prop) : Prop where
  empty : P []
  more : ∀ field, P field → field.length < fieldLimit → ∀ ch ∈ s, P (field ++ [ch])

def Each (P : Text → Prop) (p : Parser) : Prop := P p.field ∧ ∀ field ∈ p.fields, P field

variable {strict : Bool} {s : Text} {P : Text → Prop} (grows : Grows s P) {p p' : Parser}

include grows

theorem Each.saveField (h : p.Each P) (state : State) : (p.saveField state).Each P := by
  refine ⟨grows.empty, fun field mem => ?_⟩
  rw [Parser.saveField, List.mem_append, List.mem_singleton] at mem
  rcases mem with old | rfl
  · exact h.2 field old
  · exact h.1

theorem Each.endRecord (h : p.Each P) (symbol : Symbol) : (p.endRecord symbol).Each P := by
  cases symbol with
  | none => exact h.saveField grows _
  | some ch => exact h.saveField grows _

theorem Each.addChar (h : p.Each P) {ch : CodePoint} (mem : ch ∈ s) {state : State}
    (added : p.addChar ch state = .ok p') : p'.Each P := by
  rw [Parser.addChar] at added
  split_ifs at added with full
  obtain rfl := Except.ok.inj added
  exact ⟨grows.more p.field h.1 (Nat.lt_of_not_le full) ch mem, h.2⟩

theorem Each.startField (h : p.Each P) {symbol : Symbol} (mem : ∀ ch ∈ symbol, ch ∈ s)
    (started : p.startField symbol = .ok p') : p'.Each P := by
  cases symbol with
  | none => exact Except.ok.inj started ▸ h.endRecord grows none
  | some ch =>
    simp only [Parser.startField] at started
    split_ifs at started
    · exact Except.ok.inj started ▸ h.endRecord grows _
    · exact Except.ok.inj started ▸ h
    · exact Except.ok.inj started ▸ h.saveField grows _
    · exact h.addChar grows (mem ch rfl) started

theorem Each.processChar (h : p.Each P) {symbol : Symbol} (mem : ∀ ch ∈ symbol, ch ∈ s)
    (taken : p.processChar strict symbol = .ok p') : p'.Each P := by
  obtain ⟨state, field, fields⟩ := p
  cases state <;> cases symbol <;> simp only [Parser.processChar] at taken
  case startField.none | startField.some => exact h.startField grows mem taken
  all_goals try split_ifs at taken
  all_goals first
    | exact Except.ok.inj taken ▸ h
    | exact Except.ok.inj taken ▸ h.endRecord grows _
    | exact Except.ok.inj taken ▸ h.saveField grows _
    | exact h.startField grows mem taken
    | exact h.addChar grows (mem _ rfl) taken

theorem Each.last (h : p.Each P) {row : List Text} (mem : row ∈ (p.read strict []).1) :
    ∀ field ∈ row, P field := by
  rw [read] at mem
  split_ifs at mem
  · exact absurd mem List.not_mem_nil
  · obtain rfl := List.mem_singleton.mp mem
    exact (h.saveField grows .startRecord).2
  · exact absurd mem List.not_mem_nil

theorem each_read (h : p.Each P) {symbols : List Symbol}
    (within : ∀ ch, some ch ∈ symbols → ch ∈ s) {row : List Text}
    (mem : row ∈ (p.read strict symbols).1) : ∀ field ∈ row, P field := by
  induction symbols generalizing p with
  | nil => exact h.last grows mem
  | cons symbol symbols ih =>
    have later : ∀ ch, some ch ∈ symbols → ch ∈ s := fun ch mem =>
      within ch (List.mem_cons_of_mem symbol mem)
    rw [read] at mem
    cases taken : p.processChar strict symbol with
    | error error =>
      rw [taken] at mem
      exact absurd mem List.not_mem_nil
    | ok p' =>
      have here : ∀ ch ∈ symbol, ch ∈ s := by
        rintro ch same
        obtain rfl := Option.mem_def.mp same
        exact within ch List.mem_cons_self
      have next := h.processChar grows here taken
      rw [taken] at mem
      dsimp only at mem
      split_ifs at mem
      · cases List.mem_cons.mp mem with
        | inl own =>
          rw [own]
          exact next.2
        | inr rest => exact ih ⟨grows.empty, fun _ mem => absurd mem List.not_mem_nil⟩ later rest
      · exact ih next later mem

end Each

end Parser

theorem each_reader {strict : Bool} {s : Text} {P : Text → Prop} (grows : Parser.Grows s P)
    {row : List Text} (mem : row ∈ (reader strict s).1) : ∀ field ∈ row, P field :=
  Parser.each_read grows ⟨grows.empty, fun _ mem => absurd mem List.not_mem_nil⟩
    (fun _ => some_mem_symbols) mem

theorem mem_of_mem_reader {strict : Bool} {s : Text} {row : List Text}
    (mem : row ∈ (reader strict s).1) {field : Text} (there : field ∈ row) {ch : CodePoint}
    (inside : ch ∈ field) : ch ∈ s := by
  have grows : Parser.Grows s fun field => ∀ ch ∈ field, ch ∈ s :=
    ⟨nofun, fun field old _ ch mem other there => by
      rcases List.mem_append.mp there with before | new
      · exact old other before
      · exact List.mem_singleton.mp new ▸ mem⟩
  exact each_reader grows mem field there ch inside

theorem length_of_mem_reader {strict : Bool} {s : Text} {row : List Text}
    (mem : row ∈ (reader strict s).1) {field : Text} (there : field ∈ row) :
    field.length ≤ fieldLimit := by
  have grows : Parser.Grows s fun field => field.length ≤ fieldLimit :=
    ⟨Nat.zero_le _, fun field _ room ch _ => by
      rw [List.length_append, List.length_singleton]
      exact room⟩
  exact each_reader grows mem field there

end Partyline.Library.Csv
