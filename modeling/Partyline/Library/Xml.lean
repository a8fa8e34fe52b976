import Partyline.Library.CodePoints

/-! A reader for one XML 1.0 element: tags with attributes, character data and references to
the predefined entities. Names are ASCII. What it does not know (comments, sections of
`CDATA`, processing instructions, character references, references in attribute values,
white space around `=`) it refuses. -/
namespace Partyline.Library.Xml

open Library

def tab : CodePoint := chr 9
def lineFeed : CodePoint := chr 10
def carriageReturn : CodePoint := chr 13
def quotationMark : CodePoint := chr 34
def ampersand : CodePoint := chr 38
def solidus : CodePoint := chr 47
def semicolon : CodePoint := chr 59
def lessThan : CodePoint := chr 60
def equalsSign : CodePoint := chr 61
def greaterThan : CodePoint := chr 62
def rightBracket : CodePoint := chr 93

/-- `Char`: the characters a document may hold. -/
def isChar (ch : CodePoint) : Bool :=
  ch = tab || ch = lineFeed || ch = carriageReturn || (chr 0x20 ≤ ch && ch ≤ chr 0xd7ff) ||
    (chr 0xe000 ≤ ch && ch ≤ chr 0xfffd) || chr 0x10000 ≤ ch

/-- `S`. -/
def isSpace (ch : CodePoint) : Bool :=
  ch = chr 32 || ch = tab || ch = carriageReturn || ch = lineFeed

def isNameStart (ch : CodePoint) : Bool :=
  (chr 65 ≤ ch && ch ≤ chr 90) || (chr 97 ≤ ch && ch ≤ chr 122) || ch = chr 95 || ch = chr 58

def isNameChar (ch : CodePoint) : Bool :=
  isNameStart ch || (chr 48 ≤ ch && ch ≤ chr 57) || ch = chr 45 || ch = chr 46

/-- The end-of-line handling before the parse; `returned`: the character before was a
carriage return. -/
def normalizeFrom (returned : Bool) : Text → Text
  | [] => []
  | ch :: s =>
    if ch = carriageReturn then lineFeed :: normalizeFrom true s
    else if returned = true ∧ ch = lineFeed then normalizeFrom false s
    else ch :: normalizeFrom false s

def normalizeLineEnds (s : Text) : Text := normalizeFrom false s

def entity (name : Text) : Option CodePoint :=
  if name = text "lt" then some lessThan
  else if name = text "gt" then some greaterThan
  else if name = text "amp" then some ampersand
  else if name = text "apos" then some (chr 39)
  else if name = text "quot" then some quotationMark
  else none

inductive Event where
  | start (name : Text) (attributes : List (Text × Text))
  | char (ch : CodePoint)
  | close (name : Text)
deriving DecidableEq

structure Tag where
  name : Text
  attributes : List (Text × Text)
deriving DecidableEq

/-- Where the reader is. In `content` it counts the brackets just read, for `]]>`. -/
inductive Mode where
  | content (brackets : Nat)
  | reference (name : Text)
  | markup
  | closing (name : Text)
  | opening (name : Text)
  | between (tag : Tag)
  | attribute (tag : Tag) (name : Text)
  | equals (tag : Tag) (name : Text)
  | value (tag : Tag) (name : Text) (quote : CodePoint) (value : Text)
  | quoted (tag : Tag)
  | empty (tag : Tag)
deriving DecidableEq

/-- `opened`: the names of the open elements, the innermost first. -/
structure Reader where
  mode : Mode
  opened : List Text
  events : List Event
deriving DecidableEq

namespace Reader

def initial : Reader := ⟨.content 0, [], []⟩

def charData (r : Reader) (brackets : Nat) (ch : CodePoint) : Reader :=
  ⟨.content brackets, r.opened, r.events ++ [.char ch]⟩

def startTag (r : Reader) (tag : Tag) : Option Reader :=
  if (tag.attributes.map Prod.fst).Nodup then
    some ⟨.content 0, tag.name :: r.opened, r.events ++ [.start tag.name tag.attributes]⟩
  else none

def endTag (r : Reader) (name : Text) : Option Reader :=
  if r.opened.head? = some name then
    some ⟨.content 0, r.opened.tail, r.events ++ [.close name]⟩
  else none

def inTag (r : Reader) (tag : Tag) (ch : CodePoint) : Option Reader :=
  if isSpace ch then some { r with mode := .between tag }
  else if ch = greaterThan then r.startTag tag
  else if ch = solidus then some { r with mode := .empty tag }
  else none

def content (r : Reader) (brackets : Nat) (ch : CodePoint) : Option Reader :=
  if r.opened = [] then
    if isSpace ch then some r
    else if ch = lessThan ∧ r.events = [] then some { r with mode := .markup }
    else none
  else if ch = lessThan then some { r with mode := .markup }
  else if ch = ampersand then some { r with mode := .reference [] }
  else if ch = greaterThan ∧ 2 ≤ brackets then none
  else some (r.charData (if ch = rightBracket then brackets + 1 else 0) ch)

def step (r : Reader) (ch : CodePoint) : Option Reader :=
  match r.mode with
  | .content brackets => r.content brackets ch
  | .reference name =>
    if ch = semicolon then (entity name).map (r.charData 0)
    else some { r with mode := .reference (name ++ [ch]) }
  | .markup =>
    if ch = solidus then some { r with mode := .closing [] }
    else if isNameStart ch then some { r with mode := .opening [ch] }
    else none
  | .closing name =>
    if isNameChar ch then some { r with mode := .closing (name ++ [ch]) }
    else if ch = greaterThan then r.endTag name
    else none
  | .opening name =>
    if isNameChar ch then some { r with mode := .opening (name ++ [ch]) }
    else r.inTag ⟨name, []⟩ ch
  | .between tag =>
    if isNameStart ch then some { r with mode := .attribute tag [ch] } else r.inTag tag ch
  | .attribute tag name =>
    if isNameChar ch then some { r with mode := .attribute tag (name ++ [ch]) }
    else if ch = equalsSign then some { r with mode := .equals tag name }
    else none
  | .equals tag name =>
    if ch = quotationMark ∨ ch = chr 39 then some { r with mode := .value tag name ch [] } else none
  | .value tag name quote value =>
    if ch = quote then some { r with mode := .quoted ⟨tag.name, tag.attributes ++ [(name, value)]⟩ }
    else if ch = lessThan ∨ ch = ampersand then none
    else some { r with mode := .value tag name quote (value ++ [if isSpace ch then chr 32 else ch]) }
  | .quoted tag => r.inTag tag ch
  | .empty tag =>
    if ch = greaterThan then (r.startTag tag).bind fun r => r.endTag tag.name else none

def run (r : Reader) (s : Text) : Option Reader := s.foldlM step r

end Reader

/-- What a conforming parser reports of a document that is one element. -/
def parse (document : Text) : Option (List Event) :=
  if document.all isChar then
    match Reader.initial.run (normalizeLineEnds document) with
    | some ⟨.content _, [], events⟩ => if events = [] then none else some events
    | _ => none
  else none

/-- The character data directly in the elements of that path, innermost name first. -/
def charsAt (path : List Text) : List Text → List Event → Text
  | _, [] => []
  | opened, .start name _ :: events => charsAt path (name :: opened) events
  | opened, .char ch :: events =>
    if opened = path then ch :: charsAt path opened events else charsAt path opened events
  | opened, .close _ :: events => charsAt path opened.tail events

/-- `&`, `<` and `>` as references. -/
def escapeChar (ch : CodePoint) : Text :=
  if ch = ampersand then text "&amp;"
  else if ch = lessThan then text "&lt;"
  else if ch = greaterThan then text "&gt;"
  else [ch]

def escape (s : Text) : Text := s.flatMap escapeChar

/-! Line ends. -/

def OnOneLine (s : Text) : Prop := carriageReturn ∉ s ∧ lineFeed ∉ s

instance (s : Text) : Decidable (OnOneLine s) :=
  inferInstanceAs (Decidable (carriageReturn ∉ s ∧ lineFeed ∉ s))

theorem OnOneLine.append {s t : Text} (left : OnOneLine s) (right : OnOneLine t) :
    OnOneLine (s ++ t) :=
  ⟨List.not_mem_append left.1 right.1, List.not_mem_append left.2 right.2⟩

theorem normalizeFrom_append {s : Text} (line : OnOneLine s) (nonempty : s ≠ []) (returned : Bool)
    (t : Text) : normalizeFrom returned (s ++ t) = s ++ normalizeFrom false t := by
  induction s generalizing returned with
  | nil => exact absurd rfl nonempty
  | cons ch s ih =>
    obtain ⟨no_return, no_feed⟩ := line
    rw [List.mem_cons, not_or] at no_return no_feed
    have step : normalizeFrom returned (ch :: (s ++ t)) = ch :: normalizeFrom false (s ++ t) := by
      rw [normalizeFrom, if_neg (Ne.symm no_return.1),
        if_neg (fun both => no_feed.1 both.2.symm)]
    rw [List.cons_append, step, List.cons_append]
    cases s with
    | nil => rfl
    | cons next s => rw [ih ⟨no_return.2, no_feed.2⟩ (List.cons_ne_nil next s)]

theorem normalizeFrom_line {s : Text} (line : OnOneLine s) (returned : Bool) :
    normalizeFrom returned s = s := by
  cases s with
  | nil => rfl
  | cons ch s =>
    have whole := normalizeFrom_append line (List.cons_ne_nil ch s) returned []
    rwa [List.append_nil, normalizeFrom, List.append_nil] at whole

theorem not_mem_normalizeFrom (returned : Bool) (s : Text) :
    carriageReturn ∉ normalizeFrom returned s := by
  induction s generalizing returned with
  | nil => exact List.not_mem_nil
  | cons ch s ih =>
    rw [normalizeFrom]
    split_ifs with here after
    · rw [List.mem_cons, not_or]
      exact ⟨by decide, ih true⟩
    · exact ih false
    · rw [List.mem_cons, not_or]
      exact ⟨Ne.symm here, ih false⟩

theorem normalizeLineEnds_eq_self {s : Text} :
    normalizeLineEnds s = s ↔ carriageReturn ∉ s := by
  constructor
  · intro same
    rw [← same]
    exact not_mem_normalizeFrom false s
  · intro clean
    rw [normalizeLineEnds]
    induction s with
    | nil => rfl
    | cons ch s ih =>
      rw [List.mem_cons, not_or] at clean
      rw [normalizeFrom, if_neg (Ne.symm clean.1), if_neg (fun both => Bool.false_ne_true both.1),
        ih clean.2]

/-! Character data written with references reads as itself. -/

theorem escapeChar_of_ne {ch : CodePoint} (amp : ch ≠ ampersand) (lt : ch ≠ lessThan)
    (gt : ch ≠ greaterThan) : escapeChar ch = [ch] := by
  rw [escapeChar, if_neg amp, if_neg lt, if_neg gt]

theorem lessThan_not_mem_escape (s : Text) : lessThan ∉ escape s := by
  intro mem
  obtain ⟨ch, -, mem⟩ := List.mem_flatMap.mp mem
  rw [escapeChar] at mem
  split_ifs at mem with amp lt gt
  · exact absurd mem (by decide)
  · exact absurd mem (by decide)
  · exact absurd mem (by decide)
  · exact lt (List.mem_singleton.mp mem).symm

theorem escapeChar_cases (ch : CodePoint) : escapeChar ch = [ch] ∨
    OnOneLine (escapeChar ch) ∧ escapeChar ch ≠ [] ∧ ch ≠ carriageReturn ∧ ch ≠ lineFeed := by
  rw [escapeChar]
  split_ifs with amp lt gt
  · exact .inr (by rw [amp]; decide)
  · exact .inr (by rw [lt]; decide)
  · exact .inr (by rw [gt]; decide)
  · exact .inl rfl

theorem escape_eq_self {s : Text}
    (plain : ∀ ch ∈ s, ch ≠ ampersand ∧ ch ≠ lessThan ∧ ch ≠ greaterThan) : escape s = s := by
  rw [escape]
  refine (List.flatMap_congr fun ch mem => ?_).trans (List.flatMap_singleton' s)
  obtain ⟨amp, lt, gt⟩ := plain ch mem
  exact escapeChar_of_ne amp lt gt

theorem all_escape (s : Text) : (escape s).all isChar = s.all isChar := by
  induction s with
  | nil => rfl
  | cons ch s ih =>
    have one : (escapeChar ch).all isChar = isChar ch := by
      rw [escapeChar]
      split_ifs with amp lt gt
      · rw [amp]
        rfl
      · rw [lt]
        rfl
      · rw [gt]
        rfl
      · simp
    rw [escape] at ih ⊢
    rw [List.flatMap_cons, List.all_append, one, ih, List.all_cons]

/-- Line ends are handled in what is escaped as they are before. -/
theorem normalizeFrom_escape (returned : Bool) (s : Text) {t : Text} (line : OnOneLine t) :
    normalizeFrom returned (escape s ++ t) = escape (normalizeFrom returned s) ++ t := by
  induction s generalizing returned with
  | nil => exact normalizeFrom_line line returned
  | cons ch s ih =>
    have split : escape (ch :: s) ++ t = escapeChar ch ++ (escape s ++ t) := by
      simp [escape]
    rw [split]
    rcases escapeChar_cases ch with plain | ⟨oneLine, nonempty, no_return, no_feed⟩
    · have feed : escapeChar lineFeed = [lineFeed] := by decide
      rw [plain, List.singleton_append, normalizeFrom, normalizeFrom]
      split_ifs with here after
      · rw [ih, escape, escape, List.flatMap_cons, feed]
        rfl
      · exact ih false
      · rw [ih, escape, escape, List.flatMap_cons, plain]
        rfl
    · rw [normalizeFrom_append oneLine nonempty, ih, normalizeFrom, if_neg no_return,
        if_neg (fun both => no_feed both.2), escape, escape, List.flatMap_cons, List.append_assoc]

namespace Reader

theorem run_append (r : Reader) (s t : Text) : r.run (s ++ t) = (r.run s).bind (·.run t) :=
  List.foldlM_append

theorem run_escapeChar (name : Text) (opened : List Text) (brackets : Nat) (events : List Event)
    (ch : CodePoint) : ∃ more, (⟨.content brackets, name :: opened, events⟩ : Reader).run
      (escapeChar ch) = some ⟨.content more, name :: opened, events ++ [.char ch]⟩ := by
  rw [escapeChar]
  split_ifs with amp lt gt
  · rw [amp]
    exact ⟨0, rfl⟩
  · rw [lt]
    exact ⟨0, rfl⟩
  · rw [gt]
    exact ⟨0, rfl⟩
  · refine ⟨if ch = rightBracket then brackets + 1 else 0, ?_⟩
    simp only [run, List.foldlM_cons, List.foldlM_nil, step, content, List.cons_ne_nil, if_false, lt,
      amp, gt, false_and]
    rfl

theorem run_escape (name : Text) (opened : List Text) (brackets : Nat) (events : List Event)
    (s : Text) : ∃ more, (⟨.content brackets, name :: opened, events⟩ : Reader).run (escape s) =
      some ⟨.content more, name :: opened, events ++ s.map .char⟩ := by
  induction s generalizing brackets events with
  | nil => exact ⟨brackets, by simp [escape, run]⟩
  | cons ch s ih =>
    obtain ⟨between, first⟩ := run_escapeChar name opened brackets events ch
    obtain ⟨more, rest⟩ := ih between (events ++ [.char ch])
    refine ⟨more, ?_⟩
    rw [escape, List.flatMap_cons, run_append, first]
    rw [escape] at rest
    simpa using rest

/-- Between tags, in the content of an element or in a reference. -/
def InText (r : Reader) : Prop :=
  (∃ brackets, r.mode = .content brackets) ∨ ∃ name, r.mode = .reference name

theorem inText_step {r r' : Reader} (h : r.InText) {ch : CodePoint} (other : ch ≠ lessThan)
    (step : r.step ch = some r') : r'.InText := by
  rcases h with ⟨brackets, at_⟩ | ⟨name, at_⟩
  · simp only [Reader.step, at_, content, if_neg other] at step
    split_ifs at step with outside space start reference
    · exact Option.some.inj step ▸ .inl ⟨brackets, at_⟩
    · exact absurd start.1 other
    · exact Option.some.inj step ▸ .inr ⟨[], rfl⟩
    · exact Option.some.inj step ▸ .inl ⟨_, rfl⟩
    · exact Option.some.inj step ▸ .inl ⟨_, rfl⟩
  · simp only [Reader.step, at_] at step
    split_ifs at step
    · obtain ⟨meant, -, rfl⟩ := Option.map_eq_some_iff.mp step
      exact .inl ⟨0, rfl⟩
    · exact Option.some.inj step ▸ .inr ⟨_, rfl⟩

theorem run_value {tag : Tag} {name : Text} (soFar : Text) {s : Text} {opened : List Text}
    {events : List Event}
    (plain : ∀ ch ∈ s, ch ≠ quotationMark ∧ ch ≠ lessThan ∧ ch ≠ ampersand ∧ isSpace ch = false) :
    (⟨.value tag name quotationMark soFar, opened, events⟩ : Reader).run s =
      some ⟨.value tag name quotationMark (soFar ++ s), opened, events⟩ := by
  induction s generalizing soFar with
  | nil => simp [run]
  | cons ch s ih =>
    obtain ⟨quote, lt, amp, space⟩ := plain ch List.mem_cons_self
    have first : step ⟨.value tag name quotationMark soFar, opened, events⟩ ch =
        some ⟨.value tag name quotationMark (soFar ++ [ch]), opened, events⟩ := by
      simp [step, quote, lt, amp, space]
    have rest := ih (soFar ++ [ch]) fun other mem => plain other (List.mem_cons_of_mem _ mem)
    rw [run] at rest ⊢
    rw [List.foldlM_cons, first]
    simpa using rest

end Reader

/-- Between tags that are each on one line, what is escaped is read as the text it was
escaped from, with its line ends normalized. -/
theorem parse_escape {front back s : Text} {brackets : Nat} {name : Text} {opened : List Text}
    {events closing : List Event} (document : (front ++ (escape s ++ back)).all isChar = true)
    (onOneLine : OnOneLine front ∧ OnOneLine back) (nonempty : front ≠ [] ∧ events ≠ [])
    (opens : Reader.initial.run front = some ⟨.content brackets, name :: opened, events⟩)
    (closes : ∀ brackets events, (⟨.content brackets, name :: opened, events⟩ : Reader).run back =
      some ⟨.content 0, [], events ++ closing⟩) :
    parse (front ++ (escape s ++ back)) =
      some (events ++ ((normalizeLineEnds s).map .char ++ closing)) := by
  obtain ⟨more, inside⟩ := Reader.run_escape name opened brackets events (normalizeLineEnds s)
  have lines : normalizeLineEnds (front ++ (escape s ++ back)) =
      front ++ (escape (normalizeLineEnds s) ++ back) := by
    rw [normalizeLineEnds, normalizeFrom_append onOneLine.1 nonempty.1,
      normalizeFrom_escape _ _ onOneLine.2]
    rfl
  have read : Reader.initial.run (front ++ (escape (normalizeLineEnds s) ++ back)) =
      some ⟨.content 0, [], events ++ (normalizeLineEnds s).map .char ++ closing⟩ := by
    rw [Reader.run_append, opens, Option.bind_some, Reader.run_append, inside, Option.bind_some,
      closes]
  rw [parse, if_pos document, lines, read]
  simp [nonempty.2]

theorem charsAt_map_char (path : List Text) (s : Text) (events : List Event) :
    charsAt path path (s.map .char ++ events) = s ++ charsAt path path events := by
  induction s with
  | nil => rfl
  | cons ch s ih => rw [List.map_cons, List.cons_append, charsAt, if_pos rfl, ih, List.cons_append]

end Partyline.Library.Xml
