import Partyline.Library.Xml

/-! Whole XML documents, on top of the reader for one element: a declaration before the
element, and references in the values of its attributes. The tags that a program writes
with `quoteattr` are read as they are meant. -/
namespace Partyline.Library.Xml

open Library

def questionMark : CodePoint := chr 63
def numberSign : CodePoint := chr 35

/-- `&#n;` in decimal. -/
def charReference (digits : Text) : Option CodePoint :=
  let number := digits.foldl (fun value ch => 10 * value + (ch.val - 48)) 0
  if digits ≠ [] ∧ (digits.all fun ch => chr 48 ≤ ch && ch ≤ chr 57) = true ∧
      number < 0x110000 ∧ isChar (chr number) = true then some (chr number)
  else none

def valueReference : Text → Option CodePoint
  | [] => none
  | ch :: name => if ch = numberSign then charReference name else entity (ch :: name)

/-- `reference`: what has been read of a reference in the value of an attribute. -/
structure DocumentReader where
  reader : Reader
  reference : Option Text
deriving DecidableEq

namespace DocumentReader

def initial : DocumentReader := ⟨.initial, none⟩

def value (r : DocumentReader) (tag : Tag) (name : Text) (quote : CodePoint) (value : Text)
    (ch : CodePoint) : Option DocumentReader :=
  match r.reference with
  | none =>
    if ch = ampersand then some { r with reference := some [] }
    else (r.reader.step ch).map (⟨·, none⟩)
  | some reference =>
    if ch = semicolon then (valueReference reference).map fun meant =>
      ⟨{ r.reader with mode := .value tag name quote (value ++ [meant]) }, none⟩
    else some { r with reference := some (reference ++ [ch]) }

def step (r : DocumentReader) (ch : CodePoint) : Option DocumentReader :=
  match r.reader.mode with
  | .value tag name quote value => r.value tag name quote value ch
  | _ => (r.reader.step ch).map (⟨·, none⟩)

def run (r : DocumentReader) (s : Text) : Option DocumentReader := s.foldlM step r

end DocumentReader

def afterDeclaration : Text → Text
  | [] => []
  | ch :: s =>
    if ch = questionMark ∧ s.head? = some greaterThan then s.tail else afterDeclaration s

def skipDeclaration (s : Text) : Text :=
  if (text "<?xml ").isPrefixOf s then afterDeclaration s else s

/-- What a conforming parser reports of a document. -/
def parseDocument (document : Text) : Option (List Event) :=
  if document.all isChar then
    match DocumentReader.initial.run (skipDeclaration (normalizeLineEnds document)) with
    | some ⟨⟨.content _, [], events⟩, none⟩ => if events = [] then none else some events
    | _ => none
  else none

/-! What a program writes. -/

def quoteattrChar (ch : CodePoint) : Text :=
  if ch = lineFeed then text "&#10;"
  else if ch = carriageReturn then text "&#13;"
  else if ch = tab then text "&#9;"
  else escapeChar ch

def doubleQuoted (s : Text) : Text :=
  s.flatMap fun ch => if ch = quotationMark then text "&quot;" else [ch]

def apostrophe : CodePoint := chr 39

def quoteattr (s : Text) : Text :=
  let data := s.flatMap quoteattrChar
  if data.contains quotationMark then
    if data.contains apostrophe then quotationMark :: (doubleQuoted data ++ [quotationMark])
    else apostrophe :: (data ++ [apostrophe])
  else quotationMark :: (data ++ [quotationMark])

def attributeText (attr : Text × Text) : Text :=
  chr 32 :: (attr.1 ++ equalsSign :: quoteattr attr.2)

def tagText (tag : Tag) : Text :=
  lessThan :: (tag.name ++ tag.attributes.flatMap attributeText)

def startTag (tag : Tag) : Text := tagText tag ++ [greaterThan]

def emptyTag (tag : Tag) : Text := tagText tag ++ [solidus, greaterThan]

def closingTag (name : Text) : Text := lessThan :: solidus :: (name ++ [greaterThan])

def isName : Text → Bool
  | [] => false
  | ch :: s => isNameStart ch && s.all isNameChar

structure Tag.WellFormed (tag : Tag) : Prop where
  name : isName tag.name = true
  names : ∀ attr ∈ tag.attributes, isName attr.1 = true
  values : ∀ attr ∈ tag.attributes, attr.2.all isChar = true
  distinct : (tag.attributes.map Prod.fst).Nodup

/-! Line ends. -/

theorem normalizeFrom_of_head {s : Text} (head : s.head? ≠ some lineFeed) (returned : Bool) :
    normalizeFrom returned s = normalizeFrom false s := by
  cases s with
  | nil => rfl
  | cons ch s =>
    have other : ch ≠ lineFeed := fun same => head (congrArg some same)
    simp [normalizeFrom, other]

theorem normalizeFrom_append_of_head {t : Text} (head : t.head? ≠ some lineFeed)
    (returned : Bool) (s : Text) :
    normalizeFrom returned (s ++ t) = normalizeFrom returned s ++ normalizeLineEnds t := by
  induction s generalizing returned with
  | nil => exact normalizeFrom_of_head head returned
  | cons ch s ih =>
    rw [List.cons_append, normalizeFrom, normalizeFrom]
    split_ifs with here after
    · rw [ih, List.cons_append]
    · exact ih false
    · rw [ih, List.cons_append]

/-! Names and values. -/

theorem isChar_of_isNameChar {ch : CodePoint} (named : isNameChar ch = true) :
    isChar ch = true := by
  have low : chr 0x20 ≤ ch ∧ ch ≤ chr 0xd7ff := by
    simp only [isNameChar, isNameStart, Bool.or_eq_true, Bool.and_eq_true, decide_eq_true_eq,
      Fin.le_def, Fin.ext_iff] at named
    rw [val_chr (by decide), val_chr (by decide), val_chr (by decide), val_chr (by decide),
      val_chr (by decide), val_chr (by decide), val_chr (by decide), val_chr (by decide),
      val_chr (by decide), val_chr (by decide)] at named
    rw [Fin.le_def, Fin.le_def, val_chr (by decide), val_chr (by decide)]
    omega
  simp [isChar, low]

theorem isNameChar_of_mem {name : Text} (named : isName name = true) {ch : CodePoint}
    (mem : ch ∈ name) : isNameChar ch = true := by
  cases name with
  | nil => exact absurd mem List.not_mem_nil
  | cons first rest =>
    rw [isName, Bool.and_eq_true] at named
    cases mem with
    | head => rw [isNameChar, named.1, Bool.true_or, Bool.true_or, Bool.true_or]
    | tail _ mem => exact List.all_eq_true.mp named.2 ch mem

theorem ne_of_isNameChar {ch other : CodePoint} (named : isNameChar ch = true)
    (apart : isNameChar other = false) : ch ≠ other := by
  rintro rfl
  rw [named] at apart
  exact Bool.noConfusion apart

theorem onOneLine_of_all {s : Text} (clean : ∀ ch ∈ s, ch ≠ carriageReturn ∧ ch ≠ lineFeed) :
    OnOneLine s :=
  ⟨fun mem => (clean _ mem).1 rfl, fun mem => (clean _ mem).2 rfl⟩

theorem name_onOneLine {name : Text} (named : isName name = true) : OnOneLine name :=
  onOneLine_of_all fun _ mem =>
    ⟨ne_of_isNameChar (isNameChar_of_mem named mem) (by decide),
      ne_of_isNameChar (isNameChar_of_mem named mem) (by decide)⟩

theorem all_name {name : Text} (named : isName name = true) : name.all isChar = true :=
  List.all_eq_true.mpr fun _ mem => isChar_of_isNameChar (isNameChar_of_mem named mem)

theorem quoteattrChar_cases (ch : CodePoint) :
    quoteattrChar ch = [ch] ∧ ch ≠ lineFeed ∧ ch ≠ carriageReturn ∧ ch ≠ tab ∧ ch ≠ ampersand ∧
      ch ≠ lessThan ∧ ch ≠ greaterThan ∨
    (ch = lineFeed ∨ ch = carriageReturn ∨ ch = tab ∨ ch = ampersand ∨ ch = lessThan ∨
      ch = greaterThan) := by
  by_cases feed : ch = lineFeed
  · exact .inr (.inl feed)
  by_cases back : ch = carriageReturn
  · exact .inr (.inr (.inl back))
  by_cases tabbed : ch = tab
  · exact .inr (.inr (.inr (.inl tabbed)))
  by_cases amp : ch = ampersand
  · exact .inr (.inr (.inr (.inr (.inl amp))))
  by_cases lt : ch = lessThan
  · exact .inr (.inr (.inr (.inr (.inr (.inl lt)))))
  by_cases gt : ch = greaterThan
  · exact .inr (.inr (.inr (.inr (.inr (.inr gt)))))
  refine .inl ⟨?_, feed, back, tabbed, amp, lt, gt⟩
  rw [quoteattrChar, if_neg feed, if_neg back, if_neg tabbed, escapeChar_of_ne amp lt gt]

namespace DocumentReader

theorem run_append (r : DocumentReader) (s t : Text) :
    r.run (s ++ t) = (r.run s).bind (·.run t) :=
  List.foldlM_append

theorem run_cons {r r' : DocumentReader} {ch : CodePoint} (step : r.step ch = some r')
    (s : Text) : r.run (ch :: s) = r'.run s := by
  rw [run, List.foldlM_cons, step]
  rfl

def inValue (tag : Tag) (name : Text) (quote : CodePoint) (value : Text) (opened : List Text)
    (events : List Event) : DocumentReader :=
  ⟨⟨.value tag name quote value, opened, events⟩, none⟩

def inside (brackets : Nat) (opened : List Text) (events : List Event) : DocumentReader :=
  ⟨⟨.content brackets, opened, events⟩, none⟩

/-- A way of writing the characters of a value that the reader undoes. -/
def Writes (quote : CodePoint) (encode : CodePoint → Text) (ch : CodePoint) : Prop :=
  ∀ tag name value opened events, (inValue tag name quote value opened events).run (encode ch) =
    some (inValue tag name quote (value ++ [ch]) opened events)

theorem run_written {quote : CodePoint} {encode : CodePoint → Text} {s : Text}
    (written : ∀ ch ∈ s, Writes quote encode ch) (tag : Tag) (name value : Text)
    (opened : List Text) (events : List Event) :
    (inValue tag name quote value opened events).run (s.flatMap encode) =
      some (inValue tag name quote (value ++ s) opened events) := by
  induction s generalizing value with
  | nil => rw [List.append_nil]; rfl
  | cons ch s ih =>
    have rest := ih (fun other mem => written other (List.mem_cons_of_mem ch mem)) (value ++ [ch])
    rw [List.flatMap_cons, run_append, written ch List.mem_cons_self, Option.bind_some, rest,
      List.append_assoc, List.singleton_append]

theorem writes_plain {quote ch : CodePoint} (other : ch ≠ quote) (lt : ch ≠ lessThan)
    (amp : ch ≠ ampersand) (space : isSpace ch = false ∨ ch = chr 32) :
    Writes quote (fun ch => [ch]) ch := by
  intro tag name value opened events
  have kept : (if isSpace ch then chr 32 else ch) = ch := by
    cases space with
    | inl no => rw [no, if_neg Bool.false_ne_true]
    | inr same => rw [same, ite_self]
  have step : (inValue tag name quote value opened events).step ch =
      some (inValue tag name quote (value ++ [ch]) opened events) := by
    simp only [inValue, DocumentReader.step, DocumentReader.value, Reader.step, if_neg other,
      if_neg amp, kept]
    rw [if_neg (not_or.mpr ⟨lt, amp⟩), Option.map_some]
  exact run_cons step []

theorem writes_quoteattrChar {quote : CodePoint} (mark : quote = quotationMark ∨ quote = apostrophe)
    {ch : CodePoint} (other : ch ≠ quote) : Writes quote quoteattrChar ch := by
  rcases quoteattrChar_cases ch with ⟨one, feed, back, tabbed, amp, lt, gt⟩ | special
  · have space : isSpace ch = false ∨ ch = chr 32 := by
      by_cases blank : ch = chr 32
      · exact .inr blank
      · exact .inl (by simp [isSpace, blank, feed, back, tabbed])
    intro tag name value opened events
    rw [one]
    exact writes_plain other lt amp space tag name value opened events
  · intro tag name value opened events
    rcases mark with rfl | rfl <;>
      rcases special with rfl | rfl | rfl | rfl | rfl | rfl <;> rfl

theorem writes_doubleQuoted {ch : CodePoint} :
    Writes quotationMark (fun ch => doubleQuoted (quoteattrChar ch)) ch := by
  by_cases quote : ch = quotationMark
  · subst quote
    intro tag name value opened events
    rfl
  · intro tag name value opened events
    have same : doubleQuoted (quoteattrChar ch) = quoteattrChar ch := by
      rcases quoteattrChar_cases ch with ⟨one, -⟩ | special
      · rw [one, doubleQuoted, List.flatMap_singleton, if_neg quote]
      · rcases special with rfl | rfl | rfl | rfl | rfl | rfl <;> rfl
    change run _ (doubleQuoted (quoteattrChar ch)) = _
    rw [same]
    exact writes_quoteattrChar (.inl rfl) quote tag name value opened events

end DocumentReader

theorem quotationMark_mem_iff {mark : CodePoint}
    (either : mark = quotationMark ∨ mark = apostrophe) (s : Text) :
    mark ∈ s.flatMap quoteattrChar ↔ mark ∈ s := by
  have one (ch : CodePoint) : mark ∈ quoteattrChar ch ↔ mark = ch := by
    rcases quoteattrChar_cases ch with ⟨same, -⟩ | special
    · rw [same, List.mem_singleton]
    · rcases either with rfl | rfl <;>
        rcases special with rfl | rfl | rfl | rfl | rfl | rfl <;> decide
  simp only [List.mem_flatMap, one, exists_eq_right']

namespace DocumentReader

theorem run_quoteattr (tag : Tag) (name s : Text) (opened : List Text) (events : List Event) :
    (⟨⟨.equals tag name, opened, events⟩, none⟩ : DocumentReader).run (quoteattr s) =
      some ⟨⟨.quoted ⟨tag.name, tag.attributes ++ [(name, s)]⟩, opened, events⟩, none⟩ := by
  have opens (quote : CodePoint) (mark : quote = quotationMark ∨ quote = apostrophe) (t : Text) :
      (⟨⟨.equals tag name, opened, events⟩, none⟩ : DocumentReader).run (quote :: t) =
        (inValue tag name quote [] opened events).run t := by
    apply run_cons
    rcases mark with rfl | rfl <;> rfl
  have closes (quote : CodePoint) (mark : quote = quotationMark ∨ quote = apostrophe)
      (value : Text) : (inValue tag name quote value opened events).run [quote] =
      some ⟨⟨.quoted ⟨tag.name, tag.attributes ++ [(name, value)]⟩, opened, events⟩, none⟩ := by
    rcases mark with rfl | rfl <;> rfl
  rw [quoteattr]
  simp only [List.contains_iff_mem, quotationMark_mem_iff (.inl rfl),
    quotationMark_mem_iff (.inr rfl)]
  split_ifs with marks both
  · have whole : doubleQuoted (s.flatMap quoteattrChar) =
        s.flatMap fun ch => doubleQuoted (quoteattrChar ch) := List.flatMap_assoc
    rw [opens _ (.inl rfl), run_append, whole,
      run_written (fun ch _ => writes_doubleQuoted), Option.bind_some, closes _ (.inl rfl),
      List.nil_append]
  · rw [opens _ (.inr rfl), run_append, run_written fun ch mem =>
      writes_quoteattrChar (.inr rfl) fun same => both (same ▸ mem), Option.bind_some,
      closes _ (.inr rfl), List.nil_append]
  · rw [opens _ (.inl rfl), run_append, run_written fun ch mem =>
      writes_quoteattrChar (.inl rfl) fun same => marks (same ▸ mem), Option.bind_some,
      closes _ (.inl rfl), List.nil_append]

end DocumentReader

def quotingChars : Text := text "\"'&#;0139ampltgquo"

theorem mem_quoteattrChar {ch other : CodePoint} (mem : other ∈ quoteattrChar ch) :
    other = ch ∧ ch ≠ carriageReturn ∧ ch ≠ lineFeed ∨ other ∈ quotingChars := by
  rcases quoteattrChar_cases ch with ⟨same, feed, back, -⟩ | special
  · rw [same, List.mem_singleton] at mem
    exact .inl ⟨mem, back, feed⟩
  · right
    have added : ((quoteattrChar ch).all fun x => decide (x ∈ quotingChars)) = true := by
      rcases special with rfl | rfl | rfl | rfl | rfl | rfl <;> decide
    exact of_decide_eq_true (List.all_eq_true.mp added other mem)

theorem mem_quoteattr {s : Text} {other : CodePoint} (mem : other ∈ quoteattr s) :
    (other ∈ s ∧ other ≠ carriageReturn ∧ other ≠ lineFeed) ∨ other ∈ quotingChars := by
  have marks : quotationMark ∈ quotingChars ∧ apostrophe ∈ quotingChars := by decide
  have data (mem : other ∈ s.flatMap quoteattrChar) :
      (other ∈ s ∧ other ≠ carriageReturn ∧ other ≠ lineFeed) ∨ other ∈ quotingChars := by
    obtain ⟨ch, here, written⟩ := List.mem_flatMap.mp mem
    rcases mem_quoteattrChar written with ⟨rfl, clean⟩ | added
    · exact .inl ⟨here, clean⟩
    · exact .inr added
  rw [quoteattr] at mem
  split_ifs at mem with double both
  · rw [List.mem_cons, List.mem_append, List.mem_singleton] at mem
    rcases mem with rfl | inner | rfl
    · exact .inr marks.1
    · obtain ⟨ch, here, written⟩ := List.mem_flatMap.mp inner
      split_ifs at written
      · have quot : ((text "&quot;").all fun x => decide (x ∈ quotingChars)) = true := by decide
        exact .inr (of_decide_eq_true (List.all_eq_true.mp quot other written))
      · rw [List.mem_singleton.mp written] at data ⊢
        exact data here
    · exact .inr marks.1
  · rw [List.mem_cons, List.mem_append, List.mem_singleton] at mem
    rcases mem with rfl | inner | rfl
    · exact .inr marks.2
    · exact data inner
    · exact .inr marks.2
  · rw [List.mem_cons, List.mem_append, List.mem_singleton] at mem
    rcases mem with rfl | inner | rfl
    · exact .inr marks.1
    · exact data inner
    · exact .inr marks.1

theorem quotingChars_clean {ch : CodePoint} (mem : ch ∈ quotingChars) :
    isChar ch = true ∧ ch ≠ carriageReturn ∧ ch ≠ lineFeed := by
  have all : (quotingChars.all fun ch =>
      decide (isChar ch = true ∧ ch ≠ carriageReturn ∧ ch ≠ lineFeed)) = true := by decide
  exact of_decide_eq_true (List.all_eq_true.mp all ch mem)

def isPlain (ch : CodePoint) : Bool :=
  ch ≠ lineFeed && ch ≠ carriageReturn && ch ≠ tab && ch ≠ ampersand && ch ≠ lessThan &&
    ch ≠ greaterThan && ch ≠ quotationMark

theorem isPlain_of_isNameChar {ch : CodePoint} (named : isNameChar ch = true) :
    isPlain ch = true := by
  have ne (other : CodePoint) (apart : isNameChar other = false) : ch ≠ other :=
    ne_of_isNameChar named apart
  simp [isPlain, ne lineFeed (by decide), ne carriageReturn (by decide), ne tab (by decide),
    ne ampersand (by decide), ne lessThan (by decide), ne greaterThan (by decide),
    ne quotationMark (by decide)]

theorem quoteattr_of_plain {s : Text} (plain : s.all isPlain = true) :
    quoteattr s = quotationMark :: (s ++ [quotationMark]) := by
  have same : s.flatMap quoteattrChar = s := by
    refine (List.flatMap_congr fun ch mem => ?_).trans (List.flatMap_singleton' s)
    have char := List.all_eq_true.mp plain ch mem
    rcases quoteattrChar_cases ch with ⟨one, -⟩ | special
    · exact one
    · rcases special with rfl | rfl | rfl | rfl | rfl | rfl <;> exact absurd char (by decide)
  have other : quotationMark ∉ s := by
    intro mem
    exact absurd (List.all_eq_true.mp plain _ mem) (by decide)
  rw [quoteattr, same, if_neg (mt List.contains_iff_mem.mp other)]

/-! Tags. -/

section Tags

variable {tag : Tag}

theorem mem_tagText {ch : CodePoint} (mem : ch ∈ tagText tag) :
    ch = lessThan ∨ ch = chr 32 ∨ ch = equalsSign ∨ ch ∈ tag.name ∨
      (∃ attr ∈ tag.attributes, ch ∈ attr.1) ∨ ∃ attr ∈ tag.attributes, ch ∈ quoteattr attr.2 := by
  simp only [tagText, attributeText, List.mem_cons, List.mem_append, List.mem_flatMap] at mem
  rcases mem with lt | name | ⟨attr, here, blank | inName | sign | value⟩
  · exact .inl lt
  · exact .inr (.inr (.inr (.inl name)))
  · exact .inr (.inl blank)
  · exact .inr (.inr (.inr (.inr (.inl ⟨attr, here, inName⟩))))
  · exact .inr (.inr (.inl sign))
  · exact .inr (.inr (.inr (.inr (.inr ⟨attr, here, value⟩))))

theorem tagText_clean (h : tag.WellFormed) {ch : CodePoint} (mem : ch ∈ tagText tag) :
    isChar ch = true ∧ ch ≠ carriageReturn ∧ ch ≠ lineFeed := by
  have named {name : Text} (legal : isName name = true) (mem : ch ∈ name) :
      isChar ch = true ∧ ch ≠ carriageReturn ∧ ch ≠ lineFeed := by
    have char := isNameChar_of_mem legal mem
    exact ⟨isChar_of_isNameChar char, ne_of_isNameChar char (by decide),
      ne_of_isNameChar char (by decide)⟩
  rcases mem_tagText mem with rfl | rfl | rfl | name | ⟨attr, here, name⟩ | ⟨attr, here, value⟩
  · decide
  · decide
  · decide
  · exact named h.name name
  · exact named (h.names attr here) name
  · rcases mem_quoteattr value with ⟨char, clean⟩ | added
    · exact ⟨List.all_eq_true.mp (h.values attr here) ch char, clean⟩
    · exact quotingChars_clean added

theorem tagText_onOneLine (h : tag.WellFormed) : OnOneLine (tagText tag) :=
  onOneLine_of_all fun _ mem => (tagText_clean h mem).2

theorem all_tagText (h : tag.WellFormed) : (tagText tag).all isChar = true :=
  List.all_eq_true.mpr fun _ mem => (tagText_clean h mem).1

end Tags

namespace DocumentReader

variable {opened : List Text} {events : List Event}

def Collects (mode : Text → Mode) : Prop :=
  ∀ soFar ch opened events, isNameChar ch = true →
    Reader.step ⟨mode soFar, opened, events⟩ ch = some ⟨mode (soFar ++ [ch]), opened, events⟩

theorem collects_opening : Collects .opening := by
  intro soFar ch opened events named
  simp [Reader.step, named]

theorem collects_attribute (tag : Tag) : Collects (.attribute tag) := by
  intro soFar ch opened events named
  simp [Reader.step, named]

theorem collects_closing : Collects .closing := by
  intro soFar ch opened events named
  simp [Reader.step, named]

theorem step_of_not_value {mode : Mode} (other : ∀ tag name quote value,
    mode ≠ .value tag name quote value) (ch : CodePoint) :
    step ⟨⟨mode, opened, events⟩, none⟩ ch =
      (Reader.step ⟨mode, opened, events⟩ ch).map (⟨·, none⟩) := by
  cases mode with
  | value tag name quote value => exact absurd rfl (other tag name quote value)
  | _ => rfl

theorem run_name {mode : Text → Mode} (collects : Collects mode)
    (other : ∀ soFar tag name quote value, mode soFar ≠ .value tag name quote value)
    (soFar : Text) {s : Text} (named : s.all isNameChar = true) :
    (⟨⟨mode soFar, opened, events⟩, none⟩ : DocumentReader).run s =
      some ⟨⟨mode (soFar ++ s), opened, events⟩, none⟩ := by
  induction s generalizing soFar with
  | nil => rw [List.append_nil]; rfl
  | cons ch s ih =>
    rw [List.all_cons, Bool.and_eq_true] at named
    have first : step ⟨⟨mode soFar, opened, events⟩, none⟩ ch =
        some ⟨⟨mode (soFar ++ [ch]), opened, events⟩, none⟩ := by
      rw [step_of_not_value (other soFar), collects soFar ch opened events named.1]
      rfl
    rw [run_cons first, ih _ named.2, List.append_assoc, List.singleton_append]

inductive Behind (tag : Tag) (opened : List Text) (events : List Event) : DocumentReader → Prop where
  | name : tag.attributes = [] →
    Behind tag opened events ⟨⟨.opening tag.name, opened, events⟩, none⟩
  | value : Behind tag opened events ⟨⟨.quoted tag, opened, events⟩, none⟩

theorem Behind.step {tag : Tag} {r : DocumentReader} (h : Behind tag opened events r)
    {ch : CodePoint} (ends : isNameChar ch = false) : r.step ch =
      (Reader.inTag ⟨.quoted tag, opened, events⟩ tag ch).map (⟨·, none⟩) := by
  cases h with
  | name none =>
    obtain ⟨name, attributes⟩ := tag
    obtain rfl : attributes = [] := none
    simp only [DocumentReader.step, Reader.step, ends, Bool.false_eq_true, if_false]
    rfl
  | value => rfl

theorem Behind.attributeText {tag : Tag} {r : DocumentReader} (h : Behind tag opened events r)
    {attr : Text × Text} (named : isName attr.1 = true) : ∃ next,
    Behind ⟨tag.name, tag.attributes ++ [attr]⟩ opened events next ∧
      r.run (attributeText attr) = some next := by
  refine ⟨_, .value, ?_⟩
  obtain ⟨name, value⟩ := attr
  cases name with
  | nil => exact Bool.noConfusion named
  | cons ch name =>
    rw [isName, Bool.and_eq_true] at named
    have opens : r.step (chr 32) = some ⟨⟨.between tag, opened, events⟩, none⟩ := by
      rw [h.step (by decide)]
      rfl
    have first : DocumentReader.step ⟨⟨.between tag, opened, events⟩, none⟩ ch =
        some ⟨⟨.attribute tag [ch], opened, events⟩, none⟩ := by
      simp [DocumentReader.step, Reader.step, named.1]
    have sign : DocumentReader.step ⟨⟨.attribute tag (ch :: name), opened, events⟩, none⟩
        equalsSign = some ⟨⟨.equals tag (ch :: name), opened, events⟩, none⟩ := rfl
    rw [Xml.attributeText, run_cons opens, List.cons_append, run_cons first, run_append,
      run_name (collects_attribute tag) (by simp) [ch] named.2, Option.bind_some, List.singleton_append, run_cons sign,
      run_quoteattr]

theorem Behind.attributes {tag : Tag} {r : DocumentReader} (h : Behind tag opened events r)
    {attributes : List (Text × Text)} (named : ∀ attr ∈ attributes, isName attr.1 = true) :
    ∃ next, Behind ⟨tag.name, tag.attributes ++ attributes⟩ opened events next ∧
      r.run (attributes.flatMap Xml.attributeText) = some next := by
  induction attributes generalizing tag r with
  | nil => exact ⟨r, by rwa [List.append_nil], rfl⟩
  | cons attr attributes ih =>
    obtain ⟨between, behind, first⟩ := h.attributeText (named attr List.mem_cons_self)
    obtain ⟨next, last, rest⟩ := ih behind fun other mem =>
      named other (List.mem_cons_of_mem attr mem)
    refine ⟨next, by simpa using last, ?_⟩
    rw [List.flatMap_cons, run_append, first, Option.bind_some, rest]

theorem run_tagText {tag : Tag} (h : tag.WellFormed) (brackets : Nat)
    (there : opened ≠ [] ∨ events = []) : ∃ r, Behind tag opened events r ∧
      (inside brackets opened events).run (tagText tag) = some r := by
  obtain ⟨name, attributes⟩ := tag
  have legal := h.name
  cases name with
  | nil => exact Bool.noConfusion legal
  | cons ch name =>
    rw [isName, Bool.and_eq_true] at legal
    have opens : (inside brackets opened events).step lessThan =
        some ⟨⟨.markup, opened, events⟩, none⟩ := by
      cases opened with
      | nil =>
        obtain rfl := there.resolve_left fun nonempty => nonempty rfl
        rfl
      | cons outer opened => rfl
    have first : DocumentReader.step ⟨⟨.markup, opened, events⟩, none⟩ ch =
        some ⟨⟨.opening [ch], opened, events⟩, none⟩ := by
      have other : ch ≠ solidus := by
        rintro rfl
        exact absurd legal.1 (by decide)
      simp [DocumentReader.step, Reader.step, other, legal.1]
    obtain ⟨r, behind, rest⟩ := Behind.attributes
      (.name rfl : Behind ⟨ch :: name, []⟩ opened events _) h.names
    refine ⟨r, behind, ?_⟩
    rw [tagText, run_cons opens, List.cons_append, run_cons first, run_append,
      run_name collects_opening (by simp) [ch] legal.2, Option.bind_some, List.singleton_append, rest]

theorem run_startTag {tag : Tag} (h : tag.WellFormed) (brackets : Nat)
    (there : opened ≠ [] ∨ events = []) :
    (inside brackets opened events).run (startTag tag) =
      some (inside 0 (tag.name :: opened) (events ++ [.start tag.name tag.attributes])) := by
  obtain ⟨r, behind, front⟩ := run_tagText h brackets there
  have closes : r.step greaterThan =
      some (inside 0 (tag.name :: opened) (events ++ [.start tag.name tag.attributes])) := by
    have starts : Reader.inTag ⟨.quoted tag, opened, events⟩ tag greaterThan =
        Reader.startTag ⟨.quoted tag, opened, events⟩ tag := rfl
    rw [behind.step (by decide), starts, Reader.startTag, if_pos h.distinct]
    rfl
  rw [startTag, run_append, front, Option.bind_some, run_cons closes]
  rfl

theorem endTag_cons (mode : Mode) (name : Text) (opened : List Text) (events : List Event) :
    Reader.endTag ⟨mode, name :: opened, events⟩ name =
      some ⟨.content 0, opened, events ++ [.close name]⟩ :=
  if_pos rfl

theorem run_emptyTag {tag : Tag} (h : tag.WellFormed) (brackets : Nat)
    (there : opened ≠ [] ∨ events = []) :
    (inside brackets opened events).run (emptyTag tag) =
      some (inside 0 opened (events ++ [.start tag.name tag.attributes, .close tag.name])) := by
  obtain ⟨r, behind, front⟩ := run_tagText h brackets there
  have slash : r.step solidus = some ⟨⟨.empty tag, opened, events⟩, none⟩ := by
    rw [behind.step (by decide)]
    rfl
  have closes : DocumentReader.step ⟨⟨.empty tag, opened, events⟩, none⟩ greaterThan =
      some (inside 0 opened (events ++ [.start tag.name tag.attributes, .close tag.name])) := by
    have ends : DocumentReader.step ⟨⟨.empty tag, opened, events⟩, none⟩ greaterThan =
        ((Reader.startTag ⟨.empty tag, opened, events⟩ tag).bind fun r => r.endTag tag.name).map
          (⟨·, none⟩) := rfl
    rw [ends, Reader.startTag, if_pos h.distinct, Option.bind_some, endTag_cons, List.append_assoc]
    rfl
  rw [emptyTag, run_append, front, Option.bind_some, run_cons slash, run_cons closes]
  rfl

theorem run_closingTag {name : Text} (named : isName name = true) (brackets : Nat) :
    (inside brackets (name :: opened) events).run (closingTag name) =
      some (inside 0 opened (events ++ [.close name])) := by
  have chars : name.all isNameChar = true :=
    List.all_eq_true.mpr fun _ mem => isNameChar_of_mem named mem
  have opens : (inside brackets (name :: opened) events).step lessThan =
      some ⟨⟨.markup, name :: opened, events⟩, none⟩ := rfl
  have slash : DocumentReader.step ⟨⟨.markup, name :: opened, events⟩, none⟩ solidus =
      some ⟨⟨.closing [], name :: opened, events⟩, none⟩ := rfl
  have closes : DocumentReader.step ⟨⟨.closing name, name :: opened, events⟩, none⟩ greaterThan =
      some (inside 0 opened (events ++ [.close name])) := by
    have ends : DocumentReader.step ⟨⟨.closing name, name :: opened, events⟩, none⟩ greaterThan =
        (Reader.endTag ⟨.closing name, name :: opened, events⟩ name).map (⟨·, none⟩) := rfl
    rw [ends, endTag_cons]
    rfl
  rw [closingTag, run_cons opens, run_cons slash, run_append, run_name collects_closing (by simp) [] chars,
    Option.bind_some, List.nil_append, run_cons closes]
  rfl

/-- In character data the two readers are one. -/
theorem run_inText {r : Reader} (h : r.InText) {s : Text} (plain : lessThan ∉ s) :
    (⟨r, none⟩ : DocumentReader).run s = (r.run s).map (⟨·, none⟩) := by
  induction s generalizing r with
  | nil => rfl
  | cons ch s ih =>
    rw [List.mem_cons, not_or] at plain
    have first : (⟨r, none⟩ : DocumentReader).step ch = (r.step ch).map (⟨·, none⟩) := by
      rw [DocumentReader.step]
      split
      · next mode =>
        rcases h with ⟨brackets, at_⟩ | ⟨name, at_⟩ <;> rw [at_] at mode <;> cases mode
      · rfl
    rw [run, Reader.run, List.foldlM_cons, List.foldlM_cons, first]
    cases next : r.step ch with
    | none => rfl
    | some r' => exact ih (Reader.inText_step h (Ne.symm plain.1) next) plain.2

theorem run_escape (brackets : Nat) (name : Text) (opened : List Text) (events : List Event)
    (s : Text) : ∃ more,
    (inside brackets (name :: opened) events).run (escape s) =
      some (inside more (name :: opened) (events ++ s.map .char)) := by
  obtain ⟨more, read⟩ := Reader.run_escape name opened brackets events s
  refine ⟨more, ?_⟩
  rw [inside, run_inText (.inl ⟨brackets, rfl⟩) (lessThan_not_mem_escape s), read]
  rfl

end DocumentReader

end Partyline.Library.Xml
