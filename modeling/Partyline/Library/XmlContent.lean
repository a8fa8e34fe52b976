import Partyline.Library.XmlDocument

/-! What may stand in an element of a document. `Content s events` says that `s` may stand
there and is read as `events`; the documents of a program are put together from such
pieces, and taken apart again into the elements of a name. -/
namespace Partyline.Library.Xml

open Library

def element (tag : Tag) (content : Text) : Text :=
  startTag tag ++ (content ++ closingTag tag.name)

structure Content (s : Text) (events : List Event) : Prop where
  chars : s.all isChar = true
  read : ∀ brackets name opened before, ∃ more,
    (DocumentReader.inside brackets (name :: opened) before).run (normalizeLineEnds s) =
      some (DocumentReader.inside more (name :: opened) (before ++ events))

namespace Content

open DocumentReader

theorem nil : Content [] [] where
  chars := rfl
  read brackets name opened before := ⟨brackets, by rw [List.append_nil]; rfl⟩

theorem append {s t : Text} {events more : List Event} (first : Content s events)
    (second : Content t more) (head : t.head? ≠ some lineFeed) :
    Content (s ++ t) (events ++ more) where
  chars := by rw [List.all_append, first.chars, second.chars, Bool.and_true]
  read brackets name opened before := by
    obtain ⟨between, front⟩ := first.read brackets name opened before
    obtain ⟨final, back⟩ := second.read between name opened (before ++ events)
    refine ⟨final, ?_⟩
    rw [normalizeLineEnds, normalizeFrom_append_of_head head, run_append]
    rw [normalizeLineEnds] at front
    rw [front, Option.bind_some, back, List.append_assoc]

theorem flatMap {α : Type*} {pieces : List α} {write : α → Text} {meant : α → List Event}
    (each : ∀ piece ∈ pieces, Content (write piece) (meant piece))
    (head : ∀ piece ∈ pieces, ∃ s, write piece = lessThan :: s) :
    Content (pieces.flatMap write) (pieces.flatMap meant) := by
  induction pieces with
  | nil => exact nil
  | cons piece pieces ih =>
    have rest := ih (fun other mem => each other (List.mem_cons_of_mem _ mem)) fun other mem =>
      head other (List.mem_cons_of_mem _ mem)
    rw [List.flatMap_cons, List.flatMap_cons]
    apply (each piece List.mem_cons_self).append rest
    cases pieces with
    | nil => simp
    | cons next pieces =>
      obtain ⟨s, first⟩ := head next (by simp)
      rw [List.flatMap_cons, first, List.cons_append, List.head?_cons]
      decide

theorem escape {s : Text} (legal : s.all isChar = true) :
    Content (escape s) ((normalizeLineEnds s).map .char) where
  chars := by rw [all_escape, legal]
  read brackets name opened before := by
    have lines := normalizeFrom_escape false s (t := []) (by decide)
    rw [List.append_nil, List.append_nil] at lines
    rw [normalizeLineEnds, lines]
    exact run_escape brackets name opened before _

theorem emptyTag {tag : Tag} (h : tag.WellFormed) :
    Content (emptyTag tag) [.start tag.name tag.attributes, .close tag.name] where
  chars := by
    rw [Xml.emptyTag, List.all_append, all_tagText h, Bool.true_and]
    decide
  read brackets name opened before := by
    have line : OnOneLine (Xml.emptyTag tag) := (tagText_onOneLine h).append (by decide)
    rw [normalizeLineEnds, normalizeFrom_line line]
    exact ⟨0, run_emptyTag h brackets (.inl (List.cons_ne_nil _ _))⟩

theorem all_closingTag {name : Text} (named : isName name = true) :
    (closingTag name).all isChar = true := by
  rw [closingTag, List.all_cons, List.all_cons, List.all_append, all_name named]
  decide

theorem normalize_element {tag : Tag} (h : tag.WellFormed) (s : Text) :
    normalizeLineEnds (Xml.element tag s) =
      startTag tag ++ (normalizeLineEnds s ++ closingTag tag.name) := by
  have line : OnOneLine (startTag tag) := (tagText_onOneLine h).append (by decide)
  have nonempty : startTag tag ≠ [] := List.append_ne_nil_of_right_ne_nil _ (List.cons_ne_nil _ _)
  have closing : OnOneLine (closingTag tag.name) := by
    have front : OnOneLine [lessThan, solidus] := by decide
    exact front.append ((name_onOneLine h.name).append (by decide))
  have head : (closingTag tag.name).head? ≠ some lineFeed := by
    rw [closingTag, List.head?_cons]
    decide
  rw [Xml.element, normalizeLineEnds, normalizeFrom_append line nonempty,
    normalizeFrom_append_of_head head, normalizeLineEnds, normalizeFrom_line closing]
  rfl

theorem all_element {tag : Tag} (h : tag.WellFormed) {s : Text} (legal : s.all isChar = true) :
    (Xml.element tag s).all isChar = true := by
  rw [Xml.element, startTag, List.all_append, List.all_append, List.all_append, all_tagText h,
    legal, all_closingTag h.name]
  decide

theorem run_element {s : Text} {events : List Event} (content : Content s events) {tag : Tag}
    (h : tag.WellFormed) (brackets : Nat) {opened : List Text} {before : List Event}
    (there : opened ≠ [] ∨ before = []) :
    (inside brackets opened before).run (normalizeLineEnds (Xml.element tag s)) =
      some (inside 0 opened
        (before ++ .start tag.name tag.attributes :: (events ++ [.close tag.name]))) := by
  obtain ⟨more, inner⟩ := content.read 0 tag.name opened
    (before ++ [.start tag.name tag.attributes])
  rw [normalize_element h, run_append, run_startTag h brackets there, Option.bind_some, run_append,
    inner, Option.bind_some, run_closingTag h.name]
  simp

theorem element {s : Text} {events : List Event} (content : Content s events) {tag : Tag}
    (h : tag.WellFormed) : Content (Xml.element tag s)
      (.start tag.name tag.attributes :: (events ++ [.close tag.name])) where
  chars := all_element h content.chars
  read brackets _ _ _ := ⟨0, content.run_element h brackets (.inl (List.cons_ne_nil _ _))⟩

end Content

structure Declaration (header : Text) : Prop where
  chars : header.all isChar = true
  line : OnOneLine header
  skipped : ∀ s, skipDeclaration (header ++ s) = s

/-- A document of one element, behind a declaration. -/
theorem parseDocument_element {header s : Text} (declared : Declaration header)
    {events : List Event} (content : Content s events) {tag : Tag} (h : tag.WellFormed) :
    parseDocument (header ++ element tag s) =
      some (.start tag.name tag.attributes :: (events ++ [.close tag.name])) := by
  have legal : (header ++ element tag s).all isChar = true := by
    rw [List.all_append, declared.chars, Content.all_element h content.chars, Bool.true_and]
  have head : (element tag s).head? ≠ some lineFeed := by
    rw [element, startTag, tagText, List.cons_append, List.cons_append, List.head?_cons]
    decide
  have whole : normalizeLineEnds (header ++ element tag s) =
      header ++ normalizeLineEnds (element tag s) := by
    rw [normalizeLineEnds, normalizeFrom_append_of_head head, normalizeFrom_line declared.line]
  have read : DocumentReader.initial.run (normalizeLineEnds (element tag s)) =
      some (DocumentReader.inside 0 []
        ([] ++ .start tag.name tag.attributes :: (events ++ [.close tag.name]))) :=
    content.run_element h 0 (.inr rfl)
  rw [parseDocument, if_pos legal, whole, declared.skipped, read]
  rfl

/-! The elements of what is read. -/

/-- The elements of a name, each with its attributes and the events in it. -/
def elements (name : Text) : List Event → List (List (Text × Text) × List Event)
  | [] => []
  | .start other attributes :: events =>
    if other = name then
      (attributes, events.takeWhile fun event => event ≠ .close name) :: elements name events
    else elements name events
  | .char _ :: events | .close _ :: events => elements name events

def Whole (name : Text) (events : List Event) : Prop :=
  ∀ more, elements name (events ++ more) = elements name events ++ elements name more

namespace Whole

theorem nil (name : Text) : Whole name [] := fun _ => rfl

variable {name : Text}

theorem append {events more : List Event} (first : Whole name events) (second : Whole name more) :
    Whole name (events ++ more) := by
  intro rest
  rw [List.append_assoc, first, second, first, List.append_assoc]

theorem flatMap {α : Type*} {pieces : List α} {meant : α → List Event}
    (each : ∀ piece ∈ pieces, Whole name (meant piece)) : Whole name (pieces.flatMap meant) := by
  induction pieces with
  | nil => exact nil name
  | cons piece pieces ih =>
    rw [List.flatMap_cons]
    exact (each piece List.mem_cons_self).append
      (ih fun other mem => each other (List.mem_cons_of_mem _ mem))

theorem elements_flatMap {α : Type*} {pieces : List α} {meant : α → List Event}
    (each : ∀ piece ∈ pieces, Whole name (meant piece)) :
    elements name (pieces.flatMap meant) =
      pieces.flatMap fun piece => elements name (meant piece) := by
  induction pieces with
  | nil => rfl
  | cons piece pieces ih =>
    rw [List.flatMap_cons, List.flatMap_cons, each piece List.mem_cons_self,
      ih fun other mem => each other (List.mem_cons_of_mem _ mem)]

theorem elements_other {other : Text} (ne : other ≠ name) (attributes : List (Text × Text))
    {events : List Event} (inner : Whole name events) :
    elements name (.start other attributes :: (events ++ [.close other])) =
      elements name events := by
  rw [elements, if_neg ne, inner]
  exact List.append_nil _

theorem other {other : Text} (ne : other ≠ name) (attributes : List (Text × Text))
    {events : List Event} (inner : Whole name events) :
    Whole name (.start other attributes :: (events ++ [.close other])) := by
  intro rest
  rw [elements_other ne attributes inner, List.cons_append, elements, if_neg ne, List.append_assoc,
    inner]
  rfl

end Whole

def Free (name : Text) (events : List Event) : Prop :=
  ∀ event ∈ events, event ≠ .close name ∧ ∀ attributes, event ≠ .start name attributes

theorem Free.chars (name s : Text) : Free name (s.map .char) := by
  intro event mem
  obtain ⟨ch, -, rfl⟩ := List.mem_map.mp mem
  exact ⟨Event.noConfusion, fun _ => Event.noConfusion⟩

theorem Free.element {name other : Text} (ne : other ≠ name) (attributes : List (Text × Text))
    {events : List Event} (inner : Free name events) :
    Free name (.start other attributes :: (events ++ [.close other])) := by
  intro event mem
  rw [List.mem_cons, List.mem_append, List.mem_singleton] at mem
  rcases mem with rfl | there | rfl
  · exact ⟨Event.noConfusion, fun _ same => ne (Event.start.inj same).1⟩
  · exact inner event there
  · exact ⟨fun same => ne (Event.close.inj same), fun _ => Event.noConfusion⟩

theorem Free.elements_append {name : Text} {events : List Event} (free : Free name events)
    (more : List Event) : elements name (events ++ more) = elements name more := by
  induction events with
  | nil => rfl
  | cons event events ih =>
    have rest := ih fun other mem => free other (List.mem_cons_of_mem _ mem)
    cases event with
    | start other attributes =>
      have ne : other ≠ name := by
        rintro rfl
        exact (free _ List.mem_cons_self).2 attributes rfl
      rw [List.cons_append, elements, if_neg ne, rest]
    | char ch => rw [List.cons_append, elements, rest]
    | close other => rw [List.cons_append, elements, rest]

theorem Free.takeWhile {name : Text} {events : List Event} (free : Free name events)
    (more : List Event) :
    (events ++ .close name :: more).takeWhile (fun event => event ≠ .close name) = events := by
  rw [List.takeWhile_append_of_pos fun event mem => decide_eq_true (free event mem).1,
    List.takeWhile_cons_of_neg (by simp), List.append_nil]

theorem elements_own {name : Text} {events : List Event} (free : Free name events)
    (attributes : List (Text × Text)) (more : List Event) :
    elements name (.start name attributes :: (events ++ [.close name]) ++ more) =
      (attributes, events) :: elements name more := by
  rw [List.cons_append, List.append_assoc, List.singleton_append, elements, if_pos rfl,
    free.takeWhile, free.elements_append, elements]

theorem Free.own {name : Text} {events : List Event} (free : Free name events)
    (attributes : List (Text × Text)) :
    Whole name (.start name attributes :: (events ++ [.close name])) := by
  intro more
  have alone := elements_own free attributes []
  rw [List.append_nil] at alone
  rw [elements_own free, alone]
  rfl

/-! Elements that are empty tags. -/

def listDocument (header : Text) (root : Tag) (tags : List Tag) : Text :=
  header ++ element root (tags.flatMap emptyTag)

def Tag.events (tag : Tag) : List Event := [.start tag.name tag.attributes, .close tag.name]

theorem Content.tags {tags : List Tag} (legal : ∀ tag ∈ tags, tag.WellFormed) :
    Content (tags.flatMap Xml.emptyTag) (tags.flatMap Tag.events) :=
  Content.flatMap (fun tag mem => Content.emptyTag (legal tag mem)) fun _ _ => ⟨_, rfl⟩

theorem Tag.events_whole (name : Text) (tag : Tag) : Whole name tag.events := by
  have empty : Free name [] := fun _ mem => absurd mem List.not_mem_nil
  by_cases own : tag.name = name
  · rw [events, own]
    exact empty.own tag.attributes
  · exact Whole.other own tag.attributes (Whole.nil name)

theorem elements_events (name : Text) (tag : Tag) :
    elements name tag.events = if tag.name = name then [(tag.attributes, [])] else [] := by
  rw [Tag.events, elements]
  split_ifs with own
  · rw [own, List.takeWhile_cons_of_neg (by simp)]
    rfl
  · rfl

theorem elements_tags (name : Text) (tags : List Tag) :
    elements name (tags.flatMap Tag.events) =
      (tags.filter fun tag => tag.name = name).map fun tag => (tag.attributes, []) := by
  rw [Whole.elements_flatMap fun tag _ => tag.events_whole name]
  simp only [elements_events]
  induction tags with
  | nil => rfl
  | cons tag tags ih =>
    rw [List.flatMap_cons, ih, List.filter_cons]
    by_cases own : tag.name = name <;> simp [own]

theorem Whole.tags (name : Text) (tags : List Tag) : Whole name (tags.flatMap Tag.events) :=
  Whole.flatMap fun tag _ => tag.events_whole name

theorem parse_listDocument {header : Text} (declared : Declaration header) {root : Tag}
    (h : root.WellFormed) {tags : List Tag} (legal : ∀ tag ∈ tags, tag.WellFormed) :
    ∃ events, parseDocument (listDocument header root tags) = some events ∧
      ∀ name, root.name ≠ name → elements name events =
        (tags.filter fun tag => tag.name = name).map fun tag => (tag.attributes, []) := by
  refine ⟨_, parseDocument_element declared (Content.tags legal) h, fun name other => ?_⟩
  rw [Whole.elements_other other _ (Whole.tags name tags), elements_tags]

end Partyline.Library.Xml
