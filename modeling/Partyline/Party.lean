import Partyline.ChatServer
import Partyline.Library.Refinement

/-! What the server is for: a party of people in rooms. A room is there as long as somebody
is in it, the main room always. There are no tables, buffers or descriptors here; what the
clients say are lines, and so is what they are told. -/
namespace Partyline

open Library

/-- Somebody at the party, who has not said a name yet or is in a room. -/
inductive Guest where
  | nameless
  | member (username room : Bytes)
deriving DecidableEq

def Guest.room : Guest → Option Bytes
  | .nameless => none
  | .member _ room => some room

def Guest.home : Guest → Bytes
  | .nameless => mainRoomName
  | .member _ room => room

def Guest.username : Guest → Bytes
  | .nameless => []
  | .member username _ => username

def Guest.greeting : Guest → List Bytes
  | .nameless => [prompt]
  | .member username _ => [prompt, joinedLine username mainRoomName]

/-- What a line asks for. -/
inductive Wish where
  | nothing
  | chat (words : List Bytes)
  | list
  | whereabouts
  | move (room : Bytes)
  | quit
deriving DecidableEq

def wish (room line : Bytes) : Wish :=
  let words := tokens line
  let word := words.headD []
  if line = [] then .nothing
  else if word ∉ commands then .chat words
  else if word = ascii "LIST" then .list
  else if word = ascii "JOIN" ∧ words.length = 2 then
    if room = words.getD 1 [] then .nothing else .move (words.getD 1 [])
  else if word = ascii "LEAVE" ∧ room ≠ mainRoomName then .move mainRoomName
  else if word = ascii "WHERE" ∧ words.length = 1 then .whereabouts
  else if word = ascii "QUIT" then .quit
  else .nothing

def listing (rooms : List (Nat × Bytes)) : Bytes :=
  let rule := ascii "+------+----------------+" ++ [newline]
  rule ++ ascii "| ID   | Room           |" ++ [newline] ++ rule ++
    (rooms.flatMap fun (roomIdx, roomName) =>
      ascii "| " ++ ascii (toString roomIdx) ++ ascii "\t| " ++ roomName ++ [newline]) ++
    rule

/-- Who is there, and the lines that everybody there has been told since they came. -/
@[ext] structure Party (C : Type*) where
  guests : C → Option Guest
  told : C → List Bytes
  absent : ∀ c, guests c = none → told c = []

namespace Party

inductive Event (C : Type*) where
  | arrives (c : C)
  | speaks (c : C) (line : Bytes)
  /-- The connection of `c` ends, and its room is told. -/
  | departs (c : C)
  /-- `c` has sent too much at once. -/
  | expelled (c : C)

def Event.actor {C : Type*} : Event C → C
  | .arrives c | .speaks c _ | .departs c | .expelled c => c

variable {C : Type*}

def empty : Party C := ⟨fun _ => none, fun _ => [], fun _ _ => rfl⟩

def room (p : Party C) (c : C) : Option Bytes := (p.guests c).bind Guest.room

/-- The rooms that are there, under any ids. -/
structure Lists (p : Party C) (rooms : List (Nat × Bytes)) : Prop where
  ids : (rooms.map Prod.fst).Nodup
  names : (rooms.map Prod.snd).Nodup
  inUse : ∀ name, name ∈ rooms.map Prod.snd ↔ name = mainRoomName ∨ ∃ c, p.room c = some name

def Possible (p : Party C) : Event C → Prop
  | .arrives c => p.guests c = none
  | .speaks c _ | .departs c | .expelled c => p.guests c ≠ none

def Chats (p : Party C) (e : Event C) : Prop :=
  ∃ c line username room words, e = .speaks c line ∧ p.guests c = some (.member username room) ∧
    wish room line = .chat words

variable [DecidableEq C]

def next (p : Party C) : Event C → C → Option Guest
  | .arrives c => Function.update p.guests c (some .nameless)
  | .speaks c line =>
    match p.guests c with
    | none => p.guests
    | some .nameless => Function.update p.guests c (some (.member line mainRoomName))
    | some (.member username room) =>
      match wish room line with
      | .move new => Function.update p.guests c (some (.member username new))
      | .quit => Function.update p.guests c none
      | .nothing | .chat _ | .list | .whereabouts => p.guests
  | .departs c | .expelled c => Function.update p.guests c none

theorem next_of_ne (p : Party C) {e : Event C} {c : C} (ne : c ≠ e.actor) :
    p.next e c = p.guests c := by
  cases e with
  | arrives actor => exact Function.update_of_ne ne _ _
  | departs actor => exact Function.update_of_ne ne _ _
  | expelled actor => exact Function.update_of_ne ne _ _
  | speaks actor line =>
    cases found : p.guests actor with
    | none => simp only [next, found]
    | some guest =>
      cases guest with
      | nameless =>
        simp only [next, found]
        exact Function.update_of_ne ne _ _
      | member username room =>
        simp only [next, found]
        cases wish room line with
        | move new => exact Function.update_of_ne ne _ _
        | quit => exact Function.update_of_ne ne _ _
        | nothing | chat words | list | whereabouts => rfl

def answer (p : Party C) (rooms : List (Nat × Bytes)) (c : C) (username room : Bytes) (other : C) :
    Wish → Option Bytes
  | .nothing => none
  | .chat words =>
    if other ≠ c ∧ p.room other = some room then some (chatLine username words) else none
  | .list => if other = c then some (listing rooms) else none
  | .whereabouts => if other = c then some (whereReply room) else none
  | .move new =>
    if other = c then some (joinedLine username new)
    else if p.room other = some room then some (leftLine username room)
    else if p.room other = some new then some (joinedLine username new)
    else none
  | .quit => if other ≠ c ∧ p.room other = some room then some (quitLine username) else none

def hears (p : Party C) (rooms : List (Nat × Bytes)) (e : Event C) (other : C) : Option Bytes :=
  match e with
  | .arrives c => if other = c then some prompt else none
  | .speaks c line =>
    match p.guests c with
    | none => none
    | some .nameless =>
      if other = c ∨ p.room other = some mainRoomName then some (joinedLine line mainRoomName)
      else none
    | some (.member username room) => p.answer rooms c username room other (wish room line)
  | .departs c =>
    (p.guests c).bind fun guest =>
      if other ≠ c ∧ p.room other = some guest.home then some (disconnectedLine guest.username)
      else none
  | .expelled _ => none

/-- What an event makes of one client. Whoever cannot be told a line is dropped; when a chat
line drops somebody, others may miss it. -/
inductive Becomes (p : Party C) (rooms : List (Nat × Bytes)) (e : Event C) (q : Party C) (c : C) :
    Prop where
  | served (guest : q.guests c = p.next e c)
    (told : q.guests c ≠ none → q.told c = p.told c ++ (p.hears rooms e c).toList)
  | dropped (line : p.hears rooms e c ≠ none) (gone : q.guests c = none)
  | missed (chat : p.Chats e) (guest : q.guests c = p.guests c) (told : q.told c = p.told c)
    (other : C) (ne : other ≠ c) (line : p.hears rooms e other ≠ none)
    (gone : q.guests other = none)

structure Step (p : Party C) (e : Event C) (q : Party C) : Prop where
  possible : p.Possible e
  becomes : ∃ rooms, p.Lists rooms ∧ ∀ c, p.Becomes rooms e q c
  /-- A chat line drops one at most. -/
  one : p.Chats e → ∀ c c', p.guests c ≠ none → q.guests c = none → p.guests c' ≠ none →
    q.guests c' = none → c = c'

def behaviour : Behaviour (Party C) (Event C) where
  init p := p = empty
  step := Step

/-! What everybody is told first. -/

/-- Everybody has been told the greeting first, and the nameless nothing more. -/
def Greets (p : Party C) : Prop :=
  ∀ c guest, p.guests c = some guest →
    guest.greeting <+: p.told c ∧ (guest = .nameless → p.told c = guest.greeting)

section Greeting

variable {p q : Party C} {e : Event C} {rooms : List (Nat × Bytes)} {c : C}

theorem hears_nameless (nameless : p.guests c = some .nameless) (ne : c ≠ e.actor) :
    p.hears rooms e c = none := by
  have nowhere : p.room c = none := by rw [room, nameless, Option.bind_some, Guest.room]
  cases e with
  | arrives actor => exact if_neg ne
  | departs actor =>
    rw [hears]
    cases p.guests actor <;> simp [nowhere]
  | expelled actor => rfl
  | speaks actor line =>
    have ne : c ≠ actor := ne
    rw [hears]
    cases found : p.guests actor with
    | none => rfl
    | some guest =>
      cases guest with
      | nameless => simp [ne, nowhere]
      | member username room =>
        change p.answer rooms actor username room c (wish room line) = none
        cases wish room line <;> simp [answer, ne, nowhere]

/-- The one who acts and stays is greeted on the way in, and by name with the first line. -/
theorem greets_actor (greets : p.Greets) (possible : p.Possible e) {guest : Guest}
    (there : p.next e e.actor = some guest) :
    guest.greeting <+: p.told e.actor ++ (p.hears rooms e e.actor).toList ∧
      (guest = .nameless →
        p.told e.actor ++ (p.hears rooms e e.actor).toList = guest.greeting) := by
  cases e with
  | departs actor | expelled actor =>
    rw [next, Event.actor, Function.update_self] at there
    cases there
  | arrives actor =>
    obtain rfl : Guest.nameless = guest := by
      rw [next, Event.actor, Function.update_self] at there
      exact Option.some.inj there
    have fresh : p.told actor = [] := p.absent actor possible
    simp [Event.actor, fresh, hears, Guest.greeting]
  | speaks actor line =>
    simp only [Event.actor] at there ⊢
    cases found : p.guests actor with
    | none => exact absurd found possible
    | some before =>
      obtain ⟨greeted, only⟩ := greets actor before found
      cases before with
      | nameless =>
        obtain rfl : Guest.member line mainRoomName = guest := by
          rw [next, found] at there
          simpa using there
        have told : p.told actor = [prompt] := only rfl
        simp [told, hears, found, Guest.greeting]
      | member username room =>
        obtain ⟨room', rfl⟩ : ∃ room', guest = .member username room' := by
          simp only [next, found] at there
          cases wished : wish room line with
          | move new =>
            simp only [wished, Function.update_self] at there
            exact ⟨new, (Option.some.inj there).symm⟩
          | quit =>
            simp only [wished, Function.update_self] at there
            cases there
          | nothing | chat words | list | whereabouts =>
            simp only [wished, found] at there
            exact ⟨room, (Option.some.inj there).symm⟩
        exact ⟨greeted.trans (List.prefix_append _ _), nofun⟩

theorem greets_step (greets : p.Greets) (step : p.Step e q) : q.Greets := by
  intro c guest there
  obtain ⟨rooms, -, becomes⟩ := step.becomes
  cases becomes c with
  | dropped line gone => exact absurd there (by simp [gone])
  | missed chat same told => exact told ▸ greets c guest (same ▸ there)
  | served same told =>
    rw [told (by simp [there])]
    by_cases actor : c = e.actor
    · subst actor
      exact greets_actor greets step.possible (same ▸ there)
    · have before : p.guests c = some guest := by rw [← next_of_ne p actor, ← same, there]
      obtain ⟨greeted, only⟩ := greets c guest before
      refine ⟨greeted.trans (List.prefix_append _ _), ?_⟩
      rintro rfl
      rw [hears_nameless before actor, Option.toList_none, List.append_nil]
      exact only rfl

theorem greets_runs {events : List (Event C)} (runs : behaviour.Runs events p) : p.Greets :=
  runs.invariant (fun p start c guest there => by rw [start] at there; cases there)
    fun p e q => greets_step

end Greeting

end Party
end Partyline
