import Partyline.Rooms

/-! The terminal client of `epoll/client_epoll.cpp` from its keys to the lines it
sends. The one of `poll(2)/client.cpp` treats keys and lines in the same way.
What it only shows, `messages` and the screen, is left out. -/
namespace Partyline

def slash : UInt8 := 47

/-- `isprint` in the C locale. -/
def isPrint (ch : UInt8) : Bool := 32 ≤ ch && ch ≤ 126

structure TypedLine where
  username : Bool
  room : Bytes
  line : Bytes
deriving DecidableEq

/-- `sent`: the lines given to `sendAll`, each without its newline; `typed`: the
lines completed. Neither is kept by the source. -/
structure TerminalClient where
  input : Bytes
  room : Bytes
  usernameMode : Bool
  quitting : Bool
  running : Bool
  sent : List Bytes
  typed : List TypedLine
deriving DecidableEq

/-- A byte from the terminal, and what a `sendAll` that it leads to returns. -/
structure Key where
  ch : UInt8
  delivered : Bool

namespace TerminalClient

def initial : TerminalClient where
  input := []
  room := ascii "(awaiting username)"
  usernameMode := true
  quitting := false
  running := true
  sent := []
  typed := []

def sendAll (delivered : Bool) (line : Bytes) (c : TerminalClient) : TerminalClient :=
  { c with sent := c.sent ++ [line], running := c.running && delivered }

/-- The branch of a carriage return or a newline. -/
def completeLine (delivered : Bool) (c : TerminalClient) : TerminalClient :=
  let line := c.input
  let typed : TypedLine := ⟨c.usernameMode, c.room, line⟩
  let c := { c with input := [], typed := c.typed ++ [typed] }
  if c.usernameMode then
    { c with usernameMode := false, room := mainRoomName }.sendAll delivered line
  else if line = ascii "/help" then c
  else if line = ascii "/quit" ∨ line = ascii "QUIT" then
    { c with quitting := true }.sendAll delivered (ascii "QUIT")
  else if line = ascii "/leave" then
    { c with room := mainRoomName }.sendAll delivered (ascii "LEAVE")
  else if line = ascii "/list" then c.sendAll delivered (ascii "LIST")
  else if line = ascii "/where" then c.sendAll delivered (ascii "WHERE")
  else if ascii "/join " <+: line then
    let room := line.drop 6
    { c with room }.sendAll delivered (ascii "JOIN " ++ room)
  else if line.head? = some slash then c
  else c.sendAll delivered line

def press (c : TerminalClient) (key : Key) : TerminalClient :=
  if key.ch = carriageReturn ∨ key.ch = newline then c.completeLine key.delivered
  else if key.ch = 127 ∨ key.ch = 8 then { c with input := c.input.dropLast }
  else if isPrint key.ch then { c with input := c.input ++ [key.ch] }
  else c

/-- The loop over what one `read` has returned. -/
def typeKeys : List Key → TerminalClient → TerminalClient
  | [], c => c
  | key :: rest, c =>
    if key.ch = 3 ∨ key.ch = 4 ∧ c.input = [] then { c with running := false }
    else typeKeys rest (c.press key)

/-- The terminal is not read any more once the user has quit. -/
def read (c : TerminalClient) (keys : List Key) : TerminalClient :=
  if c.running = true ∧ c.quitting = false then typeKeys keys c else c

def run (reads : List (List Key)) : TerminalClient :=
  reads.foldl read initial

end TerminalClient

def TypedLine.label (l : TypedLine) : Bytes :=
  if l.username = true ∨ l.line = ascii "/leave" then mainRoomName
  else if ascii "/join " <+: l.line then l.line.drop 6
  else l.room

def TypedLine.frame (l : TypedLine) : Option Bytes :=
  if l.username then some l.line
  else if l.line = ascii "/quit" then some (ascii "QUIT")
  else if l.line = ascii "/leave" then some (ascii "LEAVE")
  else if l.line = ascii "/list" then some (ascii "LIST")
  else if l.line = ascii "/where" then some (ascii "WHERE")
  else if ascii "/join " <+: l.line then some (ascii "JOIN " ++ l.line.drop 6)
  else if l.line.head? = some slash then none
  else some l.line

namespace TerminalClient

@[simp] theorem sendAll_input (delivered : Bool) (line : Bytes) (c : TerminalClient) :
    (c.sendAll delivered line).input = c.input := rfl

@[simp] theorem sendAll_room (delivered : Bool) (line : Bytes) (c : TerminalClient) :
    (c.sendAll delivered line).room = c.room := rfl

@[simp] theorem sendAll_usernameMode (delivered : Bool) (line : Bytes) (c : TerminalClient) :
    (c.sendAll delivered line).usernameMode = c.usernameMode := rfl

@[simp] theorem sendAll_sent (delivered : Bool) (line : Bytes) (c : TerminalClient) :
    (c.sendAll delivered line).sent = c.sent ++ [line] := rfl

@[simp] theorem sendAll_typed (delivered : Bool) (line : Bytes) (c : TerminalClient) :
    (c.sendAll delivered line).typed = c.typed := rfl

/-- What the branch makes of the client, as far as its rooms and lines go. -/
structure Completes (l : TypedLine) (c c' : TerminalClient) : Prop where
  input : c'.input = []
  usernameMode : c'.usernameMode = false
  room : c'.room = l.label
  sent : c'.sent = c.sent ++ l.frame.toList
  typed : c'.typed = c.typed ++ [l]

theorem completeLine_completes (delivered : Bool) (c : TerminalClient) :
    Completes ⟨c.usernameMode, c.room, c.input⟩ c (c.completeLine delivered) := by
  by_cases username : c.usernameMode = true
  · constructor <;> simp [completeLine, TypedLine.label, TypedLine.frame, username]
  unfold completeLine
  dsimp only
  generalize c.input = line
  split_ifs with help quit leave list where' join command
  · subst help
    constructor <;> simp +decide [TypedLine.label, TypedLine.frame, username]
  · rcases quit with rfl | rfl <;>
      constructor <;> simp +decide [TypedLine.label, TypedLine.frame, username]
  · subst leave
    constructor <;> simp +decide [TypedLine.label, TypedLine.frame, username]
  · subst list
    constructor <;> simp +decide [TypedLine.label, TypedLine.frame, username]
  · subst where'
    constructor <;> simp +decide [TypedLine.label, TypedLine.frame, username]
  · obtain ⟨not_quit, -⟩ := not_or.mp quit
    constructor <;> simp [TypedLine.label, TypedLine.frame, username, not_quit, leave, list, where',
      join]
  · obtain ⟨not_quit, -⟩ := not_or.mp quit
    constructor <;> simp [TypedLine.label, TypedLine.frame, username, not_quit, leave, list, where',
      join, command]
  · obtain ⟨not_quit, -⟩ := not_or.mp quit
    constructor <;> simp [TypedLine.label, TypedLine.frame, username, not_quit, leave, list, where',
      join, command]

theorem run_invariant {P : TerminalClient → Prop} (base : P initial)
    (press : ∀ c key, P c → P (c.press key)) (stop : ∀ c, P c → P { c with running := false })
    (reads : List (List Key)) : P (run reads) := by
  have keys (keys : List Key) (c : TerminalClient) (h : P c) : P (typeKeys keys c) := by
    induction keys generalizing c with
    | nil => exact h
    | cons key rest ih =>
      unfold typeKeys
      split_ifs
      · exact stop c h
      · exact ih _ (press c key h)
  have all (reads : List (List Key)) (c : TerminalClient) (h : P c) : P (reads.foldl read c) := by
    induction reads generalizing c with
    | nil => exact h
    | cons first rest ih =>
      refine ih _ ?_
      unfold read
      split_ifs
      · exact keys first c h
      · exact h
  exact all reads initial base

end TerminalClient

end Partyline
