import Partyline.ChatServer
import Partyline.OutputStream

/-! The server seen descriptor by descriptor. `Performs s t change` says that `t`
is `s` with the entry of every descriptor changed by `change`; the rooms are
followed separately, through the occupancy they represent. -/
namespace Partyline

/-- All that the server and the system hold for one descriptor. -/
structure Entry where
  client : Option ClientConnection
  port : Port

namespace Entry

def occupant (e : Entry) : Option Nat :=
  e.client.bind fun record => if record.clientState = .active then some record.currRoom else none

def accepts (serverIteration : Nat) (data : Bytes) (e : Entry) : Bool :=
  match e.client with
  | none => false
  | some record => admits serverIteration data record e.port

def closed (reason : String) (e : Entry) : Entry :=
  match e.client with
  | none => e
  | some _ => ⟨none, { e.port with
      writeInterest := none, history := .closed reason :: e.port.history }⟩

/-- A `queueOutput` whose failure ends the connection. -/
def offered (serverIteration : Nat) (data : Bytes) (reason : String) (e : Entry) : Entry :=
  match e.client with
  | none => e
  | some record =>
    match queueOutputCommon serverIteration record e.port data with
    | (true, record, port) => ⟨some record, port⟩
    | (false, record, port) => closed reason ⟨some record, port⟩

def moved (roomId : Nat) (e : Entry) : Entry :=
  { e with client := e.client.map fun record => { record with currRoom := roomId } }

/-- What `notifyRoom` does to one entry. -/
def notified (serverIteration roomId : Nat) (excludedFd : Int) (message : Bytes) (fd : Fd)
    (e : Entry) : Entry :=
  if (fd : Int) ≠ excludedFd ∧ e.occupant = some roomId then
    e.offered serverIteration message "slow client: room notification output queue overflow"
  else e

/-- What `broadcast` does to the entry of a recipient that it reaches. -/
def heard (serverIteration roomId : Nat) (sender : Fd) (output : Bytes) (fd : Fd) (e : Entry) :
    Entry :=
  if fd ≠ sender ∧ e.occupant = some roomId then
    e.offered serverIteration output "slow client: chat message output queue overflow"
  else e

theorem occupant_some {e : Entry} {roomId : Nat} :
    e.occupant = some roomId ↔ ∃ record, e.client = some record ∧
      record.clientState = .active ∧ record.currRoom = roomId := by
  unfold occupant
  cases e.client with
  | none => simp
  | some record => simp

theorem offered_of_accepts {e : Entry} {serverIteration : Nat} {data : Bytes}
    (h : e.accepts serverIteration data = true) (reason : String) :
    ∃ record, e.client = some record ∧ e.offered serverIteration data reason =
      ⟨some (queueOutputCommon serverIteration record e.port data).2.1,
        (queueOutputCommon serverIteration record e.port data).2.2⟩ := by
  unfold accepts at h
  unfold offered
  cases found : e.client with
  | none => simp [found] at h
  | some record =>
    simp only [found, ← queueOutputCommon_fst] at h
    refine ⟨record, rfl, ?_⟩
    dsimp only
    generalize queueOutputCommon serverIteration record e.port data = result at h ⊢
    obtain ⟨queued, record, port⟩ := result
    obtain rfl : queued = true := h
    rfl

theorem offered_of_rejects {e : Entry} {serverIteration : Nat} {data : Bytes}
    (h : e.accepts serverIteration data = false) {record : ClientConnection}
    (found : e.client = some record) (reason : String) :
    e.offered serverIteration data reason = ⟨none,
      { (queueOutputCommon serverIteration record e.port data).2.2 with
        writeInterest := none
        history := .closed reason ::
          (queueOutputCommon serverIteration record e.port data).2.2.history }⟩ := by
  simp only [accepts, offered, found, ← queueOutputCommon_fst] at h ⊢
  generalize queueOutputCommon serverIteration record e.port data = result at h ⊢
  obtain ⟨queued, record, port⟩ := result
  obtain rfl : queued = false := h
  rfl

@[simp] theorem offered_none {e : Entry} (h : e.client = none) (serverIteration : Nat)
    (data : Bytes) (reason : String) : e.offered serverIteration data reason = e := by
  simp [offered, h]

theorem occupant_of_session {record record' : ClientConnection}
    (same : record.session = record'.session) (port port' : Port) :
    occupant ⟨some record, port⟩ = occupant ⟨some record', port'⟩ := by
  simp only [ClientConnection.session, Prod.mk.injEq] at same
  simp only [occupant, Option.bind_some, same.2.1, same.2.2.2]

/-- Who is offered a line stays in its room if it takes the line, and leaves it otherwise. -/
theorem offered_occupant (e : Entry) (serverIteration : Nat) (data : Bytes) (reason : String) :
    (e.offered serverIteration data reason).occupant =
      if e.accepts serverIteration data = true then e.occupant else none := by
  cases taken : e.accepts serverIteration data with
  | true =>
    obtain ⟨record, found, result⟩ := offered_of_accepts taken reason
    have session := (queueOutputCommon_offered serverIteration record e.port data).session
    obtain ⟨client, port⟩ := e
    obtain rfl : client = some record := found
    rw [result, if_pos rfl]
    exact occupant_of_session session _ _
  | false =>
    cases found : e.client with
    | none => simp [occupant, found]
    | some record => simp [offered_of_rejects taken found, occupant]

@[simp] theorem closed_client (e : Entry) (reason : String) : (e.closed reason).client = none := by
  unfold closed
  split <;> simp_all

theorem closed_occupant (e : Entry) (reason : String) : (e.closed reason).occupant = none := by
  simp [occupant]

theorem moved_self {e : Entry} {roomId : Nat} (h : e.occupant = some roomId) :
    e.moved roomId = e := by
  obtain ⟨record, found, -, rfl⟩ := occupant_some.mp h
  obtain ⟨client, port⟩ := e
  obtain rfl : client = some record := found
  rfl

end Entry

namespace ChatServer

def entry (s : ChatServer) (fd : Fd) : Entry := ⟨s.clients fd, s.ports fd⟩

def occupancy (s : ChatServer) (fd : Fd) : Option Nat := (s.entry fd).occupant

/-- The rooms of `s` are those its clients say they are in. -/
abbrev RoomsOk (spare : Set Nat) (s : ChatServer) : Prop :=
  Rooms.Represents spare s.rooms s.occupancy

@[simp] theorem entry_client (s : ChatServer) (fd : Fd) : (s.entry fd).client = s.clients fd := rfl

@[simp] theorem entry_port (s : ChatServer) (fd : Fd) : (s.entry fd).port = s.ports fd := rfl

theorem entry_occupant (s : ChatServer) (fd : Fd) : (s.entry fd).occupant = s.occupancy fd := rfl

theorem connected_of_occupancy {s : ChatServer} {fd : Fd} {room : Nat}
    (home : s.occupancy fd = some room) : s.clients fd ≠ none := by
  obtain ⟨record, found, -⟩ := Entry.occupant_some.mp home
  exact Option.ne_none_iff_exists'.mpr ⟨record, found⟩

theorem entry_eq {s t : ChatServer} {fd : Fd} (h : s.entry fd = t.entry fd) :
    s.clients fd = t.clients fd ∧ s.ports fd = t.ports fd := by
  simpa [entry] using h

structure Performs (s t : ChatServer) (change : Fd → Entry → Entry) : Prop where
  entries : ∀ fd, t.entry fd = change fd (s.entry fd)
  listener : t.listener = s.listener
  serverIteration : t.serverIteration = s.serverIteration
  dangling : t.dangling = s.dangling

def only (fd : Fd) (change : Entry → Entry) (other : Fd) (e : Entry) : Entry :=
  if other = fd then change e else e

@[simp] theorem only_self (fd : Fd) (change : Entry → Entry) (e : Entry) :
    only fd change fd e = change e := if_pos rfl

@[simp] theorem only_of_ne {fd other : Fd} (h : other ≠ fd) (change : Entry → Entry) (e : Entry) :
    only fd change other e = e := if_neg h

theorem Performs.refl (s : ChatServer) : Performs s s fun _ e => e :=
  ⟨fun _ => rfl, rfl, rfl, rfl⟩

theorem Performs.trans {s t u : ChatServer} {first second : Fd → Entry → Entry}
    (h : Performs s t first) (rest : Performs t u second) :
    Performs s u fun fd e => second fd (first fd e) :=
  ⟨fun fd => by rw [rest.entries, h.entries], rest.listener.trans h.listener,
    rest.serverIteration.trans h.serverIteration, rest.dangling.trans h.dangling⟩

theorem Performs.congr {s t : ChatServer} {change change' : Fd → Entry → Entry}
    (h : Performs s t change) (same : ∀ fd, change fd (s.entry fd) = change' fd (s.entry fd)) :
    Performs s t change' :=
  { h with entries := fun fd => (h.entries fd).trans (same fd) }

theorem Performs.congr_only {s t : ChatServer} {change : Fd → Entry → Entry} {fd : Fd}
    {change' : Entry → Entry} (h : Performs s t change)
    (self : change fd (s.entry fd) = change' (s.entry fd))
    (others : ∀ other, other ≠ fd → change other (s.entry other) = s.entry other) :
    Performs s t (only fd change') := by
  refine h.congr fun other => ?_
  by_cases same : other = fd
  · subst same
    rw [only_self, self]
  · rw [only_of_ne same, others other same]

theorem setClient_setPort_performs (s : ChatServer) (fd : Fd) (record : ClientConnection)
    (port : Port) :
    Performs s ((s.setClient fd record).setPort fd port) (only fd fun _ => ⟨some record, port⟩) := by
  refine ⟨fun other => ?_, rfl, rfl, rfl⟩
  by_cases same : other = fd
  · subst same
    simp [entry]
  · simp [entry, same]

theorem disconnect_performs (s : ChatServer) (fd : Fd) (reason : String) :
    Performs s (s.disconnect fd reason) (only fd (Entry.closed reason)) := by
  unfold disconnect
  split
  · rename_i missing
    exact (Performs.refl s).congr_only (by simp [Entry.closed, missing]) fun _ _ => rfl
  · rename_i client found
    refine ⟨fun other => ?_, rfl, rfl, rfl⟩
    by_cases same : other = fd
    · subst same
      simp [entry, Entry.closed, found]
    · simp [entry, same]

theorem RoomsOk.still {spare : Set Nat} {s t : ChatServer} (h : s.RoomsOk spare)
    (rooms : t.rooms = s.rooms) (occupancy : ∀ fd, t.occupancy fd = s.occupancy fd) :
    t.RoomsOk spare := by
  rw [RoomsOk, rooms, funext occupancy]
  exact h

theorem RoomsOk.still_only {spare : Set Nat} {s t : ChatServer} (h : s.RoomsOk spare) {fd : Fd}
    {change : Entry → Entry} (performs : Performs s t (only fd change)) (rooms : t.rooms = s.rooms)
    (occupant : (change (s.entry fd)).occupant = s.occupancy fd) : t.RoomsOk spare := by
  refine h.still rooms fun other => ?_
  rw [occupancy, performs.entries]
  by_cases same : other = fd
  · subst same
    rw [only_self, occupant]
  · rw [only_of_ne same, entry_occupant]

theorem disconnect_rooms {spare : Set Nat} {s : ChatServer} (h : s.RoomsOk spare) (fd : Fd)
    (reason : String) : (s.disconnect fd reason).RoomsOk spare := by
  have occupancy : (s.disconnect fd reason).occupancy = Function.update s.occupancy fd none := by
    funext other
    rw [ChatServer.occupancy, (disconnect_performs s fd reason).entries]
    by_cases same : other = fd
    · subst same
      simp [Entry.closed_occupant]
    · simp [same, ChatServer.occupancy]
  rw [RoomsOk, occupancy]
  unfold disconnect
  split
  · rename_i missing
    have out : s.occupancy fd = none := by simp [ChatServer.occupancy, Entry.occupant, missing]
    rwa [← out, Function.update_eq_self]
  · rename_i client found
    refine h.disconnect fun roomId home => ?_
    obtain ⟨record, same, -, rfl⟩ := Entry.occupant_some.mp home
    rw [entry_client, found] at same
    rw [Option.some.inj same]

/-- The two calls every sender of a line makes: `queueOutput`, and `disconnect` if that fails. -/
def deliver (s : ChatServer) (fd : Fd) (data : Bytes) (reason : String) : Bool × ChatServer :=
  match s.queueOutput fd data with
  | (true, s) => (true, s)
  | (false, s) => (false, s.disconnect fd reason)

section Deliver

variable {s : ChatServer} {fd : Fd} {record : ClientConnection}

theorem deliver_fst (found : s.clients fd = some record) (data : Bytes) (reason : String) :
    (s.deliver fd data reason).1 = (s.entry fd).accepts s.serverIteration data := by
  simp only [deliver, queueOutput, found, Entry.accepts, entry_client, entry_port,
    ← queueOutputCommon_fst]
  generalize queueOutputCommon s.serverIteration record (s.ports fd) data = result
  obtain ⟨queued, record, port⟩ := result
  cases queued <;> rfl

theorem deliver_performs (found : s.clients fd = some record) (data : Bytes) (reason : String) :
    Performs s (s.deliver fd data reason).2
      (only fd (Entry.offered s.serverIteration data reason)) := by
  simp only [deliver, queueOutput, found]
  cases result : queueOutputCommon s.serverIteration record (s.ports fd) data with
  | mk queued rest =>
    obtain ⟨record', port⟩ := rest
    have stored := setClient_setPort_performs s fd record' port
    cases queued with
    | true =>
      exact stored.congr_only (by simp [Entry.offered, found, result]) fun _ ne => only_of_ne ne _ _
    | false =>
      refine (stored.trans (disconnect_performs _ fd reason)).congr_only ?_ fun _ ne => ?_
      · simp [Entry.offered, found, result]
      · simp [ne]

theorem deliver_rooms {spare : Set Nat} (h : s.RoomsOk spare) (found : s.clients fd = some record)
    (data : Bytes) (reason : String) : (s.deliver fd data reason).2.RoomsOk spare := by
  simp only [deliver, queueOutput, found]
  have session := (queueOutputCommon_offered s.serverIteration record (s.ports fd) data).session
  generalize queueOutputCommon s.serverIteration record (s.ports fd) data = result at session ⊢
  obtain ⟨queued, record', port⟩ := result
  have kept : ((s.setClient fd record').setPort fd port).RoomsOk spare := by
    refine h.still_only (setClient_setPort_performs s fd record' port) rfl ?_
    rw [Entry.occupant_of_session session port (s.ports fd), occupancy, entry, found]
  cases queued with
  | true => exact kept
  | false => exact disconnect_rooms kept fd reason

end Deliver

end ChatServer
end Partyline
