import Partyline.Invariant

/-! Who is told what by a frame, read off the state before it, and that handling
the frame tells exactly that. A chat line is the exception: the first member
that refuses it ends the round. -/
namespace Partyline

namespace Entry

theorem offered_client (e : Entry) (serverIteration : Nat) (data : Bytes) (reason : String) :
    (e.offered serverIteration data reason).client.isSome = e.accepts serverIteration data := by
  cases taken : e.accepts serverIteration data with
  | true =>
    obtain ⟨record, -, result⟩ := offered_of_accepts taken reason
    simp [result]
  | false =>
    cases found : e.client with
    | none => simp [found]
    | some record => simp [offered_of_rejects taken found]

theorem offered_offers {e : Entry} {record : ClientConnection} (found : e.client = some record)
    (serverIteration : Nat) (data : Bytes) (reason : String) :
    ∃ outcome, offers (e.offered serverIteration data reason).port.history =
        offers e.port.history ++ [(data, outcome)] ∧
      (outcome = .rejected ↔ e.accepts serverIteration data = false) := by
  obtain ⟨-, -, -, outcome, calls, history, silent, rejected⟩ :=
    queueOutputCommon_offered serverIteration record e.port data
  rw [queueOutputCommon_fst] at rejected
  have told : offers (queueOutputCommon serverIteration record e.port data).2.2.history =
      offers e.port.history ++ [(data, outcome)] := by
    rw [history, offers_cons, offers_of_silent _ fun effect mem => (silent effect mem).2.1]
    rfl
  refine ⟨outcome, ?_, by simpa only [accepts, found] using rejected⟩
  cases taken : e.accepts serverIteration data with
  | true =>
    obtain ⟨same, found', result⟩ := offered_of_accepts taken reason
    obtain rfl : record = same := Option.some.inj (found.symm.trans found')
    rw [result, told]
  | false =>
    rw [offered_of_rejects taken found, offers_cons, told]
    simp

/-- What remains of an entry that is offered a line, if there is one for it. If it
is closed, that is not for its peer. -/
def Told (serverIteration : Nat) (line : Option Bytes) (e e' : Entry) : Prop :=
  match line with
  | none => e' = e
  | some data => ∃ reason, reason ≠ "peer closed connection" ∧
      e' = e.offered serverIteration data reason

theorem Told.offers {serverIteration : Nat} {line : Option Bytes} {e e' : Entry}
    (h : Told serverIteration line e e') (connected : e.client ≠ none) :
    ∃ outcome, offers e'.port.history =
        offers e.port.history ++ (line.map fun data => (data, outcome)).toList ∧
      ∀ data, line = some data → (outcome = .rejected ↔ e.accepts serverIteration data = false) := by
  obtain ⟨record, found⟩ := Option.ne_none_iff_exists'.mp connected
  cases line with
  | none =>
    obtain rfl : e' = e := h
    exact ⟨.queued, by simp, by simp⟩
  | some data =>
    obtain ⟨reason, -, rfl⟩ := h
    obtain ⟨outcome, told, rejected⟩ := offered_offers found serverIteration data reason
    exact ⟨outcome, told, by simpa using rejected⟩

theorem Told.lines {serverIteration : Nat} {line : Option Bytes} {e e' : Entry}
    (h : Told serverIteration line e e') : ∃ new, Partyline.offers e'.port.history =
      Partyline.offers e.port.history ++ new ∧ new.length ≤ 1 ∧
        ∀ offer ∈ new, line = some offer.1 := by
  cases found : e.client with
  | none =>
    have same : e' = e := by
      cases line with
      | none => exact h
      | some data =>
        obtain ⟨reason, -, rfl⟩ := h
        exact offered_none found _ _ _
    exact ⟨[], by simp [same], by simp, by simp⟩
  | some record =>
    obtain ⟨outcome, told, -⟩ := h.offers (by simp [found])
    exact ⟨_, told, by cases line <;> simp, by cases line <;> simp⟩

theorem Told.atMostOne {serverIteration : Nat} {line : Option Bytes} {e e' : Entry}
    (h : Told serverIteration line e e') : ∃ new, Partyline.offers e'.port.history =
      Partyline.offers e.port.history ++ new ∧ new.length ≤ 1 := by
  obtain ⟨new, told, short, -⟩ := h.lines
  exact ⟨new, told, short⟩

theorem Told.client {serverIteration : Nat} {line : Option Bytes} {e e' : Entry}
    (h : Told serverIteration line e e') : e'.client = none ↔
      e.client = none ∨ ∃ data, line = some data ∧ e.accepts serverIteration data = false := by
  cases line with
  | none =>
    obtain rfl : e' = e := h
    simp
  | some data =>
    obtain ⟨reason, -, rfl⟩ := h
    have client := e.offered_client serverIteration data reason
    rw [← Option.not_isSome_iff_eq_none, client]
    cases found : e.client <;> simp [accepts, found]

theorem Told.occupant {serverIteration : Nat} {line : Option Bytes} {e e' : Entry}
    (h : Told serverIteration line e e') (connected : e'.client ≠ none) :
    e'.occupant = e.occupant := by
  cases line with
  | none =>
    obtain rfl : e' = e := h
    rfl
  | some data =>
    obtain ⟨reason, -, rfl⟩ := h
    rw [offered_occupant, if_pos]
    rw [← offered_client _ _ _ reason, Option.isSome_iff_ne_none]
    exact connected

theorem notified_told {e : Entry} {serverIteration roomId : Nat} {excludedFd : Int}
    {message : Bytes} {fd : Fd} : Told serverIteration
      (if (fd : Int) ≠ excludedFd ∧ e.occupant = some roomId then some message else none) e
      (e.notified serverIteration roomId excludedFd message fd) := by
  unfold notified
  split_ifs
  · exact ⟨_, by decide, rfl⟩
  · rfl

theorem relocated_of_ne {serverIteration : Nat} {sender fd : Fd} {source : ClientConnection}
    {oldName name : Bytes} {roomId : Nat} (elsewhere : roomId ≠ source.currRoom)
    (ne : fd ≠ sender) (e : Entry) : Told serverIteration
      (if e.occupant = some source.currRoom then some (leftLine source.username oldName)
        else if e.occupant = some roomId then some (joinedLine source.username name) else none) e
      (e.relocated serverIteration sender source oldName name roomId fd) := by
  have ne' : (fd : Int) ≠ sender := by exact_mod_cast ne
  have listed : (fd : Int) ≠ -1 := by omega
  simp only [relocated, ChatServer.only_of_ne ne]
  by_cases old : e.occupant = some source.currRoom
  · rw [if_pos old, notified, if_neg, notified, if_pos ⟨ne', old⟩]
    · exact ⟨_, by decide, rfl⟩
    · rintro ⟨-, there⟩
      rw [notified, if_pos ⟨ne', old⟩, offered_occupant] at there
      split_ifs at there
      exact elsewhere (Option.some.inj (there.symm.trans old))
  · rw [if_neg old]
    have same : e.notified serverIteration source.currRoom sender
        (leftLine source.username oldName) fd = e := by
      rw [notified, if_neg fun there => old there.2]
    have told : Told serverIteration _ e (e.notified serverIteration roomId (-1)
      (joinedLine source.username name) fd) := notified_told
    rw [same]
    simpa only [listed, ne_eq, not_false_eq_true, true_and] using told

theorem relocated_self {serverIteration : Nat} {sender : Fd} {source : ClientConnection}
    {oldName name : Bytes} {roomId : Nat} {e : Entry} (active : e.occupant ≠ none) :
    Told serverIteration (some (joinedLine source.username name)) (e.moved roomId)
      (e.relocated serverIteration sender source oldName name roomId sender) := by
  have home : (e.moved roomId).occupant = some roomId := by
    obtain ⟨old, home⟩ := Option.ne_none_iff_exists'.mp active
    obtain ⟨record, found, active, -⟩ := occupant_some.mp home
    exact occupant_some.mpr ⟨{ record with currRoom := roomId }, by simp [moved, found], active, rfl⟩
  have listed : (sender : Int) ≠ -1 := by omega
  have same : e.notified serverIteration source.currRoom sender
      (leftLine source.username oldName) sender = e := by
    rw [notified, if_neg fun there => there.1 rfl]
  rw [relocated, same, ChatServer.only_self, notified, if_pos ⟨listed, home⟩]
  exact ⟨_, by decide, rfl⟩

@[simp] theorem accepts_moved (serverIteration : Nat) (data : Bytes) (roomId : Nat) (e : Entry) :
    (e.moved roomId).accepts serverIteration data = e.accepts serverIteration data := by
  unfold accepts moved
  cases e.client <;> rfl

theorem accepts_erased {e : Entry} {client : ClientConnection} (found : e.client = some client)
    (serverIteration : Nat) (data remaining : Bytes) (taken : Effect) :
    (e.erased client remaining taken).accepts serverIteration data =
      e.accepts serverIteration data := by
  simp only [accepts, found]
  rfl

end Entry

namespace ChatServer

/-- The line that handling a request of `sender` offers to `fd`. -/
def lineTo (s : ChatServer) (sender : Fd) (source : ClientConnection) :
    Request → Fd → Option Bytes
  | .ignored, _ => none
  | .chat words, fd =>
    if fd ≠ sender ∧ s.occupancy fd = some source.currRoom then
      some (chatLine source.username words)
    else none
  | .reply line _, fd => if fd = sender then some line else none
  | .move name, fd =>
    let oldName := Rooms.roomName s.rooms source.currRoom
    if oldName = name then none
    else if fd = sender then some (joinedLine source.username name)
    else if s.occupancy fd = some source.currRoom then some (leftLine source.username oldName)
    else if (s.occupancy fd).map (Rooms.roomName s.rooms) = some name then
      some (joinedLine source.username name)
    else none
  | .quit, fd =>
    if fd ≠ sender ∧ s.occupancy fd = some source.currRoom then some (quitLine source.username)
    else none

theorem request_reply {s : ChatServer} {source : ClientConnection} {frame line : Bytes}
    {reason : String} (asked : s.request source frame = .reply line reason) :
    reason ≠ "peer closed connection" := by
  simp only [request] at asked
  grind

section Told

variable {s : ChatServer} (h : s.RoomsOk ∅) {sender : Fd} {source : ClientConnection}
  (found : s.clients sender = some source) (active : source.clientState = .active) (frame : Bytes)

include h found active

theorem processFrame_told (spoken : ∀ words, s.request source frame ≠ .chat words) {fd : Fd}
    (ne : fd ≠ sender) : Entry.Told s.serverIteration
      (s.lineTo sender source (s.request source frame) fd) (s.entry fd)
      ((s.processFrame sender frame).2.entry fd) := by
  have ne' : (fd : Int) ≠ sender := by exact_mod_cast ne
  rw [processFrame_eq found (roomName_of_ne_zero h active found) frame]
  cases asked : s.request source frame with
  | ignored => rfl
  | chat words => exact (spoken words asked).elim
  | reply line reason =>
    simp only [lineTo, if_neg ne]
    exact ((deliver_performs found line reason).entries fd).trans (only_of_ne ne _ _)
  | move name =>
    simp only [lineTo, if_neg ne]
    by_cases same : Rooms.roomName s.rooms source.currRoom = name
    · rw [if_pos same]
      exact (moveTo_same h found active same).1.entries fd
    · obtain ⟨roomId, elsewhere, named, performs, -⟩ := moveTo_other h found active same
      rw [if_neg same, performs.entries]
      have there : (s.occupancy fd).map (Rooms.roomName s.rooms) = some name ↔
          s.occupancy fd = some roomId := by
        cases home : s.occupancy fd with
        | none => simp
        | some home' => simpa using named fd home' home
      simp only [there]
      exact Entry.relocated_of_ne elsewhere ne (s.entry fd)
  | quit =>
    obtain ⟨performs, -⟩ := depart_performs h source.currRoom (quitLine source.username) sender
      "client requested QUIT"
    rw [performs.entries, if_neg ne]
    have member : (fd ≠ sender ∧ s.occupancy fd = some source.currRoom) ↔
        (fd : Int) ≠ sender ∧ (s.entry fd).occupant = some source.currRoom := by
      simp [ne, ne', entry_occupant]
    simp only [lineTo, member]
    exact Entry.notified_told

theorem processFrame_reply {line : Bytes} {reason : String}
    (asked : s.request source frame = .reply line reason) :
    (s.processFrame sender frame).2.entry sender =
      (s.entry sender).offered s.serverIteration line reason := by
  have same := (deliver_performs found line reason).entries sender
  rw [processFrame_eq found (roomName_of_ne_zero h active found) frame, asked]
  rwa [only_self] at same

/-- The sender itself. A line of its own is offered where it has moved to. -/
theorem processFrame_self :
    match s.request source frame with
    | .ignored | .chat _ => (s.processFrame sender frame).2.entry sender = s.entry sender
    | .reply line _ => Entry.Told s.serverIteration (some line) (s.entry sender)
        ((s.processFrame sender frame).2.entry sender)
    | .move name =>
      if Rooms.roomName s.rooms source.currRoom = name then
        (s.processFrame sender frame).2.entry sender = s.entry sender
      else ∃ roomId, Entry.Told s.serverIteration (some (joinedLine source.username name))
        ((s.entry sender).moved roomId) ((s.processFrame sender frame).2.entry sender)
    | .quit => (s.processFrame sender frame).2.entry sender =
        (s.entry sender).closed "client requested QUIT" := by
  rw [processFrame_eq found (roomName_of_ne_zero h active found) frame]
  cases asked : s.request source frame with
  | ignored => rfl
  | chat words =>
    obtain ⟨room, mem, -, result⟩ := broadcast_eq h found active words
    obtain ⟨served, -, -, performs, -⟩ := broadcastLoop_performs (chatLine source.username words)
      room.subscribedClients (h.unique room mem) found
    dsimp only
    rw [result, performs.entries]
    simp [Entry.heard]
  | reply line reason =>
    have same := (deliver_performs found line reason).entries sender
    rw [only_self] at same
    exact ⟨reason, request_reply asked, same⟩
  | move name =>
    dsimp only
    split_ifs with same
    · exact (moveTo_same h found active same).1.entries sender
    · obtain ⟨roomId, -, -, performs, -⟩ := moveTo_other h found active same
      have home : (s.entry sender).occupant ≠ none := by simp [Entry.occupant, found, active]
      rw [performs.entries]
      exact ⟨roomId, Entry.relocated_self home⟩
  | quit =>
    have same := (depart_performs h source.currRoom (quitLine source.username) sender
      "client requested QUIT").1.entries sender
    rwa [if_pos rfl] at same

end Told

section Frame

variable {s : ChatServer} {fd sender : Fd} {client : ClientConnection} {raw remaining : Bytes}
  (found : s.clients sender = some client)
  (split : splitFrame client.inputBuffer = some (raw, remaining))
  (short : raw.length ≤ maxFrameBytes) (active : client.clientState = .active)
  (framesProcessed : Nat)

abbrev taking (s : ChatServer) (sender : Fd) (client : ClientConnection) (raw remaining : Bytes) :
    ChatServer :=
  s.eraseFrame sender client remaining (.frame raw (stripCarriageReturn raw))

theorem taking_clients (s : ChatServer) (sender : Fd) (client : ClientConnection)
    (raw remaining : Bytes) : (s.taking sender client raw remaining).clients sender =
      some { client with inputBuffer := remaining } :=
  Function.update_self _ _ _

theorem taking_entry (s : ChatServer) {fd sender : Fd} (client : ClientConnection)
    (raw remaining : Bytes) (ne : fd ≠ sender) :
    (s.taking sender client raw remaining).entry fd = s.entry fd := by
  rw [(eraseFrame_performs s sender client remaining _).entries, only_of_ne ne]

include found

theorem taking_occupancy (fd : Fd) :
    (s.taking sender client raw remaining).occupancy fd = s.occupancy fd := by
  by_cases same : fd = sender
  · subst same
    simp [occupancy, Entry.occupant, found, taking_clients]
  · rw [occupancy, taking_entry s client raw remaining same, entry_occupant]

theorem taking_lineTo (asked : Request) (fd : Fd) :
    (s.taking sender client raw remaining).lineTo sender { client with inputBuffer := remaining }
      asked fd = s.lineTo sender client asked fd := by
  have rooms : (s.taking sender client raw remaining).rooms = s.rooms := rfl
  cases asked <;> simp only [lineTo, taking_occupancy found, rooms]

include split short active

theorem frameStep_active : (frameStep sender framesProcessed s).server =
      ((s.taking sender client raw remaining).processFrame sender (stripCarriageReturn raw)).2 ∧
    ((frameStep sender framesProcessed s = .next (framesProcessed + 1)
        (frameStep sender framesProcessed s).server) ↔
      ((s.taking sender client raw remaining).processFrame sender (stripCarriageReturn raw)).1 =
          true ∧ (frameStep sender framesProcessed s).server.clients sender ≠ none) := by
  rcases frameStep_cases found framesProcessed with
    ⟨unsplit, -⟩ | ⟨unsplit, -⟩ | ⟨raw', remaining', split', ⟨long, -⟩ | ⟨-, awaiting, -⟩ |
      ⟨-, -, result⟩⟩
  · simp [split] at unsplit
  · simp [split] at unsplit
  all_goals
    obtain ⟨rfl, rfl⟩ : raw' = raw ∧ remaining' = remaining := by simp_all
  · omega
  · simp [active] at awaiting
  · rw [result]
    by_cases stops : ((s.taking sender client raw' remaining').processFrame sender
        (stripCarriageReturn raw')).1 = false ∨ ((s.taking sender client raw'
          remaining').processFrame sender (stripCarriageReturn raw')).2.clients sender = none
    · rw [if_pos stops]
      refine ⟨rfl, by simp, fun goes => ?_⟩
      rcases stops with stops | stops
      · simp [stops] at goes
      · exact (goes.2 stops).elim
    · rw [if_neg stops]
      obtain ⟨kept, connected⟩ := not_or.mp stops
      exact ⟨rfl, fun _ => ⟨by simpa using kept, connected⟩, fun _ => rfl⟩

variable (h : s.RoomsOk ∅)

include h

theorem frameStep_told (spoken : ∀ words, s.request client (stripCarriageReturn raw) ≠ .chat words)
    (ne : fd ≠ sender) : Entry.Told s.serverIteration
      (s.lineTo sender client (s.request client (stripCarriageReturn raw)) fd) (s.entry fd)
      ((frameStep sender framesProcessed s).server.entry fd) := by
  have kept := eraseFrame_rooms h found remaining (.frame raw (stripCarriageReturn raw))
  have told := processFrame_told kept (taking_clients s sender client raw remaining) active
    (stripCarriageReturn raw) spoken ne
  rw [taking_entry s client raw remaining ne] at told
  rw [(frameStep_active found split short active framesProcessed).1, ← taking_lineTo found]
  exact told

omit split short in
/-- A chat line goes round the members of the sender's room. -/
theorem frameStep_chat (remaining : Bytes) {words : List Bytes}
    (asked : s.request client (stripCarriageReturn raw) = .chat words) :
    ∃ room ∈ s.rooms, room.roomIdx = client.currRoom ∧
      (s.taking sender client raw remaining).processFrame sender (stripCarriageReturn raw) =
        broadcastLoop sender (chatLine client.username words) room.subscribedClients
          (s.taking sender client raw remaining) := by
  have kept := eraseFrame_rooms h found remaining (.frame raw (stripCarriageReturn raw))
  have found' := taking_clients s sender client raw remaining
  have asked' : (s.taking sender client raw remaining).request
      { client with inputBuffer := remaining } (stripCarriageReturn raw) = .chat words := asked
  obtain ⟨room, mem, id, result⟩ := broadcast_eq kept found' active words
  refine ⟨room, mem, id, ?_⟩
  rw [processFrame_eq found' (roomName_of_ne_zero kept active found') (stripCarriageReturn raw),
    asked']
  exact result

end Frame

end ChatServer
end Partyline
