import Partyline.Notices

/-! The frames a client can send, and what handling one does, entry by entry. -/
namespace Partyline

/-- What a frame of a logged-in client asks for. JOIN of a room and LEAVE are
both a move; what asks for nothing is ignored. -/
inductive Request where
  | ignored
  | chat (words : List Bytes)
  | reply (line : Bytes) (reason : String)
  | move (name : Bytes)
  | quit
deriving DecidableEq

/-- The members of the old room are told, then the client is moved, then the
members of the new room, the client among them. -/
def Entry.relocated (serverIteration : Nat) (sender : Fd) (source : ClientConnection)
    (oldName name : Bytes) (roomId : Nat) (fd : Fd) (e : Entry) : Entry :=
  Entry.notified serverIteration roomId (-1) (joinedLine source.username name) fd
    (ChatServer.only sender (Entry.moved roomId) fd
      (Entry.notified serverIteration source.currRoom sender (leftLine source.username oldName)
        fd e))

def Entry.loggedIn (client : ClientConnection) (remaining frame : Bytes) (taken : Effect)
    (e : Entry) : Entry :=
  ⟨some { client with
    inputBuffer := remaining, username := frame, clientState := .active, currRoom := 0 },
    e.port.note taken⟩

namespace ChatServer

open Rooms (labels)

def request (s : ChatServer) (source : ClientConnection) (frame : Bytes) : Request :=
  let words := tokens frame
  let word := words.headD []
  if frame = [] then .ignored
  else if word ∉ commands then .chat words
  else if word = ascii "LIST" then
    .reply (listReply s.rooms) "slow client: LIST response output queue overflow"
  else if word = ascii "JOIN" ∧ words.length = 2 then .move (words.getD 1 [])
  else if word = ascii "LEAVE" ∧ source.currRoom ≠ 0 then .move mainRoomName
  else if word = ascii "WHERE" ∧ words.length = 1 then
    .reply (whereReply (Rooms.roomName s.rooms source.currRoom))
      "slow client: WHERE response output queue overflow"
  else if word = ascii "QUIT" then .quit
  else .ignored

theorem request_chat {s : ChatServer} {client : ClientConnection} {frame : Bytes} {words : List Bytes}
    (asked : s.request client frame = .chat words) : words = tokens frame := by
  simp only [request] at asked
  split_ifs at asked
  exact (Request.chat.inj asked).symm

theorem request_line {s : ChatServer} {client : ClientConnection} {frame line : Bytes} {reason : String}
    (asked : s.request client frame = .reply line reason) :
    line = listReply s.rooms ∨ line = whereReply (Rooms.roomName s.rooms client.currRoom) := by
  simp only [request] at asked
  split_ifs at asked
  · exact .inl (Request.reply.inj asked).1.symm
  · exact .inr (Request.reply.inj asked).1.symm

theorem request_list (s : ChatServer) (client : ClientConnection) {frame : Bytes}
    (word : (tokens frame).headD [] = ascii "LIST") : s.request client frame =
      .reply (listReply s.rooms) "slow client: LIST response output queue overflow" := by
  have command : ascii "LIST" ∈ commands := by decide
  have nonempty : frame ≠ [] := by
    rintro rfl
    revert word
    decide
  simp only [request, word, command, if_neg nonempty, not_true_eq_false, if_false, if_true]

theorem request_where (s : ChatServer) (client : ClientConnection) {frame : Bytes}
    (words : tokens frame = [ascii "WHERE"]) : s.request client frame =
      .reply (whereReply (Rooms.roomName s.rooms client.currRoom))
        "slow client: WHERE response output queue overflow" := by
  have command : ascii "WHERE" ∈ commands := by decide
  have list : ascii "WHERE" ≠ ascii "LIST" := by decide
  have join : ascii "WHERE" ≠ ascii "JOIN" := by decide
  have leave : ascii "WHERE" ≠ ascii "LEAVE" := by decide
  have nonempty : frame ≠ [] := by
    rintro rfl
    simp [tokens] at words
  simp [request, words, command, list, join, leave, nonempty]

def moveTo (s : ChatServer) (sender : Fd) (source : ClientConnection) (name : Bytes) :
    ChatServer :=
  let oldRoom := source.currRoom
  let oldName := Rooms.roomName s.rooms oldRoom
  let s := if oldName ≠ name then
      s.notifyRoom oldRoom sender (leftLine source.username oldName)
    else s
  let s := s.joinRoom sender name
  let s := if oldName ≠ name then s.announceJoin sender name else s
  { s with rooms := Rooms.deleteEmptyRoom s.rooms oldRoom }

/-- LEAVE is a move to the main room, since the room left is another one. -/
theorem processFrame_eq {s : ChatServer} {sender : Fd} {source : ClientConnection}
    (found : s.clients sender = some source)
    (away : source.currRoom ≠ 0 → Rooms.roomName s.rooms source.currRoom ≠ mainRoomName)
    (frame : Bytes) :
    s.processFrame sender frame = match s.request source frame with
      | .ignored => (true, s)
      | .chat words => s.broadcast sender words
      | .reply line reason => s.deliver sender line reason
      | .move name => (true, s.moveTo sender source name)
      | .quit => (false, (s.notifyRoom source.currRoom sender (quitLine source.username)).disconnect
          sender "client requested QUIT") := by
  by_cases empty : frame = []
  · simp only [processFrame, request, if_pos empty]
  by_cases chat : (tokens frame).headD [] ∉ commands
  · simp only [processFrame, request, found, if_neg empty, if_pos chat]
  by_cases list : (tokens frame).headD [] = ascii "LIST"
  · simp only [processFrame, request, found, if_neg empty, if_neg chat, if_pos list]
    rfl
  by_cases join : (tokens frame).headD [] = ascii "JOIN" ∧ (tokens frame).length = 2
  · simp only [processFrame, request, found, if_neg empty, if_neg chat, if_neg list, if_pos join]
    rfl
  by_cases leave : (tokens frame).headD [] = ascii "LEAVE" ∧ source.currRoom ≠ 0
  · simp only [processFrame, request, found, if_neg empty, if_neg chat, if_neg list, if_neg join,
      if_pos leave, moveTo, if_pos (away leave.2)]
  simp only [processFrame, request, found, if_neg empty, if_neg chat, if_neg list, if_neg join,
    if_neg leave]
  split_ifs <;> rfl

/-- A logged-in client joins a room of a table in which only its own place is yet to
be changed, and the room is told. -/
theorem joinRoom_announced {s : ChatServer} {sender : Fd} {source : ClientConnection}
    (found : s.clients sender = some source) (active : source.clientState = .active)
    {spare : Set Nat} {occupancy : Fd → Option Nat}
    (h : Rooms.Represents spare s.rooms occupancy)
    (others : ∀ fd, fd ≠ sender → s.occupancy fd = occupancy fd) (name : Bytes) :
    ∃ roomId, (∀ room ∈ s.rooms, room.roomName = name ↔ room.roomIdx = roomId) ∧
      Performs s (s.joinRoom sender name) (only sender (Entry.moved roomId)) ∧
      (s.joinRoom sender name).RoomsOk (spare ∪ {old | occupancy sender = some old}) ∧
      labels (s.joinRoom sender name).rooms ⊆ (roomId, name) :: labels s.rooms ∧
      (s.joinRoom sender name).announceJoin sender name =
        (s.joinRoom sender name).notifyRoom roomId (-1) (joinedLine source.username name) := by
  obtain ⟨roomId, names, joins, joined, made⟩ := joinRoom_performs found h name
  have after : (s.joinRoom sender name).clients sender = some { source with currRoom := roomId } := by
    have moved := joins.entries sender
    rw [only_self] at moved
    simpa [Entry.moved, found] using congrArg Entry.client moved
  have there : (s.joinRoom sender name).occupancy =
      Function.update occupancy sender (some roomId) := by
    funext fd
    by_cases same : fd = sender
    · subst same
      simp [ChatServer.occupancy, Entry.occupant, after, active]
    · rw [Function.update_of_ne same, ← others fd same, ChatServer.occupancy, joins.entries,
        only_of_ne same, ChatServer.occupancy]
  rw [← there] at joined
  exact ⟨roomId, names, joins, joined, made, by simp only [announceJoin, after]⟩

section Handling

variable {spare : Set Nat} {s : ChatServer} (h : s.RoomsOk spare)
  {sender : Fd} {source : ClientConnection} (found : s.clients sender = some source)

include h

theorem roomName_of_ne_zero (active : source.clientState = .active)
    (found : s.clients sender = some source) (elsewhere : source.currRoom ≠ 0) :
    Rooms.roomName s.rooms source.currRoom ≠ mainRoomName := by
  obtain ⟨room, mem, id⟩ := h.homes sender _ (Entry.occupant_some.mpr ⟨source, found, active, rfl⟩)
  obtain ⟨main, there, zero, named⟩ := h.main
  rw [← id, h.roomName mem]
  intro same
  have one := Library.eq_of_key h.names mem there (same.trans named.symm)
  exact elsewhere (by rw [← id, one, zero])

theorem depart_performs (roomId : Nat) (message : Bytes) (fd : Fd) (reason : String) :
    Performs s ((s.notifyRoom roomId fd message).disconnect fd reason) (fun other e =>
        if other = fd then e.closed reason
        else Entry.notified s.serverIteration roomId fd message other e) ∧
      ((s.notifyRoom roomId fd message).disconnect fd reason).RoomsOk spare := by
  refine ⟨((notifyRoom_performs roomId fd message h).trans (disconnect_performs _ fd reason)).congr
    fun other => ?_, disconnect_rooms (notifyRoom_rooms roomId fd message h).1 fd reason⟩
  by_cases same : other = fd
  · subst same
    simp [Entry.notified]
  · simp [same]

include found

theorem broadcast_eq (active : source.clientState = .active) (words : List Bytes) :
    ∃ room ∈ s.rooms, room.roomIdx = source.currRoom ∧
      s.broadcast sender words = broadcastLoop sender (chatLine source.username words)
        room.subscribedClients s := by
  obtain ⟨room, mem, id⟩ := h.homes sender _ (Entry.occupant_some.mpr ⟨source, found, active, rfl⟩)
  refine ⟨room, mem, id, ?_⟩
  simp only [broadcast, found, h.findById.mpr ⟨mem, id⟩]

theorem moveTo_same (active : source.clientState = .active) {name : Bytes}
    (same : Rooms.roomName s.rooms source.currRoom = name) :
    Performs s (s.moveTo sender source name) (fun _ e => e) ∧
      (s.moveTo sender source name).RoomsOk spare ∧
      labels (s.moveTo sender source name).rooms ⊆ labels s.rooms := by
  have home : s.occupancy sender = some source.currRoom :=
    Entry.occupant_some.mpr ⟨source, found, active, rfl⟩
  obtain ⟨room, mem, id⟩ := h.homes sender _ home
  obtain ⟨roomId, names, joins, joined, made⟩ := joinRoom_performs found h name
  obtain rfl : source.currRoom = roomId := by
    rw [← id]
    refine (names room mem).mp ?_
    rw [← same, ← id, h.roomName mem]
  have unmoved : Performs s (s.joinRoom sender name) fun _ e => e := by
    refine joins.congr fun fd => ?_
    by_cases there : fd = sender
    · subst there
      rw [only_self, Entry.moved_self home]
    · simp [there]
  have occupancy : (s.joinRoom sender name).occupancy = s.occupancy := by
    funext fd
    rw [ChatServer.occupancy, unmoved.entries, ChatServer.occupancy]
  rw [← home, Function.update_eq_self, ← occupancy] at joined
  simp only [moveTo, same, ne_eq, not_true_eq_false, if_false]
  refine ⟨⟨unmoved.entries, unmoved.listener, unmoved.serverIteration, unmoved.dangling⟩, ?_,
    fun label there => ?_⟩
  · refine (joined.deleteEmptyRoom source.currRoom).mono ?_
    rintro roomId ⟨old | left, other⟩
    · exact old
    · rw [occupancy] at left
      exact (other (Option.some.inj (left.symm.trans home))).elim
  · rcases List.mem_cons.mp (made (Rooms.labels_deleteEmptyRoom _ _ there)) with rfl | old
    · rw [← same, ← id, h.roomName mem]
      exact List.mem_map_of_mem mem
    · exact old

theorem moveTo_other (active : source.clientState = .active) {name : Bytes}
    (differ : Rooms.roomName s.rooms source.currRoom ≠ name) :
    ∃ roomId, roomId ≠ source.currRoom ∧
      (∀ fd home, s.occupancy fd = some home →
        (Rooms.roomName s.rooms home = name ↔ home = roomId)) ∧
      Performs s (s.moveTo sender source name) (Entry.relocated s.serverIteration sender source
        (Rooms.roomName s.rooms source.currRoom) name roomId) ∧
      (s.moveTo sender source name).RoomsOk spare ∧
      ∀ label ∈ labels (s.moveTo sender source name).rooms,
        label = (roomId, name) ∨ label.1 ≠ roomId ∧ label ∈ labels s.rooms := by
  have home : s.occupancy sender = some source.currRoom :=
    Entry.occupant_some.mpr ⟨source, found, active, rfl⟩
  have told := notifyRoom_performs source.currRoom sender
    (leftLine source.username (Rooms.roomName s.rooms source.currRoom)) h
  obtain ⟨kept, fewer⟩ := notifyRoom_rooms source.currRoom sender
    (leftLine source.username (Rooms.roomName s.rooms source.currRoom)) h
  have unfolded : s.moveTo sender source name =
      let t := ((s.notifyRoom source.currRoom sender
        (leftLine source.username (Rooms.roomName s.rooms source.currRoom))).joinRoom sender
          name).announceJoin sender name
      { t with rooms := Rooms.deleteEmptyRoom t.rooms source.currRoom } := by
    simp only [moveTo, ne_eq, differ, not_false_eq_true, if_true]
  rw [unfolded]
  generalize s.notifyRoom source.currRoom sender
    (leftLine source.username (Rooms.roomName s.rooms source.currRoom)) = t at told kept fewer ⊢
  have spared : t.entry sender = s.entry sender := by simp [told.entries, Entry.notified]
  have found' : t.clients sender = some source := by rw [(entry_eq spared).1, found]
  have home' : t.occupancy sender = some source.currRoom := by rw [occupancy, spared]; exact home
  obtain ⟨roomId, names, joins, joined, made, announced⟩ :=
    joinRoom_announced found' active kept (fun _ _ => rfl) name
  -- the rooms of the occupied ids are the same before and after the first notice
  have named : ∀ room ∈ t.rooms, Rooms.roomName s.rooms room.roomIdx = room.roomName := by
    intro room mem
    obtain ⟨old, there, same⟩ := List.mem_map.mp (fewer (List.mem_map_of_mem mem))
    obtain ⟨id, name⟩ := Prod.mk.inj same
    rw [← id, h.roomName there, name]
  have elsewhere : roomId ≠ source.currRoom := by
    obtain ⟨room, mem, id⟩ := kept.homes sender _ home'
    rintro rfl
    refine differ ?_
    rw [← id, named room mem]
    exact (names room mem).mpr id
  rw [announced]
  have welcomed := notifyRoom_performs roomId (-1) (joinedLine source.username name) joined
  obtain ⟨kept', fewer'⟩ := notifyRoom_rooms roomId (-1) (joinedLine source.username name) joined
  have whole := (told.trans joins).trans welcomed
  refine ⟨roomId, elsewhere, fun fd there lives => ?_, ⟨fun fd => ?_, whole.listener,
    whole.serverIteration, whole.dangling⟩, ?_, fun label mem => ?_⟩
  · have lives' : ∃ other, t.occupancy other = some there := by
      by_cases here : there = source.currRoom
      · exact ⟨sender, here ▸ home'⟩
      · refine ⟨fd, ?_⟩
        rw [ChatServer.occupancy, told.entries, Entry.notified, if_neg]
        · exact lives
        · rintro ⟨-, same⟩
          exact here (Option.some.inj (lives.symm.trans same))
    obtain ⟨other, lives'⟩ := lives'
    obtain ⟨room, mem, rfl⟩ := kept.homes other there lives'
    rw [named room mem]
    exact names room mem
  · refine (whole.entries fd).trans ?_
    rw [joins.serverIteration, told.serverIteration]
    rfl
  · refine (kept'.deleteEmptyRoom source.currRoom).mono ?_
    rintro roomId ⟨old | left, other⟩
    · exact old
    · exact (other (Option.some.inj (left.symm.trans home'))).elim
  · rcases List.mem_cons.mp (made (fewer' (Rooms.labels_deleteEmptyRoom _ _ mem))) with same | old
    · exact .inl same
    · obtain ⟨room, there, rfl⟩ := List.mem_map.mp old
      by_cases entered : room.roomIdx = roomId
      · exact .inl (by rw [entered, (names room there).mpr entered])
      · exact .inr ⟨entered, fewer old⟩

theorem authenticate_performs (awaiting : source.clientState = .awaitingUsername)
    (remaining frame : Bytes) (taken : Effect) :
    Performs s (s.authenticate sender source remaining frame taken) (fun fd e =>
        Entry.notified s.serverIteration 0 (-1) (joinedLine frame mainRoomName) fd
          (only sender (Entry.loggedIn source remaining frame taken) fd e)) ∧
      (s.authenticate sender source remaining frame taken).RoomsOk spare ∧
      labels (s.authenticate sender source remaining frame taken).rooms ⊆ labels s.rooms := by
  have out : s.occupancy sender = none := by
    simp [occupancy, Entry.occupant, found, awaiting]
  let record := { source with
    inputBuffer := remaining, username := frame, clientState := .active }
  let t := (s.setClient sender record).note sender taken
  have found' : t.clients sender = some record := by simp [t, note]
  have stored := setClient_setPort_performs s sender record ((s.ports sender).note taken)
  have same : t = (s.setClient sender record).setPort sender ((s.ports sender).note taken) := rfl
  rw [← same] at stored
  have others : ∀ fd, fd ≠ sender → t.occupancy fd = s.occupancy fd := by
    intro fd ne
    rw [occupancy, stored.entries, only_of_ne ne, occupancy]
  obtain ⟨roomId, names, joins, joined, made, announced⟩ :=
    joinRoom_announced found' rfl h others mainRoomName
  obtain ⟨main, mem, zero, named⟩ := h.main
  obtain rfl : 0 = roomId := by
    rw [← zero]
    exact (names main mem).mp named
  change Performs s ((t.joinRoom sender mainRoomName).announceJoin sender mainRoomName) _ ∧
    ((t.joinRoom sender mainRoomName).announceJoin sender mainRoomName).RoomsOk spare ∧
    labels ((t.joinRoom sender mainRoomName).announceJoin sender mainRoomName).rooms ⊆ labels s.rooms
  rw [announced]
  obtain ⟨kept, fewer⟩ := notifyRoom_rooms 0 (-1) (joinedLine frame mainRoomName) joined
  refine ⟨((stored.trans joins).trans (notifyRoom_performs 0 (-1) (joinedLine frame mainRoomName)
    joined)).congr fun fd => ?_, ?_, fun label there => ?_⟩
  · rw [joins.serverIteration, stored.serverIteration]
    by_cases same : fd = sender
    · subst same
      simp [Entry.moved, Entry.loggedIn, record]
    · simp [same]
  · refine kept.mono ?_
    rintro roomId (old | left)
    · exact old
    · exact (Option.some_ne_none _ (left.symm.trans out)).elim
  · rcases List.mem_cons.mp (made (fewer there)) with rfl | old
    · rw [← zero, ← named]
      exact List.mem_map_of_mem mem
    · exact old

end Handling

end ChatServer
end Partyline
