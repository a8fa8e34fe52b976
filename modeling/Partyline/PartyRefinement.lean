import Partyline.Ordering
import Partyline.Party
import Partyline.Places

/-! The server keeps the party: each of its actions is one of the party's events, with the
same lines for the same clients, or is not seen there. -/
namespace Partyline

open Library

namespace Entry

def lines (e : Entry) : List Bytes :=
  match e.client with
  | none => []
  | some _ => (offers e.port.history).map Prod.fst

def title (e : Entry) : Option (ClientState × Bytes) :=
  e.client.map fun record => (record.clientState, record.username)

theorem lines_of_client {e : Entry} (connected : e.client ≠ none) :
    e.lines = (offers e.port.history).map Prod.fst := by
  obtain ⟨record, found⟩ := Option.ne_none_iff_exists'.mp connected
  rw [lines, found]

theorem lines_congr {e e' : Entry} (client : e.client = none ↔ e'.client = none)
    (same : Partyline.offers e.port.history = Partyline.offers e'.port.history) :
    e.lines = e'.lines := by
  cases found : e.client with
  | none => rw [lines, lines, found, client.mp found]
  | some record =>
    have connected : e.client ≠ none := by simp [found]
    rw [lines_of_client connected, lines_of_client (mt client.mpr connected), same]

theorem Told.connected {serverIteration : Nat} {line : Option Bytes} {e e' : Entry}
    (h : Told serverIteration line e e') (connected : e'.client ≠ none) : e.client ≠ none :=
  fun gone => connected (h.client.mpr (.inl gone))

theorem Told.title {serverIteration : Nat} {line : Option Bytes} {e e' : Entry}
    (h : Told serverIteration line e e') (connected : e'.client ≠ none) : e'.title = e.title := by
  cases line with
  | none =>
    obtain rfl : e' = e := h
    rfl
  | some data =>
    obtain ⟨reason, -, rfl⟩ := h
    have accepted : e.accepts serverIteration data = true := by
      rw [← offered_client _ _ _ reason, Option.isSome_iff_ne_none]
      exact connected
    obtain ⟨record, found, result⟩ := offered_of_accepts accepted reason
    have session := (queueOutputCommon_offered serverIteration record e.port data).session
    simp only [ClientConnection.session, Prod.mk.injEq] at session
    rw [result, Entry.title, Entry.title, found, Option.map_some, Option.map_some, session.1,
      session.2.2.2]

theorem Told.told_lines {serverIteration : Nat} {line : Option Bytes} {e e' : Entry}
    (h : Told serverIteration line e e') (connected : e'.client ≠ none) :
    e'.lines = e.lines ++ line.toList := by
  have before := h.connected connected
  obtain ⟨outcome, told, -⟩ := h.offers before
  rw [lines_of_client connected, lines_of_client before, told, List.map_append]
  cases line <;> rfl

section Silent

variable (e : Entry) (client : ClientConnection) (remaining : Bytes)

theorem erased_lines (found : e.client = some client) (raw frame : Bytes) :
    (e.erased client remaining (.frame raw frame)).lines = e.lines := by
  refine lines_congr (by simp [erased, found]) ?_
  rw [erased, Port.note, offers_cons]
  simp

theorem loggedIn_lines (found : e.client = some client) (raw frame : Bytes) :
    (e.loggedIn client remaining frame (.username raw frame)).lines = e.lines := by
  refine lines_congr (by simp [loggedIn, found]) ?_
  rw [loggedIn, Port.note, offers_cons]
  simp

theorem moved_lines (roomId : Nat) : (e.moved roomId).lines = e.lines :=
  lines_congr (by simp [moved]) rfl

theorem moved_title (roomId : Nat) : (e.moved roomId).title = e.title := by
  rw [title, title, moved, Option.map_map]
  rfl

theorem received_lines {chunk : Bytes} (connected : (e.received chunk).client ≠ none) :
    (e.received chunk).lines = e.lines := by
  cases found : e.client with
  | none => simp [received, found] at connected
  | some record =>
    refine lines_congr (iff_of_false connected (by simp [found])) ?_
    simp only [received, found] at connected ⊢
    split_ifs at connected ⊢
    · simp [closed] at connected
    · rw [Port.note, offers_cons]
      simp

theorem flushed_lines (serverIteration : Nat) : (e.flushed serverIteration).lines = e.lines := by
  cases found : e.client with
  | none => rw [flushed, found]
  | some record =>
    obtain ⟨-, -, -, calls, history, silent⟩ :=
      flushOutputCommon_output serverIteration record e.port
    refine lines_congr (by simp [flushed, found]) ?_
    simp only [flushed, found, history]
    exact offers_of_silent _ fun effect mem => (silent effect mem).2

theorem flushed_title (serverIteration : Nat) : (e.flushed serverIteration).title = e.title := by
  cases found : e.client with
  | none => rw [flushed, found]
  | some record =>
    have session := (flushOutputCommon_output serverIteration record e.port).1
    simp only [ClientConnection.session, Prod.mk.injEq] at session
    simp only [title, flushed, found, Option.map_some, session.1, session.2.2.2]

end Silent

end Entry

namespace ChatServer

open Rooms (labels)

def guestIn (room : Bytes) : ClientState × Bytes → Guest
  | (.awaitingUsername, _) => .nameless
  | (.active, username) => .member username room

def guestOf (s : ChatServer) (client : ClientConnection) : Guest :=
  guestIn (Rooms.roomName s.rooms client.currRoom) (client.clientState, client.username)

def party (s : ChatServer) : Party Fd where
  guests fd := (s.clients fd).map s.guestOf
  told fd := (s.entry fd).lines
  absent fd gone := by rw [Entry.lines, entry_client, Option.map_eq_none_iff.mp gone]

def partyEvent (s : ChatServer) : Action → Option (Party.Event Fd)
  | .iteration | .load _ | .answered _ _ => none
  | .accept fd _ => some (.arrives fd)
  | .receive fd chunk =>
    (s.clients fd).bind fun client =>
      if client.inputBuffer.length + chunk.length > maxInputBufferBytes then some (.expelled fd)
      else none
  | .frame fd _ =>
    (s.clients fd).bind fun client =>
      match splitFrame client.inputBuffer with
      | none => if client.inputBuffer.length > maxFrameBytes then some (.expelled fd) else none
      | some (raw, _) =>
        if raw.length > maxFrameBytes then some (.expelled fd)
        else some (.speaks fd (stripCarriageReturn raw))
  | .peerClosed fd | .recvFailed fd => some (.departs fd)
  | .write fd => if (s.entry fd).flushes s.serverIteration then none else some (.departs fd)

theorem listReply_eq (rooms : List ChatRoom) : listReply rooms = listing (labels rooms) := by
  simp only [listReply, listing, labels, List.flatMap_map]

section Abstraction

variable {s : ChatServer} {fd : Fd} {client : ClientConnection}

theorem party_guests (found : s.clients fd = some client) :
    (party s).guests fd = some (s.guestOf client) :=
  congrArg (Option.map s.guestOf) found

theorem guests_eq_none : (party s).guests fd = none ↔ s.clients fd = none := Option.map_eq_none_iff

theorem guestOf_awaiting (awaiting : client.clientState = .awaitingUsername) :
    s.guestOf client = .nameless := by rw [guestOf, awaiting, guestIn]

theorem guestOf_active (active : client.clientState = .active) : s.guestOf client =
    .member client.username (Rooms.roomName s.rooms client.currRoom) := by
  rw [guestOf, active, guestIn]

theorem party_room (s : ChatServer) (fd : Fd) : (party s).room fd = s.homeName fd := by
  cases found : s.clients fd with
  | none => simp [Party.room, party, found, homeName, occupancy, Entry.occupant]
  | some client =>
    rw [Party.room, party_guests found]
    cases state : client.clientState with
    | awaitingUsername =>
      simp [guestOf_awaiting state, Guest.room, homeName, occupancy, Entry.occupant, found, state]
    | active =>
      simp [guestOf_active state, Guest.room, homeName, occupancy, Entry.occupant, found, state]

variable (h : s.RoomsOk ∅)

include h

theorem homeName_iff {room : ChatRoom} (mem : room ∈ s.rooms) :
    s.homeName fd = some room.roomName ↔ s.occupancy fd = some room.roomIdx := by
  rw [homeName, Option.map_eq_some_iff]
  constructor
  · rintro ⟨home, there, named⟩
    obtain ⟨other, mem', rfl⟩ := h.homes fd home there
    rw [h.roomName mem'] at named
    rw [there, eq_of_key h.names mem' mem named]
  · intro there
    exact ⟨room.roomIdx, there, h.roomName mem⟩

theorem room_main : (party s).room fd = some mainRoomName ↔ s.occupancy fd = some 0 := by
  obtain ⟨main, mem, zero, named⟩ := h.main
  rw [party_room, ← named, homeName_iff h mem, zero]

theorem room_member (found : s.clients fd = some client) (active : client.clientState = .active)
    (other : Fd) :
    (party s).room other = some (Rooms.roomName s.rooms client.currRoom) ↔
      s.occupancy other = some client.currRoom := by
  obtain ⟨room, mem, id⟩ :=
    h.homes fd _ (Entry.occupant_some.mpr ⟨client, found, active, rfl⟩)
  rw [party_room, ← id, h.roomName mem, homeName_iff h mem]

/-- The rooms of the table are those that are there. -/
theorem party_lists : (party s).Lists (labels s.rooms) := by
  have ids : (labels s.rooms).map Prod.fst = s.rooms.map ChatRoom.roomIdx := by
    rw [labels, List.map_map]
    rfl
  have names : (labels s.rooms).map Prod.snd = s.rooms.map ChatRoom.roomName := by
    rw [labels, List.map_map]
    rfl
  refine ⟨ids ▸ h.ids, names ▸ h.names, fun name => ?_⟩
  rw [names, List.mem_map]
  constructor
  · rintro ⟨room, mem, rfl⟩
    by_cases main : room.roomName = mainRoomName
    · exact .inl main
    · have someone := h.occupied room mem main (Set.notMem_empty _)
      obtain ⟨fd, there⟩ := List.exists_mem_of_ne_nil _ someone
      refine .inr ⟨fd, ?_⟩
      rw [party_room, homeName_iff h mem]
      exact (h.members room mem fd).mp there
  · rintro (rfl | ⟨fd, there⟩)
    · obtain ⟨main, mem, -, named⟩ := h.main
      exact ⟨main, mem, named⟩
    · rw [party_room] at there
      obtain ⟨home, home_eq, rfl⟩ := Option.map_eq_some_iff.mp there
      obtain ⟨room, mem, rfl⟩ := h.homes fd home home_eq
      exact ⟨room, mem, (h.roomName mem).symm⟩

end Abstraction

/-! Lines. -/

inductive Means (s : ChatServer) (client : ClientConnection) : Request → Wish → Prop where
  | nothing : Means s client .ignored .nothing
  | chat (words : List Bytes) : Means s client (.chat words) (.chat words)
  | list (reason : String) : Means s client (.reply (listReply s.rooms) reason) .list
  | whereabouts (reason : String) :
    Means s client (.reply (whereReply (Rooms.roomName s.rooms client.currRoom)) reason) .whereabouts
  | stay : Means s client (.move (Rooms.roomName s.rooms client.currRoom)) .nothing
  | move (name : Bytes) (ne : Rooms.roomName s.rooms client.currRoom ≠ name) :
    Means s client (.move name) (.move name)
  | quit : Means s client .quit .quit

section Lines

variable {s : ChatServer} {c : Fd} {client : ClientConnection} (found : s.clients c = some client)

include found

theorem request_means (h : s.RoomsOk ∅) (active : client.clientState = .active) (frame : Bytes) :
    Means s client (s.request client frame)
      (wish (Rooms.roomName s.rooms client.currRoom) frame) := by
  have away : client.currRoom ≠ 0 ↔ Rooms.roomName s.rooms client.currRoom ≠ mainRoomName := by
    refine ⟨roomName_of_ne_zero h active found, fun other zero => other ?_⟩
    obtain ⟨main, mem, id, named⟩ := h.main
    rw [zero, ← id, h.roomName mem, named]
  by_cases empty : frame = []
  · simp only [request, wish, if_pos empty]
    exact .nothing
  by_cases chat : (tokens frame).headD [] ∉ commands
  · simp only [request, wish, if_neg empty, if_pos chat]
    exact .chat _
  by_cases list : (tokens frame).headD [] = ascii "LIST"
  · simp only [request, wish, if_neg empty, if_neg chat, if_pos list]
    exact .list _
  by_cases join : (tokens frame).headD [] = ascii "JOIN" ∧ (tokens frame).length = 2
  · simp only [request, wish, if_neg empty, if_neg chat, if_neg list, if_pos join]
    split_ifs with same
    · rw [← same]
      exact .stay
    · exact .move _ same
  by_cases leave : (tokens frame).headD [] = ascii "LEAVE" ∧ client.currRoom ≠ 0
  · have leave' := And.intro leave.1 (away.mp leave.2)
    simp only [request, wish, if_neg empty, if_neg chat, if_neg list, if_neg join, if_pos leave,
      if_pos leave']
    exact .move _ leave'.2
  have leave' : ¬ ((tokens frame).headD [] = ascii "LEAVE" ∧
      Rooms.roomName s.rooms client.currRoom ≠ mainRoomName) := by
    rwa [← away]
  simp only [request, wish, if_neg empty, if_neg chat, if_neg list, if_neg join, if_neg leave,
    if_neg leave']
  split_ifs
  · exact .whereabouts _
  · exact .quit
  · exact .nothing

theorem lineTo_eq (h : s.RoomsOk ∅) (active : client.clientState = .active) {asked : Request}
    {wished : Wish} (means : Means s client asked wished) (fd : Fd) :
    s.lineTo c client asked fd = (party s).answer (labels s.rooms) c client.username
      (Rooms.roomName s.rooms client.currRoom) fd wished := by
  have member := room_member h found active fd
  have home : (s.occupancy fd).map (Rooms.roomName s.rooms) = (party s).room fd :=
    (party_room s fd).symm
  cases means with
  | nothing => rfl
  | chat words => simp only [lineTo, Party.answer, member]
  | list reason => simp only [lineTo, Party.answer, listReply_eq]
  | whereabouts reason => rfl
  | stay => simp only [lineTo, Party.answer, if_true]
  | move name ne => simp only [lineTo, Party.answer, if_neg ne, member, home]
  | quit => simp only [lineTo, Party.answer, member]

theorem goneLine_eq (h : Inv s) (fd : Fd) :
    s.goneLine c client fd = (party s).hears (labels s.rooms) (.departs c) fd := by
  rw [Party.hears, party_guests found, Option.bind_some, goneLine]
  cases state : client.clientState with
  | awaitingUsername =>
    have login := ((h.entries c).framing client found).login
    rw [state] at login
    obtain ⟨-, unnamed, zero⟩ := login
    rw [guestOf_awaiting state, unnamed, zero]
    simp only [Guest.home, Guest.username, room_main h.rooms]
  | active =>
    rw [guestOf_active state]
    simp only [Guest.home, Guest.username, room_member h.rooms found state]

end Lines

section Seen

variable {s : ChatServer} (h : Inv s) {a : Action} (enabled : a.enabled s) {e : Party.Event Fd}
  (seen : s.partyEvent a = some e)

include h enabled seen

theorem hears_eq (old : ∀ c results, a ≠ .accept c results) (fd : Fd) :
    (party s).hears (labels s.rooms) e fd = s.lineFor a fd := by
  cases a with
  | iteration | load results | answered c recvs => cases seen
  | accept c results => exact absurd rfl (old c results)
  | receive c chunk =>
    obtain ⟨client, found⟩ := Option.ne_none_iff_exists'.mp enabled
    rw [partyEvent, found, Option.bind_some] at seen
    split_ifs at seen
    obtain rfl := Option.some.inj seen
    rfl
  | peerClosed c | recvFailed c =>
    obtain ⟨client, found⟩ := Option.ne_none_iff_exists'.mp enabled
    obtain rfl := Option.some.inj seen
    rw [lineFor, found, Option.bind_some, goneLine_eq found h]
  | write c =>
    obtain ⟨client, found⟩ := Option.ne_none_iff_exists'.mp enabled
    rw [partyEvent] at seen
    split_ifs at seen with done
    obtain rfl := Option.some.inj seen
    rw [lineFor, if_neg done, found, Option.bind_some, goneLine_eq found h]
  | frame c framesProcessed =>
    obtain ⟨client, found⟩ := Option.ne_none_iff_exists'.mp enabled
    rw [partyEvent, found, Option.bind_some] at seen
    rw [lineFor, found, Option.bind_some, frameLine]
    cases split : splitFrame client.inputBuffer with
    | none =>
      rw [split] at seen
      dsimp only at seen ⊢
      split_ifs at seen
      obtain rfl := Option.some.inj seen
      rfl
    | some taken =>
      obtain ⟨raw, remaining⟩ := taken
      rw [split] at seen
      dsimp only at seen ⊢
      split_ifs at seen with long
      · obtain rfl := Option.some.inj seen
        rw [if_pos long]
        rfl
      · obtain rfl := Option.some.inj seen
        rw [if_neg long, Party.hears, party_guests found]
        cases state : client.clientState with
        | awaitingUsername =>
          rw [guestOf_awaiting state]
          simp only [room_main h.rooms]
        | active =>
          rw [guestOf_active state]
          exact (lineTo_eq found h.rooms state (request_means found h.rooms state _) fd).symm

end Seen

/-! Guests. -/

theorem partyEvent_actor {s : ChatServer} {a : Action} {e : Party.Event Fd}
    (seen : s.partyEvent a = some e) : a.actor = some e.actor := by
  cases a with
  | iteration | load results | answered c recvs => cases seen
  | accept c results | peerClosed c | recvFailed c => exact Option.some.inj seen ▸ rfl
  | write c =>
    rw [partyEvent] at seen
    split_ifs at seen
    exact Option.some.inj seen ▸ rfl
  | receive c chunk =>
    obtain ⟨client, -, seen⟩ := Option.bind_eq_some_iff.mp seen
    split_ifs at seen
    exact Option.some.inj seen ▸ rfl
  | frame c framesProcessed =>
    obtain ⟨client, -, seen⟩ := Option.bind_eq_some_iff.mp seen
    split at seen
    · split_ifs at seen
      exact Option.some.inj seen ▸ rfl
    · split_ifs at seen
      · exact Option.some.inj seen ▸ rfl
      · exact Option.some.inj seen ▸ rfl

section Guests

variable {s : ChatServer} (h : Inv s) {a : Action} (enabled : a.enabled s) {fd : Fd}

include h enabled

theorem guests_perform {title : ClientState × Bytes}
    (known : ((a.perform s).entry fd).title = some title) : (party (a.perform s)).guests fd =
      some (guestIn (((s.enters a fd).or (s.homeName fd)).getD []) title) := by
  obtain ⟨client, found, rfl⟩ := Option.map_eq_some_iff.mp known
  rw [party_guests found, guestOf]
  cases state : client.clientState with
  | awaitingUsername => rfl
  | active =>
    have there := perform_homeName h.rooms enabled (h.perform enabled).rooms
      (homeName_active found state)
    rw [there, Option.getD_some]

theorem guests_same (settled : s.enters a fd = none)
    (title : ((a.perform s).entry fd).title = (s.entry fd).title) :
    (party (a.perform s)).guests fd = (party s).guests fd := by
  cases found : s.clients fd with
  | none =>
    have gone : ((a.perform s).entry fd).title = none := by
      rw [title, Entry.title, entry_client, found, Option.map_none]
    rw [guests_eq_none.mpr found, guests_eq_none]
    exact Option.map_eq_none_iff.mp gone
  | some client =>
    have known : ((a.perform s).entry fd).title = some (client.clientState, client.username) := by
      rw [title, Entry.title, entry_client, found, Option.map_some]
    rw [guests_perform h enabled known, party_guests found, settled, Option.none_or, guestOf]
    cases state : client.clientState with
    | awaitingUsername => rfl
    | active => rw [homeName_active found state, Option.getD_some]

variable {e : Party.Event Fd}

omit h enabled in
theorem becomes_of_told {base : Entry} (told : Entry.Told s.serverIteration
      ((party s).hears (labels s.rooms) e fd) base ((a.perform s).entry fd))
    (lines : base.lines = (s.entry fd).lines)
    (absent : base.client = none → (party s).next e fd = none)
    (guest : (a.perform s).clients fd ≠ none →
      (party (a.perform s)).guests fd = (party s).next e fd) :
    (party s).Becomes (labels s.rooms) e (party (a.perform s)) fd := by
  by_cases gone : (a.perform s).clients fd = none
  · rcases told.client.mp gone with away | ⟨line, heard, -⟩
    · refine .served ?_ fun there => absurd (guests_eq_none.mpr gone) there
      rw [absent away, guests_eq_none.mpr gone]
    · exact .dropped (by simp [heard]) (guests_eq_none.mpr gone)
  · refine .served (guest gone) fun _ => ?_
    exact (told.told_lines gone).trans (congrArg (· ++ _) lines)

theorem others_become (ne : fd ≠ e.actor) (settled : s.enters a fd = none)
    (told : Entry.Told s.serverIteration ((party s).hears (labels s.rooms) e fd) (s.entry fd)
      ((a.perform s).entry fd)) :
    (party s).Becomes (labels s.rooms) e (party (a.perform s)) fd := by
  refine becomes_of_told told rfl (fun away => ?_) fun connected => ?_
  · rw [Party.next_of_ne _ ne]
    exact guests_eq_none.mpr away
  · rw [Party.next_of_ne _ ne]
    exact guests_same h enabled settled (told.title connected)

omit h enabled in
theorem gone_becomes (gone : (a.perform s).clients fd = none)
    (away : (party s).next e fd = none) :
    (party s).Becomes (labels s.rooms) e (party (a.perform s)) fd :=
  .served ((guests_eq_none.mpr gone).trans away.symm) fun there =>
    absurd (guests_eq_none.mpr gone) there

end Guests

/-! The client that an action is about. -/

section Actor

variable {s : ChatServer} (h : Inv s) {c : Fd} {client : ClientConnection}

include h

theorem accept_becomes (closed : s.isOpen c = false) (results : Results) :
    (party s).Becomes (labels s.rooms) (.arrives c)
      (party (Action.perform (.accept c results) s)) c := by
  have enabled : Action.enabled (.accept c results) s := closed
  have away : s.clients c = none := by
    simp only [isOpen, Bool.or_eq_false_iff] at closed
    simpa using closed.2
  have same := (acceptClient_performs closed results).entries c
  rw [only_self] at same
  have told : Entry.Told s.serverIteration ((party s).hears (labels s.rooms) (.arrives c) c)
      (Entry.opened results) ((Action.perform (.accept c results) s).entry c) := by
    rw [Party.hears, if_pos rfl]
    exact ⟨_, by decide, same⟩
  have next : (party s).next (.arrives c) c = some .nameless := Function.update_self _ _ _
  refine becomes_of_told told ?_ (fun empty => by simp [Entry.opened] at empty) fun connected => ?_
  · rw [Entry.lines, Entry.lines, entry_client, away]
    rfl
  · rw [next, guests_perform h enabled ((told.title connected).trans rfl)]
    rfl

variable (found : s.clients c = some client)

include found

theorem login_becomes (framesProcessed : Nat) {raw remaining : Bytes}
    (split : splitFrame client.inputBuffer = some (raw, remaining))
    (short : raw.length ≤ maxFrameBytes) (awaiting : client.clientState = .awaitingUsername) :
    (party s).Becomes (labels s.rooms) (.speaks c (stripCarriageReturn raw))
      (party (Action.perform (.frame c framesProcessed) s)) c := by
  have enabled : Action.enabled (.frame c framesProcessed) s :=
    Option.ne_none_iff_exists'.mpr ⟨client, found⟩
  obtain ⟨performs, -⟩ := frameStep_username h.rooms found split short awaiting framesProcessed
  have guest : (party s).guests c = some .nameless := by
    rw [party_guests found, guestOf_awaiting awaiting]
  have heard : (party s).hears (labels s.rooms) (.speaks c (stripCarriageReturn raw)) c =
      some (joinedLine (stripCarriageReturn raw) mainRoomName) := by
    simp only [Party.hears, guest, true_or, if_true]
  have next : (party s).next (.speaks c (stripCarriageReturn raw)) c =
      some (.member (stripCarriageReturn raw) mainRoomName) := by
    simp only [Party.next, guest]
    exact Function.update_self _ _ _
  have same := performs.entries c
  rw [only_self] at same
  have told : Entry.Told s.serverIteration
      ((party s).hears (labels s.rooms) (.speaks c (stripCarriageReturn raw)) c)
      (Entry.loggedIn client remaining (stripCarriageReturn raw)
        (.username raw (stripCarriageReturn raw)) (s.entry c))
      ((Action.perform (.frame c framesProcessed) s).entry c) := by
    have listed : (c : Int) ≠ -1 := by omega
    have notified : Entry.Told s.serverIteration _ _ (Entry.notified s.serverIteration 0 (-1)
      (joinedLine (stripCarriageReturn raw) mainRoomName) c (Entry.loggedIn client remaining
        (stripCarriageReturn raw) (.username raw (stripCarriageReturn raw)) (s.entry c))) :=
          Entry.notified_told
    rw [heard]
    rw [if_pos ⟨listed, rfl⟩] at notified
    exact same ▸ notified
  have entered : s.enters (.frame c framesProcessed) c = some mainRoomName := by
    simp only [enters, ne_eq, not_true_eq_false, if_false, found, Option.bind_some, split,
      Nat.not_lt.mpr short, awaiting]
  refine becomes_of_told told (Entry.loggedIn_lines _ client remaining found raw _)
    (fun empty => by simp [Entry.loggedIn] at empty) fun connected => ?_
  rw [next, guests_perform h enabled ((told.title connected).trans rfl), entered, Option.some_or,
    Option.getD_some]
  rfl

omit h in
theorem next_member (active : client.clientState = .active) {frame : Bytes} {asked : Request}
    (means : Means s client asked (wish (Rooms.roomName s.rooms client.currRoom) frame))
    (stays : asked ≠ .quit) : (party s).next (.speaks c frame) c =
      some (.member client.username (((s.movesTo client asked).or (s.homeName c)).getD [])) := by
  have guest : (party s).guests c =
      some (.member client.username (Rooms.roomName s.rooms client.currRoom)) := by
    rw [party_guests found, guestOf_active active]
  have home := homeName_active found active
  generalize wished : wish (Rooms.roomName s.rooms client.currRoom) frame = wanted at means
  cases means with
  | nothing | chat words | list reason | whereabouts reason =>
    simp only [Party.next, guest, wished, movesTo, Option.none_or, home, Option.getD_some]
  | stay =>
    simp only [Party.next, guest, wished, movesTo, if_true, Option.none_or, home, Option.getD_some]
  | move name ne =>
    simp only [Party.next, guest, wished, movesTo, if_neg ne, Option.some_or, Option.getD_some]
    exact Function.update_self _ _ _
  | quit => exact absurd rfl stays

theorem command_becomes (framesProcessed : Nat) {raw remaining : Bytes}
    (split : splitFrame client.inputBuffer = some (raw, remaining))
    (short : raw.length ≤ maxFrameBytes) (active : client.clientState = .active)
    (spoken : ∀ words, s.request client (stripCarriageReturn raw) ≠ .chat words) :
    (party s).Becomes (labels s.rooms) (.speaks c (stripCarriageReturn raw))
      (party (Action.perform (.frame c framesProcessed) s)) c := by
  have enabled : Action.enabled (.frame c framesProcessed) s :=
    Option.ne_none_iff_exists'.mpr ⟨client, found⟩
  have guest : (party s).guests c =
      some (.member client.username (Rooms.roomName s.rooms client.currRoom)) := by
    rw [party_guests found, guestOf_active active]
  have final := (frameStep_active found split short active framesProcessed).1
  have kept := eraseFrame_rooms h.rooms found remaining (.frame raw (stripCarriageReturn raw))
  have self := processFrame_self kept (taking_clients s c client raw remaining) active
    (stripCarriageReturn raw)
  have asked' : (s.taking c client raw remaining).request { client with inputBuffer := remaining }
      (stripCarriageReturn raw) = s.request client (stripCarriageReturn raw) := rfl
  have erased : (s.taking c client raw remaining).entry c =
      Entry.erased client remaining (.frame raw (stripCarriageReturn raw)) (s.entry c) := by
    rw [(eraseFrame_performs s c client remaining _).entries, only_self]
  have means := request_means found h.rooms active (stripCarriageReturn raw)
  have heard : (party s).hears (labels s.rooms) (.speaks c (stripCarriageReturn raw)) c =
      s.lineTo c client (s.request client (stripCarriageReturn raw)) c := by
    rw [Party.hears, guest]
    exact (lineTo_eq found h.rooms active means c).symm
  -- Whatever is made of the record before the line, it has the lines and the title it had.
  have goes {base : Entry} (told : Entry.Told s.serverIteration
      ((party s).hears (labels s.rooms) (.speaks c (stripCarriageReturn raw)) c) base
      ((Action.perform (.frame c framesProcessed) s).entry c))
      (lines : base.lines = (s.entry c).lines)
      (title : base.title = some (.active, client.username))
      (stays : s.request client (stripCarriageReturn raw) ≠ .quit) :
      (party s).Becomes (labels s.rooms) (.speaks c (stripCarriageReturn raw))
        (party (Action.perform (.frame c framesProcessed) s)) c := by
    refine becomes_of_told told lines (fun empty => ?_) fun connected => ?_
    · simp [Entry.title, empty] at title
    · rw [guests_perform h enabled ((told.title connected).trans title),
        next_member found active means stays,
        enters_active found split short active framesProcessed]
      rfl
  have lines := Entry.erased_lines (s.entry c) client remaining found raw (stripCarriageReturn raw)
  have title : (Entry.erased client remaining (.frame raw (stripCarriageReturn raw))
      (s.entry c)).title = some (.active, client.username) := by
    rw [Entry.title, Entry.erased, Option.map_some, active]
  rw [← final, asked', erased] at self
  cases asked : s.request client (stripCarriageReturn raw) with
  | ignored =>
    rw [asked] at self heard
    exact goes (by rw [heard]; exact self) lines title (by simp [asked])
  | chat words => exact absurd asked (spoken words)
  | reply line reason =>
    rw [asked] at self heard
    refine goes ?_ lines title (by simp [asked])
    rw [heard, lineTo, if_pos rfl]
    exact self
  | move name =>
    rw [asked] at self heard
    change if Rooms.roomName s.rooms client.currRoom = name then _ else _ at self
    simp only [lineTo, if_true] at heard
    split_ifs at self heard with same
    · exact goes (by rw [heard]; exact self) lines title (by simp [asked])
    · obtain ⟨roomId, told⟩ := self
      refine goes ?_ ((Entry.moved_lines _ roomId).trans lines)
        ((Entry.moved_title _ roomId).trans title) (by simp [asked])
      rw [heard]
      exact told
  | quit =>
    rw [asked] at self means
    refine gone_becomes ?_ ?_
    · exact (congrArg Entry.client self).trans (Entry.closed_client _ _)
    · generalize wished : wish (Rooms.roomName s.rooms client.currRoom)
        (stripCarriageReturn raw) = wanted at means
      cases means
      simp only [Party.next, guest, wished]
      exact Function.update_self _ _ _

/-- A chat line goes round the room until it drops somebody. -/
theorem chat_step (framesProcessed : Nat) {raw remaining : Bytes}
    (split : splitFrame client.inputBuffer = some (raw, remaining))
    (short : raw.length ≤ maxFrameBytes) (active : client.clientState = .active)
    {words : List Bytes} (asked : s.request client (stripCarriageReturn raw) = .chat words) :
    (∀ fd, (party s).Becomes (labels s.rooms) (.speaks c (stripCarriageReturn raw))
      (party (Action.perform (.frame c framesProcessed) s)) fd) ∧
    ∀ fd fd', (party s).guests fd ≠ none →
      (party (Action.perform (.frame c framesProcessed) s)).guests fd = none →
      (party s).guests fd' ≠ none →
      (party (Action.perform (.frame c framesProcessed) s)).guests fd' = none → fd = fd' := by
  have enabled : Action.enabled (.frame c framesProcessed) s :=
    Option.ne_none_iff_exists'.mpr ⟨client, found⟩
  have guest : (party s).guests c =
      some (.member client.username (Rooms.roomName s.rooms client.currRoom)) := by
    rw [party_guests found, guestOf_active active]
  have means := request_means found h.rooms active (stripCarriageReturn raw)
  have heard (fd : Fd) : (party s).hears (labels s.rooms)
      (.speaks c (stripCarriageReturn raw)) fd =
      if fd ≠ c ∧ s.occupancy fd = some client.currRoom then
        some (chatLine client.username words)
      else none := by
    rw [Party.hears, guest]
    refine (lineTo_eq found h.rooms active means fd).symm.trans ?_
    rw [asked, lineTo]
  have chats : s.chats (.frame c framesProcessed) :=
    ⟨client, raw, remaining, words, found, active, split, short, asked⟩
  obtain ⟨room, mem, id, result⟩ := frameStep_chat found active h.rooms remaining asked
  have final : Action.perform (.frame c framesProcessed) s = _ :=
    (frameStep_active found split short active framesProcessed).1
  obtain ⟨served, rest, parts, performs, ends⟩ := broadcastLoop_performs
    (chatLine client.username words) room.subscribedClients (h.rooms.unique room mem)
    (taking_clients s c client raw remaining)
  rw [← result, ← final] at performs
  have members (fd : Fd) : fd ∈ room.subscribedClients ↔ s.occupancy fd = some client.currRoom :=
    id ▸ h.rooms.members room mem fd
  have others {fd : Fd} (ne : fd ≠ c) (reached : fd ∈ served) : Entry.Told s.serverIteration
      ((party s).hears (labels s.rooms) (.speaks c (stripCarriageReturn raw)) fd) (s.entry fd)
      ((Action.perform (.frame c framesProcessed) s).entry fd) := by
    have home := (members fd).mp (parts ▸ List.mem_append_left rest reached)
    have same := performs.entries fd
    rw [if_pos reached, taking_entry s client raw remaining ne, Entry.heard, if_pos ⟨ne, home⟩]
      at same
    rw [heard, if_pos ⟨ne, home⟩]
    exact ⟨_, by decide, same⟩
  have missing {fd : Fd} (ne : fd ≠ c) (unreached : fd ∉ served) :
      (Action.perform (.frame c framesProcessed) s).entry fd = s.entry fd := by
    rw [performs.entries, if_neg unreached, taking_entry s client raw remaining ne]
  have own : (Action.perform (.frame c framesProcessed) s).entry c =
      Entry.erased client remaining (.frame raw (stripCarriageReturn raw)) (s.entry c) := by
    have same := performs.entries c
    simp only [Entry.heard, ne_eq, not_true_eq_false, false_and, if_false, ite_self] at same
    rw [same, (eraseFrame_performs s c client remaining _).entries, only_self]
  -- Only the last one that is reached can be dropped.
  have dropped {fd : Fd} (there : (party s).guests fd ≠ none)
      (gone : (party (Action.perform (.frame c framesProcessed) s)).guests fd = none) :
      ∃ front, served = front ++ [fd] ∧ fd ≠ c ∧ s.occupancy fd = some client.currRoom := by
    rw [ne_eq, guests_eq_none] at there
    rw [guests_eq_none, ← entry_client] at gone
    have ne : fd ≠ c := by
      rintro rfl
      rw [own] at gone
      cases gone
    have reached : fd ∈ served := by
      by_contra unreached
      rw [missing ne unreached] at gone
      exact there gone
    have home := (members fd).mp (parts ▸ List.mem_append_left rest reached)
    obtain ⟨line, offered, refused⟩ := ((others ne reached).client.mp gone).resolve_left there
    rw [heard, if_pos ⟨ne, home⟩] at offered
    obtain rfl := Option.some.inj offered
    have accepts : ((s.taking c client raw remaining).entry fd).accepts
        (s.taking c client raw remaining).serverIteration (chatLine client.username words) =
        false := by
      rw [taking_entry s client raw remaining ne]
      exact refused
    have home' : (s.taking c client raw remaining).occupancy fd = some client.currRoom := by
      rw [taking_occupancy found, home]
    rcases ends with ⟨-, -, all⟩ | ⟨front, last, -, split, -, -, -, all⟩
    · have taken := all fd reached ne home'
      rw [accepts] at taken
      cases taken
    · rw [split, List.mem_append, List.mem_singleton] at reached
      rcases reached with before | rfl
      · have taken := all fd before ne home'
        rw [accepts] at taken
        cases taken
      · exact ⟨front, split, ne, home⟩
  constructor
  · intro fd
    by_cases ne : fd = c
    · subst ne
      have settled : s.enters (.frame fd framesProcessed) fd = none := enters_of_chats chats fd
      have told : Entry.Told s.serverIteration
          ((party s).hears (labels s.rooms) (.speaks fd (stripCarriageReturn raw)) fd)
          ((Action.perform (.frame fd framesProcessed) s).entry fd)
          ((Action.perform (.frame fd framesProcessed) s).entry fd) := by
        rw [heard, if_neg fun there => there.1 rfl]
        rfl
      refine becomes_of_told told ?_ (fun empty => ?_) fun _ => ?_
      · rw [own]
        exact Entry.erased_lines (s.entry fd) client remaining found raw _
      · rw [own] at empty
        cases empty
      · rw [asked] at means
        have title : ((Action.perform (.frame fd framesProcessed) s).entry fd).title =
            (s.entry fd).title := by
          rw [own, Entry.title, Entry.title, Entry.erased, entry_client, found, Option.map_some,
            Option.map_some]
        rw [guests_same h enabled settled title]
        generalize wished : wish (Rooms.roomName s.rooms client.currRoom)
          (stripCarriageReturn raw) = wanted at means
        cases means
        simp only [Party.next, guest, wished]
    · by_cases reached : fd ∈ served
      · exact others_become h enabled ne (enters_of_chats chats fd) (others ne reached)
      · by_cases home : s.occupancy fd = some client.currRoom
        · have left : fd ∈ rest := by
            have member := (members fd).mpr home
            rw [parts, List.mem_append] at member
            exact member.resolve_left reached
          rcases ends with ⟨-, rfl, -⟩ | ⟨front, last, -, split', other, there, refused, -⟩
          · exact absurd left List.not_mem_nil
          · have reached' : last ∈ served := by
              rw [split']
              exact List.mem_append_right _ List.mem_cons_self
            rw [taking_occupancy found] at there
            rw [taking_entry s client raw remaining other] at refused
            have lastHeard := heard last
            rw [if_pos ⟨other, there⟩] at lastHeard
            have gone : (Action.perform (.frame c framesProcessed) s).clients last = none :=
              (others other reached').client.mpr (.inr ⟨_, lastHeard, refused⟩)
            have same := missing ne reached
            have settled : s.enters (.frame c framesProcessed) fd = none :=
              enters_of_chats chats fd
            refine .missed ⟨c, _, _, _, words, rfl, guest, ?_⟩
              (guests_same h enabled settled (congrArg Entry.title same))
              (congrArg Entry.lines same) last ?_ (by simp [lastHeard]) (guests_eq_none.mpr gone)
            · rw [asked] at means
              generalize wish (Rooms.roomName s.rooms client.currRoom)
                (stripCarriageReturn raw) = wanted at means
              cases means
              rfl
            · rintro rfl
              exact reached reached'
        · refine others_become h enabled ne (enters_of_chats chats fd) ?_
          rw [heard, if_neg fun there => home there.2]
          exact missing ne reached
  · intro fd fd' there gone there' gone'
    obtain ⟨front, split', -⟩ := dropped there gone
    obtain ⟨front', split'', -⟩ := dropped there' gone'
    exact (List.cons.inj (List.append_inj_right' (split'.symm.trans split'') rfl)).1

end Actor

/-! Every action. -/

section Every

variable {s : ChatServer} (h : Inv s) {a : Action} (enabled : a.enabled s)

include h enabled

theorem party_silent (unseen : s.partyEvent a = none) : party (a.perform s) = party s := by
  have same (each : ∀ fd, s.enters a fd = none ∧
      ((a.perform s).entry fd).title = (s.entry fd).title ∧
      ((a.perform s).entry fd).lines = (s.entry fd).lines) : party (a.perform s) = party s := by
    apply Party.ext
    · funext fd
      exact guests_same h enabled (each fd).1 (each fd).2.1
    · funext fd
      exact (each fd).2.2
  cases a with
  | iteration => exact same fun fd => ⟨rfl, rfl, rfl⟩
  | load results => exact same fun fd => ⟨rfl, rfl, rfl⟩
  | answered c recvs =>
    refine same fun fd => ⟨rfl, rfl, Entry.lines_congr Iff.rfl ?_⟩
    by_cases ne : fd = c
    · subst ne
      simp [Action.perform, setRecvs]
    · simp [Action.perform, setRecvs, ne]
  | accept c results | peerClosed c | recvFailed c => cases unseen
  | receive c chunk =>
    obtain ⟨client, found⟩ := Option.ne_none_iff_exists'.mp enabled
    rw [partyEvent, found, Option.bind_some] at unseen
    split_ifs at unseen with within
    have entries := (receive_performs found chunk).entries
    have own : Entry.received chunk (s.entry c) = ⟨some { client with
        inputBuffer := client.inputBuffer ++ chunk }, (s.ports c).note (.received chunk)⟩ := by
      simp only [Entry.received, entry_client, entry_port, found, if_neg within]
    refine same fun fd => ⟨rfl, ?_⟩
    change ((s.receive c chunk).2.entry fd).title = _ ∧ ((s.receive c chunk).2.entry fd).lines = _
    rw [entries]
    by_cases ne : fd = c
    · subst ne
      rw [only_self]
      refine ⟨?_, Entry.received_lines _ (by simp [own])⟩
      rw [own, Entry.title, Entry.title, entry_client, found, Option.map_some, Option.map_some]
    · rw [only_of_ne ne]
      exact ⟨rfl, rfl⟩
  | write c =>
    obtain ⟨client, found⟩ := Option.ne_none_iff_exists'.mp enabled
    rw [partyEvent] at unseen
    split_ifs at unseen with done
    have entries := (handleWrite_performs h.rooms found).1.entries
    refine same fun fd => ⟨rfl, ?_⟩
    change ((s.handleWrite c).entry fd).title = _ ∧ ((s.handleWrite c).entry fd).lines = _
    rw [entries, if_pos done]
    by_cases ne : fd = c
    · subst ne
      rw [only_self]
      exact ⟨Entry.flushed_title _ _, Entry.flushed_lines _ _⟩
    · rw [only_of_ne ne]
      exact ⟨rfl, rfl⟩
  | frame c framesProcessed =>
    obtain ⟨client, found⟩ := Option.ne_none_iff_exists'.mp enabled
    rw [partyEvent, found, Option.bind_some] at unseen
    rcases frameStep_cases found framesProcessed with
      ⟨unsplit, long, -⟩ | ⟨unsplit, -, result⟩ | ⟨raw, remaining, split, -⟩
    · rw [unsplit] at unseen
      simp only [gt_iff_lt, if_pos long] at unseen
      cases unseen
    · have still : Action.perform (.frame c framesProcessed) s = s := by
        rw [Action.perform, result, FrameStep.server]
      rw [still]
    · rw [split] at unseen
      dsimp only at unseen
      split_ifs at unseen

omit enabled in
theorem peerGone_gone {c : Fd} {client : ClientConnection} (found : s.clients c = some client)
    (reason : String) : (s.peerGone c reason).clients c = none := by
  have entries := (peerGone_performs h.rooms found reason).1.entries c
  rw [if_pos rfl] at entries
  exact (congrArg Entry.client entries).trans (Entry.closed_client _ _)

theorem actor_becomes {e : Party.Event Fd} (seen : s.partyEvent a = some e)
    (spoken : ¬ s.chats a) :
    (party s).Becomes (labels s.rooms) e (party (a.perform s)) e.actor := by
  have departs (c : Fd) : (party s).next (.departs c) c = none := Function.update_self _ _ _
  have expelled (c : Fd) : (party s).next (.expelled c) c = none := Function.update_self _ _ _
  cases a with
  | iteration | load results | answered c recvs => cases seen
  | accept c results =>
    obtain rfl := Option.some.inj seen
    exact accept_becomes h enabled results
  | receive c chunk =>
    obtain ⟨client, found⟩ := Option.ne_none_iff_exists'.mp enabled
    rw [partyEvent, found, Option.bind_some] at seen
    split_ifs at seen with past
    obtain rfl := Option.some.inj seen
    refine gone_becomes ?_ (expelled c)
    have entries := (receive_performs found chunk).entries c
    rw [only_self] at entries
    refine (congrArg Entry.client entries).trans ?_
    simp [Entry.received, found, past, Entry.closed]
  | peerClosed c | recvFailed c =>
    obtain ⟨client, found⟩ := Option.ne_none_iff_exists'.mp enabled
    obtain rfl := Option.some.inj seen
    exact gone_becomes (peerGone_gone h found _) (departs c)
  | write c =>
    obtain ⟨client, found⟩ := Option.ne_none_iff_exists'.mp enabled
    rw [partyEvent] at seen
    split_ifs at seen with done
    obtain rfl := Option.some.inj seen
    refine gone_becomes ?_ (departs c)
    have entries := (handleWrite_performs h.rooms found).1.entries c
    rw [if_neg done, if_pos rfl] at entries
    exact (congrArg Entry.client entries).trans (Entry.closed_client _ _)
  | frame c framesProcessed =>
    obtain ⟨client, found⟩ := Option.ne_none_iff_exists'.mp enabled
    rw [partyEvent, found, Option.bind_some] at seen
    have cut {t : ChatServer} (result : (frameStep c framesProcessed s).server = t)
        (gone : t.clients c = none) : (party s).Becomes (labels s.rooms) (.expelled c)
          (party (Action.perform (.frame c framesProcessed) s)) c :=
      gone_becomes ((congrArg (fun u => u.clients c) result).trans gone) (expelled c)
    have disconnected (reason : String) : (s.disconnect c reason).clients c = none := by
      rw [← entry_client, (disconnect_performs s c reason).entries, only_self, Entry.closed_client]
    rcases frameStep_cases found framesProcessed with
      ⟨unsplit, long, result⟩ | ⟨unsplit, within, -⟩ | ⟨raw, remaining, split, ⟨long, result⟩ |
        ⟨short, awaiting, -⟩ | ⟨short, active, -⟩⟩
    · rw [unsplit] at seen
      simp only [gt_iff_lt, if_pos long] at seen
      obtain rfl := Option.some.inj seen
      exact cut (congrArg FrameStep.server result) (disconnected _)
    · rw [unsplit] at seen
      simp only [gt_iff_lt, if_neg (Nat.not_lt.mpr within)] at seen
      cases seen
    · rw [split] at seen
      simp only [gt_iff_lt, if_pos long] at seen
      obtain rfl := Option.some.inj seen
      exact cut (congrArg FrameStep.server result) (disconnected _)
    · rw [split] at seen
      simp only [gt_iff_lt, if_neg (Nat.not_lt.mpr short)] at seen
      obtain rfl := Option.some.inj seen
      exact login_becomes h found framesProcessed split short awaiting
    · rw [split] at seen
      simp only [gt_iff_lt, if_neg (Nat.not_lt.mpr short)] at seen
      obtain rfl := Option.some.inj seen
      refine command_becomes h found framesProcessed split short active fun words asked => ?_
      exact spoken ⟨client, raw, remaining, words, found, active, split, short, asked⟩

omit h enabled in
theorem accept_of_arrives {c : Fd} (seen : s.partyEvent a = some (.arrives c)) :
    ∃ results, a = .accept c results := by
  cases a with
  | iteration | load results | answered c recvs | peerClosed c | recvFailed c => cases seen
  | accept c' results =>
    obtain rfl : c' = c := Party.Event.arrives.inj (Option.some.inj seen)
    exact ⟨results, rfl⟩
  | write c' =>
    rw [partyEvent] at seen
    split_ifs at seen
    cases seen
  | receive c' chunk =>
    obtain ⟨client, -, seen⟩ := Option.bind_eq_some_iff.mp seen
    split_ifs at seen
    cases seen
  | frame c' framesProcessed =>
    obtain ⟨client, -, seen⟩ := Option.bind_eq_some_iff.mp seen
    split at seen
    · split_ifs at seen
      cases seen
    · split_ifs at seen
      · cases seen
      · cases seen

variable {e : Party.Event Fd} (seen : s.partyEvent a = some e)

include seen

omit h in
theorem possible : (party s).Possible e := by
  have acts := partyEvent_actor seen
  cases e with
  | arrives c =>
    obtain ⟨results, rfl⟩ := accept_of_arrives seen
    have closed : s.isOpen c = false := enabled
    simp only [isOpen, Bool.or_eq_false_iff] at closed
    exact guests_eq_none.mpr (by simpa using closed.2)
  | speaks c line | departs c | expelled c =>
    refine mt guests_eq_none.mp ?_
    cases a with
    | iteration | load results | answered c' recvs => cases seen
    | accept c' results => cases seen
    | receive c' chunk | frame c' framesProcessed | peerClosed c' | recvFailed c' | write c' =>
      obtain rfl := Option.some.inj acts
      exact enabled

theorem chats_of_chats (chat : (party s).Chats e) : s.chats a := by
  obtain ⟨c, line, username, room, words, rfl, guest, wished⟩ := chat
  cases a with
  | iteration | load results | answered c' recvs | accept c' results | peerClosed c'
  | recvFailed c' => cases seen
  | write c' =>
    rw [partyEvent] at seen
    split_ifs at seen
    cases seen
  | receive c' chunk =>
    obtain ⟨client, -, seen⟩ := Option.bind_eq_some_iff.mp seen
    split_ifs at seen
    cases seen
  | frame c' framesProcessed =>
    obtain ⟨client, found, seen⟩ := Option.bind_eq_some_iff.mp seen
    cases split : splitFrame client.inputBuffer with
    | none =>
      rw [split] at seen
      dsimp only at seen
      split_ifs at seen
      cases seen
    | some taken =>
      obtain ⟨raw, remaining⟩ := taken
      rw [split] at seen
      dsimp only at seen
      split_ifs at seen with long
      · cases seen
      · obtain ⟨rfl, rfl⟩ := Party.Event.speaks.inj (Option.some.inj seen)
        rw [party_guests found] at guest
        cases state : client.clientState with
        | awaitingUsername =>
          rw [guestOf_awaiting state] at guest
          cases guest
        | active =>
          rw [guestOf_active state] at guest
          obtain ⟨rfl, rfl⟩ := Guest.member.inj (Option.some.inj guest)
          have means := request_means found h.rooms state (stripCarriageReturn raw)
          rw [wished] at means
          generalize asked : s.request client (stripCarriageReturn raw) = request at means
          cases means
          exact ⟨client, raw, remaining, words, found, state, split, Nat.not_lt.mp long, asked⟩

theorem party_step : (party s).Step e (party (a.perform s)) := by
  by_cases spoken : s.chats a
  · cases a with
    | iteration | load results | answered c recvs | accept c results | receive c chunk
    | peerClosed c | recvFailed c | write c => exact spoken.elim
    | frame c framesProcessed =>
      obtain ⟨client, raw, remaining, words, found, active, split, short, asked⟩ := spoken
      have allowed := possible enabled seen
      rw [partyEvent, found, Option.bind_some, split] at seen
      dsimp only at seen
      rw [if_neg (Nat.not_lt.mpr short)] at seen
      obtain rfl := Option.some.inj seen
      obtain ⟨becomes, one⟩ := chat_step h found framesProcessed split short active asked
      exact ⟨allowed, ⟨labels s.rooms, party_lists h.rooms, becomes⟩, fun _ => one⟩
  · refine ⟨possible enabled seen, ⟨labels s.rooms, party_lists h.rooms, fun fd => ?_⟩,
      fun chat => absurd (chats_of_chats h enabled seen chat) spoken⟩
    by_cases same : fd = e.actor
    · exact same ▸ actor_becomes h enabled seen spoken
    · have acts := partyEvent_actor seen
      have told := perform_told h enabled spoken acts same
      refine others_become h enabled same (enters_of_ne acts same) ?_
      by_cases old : ∃ c results, a = .accept c results
      · obtain ⟨c, results, rfl⟩ := old
        obtain rfl := Option.some.inj seen
        have unheard : (party s).hears (labels s.rooms) (.arrives c) fd = none := if_neg same
        rw [unheard]
        exact told
      · rw [hears_eq h enabled seen fun c results same => old ⟨c, results, same⟩]
        exact told

end Every

theorem party_refines : machine.Refines Party.behaviour party partyEvent where
  init s initial := by
    obtain ⟨listener, rfl⟩ := initial
    exact Party.ext rfl rfl
  silent s a reachable enabled unseen := party_silent (reachable_inv reachable) enabled unseen
  seen s a e reachable enabled seen := party_step (reachable_inv reachable) enabled seen

/-- What goes out on a connection is what the party tells the client, line by line. -/
theorem stream_told {s : ChatServer} (reachable : Reachable s) {fd : Fd}
    (connected : s.clients fd ≠ none) :
    (s.entry fd).stream = ((party s).told fd).flatten := by
  have lines : (party s).told fd = (offers (s.ports fd).history).map Prod.fst :=
    Entry.lines_of_client connected
  rw [stream_eq reachable connected, offeredBytes, List.flatMap_def, lines]

theorem party_runs (listener : Fd) {actions : List Action}
    (runs : machine.Runs (initial listener) actions) :
    Party.behaviour.Runs (machine.observed partyEvent (initial listener) actions)
      (party (machine.after (initial listener) actions)) :=
  party_refines.runs ⟨listener, rfl⟩ runs

/-- Every run of the server is a run of the party, and what goes out on a connection is what
the party tells the client, line by line. -/
theorem server_keeps_party (listener : Fd) {actions : List Action}
    (runs : machine.Runs (initial listener) actions) :
    Party.behaviour.Runs (machine.observed partyEvent (initial listener) actions)
      (party (machine.after (initial listener) actions)) ∧
    ∀ fd, (machine.after (initial listener) actions).clients fd ≠ none →
      ((machine.after (initial listener) actions).entry fd).stream =
        ((party (machine.after (initial listener) actions)).told fd).flatten :=
  ⟨party_runs listener runs, fun _ => stream_told ⟨_, ⟨listener, rfl⟩, runs.steps⟩⟩

/-- Three clients log in, and two of them hear the third. -/
theorem server_keeps_party_talk :
    machine.Runs (initial 3) talk ∧
      Party.behaviour.Runs (machine.observed partyEvent (initial 3) talk)
        (party (machine.after (initial 3) talk)) ∧
      ∀ fd, (machine.after (initial 3) talk).clients fd ≠ none →
        ((machine.after (initial 3) talk).entry fd).stream =
          ((party (machine.after (initial 3) talk)).told fd).flatten := by
  have runs : machine.Runs (initial 3) talk := by decide +kernel
  exact ⟨runs, server_keeps_party 3 runs⟩

end ChatServer
end Partyline
