import Partyline.Departures
import Partyline.Evolution

/-! The names of the rooms from one action to the next: a room keeps its name as
long as somebody stays in it, and the only new name is that of the room entered. -/
namespace Partyline

namespace Entry

variable {e : Entry} {home : Nat}

theorem offered_home {serverIteration : Nat} {data : Bytes} {reason : String}
    (there : (e.offered serverIteration data reason).occupant = some home) :
    e.occupant = some home := by
  rw [offered_occupant] at there
  split_ifs at there
  exact there

theorem notified_home {serverIteration roomId : Nat} {excludedFd : Int} {message : Bytes} {fd : Fd}
    (there : (e.notified serverIteration roomId excludedFd message fd).occupant = some home) :
    e.occupant = some home := by
  unfold notified at there
  split_ifs at there
  · exact offered_home there
  · exact there

theorem heard_home {serverIteration roomId : Nat} {sender fd : Fd} {output : Bytes}
    (there : (e.heard serverIteration roomId sender output fd).occupant = some home) :
    e.occupant = some home := by
  unfold heard at there
  split_ifs at there
  · exact offered_home there
  · exact there

theorem received_home {chunk : Bytes} (there : (e.received chunk).occupant = some home) :
    e.occupant = some home := by
  unfold received at there
  split at there
  · exact there
  · rename_i record found
    dsimp only at there
    split_ifs at there
    · simp [closed_occupant] at there
    · simpa [occupant, found] using there

end Entry

namespace ChatServer

open Rooms (labels)

def homeName (s : ChatServer) (fd : Fd) : Option Bytes :=
  (s.occupancy fd).map (Rooms.roomName s.rooms)

def movesTo (s : ChatServer) (source : ClientConnection) : Request → Option Bytes
  | .move name => if Rooms.roomName s.rooms source.currRoom = name then none else some name
  | _ => none

/-- The rooms of a state and those of a state after it: at most one room is new
or is given to new members, the one named `entered`. -/
def Renames (s : ChatServer) (entered : Option Bytes) (t : ChatServer) : Prop :=
  labels t.rooms ⊆ labels s.rooms ∨ ∃ roomId name, entered = some name ∧
    (∀ fd home, s.occupancy fd = some home →
      (Rooms.roomName s.rooms home = name ↔ home = roomId)) ∧
    ∀ label ∈ labels t.rooms, label = (roomId, name) ∨ label.1 ≠ roomId ∧ label ∈ labels s.rooms

theorem broadcastLoop_labels (sender : Fd) (output : Bytes) (recipients : List Fd) (s : ChatServer) :
    labels (broadcastLoop sender output recipients s).2.rooms ⊆ labels s.rooms := by
  induction recipients generalizing s with
  | nil =>
    unfold broadcastLoop
    split <;> exact List.Subset.refl _
  | cons fd rest ih =>
    cases found : s.clients sender with
    | none =>
      simp only [broadcastLoop, found]
      exact List.Subset.refl _
    | some source =>
      have delivered := deliver_labels s fd output
        "slow client: chat message output queue overflow"
      rw [broadcastLoop_cons output found]
      split_ifs
      · generalize s.deliver fd output _ = result at delivered ⊢
        obtain ⟨queued, t⟩ := result
        cases queued with
        | false => exact delivered
        | true => exact List.Subset.trans (ih t) delivered
      · exact ih s

theorem notifyRoom_labels (s : ChatServer) (roomId : Nat) (excludedFd : Int) (message : Bytes) :
    labels (s.notifyRoom roomId excludedFd message).rooms ⊆ labels s.rooms := by
  have all (recipients : List Fd) (s : ChatServer) : labels (recipients.foldl
      (notifyClient roomId excludedFd message) s).rooms ⊆ labels s.rooms := by
    induction recipients generalizing s with
    | nil => exact List.Subset.refl _
    | cons fd rest ih =>
      refine List.Subset.trans (ih _) ?_
      rw [notifyClient_eq]
      split_ifs
      · exact deliver_labels s fd message _
      · exact List.Subset.refl _
  unfold notifyRoom
  cases Rooms.findById s.rooms roomId with
  | none => exact List.Subset.refl _
  | some room => exact all room.subscribedClients s

theorem depart_labels (s : ChatServer) (roomId : Nat) (message : Bytes) (fd : Fd)
    (reason : String) :
    labels ((s.notifyRoom roomId fd message).disconnect fd reason).rooms ⊆ labels s.rooms :=
  List.Subset.trans (disconnect_labels _ fd reason) (notifyRoom_labels s roomId fd message)

theorem peerGone_labels (s : ChatServer) (fd : Fd) (reason : String) :
    labels (s.peerGone fd reason).rooms ⊆ labels s.rooms := by
  unfold peerGone
  cases s.clients fd with
  | none => exact List.Subset.refl _
  | some client => exact depart_labels s _ _ _ _

theorem handleWrite_labels (s : ChatServer) (fd : Fd) :
    labels (s.handleWrite fd).rooms ⊆ labels s.rooms := by
  have flushed : (s.flushOutput fd).2.rooms = s.rooms := by
    unfold flushOutput
    cases s.clients fd <;> rfl
  unfold handleWrite
  generalize s.flushOutput fd = result at flushed ⊢
  obtain ⟨done, t⟩ := result
  change t.rooms = s.rooms at flushed
  rw [← flushed]
  cases done with
  | true => exact List.Subset.refl _
  | false => exact peerGone_labels t fd _

theorem receive_labels (s : ChatServer) (fd : Fd) (chunk : Bytes) :
    labels (s.receive fd chunk).2.rooms ⊆ labels s.rooms := by
  unfold receive
  cases s.clients fd with
  | none => exact List.Subset.refl _
  | some client =>
    dsimp only
    split_ifs
    · exact disconnect_labels _ fd _
    · exact List.Subset.refl _

theorem acceptClient_labels (s : ChatServer) (fd : Fd) (results : Results) :
    labels (s.acceptClient fd results).rooms ⊆ labels s.rooms := by
  obtain ⟨record, port, -, same⟩ := acceptClient_eq s fd results
  rw [same]
  exact deliver_labels ((s.setPort fd port).setClient fd record) fd prompt _

theorem enters_active {s : ChatServer} {c : Fd} {client : ClientConnection}
    (found : s.clients c = some client) {raw remaining : Bytes}
    (split : splitFrame client.inputBuffer = some (raw, remaining))
    (short : raw.length ≤ maxFrameBytes) (active : client.clientState = .active)
    (framesProcessed : Nat) : s.enters (.frame c framesProcessed) c =
      s.movesTo client (s.request client (stripCarriageReturn raw)) := by
  simp only [enters, ne_eq, not_true_eq_false, if_false, found, Option.bind_some, split,
    Nat.not_lt.mpr short, active]
  cases s.request client (stripCarriageReturn raw) <;> rfl

section Step

variable {s : ChatServer} (h : s.RoomsOk ∅)

include h

theorem processFrame_renames {sender : Fd} {source : ClientConnection}
    (found : s.clients sender = some source) (active : source.clientState = .active)
    (frame : Bytes) :
    Renames s (s.movesTo source (s.request source frame)) (s.processFrame sender frame).2 := by
  rw [processFrame_eq found (roomName_of_ne_zero h active found) frame]
  cases s.request source frame with
  | ignored => exact .inl (List.Subset.refl _)
  | chat words =>
    obtain ⟨room, -, -, same⟩ := broadcast_eq h found active words
    dsimp only
    rw [same]
    exact .inl (broadcastLoop_labels sender _ room.subscribedClients s)
  | reply line reason => exact .inl (deliver_labels s sender line reason)
  | move name =>
    dsimp only
    by_cases same : Rooms.roomName s.rooms source.currRoom = name
    · exact .inl (moveTo_same h found active same).2.2
    · obtain ⟨roomId, -, named, -, -, labels⟩ := moveTo_other h found active same
      exact .inr ⟨roomId, name, if_neg same, named, labels⟩
  | quit => exact .inl (depart_labels s _ _ _ _)

theorem perform_renames {a : Action} (enabled : a.enabled s) {c : Fd} (acts : a.actor = some c) :
    Renames s (s.enters a c) (a.perform s) := by
  cases a with
  | iteration | load results | answered c recvs => simp [Action.actor] at acts
  | accept c results => exact .inl (acceptClient_labels s _ results)
  | receive c chunk => exact .inl (receive_labels s _ chunk)
  | peerClosed c | recvFailed c => exact .inl (peerGone_labels s _ _)
  | write c => exact .inl (handleWrite_labels s _)
  | frame c framesProcessed =>
    obtain rfl := Option.some.inj acts
    obtain ⟨client, found⟩ := Option.ne_none_iff_exists'.mp enabled
    change Renames s _ (frameStep c framesProcessed s).server
    rcases frameStep_cases found framesProcessed with
      ⟨-, -, result⟩ | ⟨-, -, result⟩ | ⟨raw, remaining, split, ⟨-, result⟩ |
        ⟨short, awaiting, -⟩ | ⟨short, active, -⟩⟩
    · rw [result]
      exact .inl (disconnect_labels s c _)
    · rw [result]
      exact .inl (List.Subset.refl _)
    · rw [result]
      exact .inl (disconnect_labels s c _)
    · exact .inl (frameStep_username h found split short awaiting framesProcessed).2.2
    · have renames := processFrame_renames
        (eraseFrame_rooms h found remaining (.frame raw (stripCarriageReturn raw)))
        (taking_clients s c client raw remaining) active (stripCarriageReturn raw)
      rw [enters_active found split short active framesProcessed,
        (frameStep_active found split short active framesProcessed).1]
      rcases renames with fewer | ⟨roomId, name, moved, named, fewer⟩
      · exact .inl fewer
      · refine .inr ⟨roomId, name, moved, fun fd home there => ?_, fewer⟩
        exact named fd home ((taking_occupancy found fd).trans there)

theorem moved_home {sender : Fd} {source : ClientConnection}
    (found : s.clients sender = some source) (active : source.clientState = .active)
    {name : Bytes} (differ : Rooms.roomName s.rooms source.currRoom ≠ name) {fd : Fd} {home : Nat}
    (there : (s.moveTo sender source name).occupancy fd = some home) :
    fd ≠ sender ∧ s.occupancy fd = some home ∨
      fd = sender ∧ Rooms.roomName (s.moveTo sender source name).rooms home = name := by
  obtain ⟨roomId, -, -, performs, rooms, renamed⟩ := moveTo_other h found active differ
  have home' := there
  rw [occupancy, performs.entries, Entry.relocated] at home'
  have kept := Entry.notified_home home'
  by_cases same : fd = sender
  · subst same
    obtain ⟨room, mem, rfl⟩ := rooms.homes fd home there
    rw [only_self] at kept
    obtain ⟨record, found', -, id⟩ := Entry.occupant_some.mp kept
    obtain ⟨old, -, rfl⟩ := Option.map_eq_some_iff.mp found'
    refine .inr ⟨rfl, ?_⟩
    rw [rooms.roomName mem]
    rcases renamed _ (List.mem_map_of_mem mem) with entered | ⟨other, -⟩
    · exact (Prod.mk.inj entered).2
    · exact (other id.symm).elim
  · rw [only_of_ne same] at kept
    exact .inl ⟨same, Entry.notified_home kept⟩

theorem processFrame_home {sender : Fd} {source : ClientConnection}
    (found : s.clients sender = some source) (active : source.clientState = .active)
    (frame : Bytes) {fd : Fd} {home : Nat}
    (there : (s.processFrame sender frame).2.occupancy fd = some home) :
    (fd = sender → s.movesTo source (s.request source frame) = none) ∧
        s.occupancy fd = some home ∨
      fd = sender ∧ ∃ name, s.movesTo source (s.request source frame) = some name ∧
        Rooms.roomName (s.processFrame sender frame).2.rooms home = name := by
  rw [processFrame_eq found (roomName_of_ne_zero h active found) frame] at there ⊢
  cases asked : s.request source frame
  all_goals rw [asked] at there
  case ignored =>
    exact .inl ⟨fun _ => rfl, there⟩
  case chat words =>
    obtain ⟨room, mem, -, same⟩ := broadcast_eq h found active words
    obtain ⟨served, -, -, performs, -⟩ := broadcastLoop_performs (chatLine source.username words)
      room.subscribedClients (h.unique room mem) found
    dsimp only at there
    rw [same, occupancy, performs.entries] at there
    refine .inl ⟨fun _ => rfl, ?_⟩
    split_ifs at there
    · exact Entry.heard_home there
    · exact there
  case reply line reason =>
    dsimp only at there
    rw [occupancy, (deliver_performs found line reason).entries] at there
    refine .inl ⟨fun _ => rfl, ?_⟩
    unfold only at there
    split_ifs at there
    · exact Entry.offered_home there
    · exact there
  case move name =>
    dsimp only at there ⊢
    by_cases same : Rooms.roomName s.rooms source.currRoom = name
    · rw [occupancy, (moveTo_same h found active same).1.entries] at there
      exact .inl ⟨fun _ => if_pos same, there⟩
    · rcases moved_home h found active same there with ⟨ne, old⟩ | ⟨here, named⟩
      · exact .inl ⟨fun same => (ne same).elim, old⟩
      · exact .inr ⟨here, name, if_neg same, named⟩
  case quit =>
    dsimp only at there
    rw [occupancy, (depart_performs h _ _ _ _).1.entries] at there
    refine .inl ⟨fun _ => rfl, ?_⟩
    split_ifs at there
    · simp [Entry.closed_occupant] at there
    · exact Entry.notified_home there

theorem frameStep_home {c : Fd} {client : ClientConnection} (found : s.clients c = some client)
    (framesProcessed : Nat) {fd : Fd} {home : Nat}
    (there : (frameStep c framesProcessed s).server.occupancy fd = some home) :
    s.enters (.frame c framesProcessed) fd = none ∧ s.occupancy fd = some home ∨
      ∃ name, s.enters (.frame c framesProcessed) fd = some name ∧
        Rooms.roomName (frameStep c framesProcessed s).server.rooms home = name := by
  rcases frameStep_cases found framesProcessed with
    ⟨unsplit, -, result⟩ | ⟨unsplit, -, result⟩ | ⟨raw, remaining, split, ⟨long, result⟩ |
      ⟨short, awaiting, -⟩ | ⟨short, active, -⟩⟩
  · rw [result, FrameStep.server, occupancy, (disconnect_performs s c _).entries, only] at there
    refine .inl ⟨by simp [enters, found, unsplit], ?_⟩
    split_ifs at there
    · simp [Entry.closed_occupant] at there
    · exact there
  · rw [result] at there
    exact .inl ⟨by simp [enters, found, unsplit], there⟩
  · rw [result, FrameStep.server, occupancy, (disconnect_performs s c _).entries, only] at there
    refine .inl ⟨by simp [enters, found, split, long], ?_⟩
    split_ifs at there
    · simp [Entry.closed_occupant] at there
    · exact there
  · obtain ⟨performs, rooms, -⟩ :=
      frameStep_username h found split short awaiting framesProcessed
    rw [occupancy, performs.entries] at there
    have kept := Entry.notified_home there
    by_cases same : fd = c
    · subst same
      rw [only_self] at kept
      obtain rfl : 0 = home := by simpa [Entry.loggedIn, Entry.occupant] using kept
      obtain ⟨main, mem, zero, named⟩ := rooms.main
      refine .inr ⟨mainRoomName, by simp [enters, found, split, Nat.not_lt.mpr short, awaiting], ?_⟩
      rw [← named, ← rooms.roomName mem, zero]
    · rw [only_of_ne same] at kept
      exact .inl ⟨enters_of_ne rfl same, kept⟩
  · rw [(frameStep_active found split short active framesProcessed).1] at there ⊢
    rcases processFrame_home
        (eraseFrame_rooms h found remaining (.frame raw (stripCarriageReturn raw)))
        (taking_clients s c client raw remaining) active (stripCarriageReturn raw) there with
      ⟨settled, old⟩ | ⟨rfl, name, entered, named⟩
    · refine .inl ⟨?_, (taking_occupancy found fd).symm.trans old⟩
      by_cases same : fd = c
      · subst same
        exact (enters_active found split short active framesProcessed).trans (settled rfl)
      · exact enters_of_ne rfl same
    · exact .inr ⟨name, (enters_active found split short active framesProcessed).trans entered,
        named⟩

theorem perform_home {a : Action} (enabled : a.enabled s) {fd : Fd} {home : Nat}
    (there : (a.perform s).occupancy fd = some home) :
    s.enters a fd = none ∧ s.occupancy fd = some home ∨ ∃ name, s.enters a fd = some name ∧
      Rooms.roomName (a.perform s).rooms home = name := by
  have after : ∀ {change : Fd → Entry → Entry}, Performs s (a.perform s) change →
      (change fd (s.entry fd)).occupant = some home := by
    intro change performs
    rw [← performs.entries]
    exact there
  cases a with
  | iteration | load results | answered c recvs => exact .inl ⟨rfl, there⟩
  | accept c results =>
    have there := after (acceptClient_performs enabled results)
    unfold only at there
    split_ifs at there
    · have opened := Entry.offered_home there
      simp [Entry.opened, Entry.occupant] at opened
    · exact .inl ⟨rfl, there⟩
  | receive c chunk =>
    obtain ⟨client, found⟩ := Option.ne_none_iff_exists'.mp enabled
    have there := after (receive_performs found chunk)
    unfold only at there
    split_ifs at there
    · exact .inl ⟨rfl, Entry.received_home there⟩
    · exact .inl ⟨rfl, there⟩
  | peerClosed c | recvFailed c =>
    obtain ⟨client, found⟩ := Option.ne_none_iff_exists'.mp enabled
    have there := after (peerGone_performs h found _).1
    split_ifs at there
    · simp [Entry.closed_occupant] at there
    · exact .inl ⟨rfl, Entry.notified_home there⟩
  | write c =>
    obtain ⟨client, found⟩ := Option.ne_none_iff_exists'.mp enabled
    have there := after (handleWrite_performs h found).1
    unfold only at there
    refine .inl ⟨rfl, ?_⟩
    split_ifs at there
    · exact (Entry.flushed_occupant _ _).symm.trans there
    · exact there
    · simp [Entry.closed_occupant] at there
    · exact Entry.notified_home there
  | frame c framesProcessed =>
    obtain ⟨client, found⟩ := Option.ne_none_iff_exists'.mp enabled
    exact frameStep_home h found framesProcessed there

/-- Where nobody enters a room, every room that is left has the name it had. -/
theorem perform_rooms {a : Action} (enabled : a.enabled s) {room : ChatRoom}
    (mem : room ∈ (a.perform s).rooms) :
    (∃ c, s.enters a c = some room.roomName) ∨ (room.roomIdx, room.roomName) ∈ labels s.rooms := by
  have label : (room.roomIdx, room.roomName) ∈ labels (a.perform s).rooms :=
    List.mem_map_of_mem mem
  cases acts : a.actor with
  | none =>
    cases a with
    | iteration | load results | answered c recvs => exact .inr label
    | accept c results | receive c chunk | frame c framesProcessed | peerClosed c
    | recvFailed c | write c => simp [Action.actor] at acts
  | some c =>
    rcases perform_renames h enabled acts with fewer | ⟨roomId, name, entered, -, renamed⟩
    · exact .inr (fewer label)
    · rcases renamed _ label with same | ⟨-, old⟩
      · exact .inl ⟨c, by rw [entered, (Prod.mk.inj same).2]⟩
      · exact .inr old

theorem perform_homeName {a : Action} (enabled : a.enabled s) (h' : (a.perform s).RoomsOk ∅)
    {fd : Fd} {name : Bytes} (there : (a.perform s).homeName fd = some name) :
    (s.enters a fd).or (s.homeName fd) = some name := by
  obtain ⟨home, home_eq, rfl⟩ := Option.map_eq_some_iff.mp there
  rcases perform_home h enabled home_eq with ⟨settled, old⟩ | ⟨name, entered, named⟩
  · rw [settled, Option.none_or, homeName, old, Option.map_some]
    obtain ⟨room, mem, rfl⟩ := h'.homes fd home home_eq
    have label : (room.roomIdx, room.roomName) ∈ labels (a.perform s).rooms :=
      List.mem_map_of_mem mem
    have same (mem' : (room.roomIdx, room.roomName) ∈ labels s.rooms) :
        Rooms.roomName s.rooms room.roomIdx = Rooms.roomName (a.perform s).rooms room.roomIdx := by
      obtain ⟨room', there', same⟩ := List.mem_map.mp mem'
      obtain ⟨id, name⟩ := Prod.mk.inj same
      rw [h'.roomName mem, ← id, h.roomName there', name]
    cases acts : a.actor with
    | none =>
      cases a with
      | iteration | load results | answered c recvs => rfl
      | accept c results | receive c chunk | frame c framesProcessed | peerClosed c
      | recvFailed c | write c => simp [Action.actor] at acts
    | some c =>
      rcases perform_renames h enabled acts with fewer | ⟨roomId, name, -, named, renamed⟩
      · rw [same (fewer label)]
      · rcases renamed _ label with entered | ⟨-, old⟩
        · obtain ⟨id, name⟩ := Prod.mk.inj entered
          rw [(named fd _ old).mpr id, h'.roomName mem, name]
        · rw [same old]
  · rw [entered, Option.some_or, named]

end Step

/-! What is true of every line, or of every word of one, is true of the names. -/

section OfFrames

variable {P : Bytes → Prop} {s : ChatServer} {client : ClientConnection}

theorem username_of (unnamed : P [])
    (line : ∀ raw, newline ∉ raw → raw.length ≤ maxFrameBytes → P (stripCarriageReturn raw))
    (h : Inv s) {fd : Fd} (found : s.clients fd = some client) : P client.username := by
  have framing := (h.entries fd).framing client found
  have login := framing.login
  cases state : client.clientState with
  | awaitingUsername =>
    rw [state] at login
    exact login.2.1 ▸ unnamed
  | active =>
    rw [state] at login
    obtain ⟨raw, rest, taken, -⟩ := login
    obtain ⟨clean, short, same⟩ := framing.whole ⟨true, raw, client.username⟩
      (taken ▸ List.mem_cons_self)
    change client.username = stripCarriageReturn raw at same
    exact same ▸ line raw clean short

variable (main : P mainRoomName)

include main

theorem request_move_of {frame name : Bytes} (word : ∀ word ∈ tokens frame, P word)
    (asked : s.request client frame = .move name) : P name := by
  simp only [request] at asked
  split_ifs at asked with empty chat list join leave
  · obtain rfl : (tokens frame).getD 1 [] = name := by simpa using asked
    obtain ⟨first, argument, words⟩ := List.length_eq_two.mp join.2
    exact word _ (by simp [words])
  · obtain rfl : mainRoomName = name := by simpa using asked
    exact main

variable (word : ∀ raw, newline ∉ raw → raw.length ≤ maxFrameBytes →
  ∀ word ∈ tokens (stripCarriageReturn raw), P word)

include word

theorem enters_of {a : Action} {fd : Fd} {name : Bytes} (entered : s.enters a fd = some name) :
    P name := by
  obtain ⟨framesProcessed, client, raw, remaining, -, -, split, short, ⟨-, rfl⟩ | ⟨-, asked, -⟩⟩ :=
    enters_cases entered
  · exact main
  · exact request_move_of main (word raw (splitFrame_some split).2 short) asked

theorem reachable_roomNames_of (h : Reachable s) : ∀ room ∈ s.rooms, P room.roomName := by
  refine h.invariant_of (P := fun s => ∀ room ∈ s.rooms, P room.roomName)
    (fun _ => reachable_inv) ?_ fun s a inv names enabled => ?_
  · rintro s ⟨listener, rfl⟩ room mem
    obtain rfl := List.mem_singleton.mp mem
    exact main
  · intro room mem
    rcases perform_rooms inv.rooms enabled mem with ⟨c, entered⟩ | old
    · exact enters_of main word entered
    · obtain ⟨room', there, same⟩ := List.mem_map.mp old
      rw [← (Prod.mk.inj same).2]
      exact names room' there

end OfFrames

end ChatServer
end Partyline
