import Partyline.Names

/-! The room that a client is in, told by the frames taken from it alone: nobody
else's frames, and no refusal, change it. -/
namespace Partyline

/-- The name of the room a client is in after a frame that it has sent in `place`. -/
def placeAfter (place frame : Bytes) : Bytes :=
  let words := tokens frame
  if words.headD [] = ascii "JOIN" ∧ words.length = 2 then words.getD 1 []
  else if words.headD [] = ascii "LEAVE" then mainRoomName
  else place

/-- The same after all of its lines, of which the first is the username. -/
def placeOf (lines : List Bytes) : Bytes :=
  lines.tail.foldl placeAfter mainRoomName

@[simp] theorem placeOf_singleton (line : Bytes) : placeOf [line] = mainRoomName := rfl

theorem placeOf_concat {lines : List Bytes} (named : lines ≠ []) (line : Bytes) :
    placeOf (lines ++ [line]) = placeAfter (placeOf lines) line := by
  simp [placeOf, List.tail_append_of_ne_nil named]

namespace Entry

def frames (e : Entry) : List Taken := takenFrames e.port.history

@[simp] theorem closed_frames (e : Entry) (reason : String) :
    (e.closed reason).frames = e.frames := by
  unfold closed
  split <;> simp [frames]

@[simp] theorem offered_frames (e : Entry) (serverIteration : Nat) (data : Bytes)
    (reason : String) : (e.offered serverIteration data reason).frames = e.frames := by
  cases found : e.client with
  | none => rw [offered_none found]
  | some record =>
    obtain ⟨-, -, -, outcome, calls, history, silent, -⟩ :=
      queueOutputCommon_offered serverIteration record e.port data
    have queued : takenFrames (queueOutputCommon serverIteration record e.port data).2.2.history =
        takenFrames e.port.history := by
      rw [history, takenFrames_cons]
      simp [(input_readings_of_output e.port.history fun effect mem => (silent effect mem).1).2]
    cases taken : e.accepts serverIteration data with
    | true =>
      obtain ⟨same, found', result⟩ := offered_of_accepts taken reason
      obtain rfl : record = same := Option.some.inj (found.symm.trans found')
      rw [result]
      exact queued
    | false =>
      rw [offered_of_rejects taken found]
      simpa [frames] using queued

@[simp] theorem moved_frames (e : Entry) (roomId : Nat) : (e.moved roomId).frames = e.frames := rfl

@[simp] theorem notified_frames (e : Entry) (serverIteration roomId : Nat) (excludedFd : Int)
    (message : Bytes) (fd : Fd) :
    (e.notified serverIteration roomId excludedFd message fd).frames = e.frames := by
  unfold notified
  split_ifs
  · exact offered_frames _ _ _ _
  · rfl

@[simp] theorem heard_frames (e : Entry) (serverIteration roomId : Nat) (sender : Fd)
    (output : Bytes) (fd : Fd) :
    (e.heard serverIteration roomId sender output fd).frames = e.frames := by
  unfold heard
  split_ifs
  · exact offered_frames _ _ _ _
  · rfl

@[simp] theorem received_frames (e : Entry) (chunk : Bytes) :
    (e.received chunk).frames = e.frames := by
  unfold received
  split
  · rfl
  · dsimp only
    split_ifs
    · rw [closed_frames]
      simp [frames, Port.note]
    · simp [frames, Port.note]

@[simp] theorem flushed_frames (e : Entry) (serverIteration : Nat) :
    (e.flushed serverIteration).frames = e.frames := by
  cases found : e.client with
  | none => simp [flushed, found]
  | some record =>
    obtain ⟨-, -, -, calls, history, silent⟩ :=
      flushOutputCommon_output serverIteration record e.port
    simp only [flushed, found, frames, history]
    exact (input_readings_of_output _ fun effect mem => (silent effect mem).1).2

theorem only_frames {change : Entry → Entry} (same : ∀ e : Entry, (change e).frames = e.frames)
    (fd other : Fd) (e : Entry) : (ChatServer.only fd change other e).frames = e.frames := by
  unfold ChatServer.only
  split_ifs
  · exact same e
  · rfl

@[simp] theorem relocated_frames (e : Entry) (serverIteration : Nat) (sender : Fd)
    (source : ClientConnection) (oldName name : Bytes) (roomId : Nat) (fd : Fd) :
    (e.relocated serverIteration sender source oldName name roomId fd).frames = e.frames := by
  simp only [relocated, notified_frames]
  rw [only_frames fun e => moved_frames e roomId, notified_frames]

end Entry

namespace ChatServer

/-- The frame that a step takes from `fd`. -/
def takes (s : ChatServer) (a : Action) (fd : Fd) : Option Taken :=
  match a with
  | .frame c _ =>
    if fd ≠ c then none
    else (s.clients c).bind fun client =>
      match splitFrame client.inputBuffer with
      | none => none
      | some (raw, _) =>
        if maxFrameBytes < raw.length then none
        else some ⟨client.clientState = .awaitingUsername, raw, stripCarriageReturn raw⟩
  | _ => none

section Step

variable {s : ChatServer} (h : s.RoomsOk ∅) {fd : Fd} {client : ClientConnection}

theorem disconnect_frames (s : ChatServer) (fd : Fd) (reason : String) (other : Fd) :
    ((s.disconnect fd reason).entry other).frames = (s.entry other).frames := by
  rw [(disconnect_performs s fd reason).entries]
  exact Entry.only_frames (fun e => e.closed_frames reason) _ _ _

include h

theorem depart_frames (roomId : Nat) (message : Bytes) (reason : String) (other : Fd) :
    (((s.notifyRoom roomId fd message).disconnect fd reason).entry other).frames =
      (s.entry other).frames := by
  rw [(depart_performs h roomId message fd reason).1.entries]
  split_ifs <;> simp

theorem processFrame_frames (found : s.clients fd = some client)
    (active : client.clientState = .active) (frame : Bytes) (other : Fd) :
    ((s.processFrame fd frame).2.entry other).frames = (s.entry other).frames := by
  rw [processFrame_eq found (roomName_of_ne_zero h active found) frame]
  cases s.request client frame with
  | ignored => rfl
  | chat words =>
    obtain ⟨room, mem, -, same⟩ := broadcast_eq h found active words
    obtain ⟨served, -, -, performs, -⟩ := broadcastLoop_performs (chatLine client.username words)
      room.subscribedClients (h.unique room mem) found
    dsimp only
    rw [same, performs.entries]
    split_ifs <;> simp
  | reply line reason =>
    dsimp only
    rw [(deliver_performs found line reason).entries]
    exact Entry.only_frames (fun e => e.offered_frames _ _ _) _ _ _
  | move name =>
    dsimp only
    by_cases same : Rooms.roomName s.rooms client.currRoom = name
    · rw [(moveTo_same h found active same).1.entries]
    · obtain ⟨roomId, -, -, performs, -⟩ := moveTo_other h found active same
      rw [performs.entries, Entry.relocated_frames]
  | quit => exact depart_frames h _ _ _ _

theorem frameStep_frames (found : s.clients fd = some client) (framesProcessed : Nat)
    (other : Fd) : ((frameStep fd framesProcessed s).server.entry other).frames =
      (s.entry other).frames ++ (s.takes (.frame fd framesProcessed) other).toList := by
  have elsewhere (ne : other ≠ fd) : s.takes (.frame fd framesProcessed) other = none := by
    simp [takes, ne]
  rcases frameStep_cases found framesProcessed with
    ⟨unsplit, -, result⟩ | ⟨unsplit, -, result⟩ | ⟨raw, remaining, split, ⟨long, result⟩ |
      ⟨short, awaiting, -⟩ | ⟨short, active, -⟩⟩
  · have nothing : s.takes (.frame fd framesProcessed) other = none := by
      simp [takes, found, unsplit]
    rw [result, nothing, Option.toList_none, List.append_nil]
    exact disconnect_frames s fd _ other
  · have nothing : s.takes (.frame fd framesProcessed) other = none := by
      simp [takes, found, unsplit]
    rw [result, nothing, Option.toList_none, List.append_nil]
    rfl
  · have nothing : s.takes (.frame fd framesProcessed) other = none := by
      simp [takes, found, split, long]
    rw [result, nothing, Option.toList_none, List.append_nil]
    exact disconnect_frames s fd _ other
  · obtain ⟨performs, -⟩ := frameStep_username h found split short awaiting framesProcessed
    rw [performs.entries, Entry.notified_frames]
    by_cases same : other = fd
    · subst same
      simp [takes, found, split, Nat.not_lt.mpr short, awaiting, Entry.loggedIn, Entry.frames,
        Port.note]
    · rw [elsewhere same, only_of_ne same, Option.toList_none, List.append_nil]
  · rw [(frameStep_active found split short active framesProcessed).1,
      processFrame_frames (eraseFrame_rooms h found remaining _)
        (taking_clients s fd client raw remaining) active]
    by_cases same : other = fd
    · subst same
      rw [(eraseFrame_performs s other client remaining _).entries, only_self]
      simp [takes, found, split, Nat.not_lt.mpr short, active, Entry.erased, Entry.frames,
        Port.note]
    · rw [elsewhere same, taking_entry s client raw remaining same, Option.toList_none,
        List.append_nil]

theorem perform_frames {a : Action} (enabled : a.enabled s)
    (old : ∀ results, a ≠ .accept fd results) :
    ((a.perform s).entry fd).frames = (s.entry fd).frames ++ (s.takes a fd).toList := by
  cases a with
  | iteration | load results => exact (List.append_nil _).symm
  | accept c results =>
    have ne : fd ≠ c := fun same => old results (same ▸ rfl)
    change ((s.acceptClient c results).entry fd).frames = _
    rw [(acceptClient_performs enabled results).entries, only_of_ne ne]
    exact (List.append_nil _).symm
  | answered c recvs =>
    change ((s.setRecvs c recvs).entry fd).frames = _
    rw [(setRecvs_performs s c recvs).entries]
    refine (Entry.only_frames (fun e => ?_) _ _ _).trans (List.append_nil _).symm
    rfl
  | receive c chunk =>
    obtain ⟨client, found⟩ := Option.ne_none_iff_exists'.mp enabled
    change ((s.receive c chunk).2.entry fd).frames = _
    rw [(receive_performs found chunk).entries,
      Entry.only_frames fun e => e.received_frames chunk]
    exact (List.append_nil _).symm
  | frame c framesProcessed =>
    obtain ⟨client, found⟩ := Option.ne_none_iff_exists'.mp enabled
    exact frameStep_frames h found framesProcessed fd
  | peerClosed c | recvFailed c =>
    obtain ⟨client, found⟩ := Option.ne_none_iff_exists'.mp enabled
    change ((s.peerGone c _).entry fd).frames = _
    rw [(peerGone_performs h found _).1.entries]
    split_ifs <;> simp [takes]
  | write c =>
    obtain ⟨client, found⟩ := Option.ne_none_iff_exists'.mp enabled
    change ((s.handleWrite c).entry fd).frames = _
    rw [(handleWrite_performs h found).1.entries]
    split_ifs
    · rw [Entry.only_frames fun e => e.flushed_frames s.serverIteration]
      exact (List.append_nil _).symm
    · simp [takes]
    · simp [takes]

end Step

theorem roomName_zero {s : ChatServer} (h : s.RoomsOk ∅) :
    Rooms.roomName s.rooms 0 = mainRoomName := by
  obtain ⟨main, mem, zero, named⟩ := h.main
  rw [← zero, h.roomName mem, named]

theorem movesTo_placeAfter {s : ChatServer} (h : s.RoomsOk ∅) (source : ClientConnection)
    (frame : Bytes) :
    (s.movesTo source (s.request source frame)).getD (Rooms.roomName s.rooms source.currRoom) =
      placeAfter (Rooms.roomName s.rooms source.currRoom) frame := by
  have stay {name : Bytes} (same : Rooms.roomName s.rooms source.currRoom = name) :
      (s.movesTo source (.move name)).getD (Rooms.roomName s.rooms source.currRoom) = name := by
    simp [movesTo, same]
  have go {name : Bytes} : (s.movesTo source (.move name)).getD
      (Rooms.roomName s.rooms source.currRoom) = name := by
    by_cases same : Rooms.roomName s.rooms source.currRoom = name
    · exact stay same
    · simp [movesTo, same]
  simp only [placeAfter]
  split_ifs with join leave
  · have nonempty : frame ≠ [] := by
      rintro rfl
      cases join.2
    have asked : s.request source frame = .move ((tokens frame).getD 1 []) := by
      simp only [request]
      rw [if_neg nonempty, if_neg (by rw [join.1]; decide), if_neg (by rw [join.1]; decide),
        if_pos join]
    rw [asked, go]
  · have nonempty : frame ≠ [] := by
      rintro rfl
      exact absurd leave (by decide)
    have asked : s.request source frame =
        if source.currRoom ≠ 0 then .move mainRoomName else .ignored := by
      simp only [request]
      rw [if_neg nonempty, if_neg (by rw [leave]; decide), if_neg (by rw [leave]; decide),
        if_neg join]
      simp only [leave, true_and]
      split_ifs with elsewhere where' quit
      · rfl
      · exact absurd where'.1 (by decide)
      · exact absurd quit (by decide)
      · rfl
    rw [asked]
    split_ifs with elsewhere
    · exact go
    · rw [not_not.mp elsewhere]
      exact roomName_zero h
  · have still : s.movesTo source (s.request source frame) = none := by
      simp only [request]
      split_ifs with empty chat list leaves
      any_goals rfl
      exact (leave leaves.1).elim
    rw [still, Option.getD_none]

section Place

variable {s : ChatServer} {c fd : Fd}

theorem homeName_active {client : ClientConnection} (found : s.clients c = some client)
    (active : client.clientState = .active) :
    s.homeName c = some (Rooms.roomName s.rooms client.currRoom) := by
  have home : s.occupancy c = some client.currRoom :=
    Entry.occupant_some.mpr ⟨client, found, active, rfl⟩
  rw [homeName, home, Option.map_some]

theorem frame_place (h : Inv s) (framesProcessed : Nat) (connected : s.clients c ≠ none)
    (before : ∀ name, s.homeName fd = some name →
      (s.entry fd).frames ≠ [] ∧ name = placeOf ((s.entry fd).frames.map Taken.line))
    {name : Bytes}
    (there : (s.enters (.frame c framesProcessed) fd).or (s.homeName fd) = some name) :
    (s.entry fd).frames ++ (s.takes (.frame c framesProcessed) fd).toList ≠ [] ∧
      name = placeOf (((s.entry fd).frames ++
        (s.takes (.frame c framesProcessed) fd).toList).map Taken.line) := by
  have idle (settled : s.enters (.frame c framesProcessed) fd = none)
      (nothing : s.takes (.frame c framesProcessed) fd = none) :
      (s.entry fd).frames ++ (s.takes (.frame c framesProcessed) fd).toList ≠ [] ∧
        name = placeOf (((s.entry fd).frames ++
          (s.takes (.frame c framesProcessed) fd).toList).map Taken.line) := by
    rw [settled, Option.none_or] at there
    rw [nothing, Option.toList_none, List.append_nil]
    exact before name there
  by_cases same : fd = c
  · subst same
    obtain ⟨client, found⟩ := Option.ne_none_iff_exists'.mp connected
    cases split : splitFrame client.inputBuffer with
    | none => exact idle (by simp [enters, found, split]) (by simp [takes, found, split])
    | some frame =>
      obtain ⟨raw, remaining⟩ := frame
      by_cases long : maxFrameBytes < raw.length
      · exact idle (by simp [enters, found, split, long]) (by simp [takes, found, split, long])
      have taken : s.takes (.frame fd framesProcessed) fd =
          some ⟨client.clientState = .awaitingUsername, raw, stripCarriageReturn raw⟩ := by
        simp [takes, found, split, long]
      rw [taken, Option.toList_some]
      refine ⟨List.append_ne_nil_of_right_ne_nil _ (List.cons_ne_nil _ _), ?_⟩
      cases state : client.clientState with
      | awaitingUsername =>
        have login := ((h.entries fd).framing client found).login
        rw [state] at login
        have first : (s.entry fd).frames = [] := login.1
        have main : name = mainRoomName := by
          simpa [enters, found, split, long, state] using there.symm
        rw [first, main]
        rfl
      | active =>
        obtain ⟨nonempty, place⟩ := before _ (homeName_active found state)
        rw [enters_active found split (Nat.not_lt.mp long) state framesProcessed,
          homeName_active found state] at there
        rw [List.map_append, List.map_singleton, placeOf_concat (by simpa using nonempty), ← place,
          ← movesTo_placeAfter h.rooms]
        cases moves : s.movesTo client (s.request client (stripCarriageReturn raw)) with
        | none => simpa [moves] using there.symm
        | some target => simpa [moves] using there.symm
  · exact idle (enters_of_ne rfl same) (by simp [takes, same])

/-- The room of a connected client is where its own lines have taken it. -/
theorem reachable_place (h : Reachable s) {name : Bytes} (there : s.homeName fd = some name) :
    name = placeOf ((takenFrames (s.ports fd).history).map Taken.line) := by
  have placed : ∀ name, s.homeName fd = some name →
      (s.entry fd).frames ≠ [] ∧ name = placeOf ((s.entry fd).frames.map Taken.line) := by
    refine h.invariant_of (P := fun s => ∀ name, s.homeName fd = some name →
      (s.entry fd).frames ≠ [] ∧ name = placeOf ((s.entry fd).frames.map Taken.line))
      (fun _ => reachable_inv) ?_ fun s a inv before enabled name there => ?_
    · rintro s ⟨listener, rfl⟩ name there
      simp [homeName, occupancy, entry, Entry.occupant, initial] at there
    · have allowed : a.enabled s := enabled
      have after := perform_homeName inv.rooms allowed (inv.perform allowed).rooms there
      have frames (old : ∀ results, a ≠ .accept fd results) :
          ((machine.perform a s).entry fd).frames = (s.entry fd).frames ++ (s.takes a fd).toList :=
        perform_frames inv.rooms allowed old
      cases a with
      | accept c results =>
        by_cases same : fd = c
        · subst same
          have closed : fd ≠ s.listener ∧ s.clients fd = none := by
            simpa [Action.enabled, isOpen] using allowed
          simp [enters, homeName, occupancy, Entry.occupant, closed.2] at after
        · rw [frames (by simp [Ne.symm same])]
          simpa [enters, takes] using before name after
      | frame c framesProcessed =>
        rw [frames (by simp)]
        exact frame_place inv framesProcessed allowed before after
      | iteration | load results | answered c recvs | receive c chunk | peerClosed c
      | recvFailed c | write c =>
        rw [frames (by simp)]
        simpa [enters, takes] using before name after
  exact (placed name there).2

end Place

end ChatServer
end Partyline
