import Partyline.Recipients
import Partyline.Library.Blind

/-! What the server does for one client does not depend on a connection that has
not logged in: with `hide g` the server is seen without the descriptor `g`, and
each operation for another descriptor does the same to what is seen. -/
namespace Partyline

open Library

namespace ChatServer

/-- The server without the descriptor `g`. -/
def hide (g : Fd) (s : ChatServer) : ChatServer :=
  { s with
    clients := Function.update s.clients g none
    ports := Function.update s.ports g ⟨none, [], [], [], []⟩ }

def Unnamed (client : Option ClientConnection) : Prop :=
  ∀ record, client = some record → record.clientState = .awaitingUsername

abbrev Blind (g : Fd) (f : ChatServer → ChatServer) : Prop :=
  Library.Blind (hide g) (fun s => s.clients g) Unnamed f

abbrev BlindResult {β : Type} (g : Fd) (f : ChatServer → β × ChatServer) : Prop :=
  Library.BlindResult (hide g) (fun s => s.clients g) Unnamed f

variable {g fd : Fd} (ne : fd ≠ g)

@[simp] theorem hide_rooms (g : Fd) (s : ChatServer) : (s.hide g).rooms = s.rooms := rfl

@[simp] theorem hide_serverIteration (g : Fd) (s : ChatServer) :
    (s.hide g).serverIteration = s.serverIteration := rfl

@[simp] theorem hide_listener (g : Fd) (s : ChatServer) : (s.hide g).listener = s.listener := rfl

theorem setRooms_blind (change : List ChatRoom → List ChatRoom) :
    Blind g fun s => { s with rooms := change s.rooms } := fun _ _ => ⟨rfl, rfl⟩

include ne

theorem hide_clients (s : ChatServer) : (s.hide g).clients fd = s.clients fd :=
  Function.update_of_ne ne _ _

theorem hide_ports (s : ChatServer) : (s.hide g).ports fd = s.ports fd :=
  Function.update_of_ne ne _ _

theorem setClient_blind (record : ClientConnection) : Blind g fun s => s.setClient fd record := by
  refine fun s _ => ⟨?_, Function.update_of_ne ne.symm _ _⟩
  simp only [setClient, hide, Function.update_comm ne]

theorem setPort_blind (port : Port) : Blind g fun s => s.setPort fd port := by
  refine fun s _ => ⟨?_, rfl⟩
  simp only [setPort, hide, Function.update_comm ne]

theorem note_blind (effect : Effect) : Blind g fun s => s.note fd effect := by
  intro s quiet
  simp only [note, hide_ports ne]
  exact setPort_blind ne _ s quiet

theorem setRecvs_blind (recvs : List RecvResult) : Blind g fun s => s.setRecvs fd recvs := by
  intro s quiet
  simp only [setRecvs, hide_ports ne]
  exact setPort_blind ne _ s quiet

theorem store_blind (record : ClientConnection) (port : Port) :
    Blind g fun s => (s.setClient fd record).setPort fd port :=
  (setClient_blind ne record).comp (setPort_blind ne port)

theorem queueOutput_blind (data : Bytes) : BlindResult g fun s => s.queueOutput fd data := by
  intro s quiet
  simp only [queueOutput, hide_clients ne, hide_ports ne, hide_serverIteration]
  cases s.clients fd with
  | none => exact ⟨rfl, rfl⟩
  | some record =>
    dsimp only
    generalize queueOutputCommon s.serverIteration record (s.ports fd) data = result
    obtain ⟨queued, record', port⟩ := result
    obtain ⟨same, kept⟩ := store_blind ne record' port s quiet
    exact ⟨Prod.ext rfl same, kept⟩

theorem flushOutput_blind : BlindResult g fun s => s.flushOutput fd := by
  intro s quiet
  simp only [flushOutput, hide_clients ne, hide_ports ne, hide_serverIteration]
  cases s.clients fd with
  | none => exact ⟨rfl, rfl⟩
  | some record =>
    dsimp only
    generalize flushOutputCommon s.serverIteration record (s.ports fd) = result
    obtain ⟨flushed, record', port⟩ := result
    obtain ⟨same, kept⟩ := store_blind ne record' port s quiet
    exact ⟨Prod.ext rfl same, kept⟩

theorem disconnect_blind (reason : String) : Blind g fun s => s.disconnect fd reason := by
  intro s quiet
  simp only [disconnect, hide_clients ne, hide_ports ne]
  cases s.clients fd with
  | none => exact ⟨rfl, rfl⟩
  | some client =>
    refine ⟨?_, Function.update_of_ne ne.symm _ _⟩
    simp only [hide, Function.update_comm ne]

theorem deliver_blind (data : Bytes) (reason : String) :
    BlindResult g fun s => s.deliver fd data reason := by
  have next (queued : Bool) : BlindResult g fun s =>
      if queued = true then (true, s) else (false, s.disconnect fd reason) := by
    cases queued with
    | true => exact Blind.id.result true
    | false => exact (disconnect_blind ne reason).result false
  refine ((queueOutput_blind ne data).bind next).congr fun s => ?_
  simp only [deliver]
  rcases s.queueOutput fd data with ⟨_ | _, t⟩ <;> rfl

omit ne

theorem hide_occupancy {s : ChatServer} (quiet : Unnamed (s.clients g)) (fd : Fd) :
    (s.hide g).occupancy fd = s.occupancy fd := by
  by_cases same : fd = g
  · subst same
    have out : s.occupancy fd = none := by
      by_contra home
      obtain ⟨roomId, home⟩ := Option.ne_none_iff_exists'.mp home
      obtain ⟨record, found, active, -⟩ := Entry.occupant_some.mp home
      simp [quiet record found] at active
    rw [out]
    simp [occupancy, Entry.occupant, hide]
  · simp [occupancy, Entry.occupant, hide_clients same]

theorem hidden_ne {s : ChatServer} (quiet : Unnamed (s.clients g)) {roomId : Nat}
    (home : s.occupancy fd = some roomId) : fd ≠ g := by
  rintro rfl
  obtain ⟨record, found, active, -⟩ := Entry.occupant_some.mp home
  simp [quiet record found] at active

theorem notifyClient_blind (roomId : Nat) (excludedFd : Int) (message : Bytes) (fd : Fd) :
    Blind g fun s => notifyClient roomId excludedFd message s fd := by
  intro s quiet
  simp only [notifyClient_eq, hide_occupancy quiet]
  split_ifs with told
  · obtain ⟨same, kept⟩ := deliver_blind (hidden_ne quiet told.2) message
      "slow client: room notification output queue overflow" s quiet
    exact ⟨congrArg Prod.snd same, kept⟩
  · exact ⟨rfl, rfl⟩

theorem notifyRoom_blind (roomId : Nat) (excludedFd : Int) (message : Bytes) :
    Blind g fun s => s.notifyRoom roomId excludedFd message := by
  intro s quiet
  simp only [notifyRoom, hide_rooms]
  cases Rooms.findById s.rooms roomId with
  | none => exact ⟨rfl, rfl⟩
  | some room =>
    exact Blind.foldl (notifyClient_blind roomId excludedFd message) room.subscribedClients s quiet

include ne

theorem joinRoom_blind (name : Bytes) : Blind g fun s => s.joinRoom fd name := by
  intro s quiet
  simp only [joinRoom, hide_rooms, hide_clients ne]
  cases s.clients fd with
  | none => exact ⟨rfl, rfl⟩
  | some record =>
    dsimp only
    cases Rooms.deref _ _ with
    | none => exact ⟨rfl, rfl⟩
    | some target =>
      exact (setRooms_blind fun rooms => Rooms.subscribe (Rooms.removeFromRooms
        (Rooms.findOrCreate rooms name).1 fd) (Rooms.findOrCreate rooms name).2 fd).comp
          (setClient_blind ne { record with currRoom := target.roomIdx }) s quiet

theorem announceJoin_blind (name : Bytes) : Blind g fun s => s.announceJoin fd name := by
  intro s quiet
  simp only [announceJoin, hide_clients ne]
  cases s.clients fd with
  | none => exact ⟨rfl, rfl⟩
  | some record => exact notifyRoom_blind record.currRoom (-1) _ s quiet

theorem peerGone_blind (reason : String) : Blind g fun s => s.peerGone fd reason := by
  intro s quiet
  simp only [peerGone, hide_clients ne]
  cases s.clients fd with
  | none => exact ⟨rfl, rfl⟩
  | some client =>
    exact (notifyRoom_blind client.currRoom fd _).comp (disconnect_blind ne reason) s quiet

omit ne in
theorem broadcastNext_blind {first : Fd} (other : first ≠ g) {output : Bytes} {rest : List Fd}
    (loop : BlindResult g fun s => broadcastLoop fd output rest s) : BlindResult g fun s =>
      match s.deliver first output "slow client: chat message output queue overflow" with
      | (true, s) => broadcastLoop fd output rest s
      | (false, s) => (false, s) := by
  have next (queued : Bool) : BlindResult g fun s =>
      if queued = true then broadcastLoop fd output rest s else (false, s) := by
    cases queued with
    | true => exact loop
    | false => exact Blind.id.result false
  refine ((deliver_blind other output
    "slow client: chat message output queue overflow").bind next).congr fun s => ?_
  rcases s.deliver first output _ with ⟨_ | _, t⟩ <;> rfl

theorem broadcastLoop_blind (output : Bytes) (recipients : List Fd) :
    BlindResult g fun s => broadcastLoop fd output recipients s := by
  induction recipients with
  | nil =>
    intro s quiet
    simp only [broadcastLoop, hide_clients ne]
    cases s.clients fd <;> exact ⟨rfl, rfl⟩
  | cons first rest ih =>
    intro s quiet
    cases found : s.clients fd with
    | none =>
      simp only [broadcastLoop, hide_clients ne, found]
      exact ⟨rfl, rfl⟩
    | some source =>
      have found' : (s.hide g).clients fd = some source := (hide_clients ne s).trans found
      simp only [broadcastLoop_cons output found, broadcastLoop_cons output found',
        hide_occupancy quiet]
      split_ifs with told
      · exact broadcastNext_blind (hidden_ne quiet told.2) ih s quiet
      · exact ih s quiet

theorem broadcast_blind (words : List Bytes) : BlindResult g fun s => s.broadcast fd words := by
  intro s quiet
  simp only [broadcast, hide_clients ne, hide_rooms]
  cases s.clients fd with
  | none => exact ⟨rfl, rfl⟩
  | some source =>
    dsimp only
    cases Rooms.findById s.rooms source.currRoom with
    | none => exact ⟨rfl, rfl⟩
    | some room => exact broadcastLoop_blind ne _ room.subscribedClients s quiet

theorem leave_blind (roomId : Nat) (line name : Bytes) : Blind g fun s =>
    let s := ((s.notifyRoom roomId fd line).joinRoom fd name).announceJoin fd name
    { s with rooms := Rooms.deleteEmptyRoom s.rooms roomId } :=
  (((notifyRoom_blind roomId fd line).comp (joinRoom_blind ne name)).comp
    (announceJoin_blind ne name)).comp (setRooms_blind fun rooms => Rooms.deleteEmptyRoom rooms roomId)

theorem moveTo_blind (source : ClientConnection) (name : Bytes) :
    Blind g fun s => s.moveTo fd source name := by
  intro s quiet
  by_cases same : Rooms.roomName s.rooms source.currRoom = name
  · simp only [moveTo, hide_rooms, same, ne_eq, not_true_eq_false, if_false]
    exact ((joinRoom_blind ne name).comp
      (setRooms_blind fun rooms => Rooms.deleteEmptyRoom rooms source.currRoom)) s quiet
  · simp only [moveTo, hide_rooms, same, ne_eq, not_false_eq_true, if_true]
    exact leave_blind ne _ _ _ s quiet

theorem processFrame_blind (frame : Bytes) :
    BlindResult g fun s => s.processFrame fd frame := by
  intro s quiet
  have answer (line : Bytes) (reason : String) : BlindResult g fun s => s.deliver fd line reason :=
    deliver_blind ne line reason
  by_cases empty : frame = []
  · simp [processFrame, empty]
  cases found : s.clients fd with
  | none =>
    simp only [processFrame, hide_clients ne, found, if_neg empty]
    exact ⟨rfl, rfl⟩
  | some source =>
    by_cases chat : (tokens frame).headD [] ∉ commands
    · simp only [processFrame, hide_clients ne, found, if_neg empty, if_pos chat]
      exact broadcast_blind ne _ s quiet
    by_cases list : (tokens frame).headD [] = ascii "LIST"
    · simp only [processFrame, hide_clients ne, found, if_neg empty, if_neg chat, if_pos list]
      exact answer _ _ s quiet
    by_cases join : (tokens frame).headD [] = ascii "JOIN" ∧ (tokens frame).length = 2
    · simp only [processFrame, hide_clients ne, found, if_neg empty, if_neg chat, if_neg list,
        if_pos join]
      exact (moveTo_blind ne source _).result true s quiet
    by_cases leave : (tokens frame).headD [] = ascii "LEAVE" ∧ source.currRoom ≠ 0
    · simp only [processFrame, hide_clients ne, found, if_neg empty, if_neg chat, if_neg list,
        if_neg join, if_pos leave]
      exact (leave_blind ne _ _ _).result true s quiet
    simp only [processFrame, hide_clients ne, found, if_neg empty, if_neg chat, if_neg list,
      if_neg join, if_neg leave]
    split_ifs
    · exact answer _ _ s quiet
    · exact ((notifyRoom_blind _ fd _).comp (disconnect_blind ne _)).result false s quiet
    · exact ⟨rfl, rfl⟩

theorem receive_blind (chunk : Bytes) : BlindResult g fun s => s.receive fd chunk := by
  intro s quiet
  simp only [receive, hide_clients ne]
  cases s.clients fd with
  | none => exact ⟨rfl, rfl⟩
  | some client =>
    have stored := (setClient_blind ne
      { client with inputBuffer := client.inputBuffer ++ chunk }).comp
        (note_blind ne (.received chunk))
    dsimp only
    split_ifs
    · exact (stored.comp (disconnect_blind ne _)).result false s quiet
    · exact stored.result true s quiet

theorem handleWrite_blind : Blind g fun s => s.handleWrite fd := by
  have next (flushed : Bool) : Blind g fun s =>
      if flushed = true then s else s.peerGone fd "send failed" := by
    cases flushed with
    | true => exact Blind.id
    | false => exact peerGone_blind ne "send failed"
  refine ((flushOutput_blind ne).then next).congr fun s => ?_
  simp only [handleWrite]
  rcases s.flushOutput fd with ⟨_ | _, t⟩ <;> rfl

theorem acceptClient_blind (results : Results) : Blind g fun s => s.acceptClient fd results := by
  intro s quiet
  obtain ⟨record, port, stored, same⟩ := acceptClient_eq s fd results
  obtain ⟨record', port', stored', same'⟩ := acceptClient_eq (s.hide g) fd results
  obtain ⟨rfl, rfl⟩ : record' = record ∧ port' = port := by simpa using stored'.symm.trans stored
  dsimp only
  rw [same, same']
  exact ((setPort_blind ne port').comp (setClient_blind ne record')).comp
    (deliver_blind ne prompt _).state s quiet

theorem authenticate_blind (client : ClientConnection) (remaining frame : Bytes) (taken : Effect) :
    Blind g fun s => s.authenticate fd client remaining frame taken :=
  (((setClient_blind ne _).comp (note_blind ne taken)).comp (joinRoom_blind ne mainRoomName)).comp
    (announceJoin_blind ne mainRoomName)

theorem eraseFrame_blind (client : ClientConnection) (remaining : Bytes) (taken : Effect) :
    Blind g fun s => s.eraseFrame fd client remaining taken :=
  (setClient_blind ne _).comp (note_blind ne taken)

omit ne

def FrameStep.over (change : ChatServer → ChatServer) : FrameStep → FrameStep
  | .returned s => .returned (change s)
  | .exhausted s => .exhausted (change s)
  | .next framesProcessed s => .next framesProcessed (change s)

def Drain.server : Drain → ChatServer
  | .returned s => s
  | .drained _ s => s

def Drain.over (change : ChatServer → ChatServer) : Drain → Drain
  | .returned s => .returned (change s)
  | .drained framesProcessed s => .drained framesProcessed (change s)

include ne

theorem frameStep_blind (framesProcessed : Nat) {s : ChatServer} (quiet : Unnamed (s.clients g)) :
    frameStep fd framesProcessed (s.hide g) = (frameStep fd framesProcessed s).over (hide g) ∧
      (frameStep fd framesProcessed s).server.clients g = s.clients g := by
  cases found : s.clients fd with
  | none =>
    simp only [frameStep, hide_clients ne, found]
    exact ⟨rfl, rfl⟩
  | some client =>
    simp only [frameStep, hide_clients ne, found]
    cases splitFrame client.inputBuffer with
    | none =>
      dsimp only
      split_ifs
      · obtain ⟨same, kept⟩ := disconnect_blind ne "input frame limit exceeded" s quiet
        exact ⟨congrArg _ same, kept⟩
      · exact ⟨rfl, rfl⟩
    | some frame =>
      obtain ⟨raw, remaining⟩ := frame
      by_cases long : raw.length > maxFrameBytes
      · obtain ⟨same, kept⟩ := disconnect_blind ne "input frame limit exceeded" s quiet
        simp only [if_pos long]
        exact ⟨congrArg _ same, kept⟩
      simp only [if_neg long]
      cases client.clientState with
      | awaitingUsername =>
        obtain ⟨same, kept⟩ := authenticate_blind ne client remaining (stripCarriageReturn raw)
          (.username raw (stripCarriageReturn raw)) s quiet
        dsimp only at same kept ⊢
        rw [same, hide_clients ne]
        split_ifs
        · exact ⟨rfl, kept⟩
        · exact ⟨rfl, kept⟩
      | active =>
        obtain ⟨same, kept⟩ := ((eraseFrame_blind ne client remaining
          (.frame raw (stripCarriageReturn raw))).result ()).bind
            (fun _ => processFrame_blind ne (stripCarriageReturn raw)) s quiet
        dsimp only at same kept ⊢
        rw [same]
        generalize ChatServer.processFrame _ fd _ = result at kept ⊢
        obtain ⟨_ | _, t⟩ := result
        · exact ⟨rfl, kept⟩
        · dsimp only
          rw [hide_clients ne]
          split_ifs
          · exact ⟨rfl, kept⟩
          · exact ⟨rfl, kept⟩

theorem drainFrames_blind (turns framesProcessed : Nat) {s : ChatServer}
    (quiet : Unnamed (s.clients g)) :
    drainFrames fd turns framesProcessed (s.hide g) =
        (drainFrames fd turns framesProcessed s).over (hide g) ∧
      (drainFrames fd turns framesProcessed s).server.clients g = s.clients g := by
  induction turns generalizing framesProcessed s with
  | zero => exact ⟨rfl, rfl⟩
  | succ turns ih =>
    obtain ⟨same, kept⟩ := frameStep_blind ne framesProcessed quiet
    simp only [drainFrames, same]
    split_ifs
    · cases step : frameStep fd framesProcessed s with
      | returned t =>
        rw [step] at kept
        exact ⟨rfl, kept⟩
      | exhausted t =>
        rw [step] at kept
        exact ⟨rfl, kept⟩
      | next taken t =>
        rw [step] at kept
        obtain ⟨rest, kept'⟩ := ih taken (s := t) (kept ▸ quiet)
        exact ⟨rest, kept'.trans kept⟩
    · exact ⟨rfl, rfl⟩

section Chunk

variable {chunk : Bytes} {rest : List RecvResult} {bytesRead : Nat}
  (loop : ∀ bytesRead framesProcessed,
    Blind g fun s => readLoop fd rest bytesRead framesProcessed s)

include loop

theorem readNext_blind (framesProcessed : Nat) : Blind g fun s =>
    match drainFrames fd (maxProcessedFramesPerPoll + 1) framesProcessed s with
    | .returned s => s
    | .drained framesProcessed s =>
      readLoop fd rest (bytesRead + chunk.length) framesProcessed s := by
  intro s quiet
  obtain ⟨same, kept⟩ := drainFrames_blind ne (maxProcessedFramesPerPoll + 1) framesProcessed quiet
  dsimp only
  rw [same]
  cases ended : drainFrames fd (maxProcessedFramesPerPoll + 1) framesProcessed s with
  | returned t =>
    rw [ended] at kept
    exact ⟨rfl, kept⟩
  | drained taken t =>
    rw [ended, Drain.server] at kept
    obtain ⟨same', kept'⟩ := loop (bytesRead + chunk.length) taken t (by simpa only [kept])
    exact ⟨same', kept'.trans kept⟩

theorem readChunk_blind (framesProcessed : Nat) : Blind g fun s =>
    match (s.setRecvs fd rest).receive fd chunk with
    | (false, s) => s
    | (true, s) =>
      match drainFrames fd (maxProcessedFramesPerPoll + 1) framesProcessed s with
      | .returned s => s
      | .drained framesProcessed s =>
        readLoop fd rest (bytesRead + chunk.length) framesProcessed s := by
  have next (received : Bool) : Blind g fun s =>
      if received = true then
        match drainFrames fd (maxProcessedFramesPerPoll + 1) framesProcessed s with
        | .returned s => s
        | .drained framesProcessed s =>
          readLoop fd rest (bytesRead + chunk.length) framesProcessed s
      else s := by
    cases received with
    | true => exact readNext_blind ne loop framesProcessed
    | false => exact Blind.id
  refine ((setRecvs_blind ne rest).comp ((receive_blind ne chunk).then next)).congr fun s => ?_
  rcases (s.setRecvs fd rest).receive fd chunk with ⟨_ | _, t⟩ <;> rfl

end Chunk

theorem readLoop_blind (recvs : List RecvResult) (bytesRead framesProcessed : Nat) :
    Blind g fun s => readLoop fd recvs bytesRead framesProcessed s := by
  induction recvs generalizing bytesRead framesProcessed with
  | nil =>
    intro s quiet
    unfold readLoop
    split_ifs <;> exact ⟨rfl, rfl⟩
  | cons result rest ih =>
    intro s quiet
    unfold readLoop
    split_ifs
    · cases result with
      | eagain => exact setRecvs_blind ne rest s quiet
      | eintr => exact setRecvs_blind ne rest s quiet
      | error errno => exact (setRecvs_blind ne rest).comp (peerGone_blind ne "recv failed") s quiet
      | received chunk fits =>
        dsimp only
        split_ifs
        · exact (setRecvs_blind ne rest).comp (peerGone_blind ne "peer closed connection") s quiet
        · exact readChunk_blind ne ih framesProcessed s quiet
    · exact ⟨rfl, rfl⟩

theorem handleRead_blind : Blind g fun s => s.handleRead fd := by
  intro s quiet
  simp only [handleRead, hide_clients ne, hide_ports ne]
  cases s.clients fd with
  | none => exact ⟨rfl, rfl⟩
  | some client => exact readLoop_blind ne (s.ports fd).recvs 0 0 s quiet

end ChatServer
end Partyline
