import Partyline.Requests
import Partyline.Machine

/-! What the actions of the machine do, entry by entry. -/
namespace Partyline

namespace Entry

def erased (client : ClientConnection) (remaining : Bytes) (taken : Effect) (e : Entry) : Entry :=
  ⟨some { client with inputBuffer := remaining }, e.port.note taken⟩

def received (chunk : Bytes) (e : Entry) : Entry :=
  match e.client with
  | none => e
  | some record =>
    let after : Entry :=
      ⟨some { record with inputBuffer := record.inputBuffer ++ chunk }, e.port.note (.received chunk)⟩
    if record.inputBuffer.length + chunk.length > maxInputBufferBytes then
      after.closed "input buffer limit exceeded"
    else after

def flushed (serverIteration : Nat) (e : Entry) : Entry :=
  match e.client with
  | none => e
  | some record =>
    ⟨some (flushOutputCommon serverIteration record e.port).2.1,
      (flushOutputCommon serverIteration record e.port).2.2⟩

def flushes (serverIteration : Nat) (e : Entry) : Bool :=
  match e.client with
  | none => false
  | some record => (flushOutputCommon serverIteration record e.port).1

def opened (results : Results) : Entry :=
  ⟨some
    { username := [], currRoom := 0, inputBuffer := [], outputQueue := [], outputQueueSize := 0
      peakPendingOutputBytes := 0, clientState := .awaitingUsername
      writeInterestEnabled := false, writeBudgetIteration := 0, writeBudgetRemaining := 0 },
    ⟨some false, results.recvs, results.sends, results.interests, []⟩⟩

def answered (results : Results) (e : Entry) : Entry :=
  { e with port := { e.port with
    recvs := results.recvs, sends := results.sends, interests := results.interests } }

theorem flushed_occupant (e : Entry) (serverIteration : Nat) :
    (e.flushed serverIteration).occupant = e.occupant := by
  obtain ⟨client, port⟩ := e
  cases client with
  | none => rfl
  | some record =>
    exact occupant_of_session (flushOutputCommon_output serverIteration record port).1 _ _

end Entry

namespace ChatServer

theorem load_performs (s : ChatServer) (results : Fd → Results) :
    Performs s (s.load results) (fun fd e => e.answered (results fd)) :=
  ⟨fun _ => rfl, rfl, rfl, rfl⟩

theorem setRecvs_performs (s : ChatServer) (fd : Fd) (recvs : List RecvResult) :
    Performs s (s.setRecvs fd recvs)
      (only fd fun e => e.answered ⟨recvs, e.port.sends, e.port.interests⟩) := by
  refine ⟨fun other => ?_, rfl, rfl, rfl⟩
  by_cases same : other = fd
  · subst same
    simp [entry, setRecvs, Entry.answered]
  · simp [entry, setRecvs, same]

theorem setRecvs_occupancy (s : ChatServer) (fd : Fd) (recvs : List RecvResult) (other : Fd) :
    (s.setRecvs fd recvs).occupancy other = s.occupancy other := rfl

variable {spare : Set Nat} {s : ChatServer} {fd : Fd} {client : ClientConnection}

theorem eraseFrame_performs (s : ChatServer) (fd : Fd) (client : ClientConnection)
    (remaining : Bytes) (taken : Effect) :
    Performs s (s.eraseFrame fd client remaining taken)
      (only fd (Entry.erased client remaining taken)) := by
  exact (setClient_setPort_performs s fd { client with inputBuffer := remaining }
    ((s.ports fd).note taken)).congr_only (by simp [Entry.erased]) fun _ ne => only_of_ne ne _ _

theorem eraseFrame_rooms (h : s.RoomsOk spare) (found : s.clients fd = some client)
    (remaining : Bytes) (taken : Effect) :
    (s.eraseFrame fd client remaining taken).RoomsOk spare := by
  refine h.still_only (eraseFrame_performs s fd client remaining taken) rfl ?_
  simp [Entry.erased, occupancy, Entry.occupant, found]

theorem receive_performs (found : s.clients fd = some client) (chunk : Bytes) :
    Performs s (s.receive fd chunk).2 (only fd (Entry.received chunk)) := by
  have stored := setClient_setPort_performs s fd
    { client with inputBuffer := client.inputBuffer ++ chunk } ((s.ports fd).note (.received chunk))
  simp only [receive, found, List.length_append]
  split_ifs with past
  · refine (stored.trans (disconnect_performs _ fd "input buffer limit exceeded")).congr_only ?_
      fun _ ne => ?_
    · simp [Entry.received, found, past]
    · simp [ne]
  · refine stored.congr_only ?_ fun _ ne => only_of_ne ne _ _
    simp [Entry.received, found, past]

theorem receive_rooms (h : s.RoomsOk spare) (found : s.clients fd = some client)
    (chunk : Bytes) : (s.receive fd chunk).2.RoomsOk spare := by
  have stored := setClient_setPort_performs s fd
    { client with inputBuffer := client.inputBuffer ++ chunk } ((s.ports fd).note (.received chunk))
  have kept : ((s.setClient fd { client with inputBuffer := client.inputBuffer ++ chunk }).note fd
      (.received chunk)).RoomsOk spare := by
    refine h.still_only stored rfl ?_
    simp [occupancy, Entry.occupant, found]
  simp only [receive, found]
  split_ifs
  · exact disconnect_rooms kept fd _
  · exact kept

theorem frameStep_username (h : s.RoomsOk spare) (found : s.clients fd = some client)
    {raw remaining : Bytes} (split : splitFrame client.inputBuffer = some (raw, remaining))
    (short : raw.length ≤ maxFrameBytes) (awaiting : client.clientState = .awaitingUsername)
    (framesProcessed : Nat) :
    Performs s (frameStep fd framesProcessed s).server (fun other e =>
        Entry.notified s.serverIteration 0 (-1)
          (joinedLine (stripCarriageReturn raw) mainRoomName) other
          (only fd (Entry.loggedIn client remaining (stripCarriageReturn raw)
            (.username raw (stripCarriageReturn raw))) other e)) ∧
      (frameStep fd framesProcessed s).server.RoomsOk spare ∧
      Rooms.labels (frameStep fd framesProcessed s).server.rooms ⊆ Rooms.labels s.rooms := by
  have final : (frameStep fd framesProcessed s).server = s.authenticate fd client remaining
      (stripCarriageReturn raw) (.username raw (stripCarriageReturn raw)) := by
    simp only [frameStep, found, split, awaiting, gt_iff_lt, Nat.not_lt.mpr short, if_false]
    split_ifs <;> rfl
  rw [final]
  exact authenticate_performs h found awaiting remaining _ _

theorem peerGone_performs (h : s.RoomsOk spare) (found : s.clients fd = some client)
    (reason : String) :
    Performs s (s.peerGone fd reason) (fun other e => if other = fd then e.closed reason
        else Entry.notified s.serverIteration client.currRoom fd (disconnectedLine client.username)
          other e) ∧
      (s.peerGone fd reason).RoomsOk spare := by
  simp only [peerGone, found]
  exact depart_performs h client.currRoom (disconnectedLine client.username) fd reason

theorem handleWrite_performs (h : s.RoomsOk spare) (found : s.clients fd = some client) :
    Performs s (s.handleWrite fd) (fun other e =>
        if (s.entry fd).flushes s.serverIteration = true then
          only fd (Entry.flushed s.serverIteration) other e
        else if other = fd then (e.flushed s.serverIteration).closed "send failed"
        else Entry.notified s.serverIteration client.currRoom fd (disconnectedLine client.username)
          other e) ∧
      (s.handleWrite fd).RoomsOk spare := by
  obtain ⟨session, -⟩ := flushOutputCommon_output s.serverIteration client (s.ports fd)
  simp only [handleWrite, flushOutput, found, Entry.flushes, entry_client, entry_port]
  cases result : flushOutputCommon s.serverIteration client (s.ports fd) with
  | mk done rest =>
    obtain ⟨record, port⟩ := rest
    rw [result] at session
    have stored : Performs s ((s.setClient fd record).setPort fd port)
        (only fd (Entry.flushed s.serverIteration)) := by
      refine (setClient_setPort_performs s fd record port).congr_only ?_ fun _ ne => only_of_ne ne _ _
      simp [Entry.flushed, found, result]
    have kept : ((s.setClient fd record).setPort fd port).RoomsOk spare :=
      h.still_only stored rfl (Entry.flushed_occupant _ _)
    cases done with
    | true => exact ⟨stored.congr fun other => by simp, kept⟩
    | false =>
      have found' : ((s.setClient fd record).setPort fd port).clients fd = some record := by simp
      obtain ⟨gone, rooms⟩ := peerGone_performs kept found' "send failed"
      obtain ⟨username, room, -⟩ : record.username = client.username ∧
          record.currRoom = client.currRoom ∧ _ := by
        simpa only [ClientConnection.session, Prod.mk.injEq] using session
      refine ⟨(stored.trans gone).congr fun other => ?_, rooms⟩
      rw [username, room]
      by_cases same : other = fd
      · subst same
        simp
      · simp [same]

/-- The new record is stored and its prompt is delivered like any other line. -/
theorem acceptClient_eq (s : ChatServer) (fd : Fd) (results : Results) : ∃ record port,
    Entry.opened results = ⟨some record, port⟩ ∧ s.acceptClient fd results =
      (((s.setPort fd port).setClient fd record).deliver fd prompt
        "username prompt output queue overflow").2 := by
  refine ⟨_, _, rfl, ?_⟩
  simp only [acceptClient, deliver]
  rcases ChatServer.queueOutput _ fd prompt with ⟨_ | _, t⟩ <;> rfl

section Accept

variable (closed : s.isOpen fd = false) (results : Results)

include closed

theorem acceptClient_stored : ∃ t record, t.clients fd = some record ∧ t.rooms = s.rooms ∧
    Performs s t (only fd fun _ => Entry.opened results) ∧
    s.acceptClient fd results =
      (t.deliver fd prompt "username prompt output queue overflow").2 := by
  obtain ⟨record, port, stored, same⟩ := acceptClient_eq s fd results
  refine ⟨(s.setPort fd port).setClient fd record, record, Function.update_self _ _ _, rfl,
    ⟨fun other => ?_, rfl, rfl, rfl⟩, same⟩
  by_cases same : other = fd
  · subst same
    simp [entry, stored]
  · simp [entry, same]

theorem acceptClient_performs : Performs s (s.acceptClient fd results) (only fd fun _ =>
    (Entry.opened results).offered s.serverIteration prompt
      "username prompt output queue overflow") := by
  obtain ⟨t, record, found, -, stored, same⟩ := acceptClient_stored closed results
  rw [same]
  refine (stored.trans (deliver_performs found prompt _)).congr_only ?_ fun _ ne => ?_
  · simp [stored.serverIteration]
  · simp [ne]

theorem acceptClient_rooms (h : s.RoomsOk spare) :
    (s.acceptClient fd results).RoomsOk spare := by
  obtain ⟨-, missing⟩ : fd ≠ s.listener ∧ s.clients fd = none := by
    simpa [isOpen] using closed
  obtain ⟨t, record, found, rooms, stored, same⟩ := acceptClient_stored closed results
  have kept : t.RoomsOk spare := by
    refine h.still_only stored rooms ?_
    simp [Entry.opened, occupancy, Entry.occupant, missing]
  rw [same]
  exact deliver_rooms kept found prompt _

end Accept

end ChatServer
end Partyline
