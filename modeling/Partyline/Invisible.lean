import Partyline.Hiding
import Partyline.Departures

/-! A connection that never sends a line. What the server does for it leaves the
rest of the server as it was, except for the notice of its end: `peerGone` tells
the room of the record, and the record of a connection without a name says 0,
the main room. -/
namespace Partyline

open Library

namespace ChatServer

/-- A connection that has sent no line, or none at all. -/
def Nameless (client : Option ClientConnection) : Prop :=
  ∀ record, client = some record →
    record.clientState = .awaitingUsername ∧ record.currRoom = 0 ∧ newline ∉ record.inputBuffer

theorem Nameless.unnamed {client : Option ClientConnection} (h : Nameless client) :
    Unnamed client := fun record found => (h record found).1

theorem Nameless.of_session {record client : ClientConnection} (h : Nameless (some client))
    (same : record.session = client.session) : Nameless (some record) := by
  simp only [ClientConnection.session, Prod.mk.injEq] at same
  rintro _ ⟨⟩
  simpa only [same.2.1, same.2.2.1, same.2.2.2] using h client rfl

theorem nameless_none : Nameless none := by simp [Nameless]

/-- How reading ends for a connection that sends no line: it stays, it is cut off
for a limit, or its peer is gone. -/
inductive ReadEnd where
  | stays
  | cut
  | gone
deriving DecidableEq

def silentRead : List RecvResult → Nat → Nat → ReadEnd
  | recvs, buffered, bytesRead =>
    if bytesRead < maxBytesReadPerPoll then
      match recvs with
      | [] | .eagain :: _ | .eintr :: _ => .stays
      | .error _ :: _ => .gone
      | .received chunk _ :: rest =>
        if chunk = [] then .gone
        else if maxFrameBytes < buffered + chunk.length then .cut
        else silentRead rest (buffered + chunk.length) (bytesRead + chunk.length)
    else .stays

variable {g : Fd} {s : ChatServer} {client : ClientConnection}

theorem hide_setPort (s : ChatServer) (g : Fd) (port : Port) : (s.setPort g port).hide g = s.hide g := by
  simp [hide, setPort]

theorem hide_setClient (s : ChatServer) (g : Fd) (record : ClientConnection) :
    (s.setClient g record).hide g = s.hide g := by
  simp [hide, setClient]

theorem occupancy_of_hide {t : ChatServer} (same : s.hide g = t.hide g)
    (hs : Unnamed (s.clients g)) (ht : Unnamed (t.clients g)) : s.occupancy = t.occupancy := by
  funext fd
  rw [← hide_occupancy hs, ← hide_occupancy ht, same]

theorem notifyRoom_nobody {roomId : Nat} (nobody : ∀ fd, s.occupancy fd ≠ some roomId)
    (excludedFd : Int) (message : Bytes) : s.notifyRoom roomId excludedFd message = s := by
  have unmoved (recipients : List Fd) :
      recipients.foldl (notifyClient roomId excludedFd message) s = s := by
    induction recipients with
    | nil => rfl
    | cons fd rest ih =>
      rw [List.foldl_cons, notifyClient_eq, if_neg fun told => nobody fd told.2, ih]
  unfold notifyRoom
  cases Rooms.findById s.rooms roomId with
  | none => rfl
  | some room => exact unmoved room.subscribedClients

/-- The rooms have nothing to do with `g`. -/
def Aside (g : Fd) (s : ChatServer) : Prop :=
  Rooms.deleteEmptyRoom (Rooms.removeFromRooms s.rooms g) 0 = s.rooms

theorem Inv.aside (h : Inv s) (nameless : Nameless (s.clients g)) : Aside g s := by
  refine h.rooms.absent ?_
  by_contra home
  obtain ⟨roomId, home⟩ := Option.ne_none_iff_exists'.mp home
  exact hidden_ne nameless.unnamed home rfl

theorem Aside.of_hide {t : ChatServer} (h : Aside g s) (same : t.hide g = s.hide g) : Aside g t := by
  rw [Aside, ← hide_rooms g t, same]
  exact h

section Actions

variable (found : s.clients g = some client) (nameless : Nameless (some client)) (aside : Aside g s)

include found nameless aside

theorem disconnect_unseen (reason : String) : (s.disconnect g reason).hide g = s.hide g ∧
    (s.disconnect g reason).clients g = none := by
  obtain ⟨-, home, -⟩ := nameless client rfl
  simp only [disconnect, found, home]
  refine ⟨?_, Function.update_self _ _ _⟩
  rw [aside]
  simp [hide]

theorem peerGone_unseen (nobody : ∀ fd, s.occupancy fd ≠ some 0) (reason : String) :
    (s.peerGone g reason).hide g = s.hide g ∧ (s.peerGone g reason).clients g = none := by
  obtain ⟨-, home, -⟩ := nameless client rfl
  simp only [peerGone, found, home, notifyRoom_nobody nobody]
  exact disconnect_unseen found nameless aside reason

theorem deliver_unseen (data : Bytes) (reason : String) :
    (s.deliver g data reason).2.hide g = s.hide g ∧
      Nameless ((s.deliver g data reason).2.clients g) := by
  simp only [deliver, queueOutput, found]
  have session := (queueOutputCommon_offered s.serverIteration client (s.ports g) data).session
  generalize queueOutputCommon s.serverIteration client (s.ports g) data = result at session ⊢
  obtain ⟨queued, record, port⟩ := result
  have stored : ((s.setClient g record).setPort g port).hide g = s.hide g := by
    rw [hide_setPort, hide_setClient]
  have here : ((s.setClient g record).setPort g port).clients g = some record := by simp
  have still : Nameless (some record) := nameless.of_session session
  cases queued with
  | true => exact ⟨stored, here ▸ still⟩
  | false =>
    obtain ⟨same, gone⟩ := disconnect_unseen here still (aside.of_hide stored) reason
    exact ⟨same.trans stored, gone ▸ nameless_none⟩

end Actions

theorem acceptClient_unseen (results : Results) (s : ChatServer) (aside : Aside g s) :
    (s.acceptClient g results).hide g = s.hide g ∧
      Nameless ((s.acceptClient g results).clients g) := by
  obtain ⟨record, port, opened, same⟩ := acceptClient_eq s g results
  have stored : ((s.setPort g port).setClient g record).hide g = s.hide g := by
    rw [hide_setClient, hide_setPort]
  have fresh : Nameless (some record) := by
    rintro _ ⟨⟩
    obtain ⟨rfl, -⟩ : _ ∧ _ := by simpa [Entry.opened] using opened
    simp
  obtain ⟨delivered, still⟩ := deliver_unseen (Function.update_self _ _ _) fresh
    (aside.of_hide stored) prompt "username prompt output queue overflow"
  rw [same]
  exact ⟨delivered.trans stored, still⟩

theorem drainFrames_silent {s : ChatServer} {record : ClientConnection}
    (found : s.clients g = some record) (silent : newline ∉ record.inputBuffer) (turns : Nat) :
    drainFrames g (turns + 1) 0 s = if maxFrameBytes < record.inputBuffer.length then
      .returned (s.disconnect g "input frame limit exceeded") else .drained 0 s := by
  simp only [drainFrames, frameStep, found, splitFrame_none.mpr silent, maxProcessedFramesPerPoll]
  split_ifs <;> simp_all

def ReadsOn (g : Fd) (client : ClientConnection) (s t : ChatServer) : Prop :=
  ∃ inputBuffer recvs history, newline ∉ inputBuffer ∧
    t.entry g = ⟨some { client with inputBuffer }, { s.ports g with recvs, history }⟩

theorem ReadsOn.refl (found : s.clients g = some client) (clean : newline ∉ client.inputBuffer) :
    ReadsOn g client s s :=
  ⟨client.inputBuffer, (s.ports g).recvs, (s.ports g).history, clean, by simp [entry, found]⟩

theorem ReadsOn.trans {t u : ChatServer} {record : ClientConnection} (first : ReadsOn g client s t)
    (found : t.clients g = some record) (rest : ReadsOn g record t u) : ReadsOn g client s u := by
  obtain ⟨_, _, _, -, stored⟩ := first
  obtain ⟨inputBuffer, recvs, history, clean, final⟩ := rest
  simp only [entry, found, Entry.mk.injEq, Option.some.injEq] at stored
  refine ⟨inputBuffer, recvs, history, clean, ?_⟩
  rw [final, stored.1, stored.2]

theorem receive_unseen (found : s.clients g = some client) (nameless : Nameless (some client))
    {chunk : Bytes} (silent : newline ∉ chunk) : ∃ t record,
      record.inputBuffer.length = client.inputBuffer.length + chunk.length ∧
      t.hide g = s.hide g ∧ t.clients g = some record ∧ Nameless (some record) ∧
      ReadsOn g client s t ∧ s.receive g chunk =
        if maxInputBufferBytes < client.inputBuffer.length + chunk.length then
          (false, t.disconnect g "input buffer limit exceeded")
        else (true, t) := by
  obtain ⟨awaiting, home, clean⟩ := nameless client rfl
  have clean' : newline ∉ client.inputBuffer ++ chunk := by simp [clean, silent]
  refine ⟨(s.setClient g { client with inputBuffer := client.inputBuffer ++ chunk }).note g
    (.received chunk), _, List.length_append, ?_, Function.update_self _ _ _, ?_,
    ⟨_, (s.ports g).recvs, .received chunk :: (s.ports g).history, clean', ?_⟩, ?_⟩
  · rw [note, hide_setPort, hide_setClient]
  · rintro _ ⟨⟩
    exact ⟨awaiting, home, clean'⟩
  · simp [entry, note, Port.note]
  · simp only [receive, found, List.length_append]

/-- A chunk without a newline either makes the line too long, or is all that the turn does. -/
theorem readLoop_received_unseen {s : ChatServer} {client : ClientConnection}
    (found : s.clients g = some client) (nameless : Nameless (some client)) (aside : Aside g s)
    {chunk : Bytes} (nonempty : chunk ≠ []) (silent : newline ∉ chunk)
    (fits : chunk.length ≤ maxDataSize) (rest : List RecvResult) {bytesRead : Nat}
    (budget : bytesRead < maxBytesReadPerPoll) :
    (maxFrameBytes < client.inputBuffer.length + chunk.length →
      (readLoop g (.received chunk fits :: rest) bytesRead 0 s).hide g = s.hide g ∧
        (readLoop g (.received chunk fits :: rest) bytesRead 0 s).clients g = none) ∧
    (¬ maxFrameBytes < client.inputBuffer.length + chunk.length → ∃ t record,
      record.inputBuffer.length = client.inputBuffer.length + chunk.length ∧
      t.hide g = s.hide g ∧ t.clients g = some record ∧ Nameless (some record) ∧
      ReadsOn g client s t ∧ readLoop g (.received chunk fits :: rest) bytesRead 0 s =
        readLoop g rest (bytesRead + chunk.length) 0 t) := by
  have turn : bytesRead < maxBytesReadPerPoll ∧ 0 < maxProcessedFramesPerPoll :=
    ⟨budget, by decide⟩
  have answered : (s.setRecvs g rest).hide g = s.hide g := hide_setPort s g _
  have found' : (s.setRecvs g rest).clients g = some client := found
  have waits : ReadsOn g client s (s.setRecvs g rest) :=
    ⟨client.inputBuffer, rest, (s.ports g).history, (nameless client rfl).2.2,
      by simp [entry, setRecvs, found]⟩
  obtain ⟨t, record, length, stored, here, still, reads, received⟩ :=
    receive_unseen found' nameless silent
  have aside := (aside.of_hide answered).of_hide stored
  have clean := (still record rfl).2.2
  rw [readLoop, if_pos turn]
  dsimp only
  rw [if_neg nonempty, received]
  by_cases full : maxInputBufferBytes < client.inputBuffer.length + chunk.length
  · have long : maxFrameBytes < client.inputBuffer.length + chunk.length := by
      simp only [maxInputBufferBytes, maxFrameBytes] at full ⊢
      omega
    obtain ⟨same, gone⟩ := disconnect_unseen here still aside "input buffer limit exceeded"
    rw [if_pos full]
    exact ⟨fun _ => ⟨same.trans (stored.trans answered), gone⟩, fun short => absurd long short⟩
  · rw [if_neg full]
    dsimp only
    rw [drainFrames_silent here clean, length]
    by_cases long : maxFrameBytes < client.inputBuffer.length + chunk.length
    · obtain ⟨same, gone⟩ := disconnect_unseen here still aside "input frame limit exceeded"
      rw [if_pos long]
      exact ⟨fun _ => ⟨same.trans (stored.trans answered), gone⟩, fun short => absurd long short⟩
    · rw [if_neg long]
      exact ⟨fun more => absurd more long, fun _ => ⟨t, record, length, stored.trans answered, here,
        still, waits.trans found' reads, rfl⟩⟩

theorem readLoop_unseen (recvs : List RecvResult) (bytesRead : Nat) {s : ChatServer}
    {client : ClientConnection} (found : s.clients g = some client)
    (nameless : Nameless (some client)) (aside : Aside g s)
    (silent : ∀ chunk fits, .received chunk fits ∈ recvs → newline ∉ chunk)
    (unheard : silentRead recvs client.inputBuffer.length bytesRead = .gone →
      ∀ fd, s.occupancy fd ≠ some 0) :
    (readLoop g recvs bytesRead 0 s).hide g = s.hide g ∧
      match silentRead recvs client.inputBuffer.length bytesRead with
      | .stays => ReadsOn g client s (readLoop g recvs bytesRead 0 s)
      | .cut | .gone => (readLoop g recvs bytesRead 0 s).clients g = none := by
  induction recvs generalizing s client bytesRead with
  | nil =>
    obtain ⟨-, -, clean⟩ := nameless client rfl
    unfold readLoop silentRead
    split_ifs <;> exact ⟨rfl, .refl found clean⟩
  | cons result rest ih =>
    obtain ⟨awaiting, home, clean⟩ := nameless client rfl
    unfold silentRead at unheard ⊢
    by_cases budget : bytesRead < maxBytesReadPerPoll
    · have turn : bytesRead < maxBytesReadPerPoll ∧ 0 < maxProcessedFramesPerPoll :=
        ⟨budget, by decide⟩
      have answered : (s.setRecvs g rest).hide g = s.hide g := hide_setPort s g _
      have found' : (s.setRecvs g rest).clients g = some client := found
      have aside' := aside.of_hide answered
      have waits : ReadsOn g client s (s.setRecvs g rest) :=
        ⟨client.inputBuffer, rest, (s.ports g).history, clean, by simp [entry, setRecvs, found]⟩
      rw [if_pos budget] at unheard ⊢
      cases result with
      | eagain =>
        rw [readLoop, if_pos turn]
        exact ⟨answered, waits⟩
      | eintr =>
        rw [readLoop, if_pos turn]
        exact ⟨answered, waits⟩
      | error errno =>
        rw [readLoop, if_pos turn]
        obtain ⟨same, gone⟩ := peerGone_unseen found' nameless aside' (unheard rfl) "recv failed"
        exact ⟨same.trans answered, gone⟩
      | received chunk fits =>
        dsimp only at unheard ⊢
        by_cases ended : chunk = []
        · rw [if_pos ended] at unheard ⊢
          rw [readLoop, if_pos turn]
          dsimp only
          rw [if_pos ended]
          obtain ⟨same, gone⟩ := peerGone_unseen found' nameless aside' (unheard rfl)
            "peer closed connection"
          exact ⟨same.trans answered, gone⟩
        rw [if_neg ended] at unheard ⊢
        obtain ⟨cut, goes⟩ := readLoop_received_unseen found nameless aside ended
          (silent chunk fits (by simp)) fits rest budget
        by_cases long : maxFrameBytes < client.inputBuffer.length + chunk.length
        · rw [if_pos long]
          exact cut long
        · rw [if_neg long] at unheard ⊢
          obtain ⟨t, record, length, stored, here, still, reads, same⟩ := goes long
          have nobody : silentRead rest record.inputBuffer.length (bytesRead + chunk.length) = .gone →
              ∀ fd, t.occupancy fd ≠ some 0 := by
            rw [length, occupancy_of_hide stored (here ▸ still.unnamed) (found ▸ nameless.unnamed)]
            exact unheard
          obtain ⟨hidden, ends⟩ := ih (bytesRead + chunk.length) here still (aside.of_hide stored)
            (fun chunk fits mem => silent chunk fits (List.mem_cons_of_mem _ mem)) nobody
          rw [same]
          refine ⟨hidden.trans stored, ?_⟩
          rw [length] at ends
          cases read : silentRead rest (client.inputBuffer.length + chunk.length)
            (bytesRead + chunk.length) with
          | stays =>
            rw [read] at ends
            exact reads.trans here ends
          | cut =>
            rw [read] at ends
            exact ends
          | gone =>
            rw [read] at ends
            exact ends
    · unfold readLoop
      rw [if_neg budget, if_neg fun turn => budget turn.1]
      exact ⟨rfl, .refl found clean⟩

theorem handleWrite_unseen (found : s.clients g = some client) (nameless : Nameless (some client))
    (aside : Aside g s) (unheard : (s.entry g).flushes s.serverIteration = false →
      ∀ fd, s.occupancy fd ≠ some 0) :
    (s.handleWrite g).hide g = s.hide g ∧ Nameless ((s.handleWrite g).clients g) := by
  obtain ⟨session, -⟩ := flushOutputCommon_output s.serverIteration client (s.ports g)
  simp only [Entry.flushes, entry_client, entry_port, found] at unheard
  simp only [handleWrite, flushOutput, found]
  generalize flushOutputCommon s.serverIteration client (s.ports g) = result at session unheard ⊢
  obtain ⟨flushed, record, port⟩ := result
  have stored : ((s.setClient g record).setPort g port).hide g = s.hide g := by
    rw [hide_setPort, hide_setClient]
  have here : ((s.setClient g record).setPort g port).clients g = some record := by simp
  have still : Nameless (some record) := nameless.of_session session
  cases flushed with
  | true => exact ⟨stored, here ▸ still⟩
  | false =>
    have nobody := unheard rfl
    rw [← occupancy_of_hide stored (here ▸ still.unnamed) (found ▸ nameless.unnamed)] at nobody
    obtain ⟨same, gone⟩ := peerGone_unseen here still (aside.of_hide stored) nobody "send failed"
    exact ⟨same.trans stored, gone ▸ nameless_none⟩

theorem flushes_unseen (nameless : Nameless (s.clients g)) (aside : Aside g s) (writes : Prop)
    [Decidable writes] (unheard : writes → (s.entry g).flushes s.serverIteration = false →
      ∀ fd, s.clients g ≠ none → s.occupancy fd ≠ some 0) :
    (if writes ∧ (s.clients g).isSome then s.handleWrite g else s).hide g = s.hide g ∧
      Nameless ((if writes ∧ (s.clients g).isSome then s.handleWrite g else s).clients g) := by
  split_ifs with ready
  · obtain ⟨client, found⟩ := Option.isSome_iff_exists.mp ready.2
    exact handleWrite_unseen found (found ▸ nameless) aside fun refused fd =>
      unheard ready.1 refused fd (by simp [found])
  · exact ⟨rfl, nameless⟩

theorem ReadsOn.flushes {t : ChatServer} (h : ReadsOn g client s t) (found : s.clients g = some client)
    (serverIteration : Nat) :
    (t.entry g).flushes serverIteration = (s.entry g).flushes serverIteration := by
  obtain ⟨inputBuffer, recvs, history, -, final⟩ := h
  simp only [final, Entry.flushes, entry_client, entry_port, found, flushOutputCommon_input]

theorem ReadsOn.nameless {t : ChatServer} (h : ReadsOn g client s t)
    (nameless : Nameless (some client)) : Nameless (t.clients g) := by
  obtain ⟨inputBuffer, recvs, history, clean, final⟩ := h
  obtain ⟨awaiting, home, -⟩ := nameless client rfl
  rw [← entry_client, final]
  rintro _ ⟨⟩
  exact ⟨awaiting, home, clean⟩

def loud (g : Fd) (s : ChatServer) (env : Environment) (flags : UInt32) : Prop :=
  ∃ client, s.clients g = some client ∧
    let reads := flags &&& (readyRead ||| readyError) ≠ 0
    let read := silentRead (env.results g).recvs client.inputBuffer.length 0
    (reads ∧ read = .gone ∨ flags &&& readyWrite ≠ 0 ∧ (reads → read = .stays) ∧
      ((s.entry g).answered (env.results g)).flushes s.serverIteration = false)

theorem handleEvent_unseen (h : Inv s) (found : s.clients g = some client)
    (nameless : Nameless (some client)) {env : Environment} {flags : UInt32}
    (silent : ∀ chunk fits, .received chunk fits ∈ (env.results g).recvs → newline ∉ chunk)
    (unheard : loud g s env flags → ∀ fd, s.occupancy fd ≠ some 0) :
    (s.handleEvent env ⟨g, flags⟩).hide g = (s.load env.results).hide g ∧
      Nameless ((s.handleEvent env ⟨g, flags⟩).clients g) := by
  have apart : g ≠ s.listener := (h.entries g).not_listening found
  have aside : Aside g (s.load env.results) := h.aside (found ▸ nameless)
  have here : (s.load env.results).clients g = some client := found
  have nobody : loud g s env flags → ∀ fd, (s.load env.results).occupancy fd ≠ some 0 := unheard
  have flushes : ((s.entry g).answered (env.results g)).flushes s.serverIteration =
      ((s.load env.results).entry g).flushes (s.load env.results).serverIteration := rfl
  have recvs : ((s.load env.results).ports g).recvs = (env.results g).recvs := rfl
  simp only [handleEvent]
  rw [if_neg (show ¬ g = (s.load env.results).listener from apart)]
  simp only [loud, found, Option.some.injEq, exists_eq_left', flushes] at nobody
  generalize s.load env.results = s at *
  by_cases reads : flags &&& (readyRead ||| readyError) ≠ 0
  · have read := readLoop_unseen (env.results g).recvs 0 here nameless aside silent
      fun gone => nobody (.inl ⟨reads, gone⟩)
    rw [← recvs] at read nobody
    have same : s.handleRead g = readLoop g (s.ports g).recvs 0 0 s := by simp only [handleRead, here]
    rw [if_pos reads, same]
    generalize readLoop g (s.ports g).recvs 0 0 s = t at read ⊢
    obtain ⟨unseen, ends⟩ := read
    have iteration : t.serverIteration = s.serverIteration := by
      rw [← hide_serverIteration g t, unseen, hide_serverIteration]
    have finish (still : Nameless (t.clients g)) (unheard : t.clients g ≠ none →
        flags &&& readyWrite ≠ 0 → (t.entry g).flushes t.serverIteration = false →
          ∀ fd, s.occupancy fd ≠ some 0) := by
      rw [← occupancy_of_hide unseen still.unnamed (here ▸ nameless.unnamed)] at unheard
      exact flushes_unseen still (aside.of_hide unseen) (flags &&& readyWrite ≠ 0)
        fun writes refused fd connected => unheard connected writes refused fd
    rw [← unseen]
    cases read : silentRead (s.ports g).recvs client.inputBuffer.length 0 with
    | stays =>
      rw [read] at ends
      refine finish (ends.nameless nameless) fun _ writes refused => ?_
      rw [ends.flushes here, iteration] at refused
      exact nobody (.inr ⟨writes, fun _ => read, refused⟩)
    | cut =>
      rw [read] at ends
      exact finish (ends ▸ nameless_none) fun connected => (connected ends).elim
    | gone =>
      rw [read] at ends
      exact finish (ends ▸ nameless_none) fun connected => (connected ends).elim
  · rw [if_neg reads]
    exact flushes_unseen (here ▸ nameless) aside _ fun writes refused fd _ =>
      nobody (.inr ⟨writes, fun readable => (reads readable).elim, refused⟩) fd

end ChatServer
end Partyline
