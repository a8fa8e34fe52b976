import Partyline.Framing
import Partyline.Machine
import Partyline.Notices

/-! What one call of `handleRead` takes from the socket and hands to `processFrame`.
Nothing here assumes anything of the state in which the call is made. -/
namespace Partyline

/-- The effects of everything that is done for a frame once it has been taken. -/
def Effect.isAnswer : Effect → Bool
  | .received _ | .username _ _ | .frame _ _ => false
  | .closed reason => reason ≠ "input buffer limit exceeded"
  | .offered _ _ | .send _ _ _ | .interest _ _ => true

theorem Effect.isAnswer_of_isOutput {effect : Effect} (output : effect.isOutput = true) :
    effect.isAnswer = true := by
  cases effect <;> simp_all [isAnswer]

def handedFrames (history : List Effect) : Nat :=
  (takenFrames history).countP fun frame => !frame.username

def Overflowed (history : List Effect) : Prop := .closed "input buffer limit exceeded" ∈ history

instance (history : List Effect) : Decidable (Overflowed history) :=
  inferInstanceAs (Decidable (_ ∈ history))

theorem readings_of_answers {effects : List Effect} (history : List Effect)
    (answers : ∀ effect ∈ effects, effect.isAnswer = true) :
    receivedBytes (effects ++ history) = receivedBytes history ∧
      handedFrames (effects ++ history) = handedFrames history ∧
      (Overflowed (effects ++ history) ↔ Overflowed history) := by
  induction effects with
  | nil => simp
  | cons effect effects ih =>
    obtain ⟨received, handed, overflowed⟩ := ih fun e mem => answers e (List.mem_cons_of_mem _ mem)
    have head := answers effect List.mem_cons_self
    have other : effect ≠ .closed "input buffer limit exceeded" := by
      rintro rfl
      simp [Effect.isAnswer] at head
    refine ⟨?_, ?_, ?_⟩
    · rw [List.cons_append, receivedBytes_cons, received]
      cases effect <;> simp_all [Effect.isAnswer]
    · rw [List.cons_append, handedFrames, takenFrames_cons, ← handed, handedFrames]
      cases effect <;> simp_all [Effect.isAnswer]
    · rw [← overflowed]
      simp [Overflowed, Ne.symm other]

namespace ChatServer

/-- Beyond answers nothing is done on any socket, and whoever is still connected has
the input it had. -/
structure Answers (s t : ChatServer) : Prop where
  history : ∀ fd, ∃ effects, (t.ports fd).history = effects ++ (s.ports fd).history ∧
    ∀ effect ∈ effects, effect.isAnswer = true
  input : ∀ fd client', t.clients fd = some client' → ∃ client, s.clients fd = some client ∧
    client'.inputBuffer = client.inputBuffer ∧ client'.clientState = client.clientState

namespace Answers

variable {s t u : ChatServer}

theorem refl (s : ChatServer) : Answers s s :=
  ⟨fun _ => ⟨[], rfl, by simp⟩, fun _ client found => ⟨client, found, rfl, rfl⟩⟩

theorem trans (first : Answers s t) (rest : Answers t u) : Answers s u := by
  refine ⟨fun fd => ?_, fun fd client'' found'' => ?_⟩
  · obtain ⟨before, history, answers⟩ := first.history fd
    obtain ⟨after, history', answers'⟩ := rest.history fd
    refine ⟨after ++ before, by rw [history', history, List.append_assoc], fun effect mem => ?_⟩
    exact (List.mem_append.mp mem).elim (answers' effect) (answers effect)
  · obtain ⟨client', found', buffer', state'⟩ := rest.input fd client'' found''
    obtain ⟨client, found, buffer, state⟩ := first.input fd client' found'
    exact ⟨client, found, buffer'.trans buffer, state'.trans state⟩

theorem of_same (ports : t.ports = s.ports) (clients : t.clients = s.clients) : Answers s t := by
  refine ⟨fun fd => ⟨[], by rw [ports, List.nil_append], by simp⟩, fun fd client found => ?_⟩
  exact ⟨client, clients ▸ found, rfl, rfl⟩

theorem rooms (h : Answers s t) (rooms : List ChatRoom) : Answers s { t with rooms } :=
  h.trans (of_same rfl rfl)

theorem stored {fd : Fd} {client client' : ClientConnection} {port : Port}
    (effects : List Effect) (found : s.clients fd = some client) (session : client'.inputBuffer = client.inputBuffer ∧
      client'.clientState = client.clientState)
    (history : port.history = effects ++ (s.ports fd).history)
    (answers : ∀ effect ∈ effects, effect.isAnswer = true) :
    Answers s ((s.setClient fd client').setPort fd port) := by
  refine ⟨fun other => ?_, fun other record found' => ?_⟩
  · by_cases same : other = fd
    · subst same
      exact ⟨effects, by simpa using history, answers⟩
    · exact ⟨[], by simp [same], by simp⟩
  · by_cases same : other = fd
    · subst same
      obtain rfl : client' = record := by simpa using found'
      exact ⟨client, found, session⟩
    · exact ⟨record, by simpa [same] using found', rfl, rfl⟩

theorem queueOutput (s : ChatServer) (fd : Fd) (data : Bytes) :
    Answers s (s.queueOutput fd data).2 := by
  unfold ChatServer.queueOutput
  cases found : s.clients fd with
  | none => exact of_same rfl rfl
  | some record =>
    obtain ⟨session, -, -, outcome, calls, history, output, -⟩ :=
      queueOutputCommon_offered s.serverIteration record (s.ports fd) data
    simp only [ClientConnection.session, Prod.mk.injEq] at session
    refine stored (.offered data outcome :: calls) found session.2.2 history ?_
    intro effect mem
    rcases List.mem_cons.mp mem with rfl | mem
    · rfl
    · exact Effect.isAnswer_of_isOutput (output effect mem).1

theorem disconnect (s : ChatServer) (fd : Fd) (reason : String)
    (other : reason ≠ "input buffer limit exceeded") : Answers s (s.disconnect fd reason) := by
  unfold ChatServer.disconnect
  cases found : s.clients fd with
  | none => exact refl s
  | some client =>
    refine ⟨fun c => ?_, fun c client' found' => ?_⟩
    · by_cases same : c = fd
      · subst same
        exact ⟨[.closed reason], by simp, by simpa [Effect.isAnswer] using other⟩
      · exact ⟨[], by simp [same], by simp⟩
    · by_cases same : c = fd
      · simp [same] at found'
      · exact ⟨client', by simpa [same] using found', rfl, rfl⟩

theorem offered (s : ChatServer) (fd : Fd) (data : Bytes) (reason : String)
    (other : reason ≠ "input buffer limit exceeded") : Answers s (s.deliver fd data reason).2 := by
  have queued := queueOutput s fd data
  unfold deliver
  cases result : s.queueOutput fd data with
  | mk taken t =>
    rw [result] at queued
    cases taken with
    | true => exact queued
    | false => exact queued.trans (disconnect t fd reason other)

theorem notifyRoom (s : ChatServer) (roomId : Nat) (excludedFd : Int) (message : Bytes) :
    Answers s (s.notifyRoom roomId excludedFd message) := by
  have all (recipients : List Fd) (s : ChatServer) :
      Answers s (recipients.foldl (notifyClient roomId excludedFd message) s) := by
    induction recipients generalizing s with
    | nil => exact refl s
    | cons fd rest ih =>
      refine trans ?_ (ih _)
      rw [notifyClient_eq]
      split_ifs
      · exact offered s fd message _ (by decide)
      · exact refl s
  unfold ChatServer.notifyRoom
  cases Rooms.findById s.rooms roomId with
  | none => exact refl s
  | some room => exact all room.subscribedClients s

theorem joinRoom (s : ChatServer) (client : Fd) (name : Bytes) :
    Answers s (s.joinRoom client name) := by
  unfold ChatServer.joinRoom
  dsimp only
  cases found : s.clients client with
  | none => exact of_same rfl rfl
  | some record =>
    dsimp only
    cases Rooms.deref _ _ with
    | none => exact of_same rfl rfl
    | some target =>
      refine ⟨fun fd => ⟨[], rfl, by simp⟩, fun fd record' found' => ?_⟩
      by_cases same : fd = client
      · subst same
        obtain rfl : { record with currRoom := target.roomIdx } = record' := by
          simpa using found'
        exact ⟨record, found, rfl, rfl⟩
      · exact ⟨record', by simpa [same] using found', rfl, rfl⟩

theorem announceJoin (s : ChatServer) (client : Fd) (name : Bytes) :
    Answers s (s.announceJoin client name) := by
  unfold ChatServer.announceJoin
  split
  · exact of_same rfl rfl
  · exact notifyRoom _ _ _ _

theorem broadcastLoop (sender : Fd) (output : Bytes) (fds : List Fd) (s : ChatServer) :
    Answers s (broadcastLoop sender output fds s).2 := by
  induction fds generalizing s with
  | nil =>
    unfold ChatServer.broadcastLoop
    split
    · exact of_same rfl rfl
    · exact refl s
  | cons fd rest ih =>
    cases found : s.clients sender with
    | none =>
      simp only [ChatServer.broadcastLoop, found]
      exact of_same rfl rfl
    | some source =>
      have delivered := offered s fd output
        "slow client: chat message output queue overflow" (by decide)
      rw [broadcastLoop_cons output found]
      split_ifs
      · generalize s.deliver fd output _ = result at delivered ⊢
        obtain ⟨queued, t⟩ := result
        cases queued with
        | false => exact delivered
        | true => exact delivered.trans (ih t)
      · exact ih s

theorem processFrame (s : ChatServer) (sender : Fd) (frame : Bytes) :
    Answers s (s.processFrame sender frame).2 := by
  unfold ChatServer.processFrame
  split_ifs
  · exact refl s
  dsimp only
  cases found : s.clients sender with
  | none => exact of_same rfl rfl
  | some source =>
    have moved (s : ChatServer) (name : Bytes) : Answers s ((s.joinRoom sender name).announceJoin
        sender name) := (joinRoom s sender name).trans (announceJoin _ sender name)
    dsimp only
    split_ifs
    · exact offered s sender (listReply s.rooms)
        "slow client: LIST response output queue overflow" (by decide)
    · exact ((notifyRoom s _ _ _).trans (moved _ _)).rooms _
    · exact (joinRoom s _ _).rooms _
    · exact ((notifyRoom s _ _ _).trans (moved _ _)).rooms _
    · exact offered s sender (whereReply (Rooms.roomName s.rooms source.currRoom))
        "slow client: WHERE response output queue overflow" (by decide)
    · exact (notifyRoom s _ _ _).trans (disconnect _ _ _ (by decide))
    · exact refl s
    · unfold ChatServer.broadcast
      rw [found]
      dsimp only
      split
      · exact refl s
      · exact broadcastLoop _ _ _ _

theorem peerGone (s : ChatServer) (fd : Fd) (reason : String)
    (other : reason ≠ "input buffer limit exceeded") : Answers s (s.peerGone fd reason) := by
  unfold ChatServer.peerGone
  split
  · exact of_same rfl rfl
  · exact (notifyRoom _ _ _ _).trans (disconnect _ _ reason other)

end Answers

/-- Between the two states the server took nothing from the socket of `fd` and handed
`handed` of its frames on; it refused no input for its size. -/
structure Hands (handed : Nat) (fd : Fd) (s t : ChatServer) : Prop where
  received : receivedBytes (t.ports fd).history = receivedBytes (s.ports fd).history
  frames : handedFrames (t.ports fd).history = handedFrames (s.ports fd).history + handed
  overflowed : ∀ c, Overflowed (t.ports c).history ↔ Overflowed (s.ports c).history

theorem Answers.hands {s t : ChatServer} (h : Answers s t) (fd : Fd) : Hands 0 fd s t := by
  refine ⟨?_, ?_, fun c => ?_⟩
  · obtain ⟨effects, history, answers⟩ := h.history fd
    rw [history, (readings_of_answers _ answers).1]
  · obtain ⟨effects, history, answers⟩ := h.history fd
    rw [history, (readings_of_answers _ answers).2.1, Nat.add_zero]
  · obtain ⟨effects, history, answers⟩ := h.history c
    rw [history, (readings_of_answers _ answers).2.2]

theorem Hands.trans {s t u : ChatServer} {fd : Fd} {n m : Nat} (first : Hands n fd s t)
    (rest : Hands m fd t u) : Hands (n + m) fd s u :=
  ⟨rest.received.trans first.received, by rw [rest.frames, first.frames, Nat.add_assoc],
    fun c => (rest.overflowed c).trans (first.overflowed c)⟩

section Frames

theorem noted_hands (s : ChatServer) (fd : Fd) (record : ClientConnection) (effect : Effect)
    {taken : Taken} (took : effect.taken = some taken) :
    Hands (if taken.username then 0 else 1) fd s ((s.setClient fd record).note fd effect) := by
  have here : (((s.setClient fd record).note fd effect).ports fd).history =
      effect :: (s.ports fd).history := by
    simp [note, Port.note]
  have kind : effect.receivedBytes = [] ∧ effect ≠ .closed "input buffer limit exceeded" := by
    cases effect <;> simp_all
  refine ⟨by rw [here, receivedBytes_cons, kind.1, List.append_nil], ?_, fun c => ?_⟩
  · simp only [handedFrames, here, takenFrames_cons, took, Option.toList_some,
      List.countP_append, List.countP_singleton]
    cases taken.username <;> rfl
  · by_cases same : c = fd
    · subst same
      simp [here, Overflowed, Ne.symm kind.2]
    · simp [note, same]

theorem frameStep_hands (framesProcessed : Nat) (s : ChatServer) (fd : Fd) :
    match frameStep fd framesProcessed s with
    | .returned t => ∃ handed ≤ 1, Hands handed fd s t
    | .exhausted t => t = s ∧ ∀ client, s.clients fd = some client →
        client.inputBuffer.length ≤ maxFrameBytes
    | .next counted t => ∃ handed ≤ 1, counted = framesProcessed + handed ∧ Hands handed fd s t := by
  cases found : s.clients fd with
  | none =>
    simp only [frameStep, found]
    have dangled : Answers s s.dangle := .of_same rfl rfl
    exact ⟨0, by omega, dangled.hands fd⟩
  | some client =>
    have cut := (Answers.disconnect s fd "input frame limit exceeded"
      (by decide)).hands fd
    rcases frameStep_cases found framesProcessed with
      ⟨-, -, result⟩ | ⟨-, short, result⟩ | ⟨raw, remaining, -, ⟨-, result⟩ |
        ⟨-, -, result⟩ | ⟨-, -, result⟩⟩
    · rw [result]
      exact ⟨0, by omega, cut⟩
    · rw [result]
      refine ⟨rfl, fun same eq => ?_⟩
      obtain rfl := Option.some.inj eq
      exact short
    · rw [result]
      exact ⟨0, by omega, cut⟩
    · have noted := noted_hands s fd { client with
          inputBuffer := remaining, username := stripCarriageReturn raw, clientState := .active }
        (.username raw (stripCarriageReturn raw)) rfl
      have joined := noted.trans (((Answers.joinRoom _ fd mainRoomName).trans
        (Answers.announceJoin _ fd mainRoomName)).hands fd)
      rw [result]
      split_ifs
      · exact ⟨0, by omega, joined⟩
      · exact ⟨0, by omega, rfl, joined⟩
    · have noted := noted_hands s fd { client with inputBuffer := remaining }
        (.frame raw (stripCarriageReturn raw)) rfl
      have processed := noted.trans ((Answers.processFrame _ fd (stripCarriageReturn raw)).hands fd)
      rw [result]
      split_ifs
      · exact ⟨1, by omega, processed⟩
      · exact ⟨1, by omega, rfl, processed⟩

theorem drainFrames_hands (turns framesProcessed : Nat) (s : ChatServer) (fd : Fd)
    (within : framesProcessed ≤ maxProcessedFramesPerPoll) :
    match drainFrames fd turns framesProcessed s with
    | .returned t => ∃ handed, framesProcessed + handed ≤ maxProcessedFramesPerPoll ∧
        Hands handed fd s t
    | .drained counted t => counted ≤ maxProcessedFramesPerPoll ∧
        ∃ handed, counted = framesProcessed + handed ∧ Hands handed fd s t := by
  induction turns generalizing framesProcessed s with
  | zero => exact ⟨within, 0, rfl, (Answers.refl s).hands fd⟩
  | succ turns ih =>
    unfold drainFrames
    split_ifs with budget
    · have turn := frameStep_hands framesProcessed s fd
      cases step : frameStep fd framesProcessed s with
      | returned t =>
        rw [step] at turn
        obtain ⟨handed, one, hands⟩ := turn
        exact ⟨handed, by omega, hands⟩
      | exhausted t =>
        rw [step] at turn
        obtain ⟨rfl, -⟩ := turn
        exact ⟨within, 0, rfl, (Answers.refl t).hands fd⟩
      | next counted t =>
        rw [step] at turn
        obtain ⟨first, one, rfl, hands⟩ := turn
        have rest := ih (framesProcessed + first) t (by omega)
        dsimp only
        split at rest
        · obtain ⟨more, budget, later⟩ := rest
          exact ⟨first + more, by omega, hands.trans later⟩
        · obtain ⟨budget, more, rfl, later⟩ := rest
          exact ⟨budget, first + more, by omega, hands.trans later⟩
    · exact ⟨within, 0, rfl, (Answers.refl s).hands fd⟩

end Frames

/-- Between the two states the server took `bytes` bytes from the socket of `fd` and
handed `frames` of its frames on. -/
structure Takes (fd : Fd) (bytes frames : Nat) (s t : ChatServer) : Prop where
  received : (receivedBytes (t.ports fd).history).length =
    (receivedBytes (s.ports fd).history).length + bytes
  handed : handedFrames (t.ports fd).history = handedFrames (s.ports fd).history + frames

theorem Hands.takes {s t : ChatServer} {fd : Fd} {frames : Nat} (h : Hands frames fd s t) :
    Takes fd 0 frames s t :=
  ⟨by rw [h.received, Nat.add_zero], h.frames⟩

theorem Answers.takes {s t : ChatServer} (h : Answers s t) (fd : Fd) : Takes fd 0 0 s t :=
  (h.hands fd).takes

theorem Takes.trans {s t u : ChatServer} {fd : Fd} {bytes bytes' frames frames' : Nat}
    (first : Takes fd bytes frames s t) (rest : Takes fd bytes' frames' t u) :
    Takes fd (bytes + bytes') (frames + frames') s u :=
  ⟨by rw [rest.received, first.received, Nat.add_assoc],
    by rw [rest.handed, first.handed, Nat.add_assoc]⟩

theorem setRecvs_answers (s : ChatServer) (fd : Fd) (recvs : List RecvResult) :
    Answers s (s.setRecvs fd recvs) := by
  refine ⟨fun c => ⟨[], ?_, by simp⟩, fun c client found => ⟨client, found, rfl, rfl⟩⟩
  by_cases same : c = fd <;> simp [setRecvs, same]

/-- A chunk is taken even where it is then refused. -/
theorem receive_takes (s : ChatServer) {fd : Fd} (connected : s.clients fd ≠ none)
    (chunk : Bytes) : Takes fd chunk.length 0 s (s.receive fd chunk).2 := by
  obtain ⟨client, found⟩ := Option.ne_none_iff_exists'.mp connected
  let t := (s.setClient fd { client with inputBuffer := client.inputBuffer ++ chunk }).note fd
    (.received chunk)
  have noted : (t.ports fd).history = .received chunk :: (s.ports fd).history := by
    simp [t, note, Port.note]
  have taken : Takes fd chunk.length 0 s t := by
    refine ⟨?_, ?_⟩
    · rw [noted, receivedBytes_cons, List.length_append]
      rfl
    · simp [handedFrames, noted]
  simp only [receive, found]
  split_ifs
  · have closed : ((t.disconnect fd "input buffer limit exceeded").ports fd).history =
        .closed "input buffer limit exceeded" :: (t.ports fd).history := by
      have found' : t.clients fd = some { client with inputBuffer := client.inputBuffer ++ chunk } :=
        Function.update_self _ _ _
      simp [disconnect, found']
    refine ⟨?_, ?_⟩
    · rw [closed, receivedBytes_cons, ← taken.received]
      simp
    · rw [closed, handedFrames, takenFrames_cons, ← taken.handed]
      simp [handedFrames]
  · exact taken

/-- Every `recv` of the loop that is made with less than a full buffer of the budget left
returns no more than what is left. -/
def readsWithin (fd : Fd) : List RecvResult → Nat → Nat → ChatServer → Bool
  | recvs, bytesRead, framesProcessed, s =>
    if bytesRead < maxBytesReadPerPoll ∧ framesProcessed < maxProcessedFramesPerPoll then
      match recvs with
      | .received chunk _ :: rest =>
        (maxDataSize ≤ maxBytesReadPerPoll - bytesRead ||
            chunk.length ≤ maxBytesReadPerPoll - bytesRead) &&
          (chunk = [] || match (s.setRecvs fd rest).receive fd chunk with
            | (false, _) => true
            | (true, s) =>
              match drainFrames fd (maxProcessedFramesPerPoll + 1) framesProcessed s with
              | .returned _ => true
              | .drained framesProcessed s =>
                readsWithin fd rest (bytesRead + chunk.length) framesProcessed s)
      | _ => true
    else true

/-- Of a loop that begins with budgets partly used: it stops at the frame budget, it
passes the byte budget by less than one chunk, and not at all if its reads are within it. -/
structure Bounded (bytesRead framesProcessed bytes frames : Nat) (within : Bool) : Prop where
  frames : framesProcessed + frames ≤ maxProcessedFramesPerPoll
  overshoot : bytesRead < maxBytesReadPerPoll + maxDataSize →
    bytesRead + bytes < maxBytesReadPerPoll + maxDataSize
  fits : bytesRead ≤ maxBytesReadPerPoll →
    (bytesRead + bytes ≤ maxBytesReadPerPoll ↔ within = true)

theorem Bounded.idle {bytesRead framesProcessed : Nat}
    (within : framesProcessed ≤ maxProcessedFramesPerPoll) :
    Bounded bytesRead framesProcessed 0 0 true :=
  ⟨within, fun h => h, fun h => by simpa using h⟩

theorem Bounded.chunk {bytesRead framesProcessed frames bytes more length : Nat} {within : Bool}
    (budget : bytesRead < maxBytesReadPerPoll) (fits : length ≤ maxDataSize)
    (rest : Bounded (bytesRead + length) (framesProcessed + frames) bytes more within) :
    Bounded bytesRead framesProcessed (length + bytes) (frames + more)
      ((maxDataSize ≤ maxBytesReadPerPoll - bytesRead ||
        length ≤ maxBytesReadPerPoll - bytesRead) && within) := by
  have stays := rest.frames
  have passes := rest.overshoot
  refine ⟨by omega, fun _ => by omega, fun _ => ?_⟩
  rw [Bool.and_eq_true, Bool.or_eq_true, decide_eq_true_eq, decide_eq_true_eq]
  by_cases past : bytesRead + length ≤ maxBytesReadPerPoll
  · have same := rest.fits past
    rw [← same]
    omega
  · exact iff_of_false (by omega) (by omega)

theorem readLoop_idle (fd : Fd) (recvs : List RecvResult) (bytesRead framesProcessed : Nat)
    (s : ChatServer) : Answers s (readLoop fd recvs bytesRead framesProcessed s) ∧
      readsWithin fd recvs bytesRead framesProcessed s = true ∨
    ∃ chunk fits rest, recvs = .received chunk fits :: rest ∧ chunk ≠ [] ∧
      bytesRead < maxBytesReadPerPoll ∧ framesProcessed < maxProcessedFramesPerPoll := by
  unfold readLoop readsWithin
  split_ifs with budget
  swap
  · exact .inl ⟨.refl s, rfl⟩
  cases recvs with
  | nil => exact .inl ⟨.refl s, rfl⟩
  | cons result rest =>
    have answered := setRecvs_answers s fd rest
    cases result with
    | eagain => exact .inl ⟨answered, rfl⟩
    | eintr => exact .inl ⟨answered, rfl⟩
    | error errno => exact .inl ⟨answered.trans (.peerGone _ fd "recv failed" (by decide)), rfl⟩
    | received chunk fits =>
      by_cases ended : chunk = []
      · refine .inl ⟨?_, by simp [ended]⟩
        dsimp only
        rw [if_pos ended]
        exact answered.trans (.peerGone _ fd "peer closed connection" (by decide))
      · exact .inr ⟨chunk, fits, rest, rfl, ended, budget⟩

theorem readsWithin_received (s : ChatServer) (fd : Fd) {chunk : Bytes} (nonempty : chunk ≠ [])
    (fits : chunk.length ≤ maxDataSize) (rest : List RecvResult) {bytesRead framesProcessed : Nat}
    (bytes : bytesRead < maxBytesReadPerPoll) (frames : framesProcessed < maxProcessedFramesPerPoll) :
    readsWithin fd (.received chunk fits :: rest) bytesRead framesProcessed s =
      ((maxDataSize ≤ maxBytesReadPerPoll - bytesRead ||
          chunk.length ≤ maxBytesReadPerPoll - bytesRead) &&
        match (s.setRecvs fd rest).receive fd chunk with
        | (false, _) => true
        | (true, t) =>
          match drainFrames fd (maxProcessedFramesPerPoll + 1) framesProcessed t with
          | .returned _ => true
          | .drained counted u => readsWithin fd rest (bytesRead + chunk.length) counted u) := by
  rw [readsWithin, if_pos ⟨bytes, frames⟩, decide_eq_false nonempty, Bool.false_or]

theorem readLoop_takes (fd : Fd) (recvs : List RecvResult) (bytesRead framesProcessed : Nat)
    (s : ChatServer) (connected : s.clients fd ≠ none)
    (within : framesProcessed ≤ maxProcessedFramesPerPoll) : ∃ bytes frames,
      Takes fd bytes frames s (readLoop fd recvs bytesRead framesProcessed s) ∧
      Bounded bytesRead framesProcessed bytes frames
        (readsWithin fd recvs bytesRead framesProcessed s) := by
  induction recvs generalizing bytesRead framesProcessed s with
  | nil =>
    obtain ⟨answers, clean⟩ := (readLoop_idle fd [] bytesRead framesProcessed s).resolve_right (by simp)
    exact ⟨0, 0, answers.takes fd, clean ▸ .idle within⟩
  | cons result rest ih =>
    rcases readLoop_idle fd (result :: rest) bytesRead framesProcessed s with
      ⟨answers, clean⟩ | ⟨chunk, fits, _, same, nonempty, budget, left⟩
    · exact ⟨0, 0, answers.takes fd, clean ▸ .idle within⟩
    obtain ⟨rfl, rfl⟩ := List.cons.inj same
    rw [readLoop_received s fd nonempty fits rest budget left,
      readsWithin_received s fd nonempty fits rest budget left]
    have taken : Takes fd chunk.length 0 s ((s.setRecvs fd rest).receive fd chunk).2 := by
      have answered := (setRecvs_answers s fd rest).takes fd
      simpa using answered.trans (receive_takes _ (show (s.setRecvs fd rest).clients fd ≠ none from
        connected) chunk)
    have refused : Bounded (bytesRead + chunk.length) (framesProcessed + 0) 0 0 true := .idle within
    cases result : (s.setRecvs fd rest).receive fd chunk with
    | mk kept t =>
      rw [result] at taken
      cases kept with
      | false => exact ⟨_, _, taken, refused.chunk budget fits⟩
      | true =>
        have drained := drainFrames_hands (maxProcessedFramesPerPoll + 1) framesProcessed t fd within
        have stays := drainFrames_steps fd (maxProcessedFramesPerPoll + 1) framesProcessed t
          (receive_true result)
        dsimp only
        cases ends : drainFrames fd (maxProcessedFramesPerPoll + 1) framesProcessed t with
        | returned u =>
          rw [ends] at drained
          obtain ⟨handed, limit, hands⟩ := drained
          have last : Bounded (bytesRead + chunk.length) (framesProcessed + handed) 0 0 true :=
            .idle limit
          refine ⟨chunk.length, handed, ?_, last.chunk budget fits⟩
          simpa using taken.trans hands.takes
        | drained counted u =>
          rw [ends] at drained stays
          obtain ⟨limit, handed, rfl, hands⟩ := drained
          obtain ⟨bytes, frames, later, bounded⟩ := ih (bytesRead + chunk.length) _ u stays.2 limit
          refine ⟨chunk.length + bytes, handed + frames, ?_, bounded.chunk budget fits⟩
          simpa using (taken.trans hands.takes).trans later

/-- The condition on the reads of a whole call. -/
def handleReadWithin (s : ChatServer) (fd : Fd) : Bool :=
  (s.clients fd).isNone || readsWithin fd (s.ports fd).recvs 0 0 s

theorem handleRead_takes (s : ChatServer) (fd : Fd) : ∃ bytes frames,
    Takes fd bytes frames s (s.handleRead fd) ∧
      Bounded 0 0 bytes frames (s.handleReadWithin fd) := by
  unfold handleRead handleReadWithin
  cases found : s.clients fd with
  | none => exact ⟨0, 0, (Answers.refl s).takes fd, .idle (by decide)⟩
  | some client =>
    obtain ⟨bytes, frames, takes, bounded⟩ := readLoop_takes fd (s.ports fd).recvs 0 0 s
      (by simp [found]) (by decide)
    exact ⟨bytes, frames, takes, by simpa using bounded⟩

/-- One call of `handleRead` keeps to both budgets exactly if its reads are within theirs. -/
theorem read_budget (s : ChatServer) (fd : Fd) :
    (receivedBytes ((s.handleRead fd).ports fd).history).length ≤
        (receivedBytes (s.ports fd).history).length + maxBytesReadPerPoll ∧
      handedFrames ((s.handleRead fd).ports fd).history ≤
        handedFrames (s.ports fd).history + maxProcessedFramesPerPoll ↔
    s.handleReadWithin fd = true := by
  obtain ⟨bytes, frames, takes, bounded⟩ := handleRead_takes s fd
  have stays := bounded.frames
  have fits := bounded.fits (Nat.zero_le _)
  rw [takes.received, takes.handed, ← fits]
  omega

/-- The frame budget is kept by every call, and the byte budget but for one chunk. -/
theorem read_overshoot (s : ChatServer) (fd : Fd) :
    (receivedBytes ((s.handleRead fd).ports fd).history).length <
        (receivedBytes (s.ports fd).history).length + (maxBytesReadPerPoll + maxDataSize) ∧
      handedFrames ((s.handleRead fd).ports fd).history ≤
        handedFrames (s.ports fd).history + maxProcessedFramesPerPoll := by
  obtain ⟨bytes, frames, takes, bounded⟩ := handleRead_takes s fd
  have stays := bounded.frames
  have passes := bounded.overshoot (by decide)
  rw [takes.received, takes.handed]
  omega

def line (length : Nat) : Bytes := List.replicate (length - 1) 120 ++ [newline]

theorem line_fits : (line 255).length ≤ maxDataSize ∧ (line 256).length ≤ maxDataSize := by
  decide +kernel

def shortRead : Environment where
  accepts := []
  results _ := ⟨.received (line 255) line_fits.1 ::
    List.replicate 32 (.received (line 256) line_fits.2), [], []⟩

def shortReadMet : ChatServer := ((initial 3).run [.iteration,
  .event ⟨[.connection 4 true true ⟨[], [], []⟩], fun _ => ⟨[], [], []⟩⟩ ⟨3, readyRead⟩,
  .iteration]).load shortRead.results

theorem shortRead_past_budget : Reachable shortReadMet ∧
    (receivedBytes (shortReadMet.ports 4).history).length + maxBytesReadPerPoll <
      (receivedBytes ((shortReadMet.handleRead 4).ports 4).history).length :=
  ⟨(run_reachable 3 _).perform (a := .load shortRead.results) trivial, by decide +kernel⟩

end ChatServer
end Partyline
