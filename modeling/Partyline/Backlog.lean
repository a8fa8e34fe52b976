import Partyline.Actions
import Partyline.ReadBudget

/-! What `handleRead` leaves in the input buffer. A call that ends on the frame
budget leaves complete frames there, and the next one receives before it takes
any of them: the limit of the buffer can be met by its first chunk, and by no
other. -/
namespace Partyline
namespace ChatServer

theorem frameStep_next_active {s t : ChatServer} {fd : Fd} {client : ClientConnection}
    (found : s.clients fd = some client) {framesProcessed counted : Nat}
    (step : frameStep fd framesProcessed s = .next counted t) :
    ∀ record, t.clients fd = some record → record.clientState = .active := by
  intro record found'
  rcases frameStep_cases found framesProcessed with
    ⟨-, -, result⟩ | ⟨-, -, result⟩ | ⟨raw, remaining, -, ⟨-, result⟩ |
      ⟨-, -, result⟩ | ⟨-, active, result⟩⟩
  · simp [result] at step
  · simp [result] at step
  · simp [result] at step
  · rw [result] at step
    split_ifs at step
    obtain ⟨-, rfl⟩ := FrameStep.next.inj step
    obtain ⟨before, found'', -, state⟩ := ((Answers.joinRoom _ fd mainRoomName).trans
      (Answers.announceJoin _ fd mainRoomName)).input fd record found'
    rw [state]
    simp only [note, setPort_clients, setClient_clients, Function.update_self,
      Option.some.injEq] at found''
    rw [← found'']
  · rw [result] at step
    split_ifs at step
    obtain ⟨-, rfl⟩ := FrameStep.next.inj step
    obtain ⟨before, found'', -, state⟩ :=
      (Answers.processFrame _ fd (stripCarriageReturn raw)).input fd record found'
    rw [state]
    simp only [eraseFrame, note, setPort_clients, setClient_clients, Function.update_self,
      Option.some.injEq] at found''
    rw [← found'', active]

/-- Unless the frame budget ended the loop, less than a frame is left. -/
theorem drainFrames_left {fd : Fd} (turns framesProcessed : Nat) {s : ChatServer}
    {client : ClientConnection} (found : s.clients fd = some client)
    (enough : maxProcessedFramesPerPoll + (if client.clientState = .awaitingUsername then 1 else 0) ≤
      framesProcessed + turns) :
    match drainFrames fd turns framesProcessed s with
    | .returned _ => True
    | .drained counted t => counted < maxProcessedFramesPerPoll →
        ∀ client, t.clients fd = some client → client.inputBuffer.length ≤ maxFrameBytes := by
  induction turns generalizing framesProcessed s client with
  | zero =>
    intro below
    omega
  | succ turns ih =>
    unfold drainFrames
    split_ifs with budget
    · have turn := frameStep_hands framesProcessed s fd
      cases step : frameStep fd framesProcessed s with
      | returned t => trivial
      | exhausted t =>
        rw [step] at turn
        obtain ⟨rfl, short⟩ := turn
        exact fun _ => short
      | next counted t =>
        have still := frameStep_next (by simp [found]) step
        obtain ⟨record, found'⟩ := Option.ne_none_iff_exists'.mp still
        refine ih _ found' ?_
        rw [frameStep_next_active found step record found', if_neg (by simp)]
        rcases frameStep_counted found step with ⟨awaiting, rfl⟩ | ⟨-, rfl⟩
        · rw [awaiting, if_pos rfl] at enough
          omega
        · omega
    · exact fun below => (budget below).elim

/-- The buffer has room for the first chunk that a loop on these results receives. -/
def roomFor (buffer : Bytes) : List RecvResult → Bool
  | .received chunk _ :: _ => chunk = [] || buffer.length + chunk.length ≤ maxInputBufferBytes
  | _ => true

theorem roomFor_of_short {buffer : Bytes} (short : buffer.length ≤ maxFrameBytes)
    (recvs : List RecvResult) : roomFor buffer recvs = true := by
  unfold roomFor
  split
  · rename_i chunk fits _
    have limit : maxFrameBytes + maxDataSize ≤ maxInputBufferBytes := by decide
    have below : buffer.length + chunk.length ≤ maxInputBufferBytes := by omega
    simp [below]
  · rfl

theorem receive_overflowed {s : ChatServer} {fd : Fd} {client : ClientConnection}
    (found : s.clients fd = some client) (chunk : Bytes) :
    (client.inputBuffer.length + chunk.length ≤ maxInputBufferBytes →
      ∃ t, s.receive fd chunk = (true, t) ∧
        ∀ c, Overflowed (t.ports c).history ↔ Overflowed (s.ports c).history) ∧
    (maxInputBufferBytes < client.inputBuffer.length + chunk.length →
      ∃ t, s.receive fd chunk = (false, t) ∧
        ∀ c, Overflowed (t.ports c).history ↔ Overflowed (s.ports c).history ∨ c = fd) := by
  let t := (s.setClient fd { client with inputBuffer := client.inputBuffer ++ chunk }).note fd
    (.received chunk)
  have found' : t.clients fd = some { client with inputBuffer := client.inputBuffer ++ chunk } :=
    Function.update_self _ _ _
  have noted (c : Fd) : Overflowed (t.ports c).history ↔ Overflowed (s.ports c).history := by
    by_cases same : c = fd <;> simp [t, note, Port.note, Overflowed, same]
  simp only [receive, found, List.length_append, gt_iff_lt]
  refine ⟨fun below => ⟨t, if_neg (Nat.not_lt.mpr below), noted⟩, fun past =>
    ⟨t.disconnect fd "input buffer limit exceeded", if_pos past, fun c => ?_⟩⟩
  rw [← noted]
  by_cases same : c = fd <;> simp [disconnect, found', Overflowed, same]

theorem readLoop_overflowed {fd : Fd} (recvs : List RecvResult) (bytesRead framesProcessed : Nat)
    {s : ChatServer} {client : ClientConnection} (found : s.clients fd = some client)
    (room : roomFor client.inputBuffer recvs = true) (c : Fd) :
    Overflowed ((readLoop fd recvs bytesRead framesProcessed s).ports c).history ↔
      Overflowed (s.ports c).history := by
  induction recvs generalizing bytesRead framesProcessed s client with
  | nil =>
    obtain ⟨answers, -⟩ := (readLoop_idle fd [] bytesRead framesProcessed s).resolve_right (by simp)
    exact (answers.hands fd).overflowed c
  | cons result rest ih =>
    rcases readLoop_idle fd (result :: rest) bytesRead framesProcessed s with
      ⟨answers, -⟩ | ⟨chunk, fits, _, same, nonempty, budget, turns⟩
    · exact (answers.hands fd).overflowed c
    obtain ⟨rfl, rfl⟩ := List.cons.inj same
    have found' : (s.setRecvs fd rest).clients fd = some client := found
    have below : client.inputBuffer.length + chunk.length ≤ maxInputBufferBytes := by
      simpa [roomFor, nonempty] using room
    obtain ⟨t, result, same⟩ := (receive_overflowed found' chunk).1 below
    obtain ⟨record, stored⟩ := Option.ne_none_iff_exists'.mp (receive_true result)
    have drained := drainFrames_hands (maxProcessedFramesPerPoll + 1) framesProcessed t fd
      (by omega)
    have left := drainFrames_left (maxProcessedFramesPerPoll + 1) framesProcessed stored
      (by split_ifs <;> omega)
    have stays := drainFrames_steps fd (maxProcessedFramesPerPoll + 1) framesProcessed t
      (receive_true result)
    have before := (same c).trans (((setRecvs_answers s fd rest).hands fd).overflowed c)
    rw [readLoop_received s fd nonempty fits rest budget turns, result]
    dsimp only
    cases ends : drainFrames fd (maxProcessedFramesPerPoll + 1) framesProcessed t with
    | returned u =>
      rw [ends] at drained
      obtain ⟨handed, -, hands⟩ := drained
      exact (hands.overflowed c).trans before
    | drained counted u =>
      rw [ends] at drained left stays
      obtain ⟨-, handed, -, hands⟩ := drained
      obtain ⟨next, found''⟩ := Option.ne_none_iff_exists'.mp stays.2
      refine Iff.trans ?_ ((hands.overflowed c).trans before)
      by_cases spent : counted < maxProcessedFramesPerPoll
      · have short := left spent next found''
        exact ih _ counted found'' (roomFor_of_short short rest)
      · dsimp only
        unfold readLoop
        rw [if_neg (fun budget => spent budget.2)]

/-- What earlier calls left in the buffer leaves room for the first chunk of this one. -/
def backlogFits (s : ChatServer) (fd : Fd) : Bool :=
  (s.clients fd).all fun client => roomFor client.inputBuffer (s.ports fd).recvs

theorem handleRead_overflowed (s : ChatServer) (fd c : Fd) :
    Overflowed ((s.handleRead fd).ports c).history ↔
      Overflowed (s.ports c).history ∨ c = fd ∧ s.backlogFits fd = false := by
  unfold handleRead backlogFits
  cases found : s.clients fd with
  | none => simp
  | some client =>
    dsimp only
    rw [Option.all_some]
    cases room : roomFor client.inputBuffer (s.ports fd).recvs with
    | true => simpa using readLoop_overflowed _ 0 0 found room c
    | false =>
      cases answers : (s.ports fd).recvs with
      | nil => simp [roomFor, answers] at room
      | cons result rest =>
        rw [answers] at room
        cases result with
        | eagain | eintr | error errno => simp [roomFor] at room
        | received chunk fits =>
          simp only [roomFor, Bool.or_eq_false_iff, decide_eq_false_iff_not, not_le] at room
          obtain ⟨nonempty, past⟩ := room
          have found' : (s.setRecvs fd rest).clients fd = some client := found
          obtain ⟨t, result, closed⟩ := (receive_overflowed found' chunk).2 past
          rw [readLoop_received s fd nonempty fits rest (by decide) (by decide), result]
          dsimp only
          rw [closed, ((setRecvs_answers s fd rest).hands fd).overflowed]
          simp

theorem handleWrite_answers (s : ChatServer) (fd : Fd) : Answers s (s.handleWrite fd) := by
  have flushed : Answers s (s.flushOutput fd).2 := by
    unfold flushOutput
    cases found : s.clients fd with
    | none => exact .of_same rfl rfl
    | some record =>
      obtain ⟨session, -, -, calls, history, output⟩ :=
        flushOutputCommon_output s.serverIteration record (s.ports fd)
      simp only [ClientConnection.session, Prod.mk.injEq] at session
      exact .stored calls found session.2.2 history fun effect mem =>
        Effect.isAnswer_of_isOutput (output effect mem).1
  unfold handleWrite
  generalize s.flushOutput fd = result at flushed ⊢
  obtain ⟨done, t⟩ := result
  cases done with
  | true => exact flushed
  | false => exact flushed.trans (Answers.peerGone t fd _ (by decide))

theorem acceptClient_overflowed (s : ChatServer) (fd : Fd) (results : Results) (c : Fd)
    (past : Overflowed ((s.acceptClient fd results).ports c).history) :
    Overflowed (s.ports c).history := by
  obtain ⟨record, port, fresh, same⟩ := acceptClient_eq s fd results
  have told := Answers.offered ((s.setPort fd port).setClient fd record) fd prompt
    "username prompt output queue overflow" (by decide)
  rw [same, (told.hands fd).overflowed] at past
  obtain rfl : _ = port := congrArg Entry.port fresh
  by_cases here : c = fd
  · simp [here, Entry.opened, Overflowed] at past
  · simpa [here] using past

theorem acceptConnections_overflowed (accepts : List AcceptResult) (s : ChatServer) (c : Fd)
    (past : Overflowed ((acceptConnections accepts s).ports c).history) :
    Overflowed (s.ports c).history := by
  induction accepts generalizing s with
  | nil => exact past
  | cons result rest ih =>
    cases result with
    | eagain => exact past
    | error errno => exact past
    | eintr => exact ih s past
    | connection fd nonblocking added results =>
      simp only [acceptConnections] at past
      split_ifs at past
      · exact past
      · exact ih s past
      · exact acceptClient_overflowed s fd results c (ih _ past)

def Input.backlogFits (s : ChatServer) : Input → Bool
  | .iteration => true
  | .event env ready => ready.fd = s.listener ||
      ready.flags &&& (readyRead ||| readyError) = 0 || (s.load env.results).backlogFits ready.fd

/-- No connection has been ended for the size of its input. -/
def NoneOverflowed (s : ChatServer) : Prop := ∀ c, ¬ Overflowed (s.ports c).history

theorem NoneOverflowed.answers {s t : ChatServer} (h : Answers s t) :
    NoneOverflowed t ↔ NoneOverflowed s :=
  forall_congr' fun c => not_congr ((h.hands c).overflowed c)

theorem NoneOverflowed.handleRead {s : ChatServer} (h : NoneOverflowed s) (fd : Fd) :
    NoneOverflowed (s.handleRead fd) ↔ s.backlogFits fd = true := by
  constructor
  · intro after
    by_contra full
    exact after fd ((handleRead_overflowed s fd fd).mpr (.inr ⟨rfl, by simpa using full⟩))
  · intro fits c past
    rcases (handleRead_overflowed s fd c).mp past with before | ⟨-, full⟩
    · exact h c before
    · simp [fits] at full

theorem NoneOverflowed.handle {s : ChatServer} (h : NoneOverflowed s) (input : Input) :
    NoneOverflowed (s.handle input) ↔ input.backlogFits s = true := by
  cases input with
  | iteration => exact iff_of_true h rfl
  | event env event =>
    have loaded : NoneOverflowed (s.load env.results) := h
    have read := loaded.handleRead event.fd
    have written (t : ChatServer) := NoneOverflowed.answers (handleWrite_answers t event.fd)
    change NoneOverflowed (s.handleEvent env event) ↔ _
    have listener : (s.load env.results).listener = s.listener := rfl
    unfold handleEvent Input.backlogFits
    dsimp only
    rw [listener]
    split_ifs with listening readable readable writable writable
    · refine iff_of_true (fun c past => ?_) (by simp [listening])
      exact loaded c (acceptConnections_overflowed _ _ c past)
    · exact iff_of_true loaded (by simp [listening])
    · rw [written, read]
      simp [listening, readable]
    · rw [read]
      simp [listening, readable]
    · rw [written]
      refine iff_of_true loaded (by simpa using .inl (.inr (not_not.mp readable)))
    · refine iff_of_true loaded (by simpa using .inl (.inr (not_not.mp readable)))

/-- No client is ever disconnected for the size of its input exactly if every call finds
room for its first chunk. -/
theorem bursts_deferred (listener : Fd) (inputs : List Input) :
    (∀ n c, ¬ Overflowed (((initial listener).run (inputs.take n)).ports c).history) ↔
      Along (fun s input => input.backlogFits s = true) (initial listener) inputs :=
  along_iff (P := NoneOverflowed) (fun _ input h => h.handle input) fun c => by
    simp [initial, Overflowed]

def emptyLines : Environment where
  accepts := []
  results _ := ⟨[.received (List.replicate 256 newline) (by decide +kernel)], [], []⟩

/-- A client that sends nothing but empty lines, and the server is told of each chunk. -/
def lineFlood : Nat → List Input
  | 0 => [.iteration,
      .event ⟨[.connection 4 true true ⟨[], [], []⟩], fun _ => ⟨[], [], []⟩⟩ ⟨3, readyRead⟩]
  | n + 1 => lineFlood n ++ [.iteration, .event emptyLines ⟨4, readyRead⟩]

theorem not_overlong_of_newlines {stream : Bytes} (lines : ∀ ch ∈ stream, ch = newline) :
    ¬ Overlong stream := by
  rintro ⟨part, within, clean, long⟩
  cases part with
  | nil => simp at long
  | cons ch rest =>
    have same := lines ch (within.subset List.mem_cons_self)
    exact clean (same ▸ List.mem_cons_self)

/-- The client's lines are as short as can be. -/
theorem lineFlood_refused :
    ¬ Overlong (receivedBytes (((initial 3).run (lineFlood 37)).ports 4).history) ∧
      Overflowed (((initial 3).run (lineFlood 37)).ports 4).history := by
  have lines : (receivedBytes (((initial 3).run (lineFlood 37)).ports 4).history).all
      (fun ch => ch == newline) = true := by decide +kernel
  exact ⟨not_overlong_of_newlines (by simpa using lines), by decide +kernel⟩

end ChatServer
end Partyline
