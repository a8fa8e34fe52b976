import Partyline.Library.Transition
import Partyline.ChatServer

/-! The server as a transition system. Its actions are the units between which
the tables are consistent: a return of `wait`, one accepted connection, one
chunk received, one frame taken, the end of a connection, one flush. Handling
an event is a sequence of them (`handle_steps`), so what holds of every state
the actions reach holds after every handled event, and also at the points
inside `handleRead` from which the next frame is taken. -/
namespace Partyline

open Library

namespace ChatServer

inductive Action where
  | iteration
  | load (results : Fd → Results)
  | accept (fd : Fd) (results : Results)
  | answered (fd : Fd) (recvs : List RecvResult)
  | receive (fd : Fd) (chunk : Bytes)
  | frame (fd : Fd) (framesProcessed : Nat)
  | peerClosed (fd : Fd)
  | recvFailed (fd : Fd)
  | write (fd : Fd)

def FrameStep.server : FrameStep → ChatServer
  | .returned s => s
  | .exhausted s => s
  | .next _ s => s

def Action.enabled (a : Action) (s : ChatServer) : Prop :=
  match a with
  | .iteration | .load _ | .answered _ _ => True
  | .accept fd _ => s.isOpen fd = false
  | .receive fd _ | .frame fd _ | .peerClosed fd | .recvFailed fd | .write fd =>
    s.clients fd ≠ none

def Action.perform (a : Action) (s : ChatServer) : ChatServer :=
  match a with
  | .iteration => s.beginServerIteration
  | .load results => s.load results
  | .accept fd results => s.acceptClient fd results
  | .answered fd recvs => s.setRecvs fd recvs
  | .receive fd chunk => (s.receive fd chunk).2
  | .frame fd framesProcessed => (frameStep fd framesProcessed s).server
  | .peerClosed fd => s.peerGone fd "peer closed connection"
  | .recvFailed fd => s.peerGone fd "recv failed"
  | .write fd => s.handleWrite fd

def machine : Transition ChatServer Action where
  init s := ∃ listener, s = initial listener
  enabled := Action.enabled
  perform := Action.perform

instance : (a : Action) → (s : ChatServer) → Decidable (machine.enabled a s)
  | .iteration, _ | .load _, _ | .answered _ _, _ => .isTrue trivial
  | .accept fd _, s => inferInstanceAs (Decidable (s.isOpen fd = false))
  | .receive fd _, s | .frame fd _, s | .peerClosed fd, s | .recvFailed fd, s | .write fd, s =>
    inferInstanceAs (Decidable (s.clients fd ≠ none))

/-- What `handleRead` does for a client. -/
def Action.reads (fd : Fd) : Action → Prop
  | .answered c _ | .receive c _ | .frame c _ | .peerClosed c | .recvFailed c => c = fd
  | _ => False

/-- The part of the machine that is one call of `handleRead`. -/
abbrev reading (fd : Fd) : Transition ChatServer Action := machine.restrict (Action.reads fd)

abbrev Reachable (s : ChatServer) : Prop := machine.Reachable s

abbrev Steps (s t : ChatServer) : Prop := machine.Steps s t

theorem reachable_perform {s : ChatServer} (h : Reachable s) (a : Action) (enabled : a.enabled s) :
    Reachable (a.perform s) :=
  h.perform enabled

theorem acceptConnections_steps (accepts : List AcceptResult) (s : ChatServer) :
    Steps s (acceptConnections accepts s) := by
  induction accepts generalizing s with
  | nil => exact .refl s
  | cons result rest ih =>
    cases result with
    | eagain => exact .refl s
    | error errno => exact .refl s
    | eintr => exact ih s
    | connection fd nonblocking added results =>
      simp only [acceptConnections]
      split_ifs with isOpen failed
      · exact .refl s
      · exact ih s
      · exact .cons (.accept fd results) (by simpa [machine, Action.enabled] using isOpen) (ih _)

theorem frameStep_next {fd : Fd} {framesProcessed taken : Nat} {s t : ChatServer}
    (connected : s.clients fd ≠ none) (h : frameStep fd framesProcessed s = .next taken t) :
    t.clients fd ≠ none := by
  obtain ⟨client, found⟩ := Option.ne_none_iff_exists'.mp connected
  rcases frameStep_cases found framesProcessed with
    ⟨-, -, e⟩ | ⟨-, -, e⟩ | ⟨raw, remaining, -, ⟨-, e⟩ | ⟨-, -, e⟩ | ⟨-, -, e⟩⟩
  all_goals grind

theorem frameStep_counted {fd : Fd} {framesProcessed counted : Nat} {s t : ChatServer}
    {client : ClientConnection} (found : s.clients fd = some client)
    (h : frameStep fd framesProcessed s = .next counted t) :
    client.clientState = .awaitingUsername ∧ counted = framesProcessed ∨
      client.clientState = .active ∧ counted = framesProcessed + 1 := by
  rcases frameStep_cases found framesProcessed with
    ⟨-, -, e⟩ | ⟨-, -, e⟩ | ⟨raw, remaining, -, ⟨-, e⟩ | ⟨-, awaiting, e⟩ | ⟨-, active, e⟩⟩
  · simp [e] at h
  · simp [e] at h
  · simp [e] at h
  · rw [e] at h
    split_ifs at h
    exact .inl ⟨awaiting, (FrameStep.next.inj h).1.symm⟩
  · rw [e] at h
    split_ifs at h
    exact .inr ⟨active, (FrameStep.next.inj h).1.symm⟩

theorem frameStep_exhausted {fd : Fd} {framesProcessed : Nat} {s t : ChatServer}
    (connected : s.clients fd ≠ none) (h : frameStep fd framesProcessed s = .exhausted t) :
    t = s := by
  obtain ⟨client, found⟩ := Option.ne_none_iff_exists'.mp connected
  rcases frameStep_cases found framesProcessed with
    ⟨-, -, e⟩ | ⟨-, -, e⟩ | ⟨raw, remaining, -, ⟨-, e⟩ | ⟨-, -, e⟩ | ⟨-, -, e⟩⟩
  all_goals grind

theorem drainFrames_steps (fd : Fd) (turns framesProcessed : Nat) (s : ChatServer)
    (connected : s.clients fd ≠ none) :
    match drainFrames fd turns framesProcessed s with
    | .returned t => (reading fd).Steps s t
    | .drained _ t => (reading fd).Steps s t ∧ t.clients fd ≠ none := by
  induction turns generalizing framesProcessed s with
  | zero => exact ⟨.refl s, connected⟩
  | succ turns ih =>
    have taken : (reading fd).Steps s (frameStep fd framesProcessed s).server :=
      .single (M := reading fd) (.frame fd framesProcessed) ⟨rfl, connected⟩
    simp only [drainFrames]
    split_ifs
    · cases step : frameStep fd framesProcessed s with
      | returned t => simpa [step, FrameStep.server] using taken
      | exhausted t =>
        obtain rfl := frameStep_exhausted connected step
        exact ⟨.refl t, connected⟩
      | next framesProcessed t =>
        rw [step] at taken
        have rest := ih framesProcessed t (frameStep_next connected step)
        dsimp only
        split at rest
        · rename_i final result
          simpa only [result] using taken.trans rest
        · rename_i framesProcessed final result
          simpa only [result] using And.intro (taken.trans rest.1) rest.2
    · exact ⟨.refl s, connected⟩

theorem receive_true {s t : ChatServer} {fd : Fd} {chunk : Bytes}
    (h : s.receive fd chunk = (true, t)) : t.clients fd ≠ none := by
  simp only [receive] at h
  split at h
  · simp at h
  · split_ifs at h
    · simp at h
    · obtain ⟨-, rfl⟩ := Prod.mk.inj h
      simp [note]

theorem readLoop_steps (fd : Fd) (recvs : List RecvResult) (bytesRead framesProcessed : Nat)
    (s : ChatServer) (connected : s.clients fd ≠ none) :
    (reading fd).Steps s (readLoop fd recvs bytesRead framesProcessed s) := by
  induction recvs generalizing bytesRead framesProcessed s with
  | nil =>
    unfold readLoop
    split_ifs <;> exact .refl s
  | cons result rest ih =>
    have answered : (reading fd).Steps s (s.setRecvs fd rest) :=
      .single (M := reading fd) (.answered fd rest) ⟨rfl, trivial⟩
    have still : (s.setRecvs fd rest).clients fd ≠ none := by simpa [setRecvs] using connected
    unfold readLoop
    split_ifs
    · cases result with
      | eagain => exact answered
      | eintr => exact answered
      | error errno => exact answered.trans (.single (M := reading fd) (.recvFailed fd) ⟨rfl, still⟩)
      | received chunk fits =>
        dsimp only
        split_ifs with ended
        · exact answered.trans (.single (M := reading fd) (.peerClosed fd) ⟨rfl, still⟩)
        · have received : (reading fd).Steps s ((s.setRecvs fd rest).receive fd chunk).2 :=
            answered.trans (.single (M := reading fd) (.receive fd chunk) ⟨rfl, still⟩)
          split
          · rename_i t result
            simpa only [result] using received
          · rename_i t result
            rw [result] at received
            have drained := drainFrames_steps fd (maxProcessedFramesPerPoll + 1)
              framesProcessed t (receive_true result)
            split
            · rename_i u ended
              rw [ended] at drained
              exact received.trans drained
            · rename_i framesProcessed u ended
              rw [ended] at drained
              exact (received.trans drained.1).trans (ih _ _ u drained.2)
    · exact .refl s

theorem readLoop_received (s : ChatServer) (fd : Fd) {chunk : Bytes} (nonempty : chunk ≠ [])
    (fits : chunk.length ≤ maxDataSize) (rest : List RecvResult) {bytesRead framesProcessed : Nat}
    (bytes : bytesRead < maxBytesReadPerPoll) (frames : framesProcessed < maxProcessedFramesPerPoll) :
    readLoop fd (.received chunk fits :: rest) bytesRead framesProcessed s =
      match (s.setRecvs fd rest).receive fd chunk with
      | (false, t) => t
      | (true, t) =>
        match drainFrames fd (maxProcessedFramesPerPoll + 1) framesProcessed t with
        | .returned u => u
        | .drained counted u => readLoop fd rest (bytesRead + chunk.length) counted u := by
  rw [readLoop, if_pos ⟨bytes, frames⟩]
  exact if_neg nonempty

theorem handleRead_reading (s : ChatServer) (fd : Fd) :
    (reading fd).Steps s (s.handleRead fd) := by
  unfold handleRead
  split
  · exact .refl _
  · rename_i client found
    exact readLoop_steps _ _ 0 0 _ (by simp [found])

theorem handleRead_steps (s : ChatServer) (fd : Fd) : Steps s (s.handleRead fd) :=
  (handleRead_reading s fd).of_restrict

theorem handleEvent_steps (s : ChatServer) (env : Environment) (event : ReadyEvent) :
    Steps s (s.handleEvent env event) := by
  have loaded : Steps s (s.load env.results) := .single (M := machine) (.load env.results) trivial
  have read := handleRead_steps (s.load env.results) event.fd
  have write (t : ChatServer) (h : t.clients event.fd ≠ none) :
      Steps t (t.handleWrite event.fd) := .single (M := machine) (.write event.fd) h
  refine loaded.trans ?_
  unfold handleEvent
  dsimp only
  split_ifs with listening readable readable writable writable
  · exact acceptConnections_steps _ _
  · exact .refl _
  · exact read.trans (write _ (by simpa [Option.isSome_iff_ne_none] using writable.2))
  · exact read
  · exact write _ (by simpa [Option.isSome_iff_ne_none] using writable.2)
  · exact .refl _

theorem handle_steps (s : ChatServer) (input : Input) : Steps s (s.handle input) := by
  cases input with
  | iteration => exact .single (M := machine) .iteration trivial
  | event env event => exact handleEvent_steps s env event

theorem run_steps (s : ChatServer) (inputs : List Input) : Steps s (s.run inputs) :=
  Transition.Steps.foldl handle_steps inputs s

/-- `p` holds of every input of a run, in the state that meets it. -/
def Along (p : ChatServer → Input → Prop) : ChatServer → List Input → Prop
  | _, [] => True
  | s, input :: rest => p s input ∧ Along p (s.handle input) rest

theorem Along.and {p q : ChatServer → Input → Prop} {s : ChatServer} {inputs : List Input}
    (first : Along p s inputs) (second : Along q s inputs) :
    Along (fun s input => p s input ∧ q s input) s inputs := by
  induction inputs generalizing s with
  | nil => trivial
  | cons input rest ih => exact ⟨⟨first.1, second.1⟩, ih first.2 second.2⟩

theorem Along.run {p : ChatServer → Input → Prop} {P : ChatServer → Prop}
    (step : ∀ s input, P s → p s input → P (s.handle input)) {s : ChatServer}
    {inputs : List Input} (along : Along p s inputs) (h : P s) : P (s.run inputs) := by
  induction inputs generalizing s with
  | nil => exact h
  | cons input rest ih => exact ih along.2 (step s input h along.1)

/-- Where one input keeps a property exactly if `p` holds of it, a run keeps it exactly
if `p` holds along it. -/
theorem along_iff {p : ChatServer → Input → Prop} {P : ChatServer → Prop}
    (step : ∀ s input, P s → (P (s.handle input) ↔ p s input)) {s : ChatServer}
    {inputs : List Input} (h : P s) : (∀ n, P (s.run (inputs.take n))) ↔ Along p s inputs := by
  induction inputs generalizing s with
  | nil => exact iff_of_true (fun n => by simpa [run] using h) trivial
  | cons input rest ih =>
    constructor
    · intro all
      have next : P (s.handle input) := all 1
      exact ⟨(step s input h).mp next, (ih next).mp fun n => all (n + 1)⟩
    · rintro ⟨first, later⟩ n
      cases n with
      | zero => exact h
      | succ n => exact (ih ((step s input h).mpr first)).mpr later n

/-- Every state between two handled events of a run of the server is reachable. -/
theorem run_reachable (listener : Fd) (inputs : List Input) :
    Reachable ((initial listener).run inputs) :=
  (Transition.Reachable.of_init (M := machine) ⟨listener, rfl⟩).steps (run_steps _ inputs)

end ChatServer
end Partyline
