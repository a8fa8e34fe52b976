import Partyline.Guarantees

/-! Readiness that is out of date. The events of a batch are collected before any
of them is handled, so one may come for a descriptor that has been closed since,
or that belongs to a connection accepted in the meantime. -/
namespace Partyline

def ClientConnection.unbudgeted (client : ClientConnection) : ClientConnection :=
  { client with writeBudgetIteration := 0, writeBudgetRemaining := 0 }

theorem clientWriteBudget_unbudgeted (serverIteration : Nat) (client : ClientConnection) :
    (clientWriteBudget serverIteration client).unbudgeted = client.unbudgeted := by
  unfold clientWriteBudget
  split_ifs <;> rfl

theorem flushLoop_empty {client : ClientConnection} (empty : client.outputQueue = [])
    (serverIteration : Nat) (port : Port) :
    flushLoop serverIteration port.sends client port = (true, client, port) := by
  unfold flushLoop
  simp only [empty]

theorem flushOutputCommon_empty {client : ClientConnection} {port : Port}
    (h : OutputOk client port) (empty : client.outputQueue = []) (serverIteration : Nat) :
    flushOutputCommon serverIteration client port =
      (true, clientWriteBudget serverIteration client, port) := by
  have queue : (clientWriteBudget serverIteration client).outputQueue = [] := by simp [empty]
  have idle : client.writeInterestEnabled = false := by
    by_contra armed
    exact h.disarmed (by simpa using armed) empty
  have idle' : (clientWriteBudget serverIteration client).writeInterestEnabled = false := by
    unfold clientWriteBudget
    split_ifs <;> exact idle
  rw [flushOutputCommon, flushLoop_empty queue]
  simp [idle']

namespace ChatServer

/-- Nothing has changed but the bookkeeping of write budgets, and what the calls
still to be made will return. -/
structure Unmoved (s t : ChatServer) : Prop where
  listener : t.listener = s.listener
  serverIteration : t.serverIteration = s.serverIteration
  dangling : t.dangling = s.dangling
  rooms : t.rooms = s.rooms
  clients : ∀ fd, (t.clients fd).map ClientConnection.unbudgeted =
    (s.clients fd).map ClientConnection.unbudgeted
  writeInterest : ∀ fd, (t.ports fd).writeInterest = (s.ports fd).writeInterest
  history : ∀ fd, (t.ports fd).history = (s.ports fd).history

theorem Unmoved.refl (s : ChatServer) : Unmoved s s :=
  ⟨rfl, rfl, rfl, rfl, fun _ => rfl, fun _ => rfl, fun _ => rfl⟩

theorem Unmoved.trans {s t u : ChatServer} (first : Unmoved s t) (rest : Unmoved t u) :
    Unmoved s u where
  listener := rest.listener.trans first.listener
  serverIteration := rest.serverIteration.trans first.serverIteration
  dangling := rest.dangling.trans first.dangling
  rooms := rest.rooms.trans first.rooms
  clients fd := (rest.clients fd).trans (first.clients fd)
  writeInterest fd := (rest.writeInterest fd).trans (first.writeInterest fd)
  history fd := (rest.history fd).trans (first.history fd)

theorem load_unmoved (s : ChatServer) (results : Fd → Results) : Unmoved s (s.load results) :=
  ⟨rfl, rfl, rfl, rfl, fun _ => rfl, fun _ => rfl, fun _ => rfl⟩

theorem setPort_unmoved (s : ChatServer) (fd : Fd) {port : Port}
    (interest : port.writeInterest = (s.ports fd).writeInterest)
    (history : port.history = (s.ports fd).history) : Unmoved s (s.setPort fd port) := by
  refine ⟨rfl, rfl, rfl, rfl, fun _ => rfl, fun other => ?_, fun other => ?_⟩
  all_goals
    rw [setPort_ports]
    by_cases same : other = fd
    · subst same
      simp [interest, history]
    · simp [same]

theorem setClient_unmoved (s : ChatServer) {fd : Fd} {client client' : ClientConnection}
    (found : s.clients fd = some client) (same : client'.unbudgeted = client.unbudgeted) :
    Unmoved s (s.setClient fd client') := by
  refine ⟨rfl, rfl, rfl, rfl, fun other => ?_, fun _ => rfl, fun _ => rfl⟩
  rw [setClient_clients]
  by_cases here : other = fd
  · subst here
    simp [found, same]
  · simp [here]

/-- What a call of `recv` returns when the kernel has nothing for the socket. -/
def wouldBlock : List RecvResult → Prop
  | [] | .eagain :: _ => True
  | _ => False

def nobodyWaits : List AcceptResult → Prop
  | [] | .eagain :: _ => True
  | _ => False

/-- The event tells of nothing that is still so: nothing can be read, and either
it does not tell of writing or nothing waits to be written. -/
def StaleEvent (s : ChatServer) (env : Environment) (event : ReadyEvent) : Prop :=
  if event.fd = s.listener then nobodyWaits env.accepts
  else wouldBlock (env.results event.fd).recvs ∧ (event.flags &&& readyWrite = 0 ∨
    ∀ client, s.clients event.fd = some client → client.outputQueue = [])

theorem readLoop_unmoved {s : ChatServer} {fd : Fd} {recvs : List RecvResult}
    (nothing : wouldBlock recvs) : Unmoved s (readLoop fd recvs 0 0 s) := by
  unfold readLoop
  split_ifs
  · cases recvs with
    | nil => exact .refl s
    | cons result rest =>
      cases result with
      | eagain => exact setPort_unmoved s fd rfl rfl
      | eintr | error errno | received chunk fits => exact nothing.elim
  · exact .refl s

theorem handleRead_unmoved {s : ChatServer} {fd : Fd} (nothing : wouldBlock (s.ports fd).recvs) :
    Unmoved s (s.handleRead fd) := by
  unfold handleRead
  split
  · exact .refl s
  · exact readLoop_unmoved nothing

theorem handleWrite_unmoved {s : ChatServer} (h : Inv s) {fd : Fd} {client : ClientConnection}
    (found : s.clients fd = some client) (empty : client.outputQueue = []) :
    Unmoved s (s.handleWrite fd) := by
  have output := (h.entries fd).output client found
  have flushed := flushOutputCommon_empty output empty s.serverIteration
  simp only [handleWrite, flushOutput, found, entry_port] at flushed ⊢
  rw [flushed]
  exact (setClient_unmoved s found (clientWriteBudget_unbudgeted _ _)).trans
    (setPort_unmoved _ fd rfl rfl)

theorem acceptConnections_nobody {accepts : List AcceptResult} (nobody : nobodyWaits accepts)
    (s : ChatServer) : acceptConnections accepts s = s := by
  cases accepts with
  | nil => rfl
  | cons result rest =>
    cases result with
    | eagain => rfl
    | connection | eintr | error => exact nobody.elim

theorem Unmoved.queue {s t : ChatServer} (h : Unmoved s t) {fd : Fd} {client : ClientConnection}
    (found : t.clients fd = some client) :
    ∃ old, s.clients fd = some old ∧ client.outputQueue = old.outputQueue := by
  have same := h.clients fd
  rw [found] at same
  obtain ⟨old, found', unbudgeted⟩ := Option.map_eq_some_iff.mp same.symm
  have queues := congrArg ClientConnection.outputQueue unbudgeted
  exact ⟨old, found', queues.symm⟩

/-- Readiness that is out of date does no harm. -/
theorem stale_unmoved {s : ChatServer} (h : Reachable s) {env : Environment} {event : ReadyEvent}
    (stale : s.StaleEvent env event) : Unmoved s (s.handleEvent env event) := by
  have loaded : Reachable (s.load env.results) :=
    reachable_perform h (.load env.results) trivial
  have moved := load_unmoved s env.results
  have listener : (s.load env.results).listener = s.listener := rfl
  unfold StaleEvent at stale
  simp only [handleEvent, listener]
  by_cases listening : event.fd = s.listener
  · rw [if_pos listening] at stale ⊢
    rw [acceptConnections_nobody stale, ite_self]
    exact moved
  · rw [if_neg listening] at stale ⊢
    obtain ⟨nothing, unwritten⟩ := stale
    -- whether or not it reads, the first half leaves a state from which writing is safe
    have read : Unmoved s (if event.flags &&& (readyRead ||| readyError) ≠ 0 then
          (s.load env.results).handleRead event.fd else s.load env.results) ∧
        Reachable (if event.flags &&& (readyRead ||| readyError) ≠ 0 then
          (s.load env.results).handleRead event.fd else s.load env.results) := by
      split_ifs
      · exact ⟨moved.trans (handleRead_unmoved nothing), loaded.steps (handleRead_steps _ _)⟩
      · exact ⟨moved, loaded⟩
    generalize (if event.flags &&& (readyRead ||| readyError) ≠ 0 then
      (s.load env.results).handleRead event.fd else s.load env.results) = t at read ⊢
    split_ifs with writable
    · obtain ⟨client, found⟩ := Option.isSome_iff_exists.mp writable.2
      obtain ⟨old, found', queue⟩ := read.1.queue found
      have empty : client.outputQueue = [] :=
        queue.trans (unwritten.resolve_left writable.1 old found')
      exact read.1.trans (handleWrite_unmoved (reachable_inv read.2) found empty)
    · exact read.1

/-- An event for a descriptor that is neither the listener nor a client's changes nothing. -/
theorem unknown_unmoved {s : ChatServer} (env : Environment) {event : ReadyEvent}
    (other : event.fd ≠ s.listener) (missing : s.clients event.fd = none) :
    s.handleEvent env event = s.load env.results := by
  have missing' : (s.load env.results).clients event.fd = none := missing
  have unread : (s.load env.results).handleRead event.fd = s.load env.results := by
    simp [handleRead, missing']
  have other' : event.fd ≠ (s.load env.results).listener := other
  simp only [handleEvent, if_neg other', unread, ite_self, missing']
  simp

theorem stale_harmless {s : ChatServer} (h : Reachable s) (env : Environment)
    (event : ReadyEvent) :
    (s.StaleEvent env event → Unmoved s (s.handleEvent env event)) ∧
      (event.fd ≠ s.listener → s.clients event.fd = none →
        s.handleEvent env event = s.load env.results) :=
  ⟨stale_unmoved h, unknown_unmoved env⟩

def silent : Environment := ⟨[], fun _ => ⟨[], [], []⟩⟩

/-- A client with output waiting, reported readable with nothing there, and a
descriptor that nobody has. -/
theorem evening_stale : Unmoved ((initial 3).run evening)
      (((initial 3).run evening).handleEvent silent ⟨4, readyRead ||| readyError⟩) ∧
    ((initial 3).run evening).handleEvent silent ⟨9, readyRead ||| readyWrite⟩ =
      ((initial 3).run evening).load silent.results := by
  have listener : ((initial 3).run evening).listener = 3 := by decide +kernel
  have missing : ((initial 3).run evening).clients 9 = none := by decide +kernel
  have reachable := run_reachable 3 evening
  generalize (initial 3).run evening = s at listener missing reachable ⊢
  refine ⟨(stale_harmless reachable silent _).1 ?_, (stale_harmless reachable silent _).2 ?_ missing⟩
  · unfold StaleEvent
    rw [listener, if_neg (by decide)]
    exact ⟨trivial, .inl (by decide)⟩
  · rw [listener]
    decide

end ChatServer
end Partyline
