import Mathlib.Algebra.Order.Field.Basic
import Mathlib.Algebra.Order.Field.Rat
import Partyline.BenchFrames
import Partyline.Library.Counting
import Partyline.Library.Transition

/-! The books that a worker keeps of a direct phase, over any calls of `queue_client_frame`,
`flush_client_send` and `process_client_read` for its clients. -/
namespace Partyline.Bench

open Library

inductive ClientCall where
  | queue (index : Nat) (frame : Bytes) (request : Request) (sentNs : Int) (sends : List SendAnswer)
  | flush (index : Nat) (sends : List SendAnswer)
  | read (index : Nat) (nowNs : Int) (readyNs : Option Int) (recvs : List RecvAnswer)
  | arrive (index : Nat) (octets : List Octet)

def ClientCall.index : ClientCall → Nat
  | .queue index _ _ _ _ | .flush index _ | .read index _ _ _ | .arrive index _ => index

structure Pool where
  clients : Nat → BenchClient
  state : BenchState
  ticks : Nat

section Calls

variable (clock : Nat → Int) (phase : Phase)

/-- `process_client_read`, where `ready_ns` may be left out. -/
def readClient (index : Nat) (nowNs : Int) (readyNs : Option Int) (recvs : List RecvAnswer)
    (s : Served) : Served :=
  match readyNs with
  | some readyNs => processClientRead clock phase index nowNs readyNs recvs s
  | none => readLoop clock phase index recvs 0 0 s

def ClientCall.serve (s : Served) : ClientCall → Served
  | .queue _ frame request sentNs sends =>
    let (_, client, state) :=
      queueClientFrame frame request sentNs phase.workload sends s.client s.state
    { s with client, state }
  | .flush _ sends =>
    let (client, state) := flushClientSend sends s.client s.state
    { s with client, state }
  | .read index nowNs readyNs recvs => readClient clock phase index nowNs readyNs recvs s
  | .arrive _ octets => { s with client := s.client.arrive octets }

end Calls

namespace Pool

def served (p : Pool) (index : Nat) : Served := ⟨p.clients index, p.state, p.ticks⟩

def store (p : Pool) (index : Nat) (s : Served) : Pool :=
  ⟨Function.update p.clients index s.client, s.state, s.ticks⟩

def perform (clock : Nat → Int) (phase : Phase) (call : ClientCall) (p : Pool) : Pool :=
  p.store call.index (call.serve clock phase (p.served call.index))

/-- A phase begins: nothing is pending, and nothing has been counted. -/
structure Fresh (p : Pool) : Prop where
  state : p.state = emptyState
  pending : ∀ index, (p.clients index).pending = []

end Pool

def clientCalls (clock : Nat → Int) (phase : Phase) (indices : Finset Nat) :
    Transition Pool ClientCall where
  init := Pool.Fresh
  enabled call _ := call.index ∈ indices
  perform := Pool.perform clock phase

instance (clock : Nat → Int) (phase : Phase) (indices : Finset Nat) (call : ClientCall) (p : Pool) :
    Decidable ((clientCalls clock phase indices).enabled call p) :=
  inferInstanceAs (Decidable (_ ∈ indices))

/-- `expected_deliveries` of `run_trial`. -/
def expectedDeliveries (workload : Workload) (totalConnections : Nat) (state : BenchState) : Int :=
  state.sentOperations * if workload = .broadcast then (totalConnections : Int) - 1 else 1

def deliveryRatio (workload : Workload) (totalConnections : Nat) (state : BenchState) : ℚ :=
  let expected := expectedDeliveries workload totalConnections state
  if expected ≠ 0 then state.deliveries / expected else 1

/-! What a read takes. -/

section Reads

variable (clock : Nat → Int) (phase : Phase) (index : Nat)

/-- What the `recv` calls of a read return, one after another; the end of the stream and
an `OSError` are an empty chunk. -/
def chunks : List RecvAnswer → Nat → Nat → List Octet → List (List Octet)
  | [], _, _, _ => []
  | answer :: rest, calls, bytesRead, incoming =>
    if calls < phase.maxRecvCalls ∧ bytesRead < phase.maxRecvBytes then
      match answer with
      | .eagain => []
      | .error => [[]]
      | .received count =>
        let data := incoming.take (min count (min 16384 (phase.maxRecvBytes - bytesRead)))
        if data = [] then [[]]
        else data :: chunks rest (calls + 1) (bytesRead + data.length) (incoming.drop data.length)
    else []

def takeChunk (s : Served) (data : List Octet) : Served :=
  if data = [] then { s with
    client := (closeClient index s.client s.state).1
    state := (closeClient index s.client s.state).2 }
  else takeData clock phase index data s

theorem takeChunks_incoming (taken : List (List Octet)) (s : Served) :
    (taken.foldl (takeChunk clock phase index) s).client.incoming =
      s.client.incoming.drop taken.flatten.length := by
  induction taken generalizing s with
  | nil => rfl
  | cons data taken ih =>
    have one : (takeChunk clock phase index s data).client.incoming =
        s.client.incoming.drop data.length := by
      unfold takeChunk
      split_ifs with closed
      · rw [closed]
        unfold closeClient
        split_ifs <;> rfl
      · exact (takeData_buffers clock phase index data s).2
    rw [List.foldl_cons, ih, one, List.drop_drop, List.flatten_cons, List.length_append]

theorem readLoop_eq (answers : List RecvAnswer) (calls bytesRead : Nat) (s : Served) :
    readLoop clock phase index answers calls bytesRead s =
      (chunks phase answers calls bytesRead s.client.incoming).foldl
        (takeChunk clock phase index) s := by
  induction answers generalizing calls bytesRead s with
  | nil => rfl
  | cons answer rest ih =>
    unfold readLoop chunks
    split_ifs with more
    · cases answer with
      | eagain => rfl
      | error => rfl
      | received count =>
        dsimp only
        split_ifs with closed
        · rfl
        · rw [ih, List.foldl_cons, takeChunk, if_neg closed, (takeData_buffers _ _ _ _ _).2]
    · rfl

theorem chunks_bounded (answers : List RecvAnswer) (calls bytesRead : Nat)
    (incoming : List Octet) (within : bytesRead ≤ phase.maxRecvBytes) :
    (chunks phase answers calls bytesRead incoming).length ≤ phase.maxRecvCalls - calls ∧
      bytesRead + (chunks phase answers calls bytesRead incoming).flatten.length ≤
        phase.maxRecvBytes := by
  induction answers generalizing calls bytesRead incoming with
  | nil => exact ⟨Nat.zero_le _, within⟩
  | cons answer rest ih =>
    unfold chunks
    split_ifs with more
    · obtain ⟨fewer, less⟩ := more
      have one : 1 ≤ phase.maxRecvCalls - calls := Nat.le_sub_of_add_le' fewer
      cases answer with
      | eagain => exact ⟨Nat.zero_le _, within⟩
      | error => exact ⟨one, within⟩
      | received count =>
        dsimp only
        split_ifs with closed
        · exact ⟨one, within⟩
        · have taken : (incoming.take
              (min count (min 16384 (phase.maxRecvBytes - bytesRead)))).length ≤
              phase.maxRecvBytes - bytesRead := by
            rw [List.length_take]
            omega
          obtain ⟨calls_bound, bytes_bound⟩ := ih (calls + 1) (bytesRead + (incoming.take
            (min count (min 16384 (phase.maxRecvBytes - bytesRead)))).length)
            (incoming.drop (incoming.take
              (min count (min 16384 (phase.maxRecvBytes - bytesRead)))).length) (by omega)
          rw [List.length_cons, List.flatten_cons, List.length_append]
          omega
    · exact ⟨Nat.zero_le _, within⟩

end Reads

/-! The books. -/

namespace BenchState

structure Kept (state : BenchState) : Prop where
  deliveries : state.deliveries = state.eventualCompletions
  samples : state.latenciesMs.length = state.eventualCompletions
  deadline : state.completedByDeadline = state.deliveriesByDeadline
  within : state.deliveriesByDeadline ≤ state.eventualCompletions

end BenchState

/-- What a call may do to the books: an operation more is one more sent, a completion one
less pending. -/
structure Books (s s' : Served) : Prop where
  balance : s'.state.sentOperations + (s.state.eventualCompletions + s.client.pending.length) =
    s.state.sentOperations + (s'.state.eventualCompletions + s'.client.pending.length)
  kept : s.state.Kept → s'.state.Kept

namespace Books

theorem refl (s : Served) : Books s s := ⟨rfl, id⟩

theorem trans {s t u : Served} (first : Books s t) (rest : Books t u) : Books s u := by
  refine ⟨?_, fun kept => rest.kept (first.kept kept)⟩
  have before := first.balance
  have after := rest.balance
  omega

theorem of_same {s s' : Served} (pending : s'.client.pending = s.client.pending)
    (counts : (s'.state.sentOperations, s'.state.eventualCompletions, s'.state.deliveries,
        s'.state.latenciesMs, s'.state.completedByDeadline, s'.state.deliveriesByDeadline) =
      (s.state.sentOperations, s.state.eventualCompletions, s.state.deliveries,
        s.state.latenciesMs, s.state.completedByDeadline, s.state.deliveriesByDeadline)) :
    Books s s' := by
  simp only [Prod.mk.injEq] at counts
  obtain ⟨sent, completions, deliveries, samples, completed, delivered⟩ := counts
  refine ⟨by rw [pending, sent, completions], fun kept => ⟨?_, ?_, ?_, ?_⟩⟩
  · rw [deliveries, completions, kept.deliveries]
  · rw [samples, completions, kept.samples]
  · rw [completed, delivered, kept.deadline]
  · rw [delivered, completions]
    exact kept.within

theorem flush (answers : List SendAnswer) (client : BenchClient) (state : BenchState)
    (ticks : Nat) : Books ⟨client, state, ticks⟩
      ⟨(flushClientSend answers client state).1, (flushClientSend answers client state).2,
        ticks⟩ := by
  obtain ⟨sendBuffer, uplink, errors, parts, eagain, same⟩ :=
    flushClientSend_frame answers client state
  rw [same]
  exact of_same rfl rfl

theorem queue (frame : Bytes) (request : Request) (sentNs : Int) (sends : List SendAnswer)
    (s : Served) : Books s
      ⟨(queueClientFrame frame request sentNs .direct sends s.client s.state).2.1,
        (queueClientFrame frame request sentNs .direct sends s.client s.state).2.2, s.ticks⟩ := by
  unfold queueClientFrame
  split_ifs
  · exact refl s
  · have counted : Books s ⟨s.client.enqueue frame request sentNs .direct,
        { s.state with sentOperations := s.state.sentOperations + 1 }, s.ticks⟩ := by
      refine ⟨?_, fun kept => ⟨kept.deliveries, kept.samples, kept.deadline, kept.within⟩⟩
      simp only [BenchClient.enqueue, if_true, List.length_append, List.length_singleton]
      omega
    exact counted.trans (flush sends _ _ _)

variable (clock : Nat → Int) {phase : Phase} (index : Nat)

theorem line (direct : phase.workload = .direct) (s : Served) (line : List Octet) :
    Books s (handleLine clock phase index s line) := by
  unfold handleLine
  dsimp only
  rw [if_pos direct]
  have small : (if clock s.ticks ≤ phase.deadlineNs then 1 else 0) ≤ 1 := by
    split_ifs <;> decide
  generalize (if clock s.ticks ≤ phase.deadlineNs then 1 else 0) = byDeadline at small ⊢
  split_ifs
  · cases pending : s.client.pending with
    | nil => exact of_same rfl rfl
    | cons first rest =>
      refine ⟨?_, fun kept => ⟨?_, ?_, ?_, ?_⟩⟩
      · rw [pending, List.length_cons]
        dsimp only
        omega
      · exact congrArg (· + 1) kept.deliveries
      · rw [List.length_append, kept.samples]
        rfl
      · exact congrArg (· + byDeadline) kept.deadline
      · exact Nat.add_le_add kept.within small
  · exact of_same rfl rfl

theorem data (direct : phase.workload = .direct) (s : Served) (octets : List Octet) :
    Books s (takeData clock phase index octets s) := by
  have each (lines : List (List Octet)) (s : Served) :
      Books s (lines.foldl (handleLine clock phase index) s) := by
    induction lines generalizing s with
    | nil => exact refl s
    | cons first lines ih => exact (line clock index direct s first).trans (ih _)
  have start : Books s { s with client := { s.client with
      buffer := (completeLines (s.client.buffer ++ octets)).2
      incoming := s.client.incoming.drop octets.length } } := of_same rfl rfl
  exact start.trans (each _ _)

theorem loop (direct : phase.workload = .direct) (answers : List RecvAnswer)
    (calls bytesRead : Nat) (s : Served) :
    Books s (readLoop clock phase index answers calls bytesRead s) := by
  refine readLoop_preserves clock phase index (P := fun t => Books s t)
    (fun t octets _ books => books.trans (data clock index direct t octets))
    (fun t books => books.trans ?_) answers calls bytesRead (refl s)
  unfold closeClient
  split_ifs
  · exact refl t
  · exact of_same rfl rfl

theorem call (direct : phase.workload = .direct) (call : ClientCall) (s : Served) :
    Books s (call.serve clock phase s) := by
  cases call with
  | queue index frame request sentNs sends =>
    rw [ClientCall.serve, direct]
    exact queue frame request sentNs sends s
  | flush index sends => exact flush sends s.client s.state s.ticks
  | read index nowNs readyNs recvs =>
    cases readyNs with
    | none => exact loop clock index direct recvs 0 0 s
    | some readyNs =>
      refine trans ?_ (loop clock index direct recvs 0 0 _)
      exact of_same rfl rfl
  | arrive index octets => exact of_same rfl rfl

end Books

structure Pool.Balanced (indices : Finset Nat) (p : Pool) : Prop where
  sent : p.state.sentOperations =
    p.state.eventualCompletions + ∑ index ∈ indices, (p.clients index).pending.length
  kept : p.state.Kept

theorem Pool.Balanced.perform {clock : Nat → Int} {phase : Phase} {indices : Finset Nat} {p : Pool}
    (direct : phase.workload = .direct) (balanced : p.Balanced indices) {call : ClientCall}
    (mem : call.index ∈ indices) : (p.perform clock phase call).Balanced indices := by
  have books := Books.call clock direct call (p.served call.index)
  refine ⟨?_, books.kept balanced.kept⟩
  have pending := sum_update mem p.clients (call.serve clock phase (p.served call.index)).client
    fun _ client => client.pending.length
  have before := balanced.sent
  have balance := books.balance
  change (call.serve clock phase (p.served call.index)).state.sentOperations =
    (call.serve clock phase (p.served call.index)).state.eventualCompletions +
      ∑ index ∈ indices, (Function.update p.clients call.index
        (call.serve clock phase (p.served call.index)).client index).pending.length
  simp only [Pool.served] at balance pending ⊢
  omega

theorem balanced_run {clock : Nat → Int} {phase : Phase} {indices : Finset Nat} {p : Pool}
    (direct : phase.workload = .direct) (reached : (clientCalls clock phase indices).Reachable p) :
    p.Balanced indices := by
  refine reached.invariant (fun start fresh => ?_)
    (fun _ call balanced mem => balanced.perform direct mem)
  obtain ⟨state, pending⟩ := fresh
  constructor
  · rw [state]
    simp [pending, emptyState]
  · rw [state]
    exact ⟨rfl, rfl, rfl, Nat.le_refl 0⟩

theorem deliveryRatio_le_one {state : BenchState} (totalConnections : Nat)
    (within : state.deliveries ≤ state.sentOperations) :
    deliveryRatio .direct totalConnections state ≤ 1 := by
  have expected : expectedDeliveries .direct totalConnections state = state.sentOperations := by
    simp [expectedDeliveries]
  rw [deliveryRatio, expected]
  split_ifs with nonempty
  · rw [Int.cast_natCast]
    apply div_le_one_of_le₀
    · exact_mod_cast within
    · exact Nat.cast_nonneg _
  · exact le_rfl

/-- A read is what it does with the chunks that its calls of `recv` return, and these are
within the limits of the phase. -/
structure ReadBounded (clock : Nat → Int) (phase : Phase) (index : Nat) (nowNs : Int)
    (readyNs : Option Int) (recvs : List RecvAnswer) (s : Served) : Prop where
  chunked : readClient clock phase index nowNs readyNs recvs s =
    (chunks phase recvs 0 0 s.client.incoming).foldl (takeChunk clock phase index)
      (readClient clock phase index nowNs readyNs [] s)
  taken : (readClient clock phase index nowNs readyNs recvs s).client.incoming =
    s.client.incoming.drop (chunks phase recvs 0 0 s.client.incoming).flatten.length
  calls : (chunks phase recvs 0 0 s.client.incoming).length ≤ phase.maxRecvCalls
  bytes : (chunks phase recvs 0 0 s.client.incoming).flatten.length ≤ phase.maxRecvBytes

theorem readBounded (clock : Nat → Int) (phase : Phase) (index : Nat) (nowNs : Int)
    (readyNs : Option Int) (recvs : List RecvAnswer) (s : Served) :
    ReadBounded clock phase index nowNs readyNs recvs s := by
  obtain ⟨calls, bytes⟩ := chunks_bounded phase recvs 0 0 s.client.incoming (Nat.zero_le _)
  have chunked : readClient clock phase index nowNs readyNs recvs s =
      (chunks phase recvs 0 0 s.client.incoming).foldl (takeChunk clock phase index)
        (readClient clock phase index nowNs readyNs [] s) := by
    cases readyNs with
    | none => exact readLoop_eq clock phase index recvs 0 0 s
    | some readyNs => exact readLoop_eq clock phase index recvs 0 0 _
  refine ⟨chunked, ?_, by simpa using calls, by simpa using bytes⟩
  rw [chunked, takeChunks_incoming]
  cases readyNs with
  | none => rfl
  | some readyNs => rfl

/-- What `run_trial` makes of the books of a direct phase. -/
structure DirectBooks (clock : Nat → Int) (phase : Phase) (indices : Finset Nat) (p : Pool) :
    Prop where
  sent : p.state.sentOperations =
    p.state.eventualCompletions + ∑ index ∈ indices, (p.clients index).pending.length
  deliveries : p.state.deliveries = p.state.eventualCompletions
  samples : p.state.latenciesMs.length = p.state.eventualCompletions
  deadline : p.state.completedByDeadline = p.state.deliveriesByDeadline
  within : p.state.deliveriesByDeadline ≤ p.state.eventualCompletions
  ratio : ∀ totalConnections, deliveryRatio phase.workload totalConnections p.state ≤ 1
  reads : ∀ index nowNs readyNs recvs,
    ReadBounded clock phase index nowNs readyNs recvs (p.served index)

/-- Whatever is sent, flushed and read, and whatever the sockets answer, the books of a
direct phase balance, and no more is delivered than was sent. -/
theorem directPhase_books {clock : Nat → Int} {phase : Phase} {indices : Finset Nat} {p : Pool}
    (direct : phase.workload = .direct) (reached : (clientCalls clock phase indices).Reachable p) :
    DirectBooks clock phase indices p := by
  have balanced := balanced_run direct reached
  have within : p.state.deliveries ≤ p.state.sentOperations := by
    rw [balanced.sent, balanced.kept.deliveries]
    exact Nat.le_add_right _ _
  exact {
    sent := balanced.sent
    deliveries := balanced.kept.deliveries
    samples := balanced.kept.samples
    deadline := balanced.kept.deadline
    within := balanced.kept.within
    ratio := fun totalConnections => by
      rw [direct]
      exact deliveryRatio_le_one totalConnections within
    reads := fun index nowNs readyNs recvs =>
      readBounded clock phase index nowNs readyNs recvs (p.served index) }

def directPhase : Phase := phaseConfig 0 ⟨1, 0, 1, 1, 2, 64⟩ .direct 2 1 1 []

/-- The first client sends two requests, and the answer to one comes in two parts. -/
def directCalls : List ClientCall := [
  .queue 0 (ascii "WHERE\n") ⟨0, 0⟩ 1 [.accepted 2],
  .flush 0 [.accepted 4],
  .queue 0 (ascii "WHERE\n") ⟨0, 1⟩ 2 [.error],
  .arrive 0 (mark none (whereResponse ++ [newline])),
  .read 0 4 none [.received 10],
  .read 0 5 (some 3) [.received 20, .eagain]]

def directStart : Pool := ⟨fun _ => Worker.newClient, emptyState, 0⟩

theorem directPhase_books_two : ∃ p : Pool, DirectBooks Nat.cast directPhase {0, 1} p ∧
    p.state.sentOperations = 2 ∧ p.state.eventualCompletions = 1 := by
  have runs : (clientCalls Nat.cast directPhase {0, 1}).Runs directStart directCalls := by
    decide
  refine ⟨_, directPhase_books rfl ⟨directStart, ⟨rfl, fun _ => rfl⟩, runs.steps⟩, ?_, ?_⟩
  · decide +kernel
  · decide +kernel

end Partyline.Bench
