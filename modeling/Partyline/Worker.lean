import Mathlib.Logic.Function.Basic
import Partyline.Benchmark
import Partyline.Library.Transition

/-! The loop of `worker_main` over the phases it is told to run, and `run_phase`. The
clock is a function of the number of times it has been read; where the drain
ends, and which events come when, is left open. -/
namespace Partyline.Bench

open Library

/-- Where `worker_main` and `run_phase` are: between two phases; before the start of
one; at the test of its loop; in the loop over the offers that are due; in
`service_events`; in the drain. -/
inductive WorkerPoint where
  | idle
  | waiting
  | sending
  | offering (nowNs : Int) (ready : List Due)
  | servicing
  | draining
deriving DecidableEq

/-- `number` counts the phases begun; `counted`, which the source does not keep
either, are the sequence numbers that make up `offeredOperations`. -/
structure Worker where
  indices : List Nat
  clients : Nat → BenchClient
  phase : Phase
  number : Nat
  state : BenchState
  counted : List Nat
  schedule : List Offer
  point : WorkerPoint
  ticks : Nat

inductive WorkerEvent where
  | command (phase : Phase)
  | proceed (sends : List SendAnswer)
  | serve (readyNs : Int) (event : ServiceEvent)
  | arrive (index : Nat) (octets : List Octet)

def WorkerEvent.ongoing : WorkerEvent → Bool
  | .command _ => false
  | _ => true

def BenchClient.reset (client : BenchClient) : BenchClient :=
  { client with buffer := [], pending := [] }

def BenchClient.arrive (octets : List Octet) (client : BenchClient) : BenchClient :=
  { client with incoming := client.incoming ++ octets }

namespace Worker

def served (w : Worker) (index : Nat) : Served := ⟨w.clients index, w.state, w.ticks⟩

def store (w : Worker) (index : Nat) (s : Served) : Worker :=
  { w with clients := Function.update w.clients index s.client, state := s.state, ticks := s.ticks }

/-- `decimal(n)` as `encode` writes it. -/
def decimal (n : Int) : Bytes := ascii (toString n)

def frame (phase : Phase) (index sequence : Nat) (sentNs : Int) : Bytes :=
  if phase.workload = .direct then ascii "WHERE" ++ [newline]
  else ascii "BENCH|" ++ phase.token ++ [pipe] ++ decimal index ++ [pipe] ++ decimal sequence ++
    [pipe] ++ decimal sentNs ++ [pipe] ++ List.replicate phase.payloadSize 120 ++ [newline]

def countOffer (nowNs : Int) (offer : Offer) (w : Worker) : Worker :=
  let lagMs := max 0 (milliseconds (nowNs - offer.scheduledNs))
  let nextSequence := offer.sequence + w.phase.activeCount
  { w with
    state := { w.state with
      offeredOperations := w.state.offeredOperations + 1
      schedulingLagMs := w.state.schedulingLagMs ++ [lagMs] }
    counted := w.counted ++ [offer.sequence]
    schedule := if nextSequence < w.phase.targetOffers then
        heappush w.schedule
          ⟨offer.scheduledNs + w.phase.periodPerClientNs, nextSequence, offer.client⟩
      else w.schedule }

def missOffer (w : Worker) : Worker :=
  { w with state := { w.state with missedOffers := w.state.missedOffers + 1 } }

def sendOffer (clock : Nat → Int) (sends : List SendAnswer) (due : Due) (w : Worker) : Worker :=
  let offer := due.offer
  if due.missed = true ∨ (w.clients offer.client).closed = true then w.missOffer
  else
    let sentNs := clock w.ticks
    match queueClientFrame (frame w.phase offer.client offer.sequence sentNs)
        ⟨w.number, offer.sequence⟩ sentNs w.phase.workload sends
        (w.clients offer.client) w.state with
    | (true, client, state) => w.store offer.client ⟨client, state, w.ticks + 1⟩
    | (false, client, state) => (w.store offer.client ⟨client, state, w.ticks + 1⟩).missOffer

/-- The body of the loop over the offers that are due. -/
def offerDue (clock : Nat → Int) (sends : List SendAnswer) (nowNs : Int) (due : Due)
    (w : Worker) : Worker :=
  (w.countOffer nowNs due.offer).sendOffer clock sends due

/-- From the sequence number of an entry on, how many of its client's are below the
target. -/
def remaining (phase : Phase) (sequence : Nat) : Nat :=
  1 + (phase.targetOffers - 1 - sequence) / phase.activeCount

/-- The sequence numbers that `remaining` is the number of. -/
def rest (phase : Phase) (sequence : Nat) : List Nat :=
  (List.range (remaining phase sequence)).map fun k => sequence + k * phase.activeCount

/-- The body of the loop over the entries that have not been popped. -/
def countRest (w : Worker) (offer : Offer) : Worker :=
  if w.phase.deadlineNs ≤ offer.scheduledNs then w
  else
    let remaining := remaining w.phase offer.sequence
    { w with
      state := { w.state with
        offeredOperations := w.state.offeredOperations + remaining
        missedOffers := w.state.missedOffers + remaining }
      counted := w.counted ++ rest w.phase offer.sequence }

def countUnpopped (w : Worker) : Worker := w.schedule.foldl countRest w

/-- The step that comes next, where it is not an event of a client. -/
def proceed (clock : Nat → Int) (sends : List SendAnswer) (w : Worker) : Worker :=
  match w.point with
  | .idle => w
  | .waiting =>
    if clock w.ticks < w.phase.startNs then { w with ticks := w.ticks + 1 }
    else
      let actualStartNs := clock (w.ticks + 1)
      { w with
        point := .sending
        ticks := w.ticks + 2
        state := { w.state with startSkewMs := milliseconds (actualStartNs - w.phase.startNs) }
        schedule := scheduleForClients w.indices w.phase }
  | .sending =>
    if clock w.ticks < w.phase.deadlineNs then
      let nowNs := clock (w.ticks + 1)
      let (ready, schedule) := dueOffers nowNs w.phase.maxLagNs w.phase.maxOverdueSends w.schedule
      { w with point := .offering nowNs ready, ticks := w.ticks + 2, schedule }
    else { w.countUnpopped with point := .draining, ticks := w.ticks + 1 }
  | .offering nowNs (due :: ready) =>
    { w.offerDue clock sends nowNs due with point := .offering nowNs ready }
  | .offering _ [] => { w with point := .servicing, ticks := w.ticks + 1 }
  | .servicing => { w with point := .sending }
  | .draining =>
    { w with
      point := .idle
      clients := fun index => (w.clients index).reset }

def perform (clock : Nat → Int) (event : WorkerEvent) (w : Worker) : Worker :=
  match event with
  | .command phase =>
    { w with
      phase
      number := w.number + 1
      state := emptyState
      counted := []
      schedule := []
      point := .waiting }
  | .proceed sends => w.proceed clock sends
  | .serve readyNs event =>
    w.store event.index (serviceEvent clock w.phase readyNs event (w.served event.index))
  | .arrive index octets =>
    { w with clients := Function.update w.clients index ((w.clients index).arrive octets) }

def enabled (event : WorkerEvent) (w : Worker) : Prop :=
  match event with
  | .command _ => w.point = .idle
  | .proceed _ => w.point ≠ .idle
  | .serve _ event => event.index ∈ w.indices ∧
      (w.point = .waiting ∨ w.point = .servicing ∨ w.point = .draining)
  | .arrive _ _ => True

instance (event : WorkerEvent) (w : Worker) : Decidable (w.enabled event) := by
  cases event <;> unfold enabled <;> infer_instance

/-- A client whose `receive_until` has seen the prompt. -/
def newClient : BenchClient := ⟨[], [], [], false, [], []⟩

end Worker

end Partyline.Bench
