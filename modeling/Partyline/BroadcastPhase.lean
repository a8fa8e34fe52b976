import Partyline.ClientCalls
import Partyline.OfferedLoad

/-! A broadcast phase of one worker: how many frames it has sent, who has sent them, and
that it counts what the lines add that have come for its clients. -/
namespace Partyline.Bench

open Library

/-- A frame of a broadcast phase that has been queued. -/
structure BroadcastFrame where
  sender : Nat
  sequence : Nat
  sentNs : Int
deriving DecidableEq

def BroadcastFrame.heard (phase : Phase) (frame : BroadcastFrame) : Bytes :=
  heardText phase frame.sender frame.sequence frame.sentNs

def arrivals (index : Nat) (events : List WorkerEvent) : List Octet :=
  events.flatMap fun event => match event with
    | .arrive i octets => if i = index then octets else []
    | _ => []

namespace Worker

def queuedFrames (clock : Nat → Int) (sends : List SendAnswer) (due : Due) (w : Worker) :
    List BroadcastFrame :=
  let offer := due.offer
  if due.missed = true ∨ (w.clients offer.client).closed = true then []
  else
    let sentNs := clock w.ticks
    if (queueClientFrame (frame w.phase offer.client offer.sequence sentNs)
        ⟨w.number, offer.sequence⟩ sentNs w.phase.workload sends
        (w.clients offer.client) w.state).1 then [⟨offer.client, offer.sequence, sentNs⟩]
    else []

def stepFrames (clock : Nat → Int) (event : WorkerEvent) (w : Worker) : List BroadcastFrame :=
  match event, w.point with
  | .proceed sends, .offering nowNs (due :: _) =>
    (w.countOffer nowNs due.offer).queuedFrames clock sends due
  | _, _ => []

def sentFrames (clock : Nat → Int) : Worker → List WorkerEvent → List BroadcastFrame
  | _, [] => []
  | w, event :: events =>
    w.stepFrames clock event ++ sentFrames clock (w.perform clock event) events

end Worker

/-- What of a client decides what its reads count. -/
def BenchClient.received (client : BenchClient) : List Octet × List Octet × List Pending :=
  (client.buffer, client.incoming, client.pending)

theorem queueClientFrame_received (frame : Bytes) (request : Request) (sentNs : Int)
    {workload : Workload} (broadcast : workload ≠ .direct) (answers : List SendAnswer)
    (client : BenchClient) (state : BenchState) :
    let result := queueClientFrame frame request sentNs workload answers client state
    result.2.1.received = client.received ∧ result.2.2.deliveries = state.deliveries ∧
      result.2.2.eventualCompletions = state.eventualCompletions := by
  unfold queueClientFrame
  split_ifs
  · exact ⟨rfl, rfl, rfl⟩
  · obtain ⟨sendBuffer, uplink, errors, parts, eagain, flushed⟩ := flushClientSend_frame answers
      (client.enqueue frame request sentNs workload)
      { state with sentOperations := state.sentOperations + 1 }
    rw [flushed]
    refine ⟨?_, rfl, rfl⟩
    simp only [BenchClient.received, BenchClient.enqueue, if_neg broadcast]

namespace Worker

/-- What a step that reads nothing leaves alone, and the frames that it queues. -/
structure Apart (frames : List BroadcastFrame) (w w' : Worker) : Prop where
  phase : w'.phase = w.phase
  indices : w'.indices = w.indices
  clients : ∀ index, (w'.clients index).received = (w.clients index).received
  deliveries : w'.state.deliveries = w.state.deliveries
  completions : w'.state.eventualCompletions = w.state.eventualCompletions
  sent : w'.state.sentOperations = w.state.sentOperations + frames.length

section Sending

variable (clock : Nat → Int) (w : Worker)

theorem received_update {clients : Nat → BenchClient} {index : Nat} {client : BenchClient}
    (same : client.received = (clients index).received) : ∀ other,
      (Function.update clients index client other).received = (clients other).received := by
  apply (Function.forall_update_iff clients
    fun other client => client.received = (clients other).received).mpr
  exact ⟨same, fun other _ => rfl⟩

theorem sendOffer_apart (broadcast : w.phase.workload ≠ .direct) (sends : List SendAnswer)
    (due : Due) : Apart (w.queuedFrames clock sends due) w (w.sendOffer clock sends due) := by
  unfold sendOffer queuedFrames
  dsimp only
  by_cases missed : due.missed = true ∨ (w.clients due.offer.client).closed = true
  · rw [if_pos missed, if_pos missed]
    exact ⟨rfl, rfl, fun _ => rfl, rfl, rfl, rfl⟩
  · rw [if_neg missed, if_neg missed]
    have counts := queueClientFrame_tally
      (frame w.phase due.offer.client due.offer.sequence (clock w.ticks))
      ⟨w.number, due.offer.sequence⟩ (clock w.ticks) w.phase.workload sends
      (w.clients due.offer.client) w.state
    have kept := queueClientFrame_received
      (frame w.phase due.offer.client due.offer.sequence (clock w.ticks))
      ⟨w.number, due.offer.sequence⟩ (clock w.ticks) broadcast sends
      (w.clients due.offer.client) w.state
    generalize queueClientFrame _ _ _ _ _ _ _ = result at counts kept ⊢
    obtain ⟨queued, client, state⟩ := result
    obtain ⟨received, deliveries, completions⟩ := kept
    have clients := received_update received
    cases queued with
    | true => exact ⟨rfl, rfl, clients, deliveries, completions, counts.2.2⟩
    | false => exact ⟨rfl, rfl, clients, deliveries, completions, counts.2.2⟩

theorem countRest_apart (entries : List Offer) : Apart [] w (entries.foldl countRest w) := by
  induction entries generalizing w with
  | nil => exact ⟨rfl, rfl, fun _ => rfl, rfl, rfl, rfl⟩
  | cons offer others ih =>
    have one : Apart [] w (w.countRest offer) := by
      unfold countRest
      split_ifs <;> exact ⟨rfl, rfl, fun _ => rfl, rfl, rfl, rfl⟩
    have rest := ih (w.countRest offer)
    exact ⟨rest.phase.trans one.phase, rest.indices.trans one.indices,
      fun index => (rest.clients index).trans (one.clients index),
      rest.deliveries.trans one.deliveries, rest.completions.trans one.completions,
      rest.sent.trans one.sent⟩

theorem proceed_apart (broadcast : w.phase.workload ≠ .direct) (more : w.point ≠ .draining)
    (sends : List SendAnswer) :
    Apart (w.stepFrames clock (.proceed sends)) w (w.proceed clock sends) := by
  unfold Worker.proceed stepFrames
  cases point : w.point with
  | idle => exact ⟨rfl, rfl, fun _ => rfl, rfl, rfl, rfl⟩
  | waiting =>
    dsimp only
    split_ifs <;> exact ⟨rfl, rfl, fun _ => rfl, rfl, rfl, rfl⟩
  | sending =>
    dsimp only
    split_ifs
    · exact ⟨rfl, rfl, fun _ => rfl, rfl, rfl, rfl⟩
    · have rest := countRest_apart w w.schedule
      exact ⟨rest.phase, rest.indices, rest.clients, rest.deliveries, rest.completions, rest.sent⟩
  | offering nowNs ready =>
    cases ready with
    | nil => exact ⟨rfl, rfl, fun _ => rfl, rfl, rfl, rfl⟩
    | cons due ready =>
      have sent := sendOffer_apart clock (w.countOffer nowNs due.offer) broadcast sends due
      exact ⟨sent.phase, sent.indices, sent.clients, sent.deliveries, sent.completions, sent.sent⟩
  | servicing => exact ⟨rfl, rfl, fun _ => rfl, rfl, rfl, rfl⟩
  | draining => exact absurd point more

end Sending

end Worker

section Reading

variable {phase : Phase} (tally : Tally phase) (clock : Nat → Int)

theorem Tally.ahead_received (index : Nat) (later : List Octet) {client client' : BenchClient}
    (same : client'.received = client.received) :
    tally.ahead index later client' = tally.ahead index later client := by
  simp only [BenchClient.received, Prod.mk.injEq] at same
  obtain ⟨buffer, incoming, pending⟩ := same
  rw [Tally.ahead, Tally.ahead, buffer, incoming, pending]

theorem serviceWrite_received (event : ServiceEvent) (s : Served) :
    (serviceWrite event s).client.received = s.client.received ∧
      (serviceWrite event s).state.deliveries = s.state.deliveries ∧
      (serviceWrite event s).state.eventualCompletions = s.state.eventualCompletions := by
  unfold serviceWrite
  split_ifs
  · obtain ⟨sendBuffer, uplink, errors, parts, eagain, flushed⟩ :=
      flushClientSend_frame event.sends s.client s.state
    rw [flushed]
    exact ⟨rfl, rfl, rfl⟩
  · exact ⟨rfl, rfl, rfl⟩

theorem Tally.serviceEvent (later : List Octet) (readyNs : Int) (event : ServiceEvent)
    (s : Served) : tally.total event.index later (serviceEvent clock phase readyNs event s) =
      tally.total event.index later s := by
  have read : tally.total event.index later (serviceRead clock phase readyNs event s) =
      tally.total event.index later s := by
    unfold serviceRead
    dsimp only
    split_ifs
    · exact tally.processClientRead clock event.index later _ _ _ _
    · rfl
  unfold Bench.serviceEvent
  split_ifs
  · rfl
  · obtain ⟨received, deliveries, completions⟩ :=
      serviceWrite_received event (serviceRead clock phase readyNs event s)
    rw [← read, Tally.total, Tally.total, tally.ahead_received _ _ received,
      tally.same deliveries completions]

theorem serviceEvent_held (readyNs : Int) (event : ServiceEvent) {s : Served}
    (held : newline ∉ text s.client.buffer) :
    newline ∉ text (serviceEvent clock phase readyNs event s).client.buffer := by
  have read : newline ∉ text (serviceRead clock phase readyNs event s).client.buffer := by
    unfold serviceRead
    dsimp only
    split_ifs
    · exact processClientRead_held clock phase event.index _ _ _ held
    · exact held
  unfold Bench.serviceEvent
  split_ifs
  · exact held
  · have received := (serviceWrite_received event (serviceRead clock phase readyNs event s)).1
    simp only [BenchClient.received, Prod.mk.injEq] at received
    rw [received.1]
    exact read

end Reading

namespace Worker

section Running

variable {clock : Nat → Int} {start w : Worker} {phase : Phase} {events : List WorkerEvent}

theorem idle_run (runs : (running clock start phase).Runs w events) (idle : w.point = .idle) :
    ((running clock start phase).after w events).point = .idle := by
  induction events generalizing w with
  | nil => exact idle
  | cons event events ih =>
    obtain ⟨⟨enabled, ongoing⟩, rest⟩ := runs
    apply ih rest
    cases event with
    | command phase => cases ongoing
    | proceed sends => exact absurd idle enabled
    | serve readyNs event =>
      have busy := enabled.2
      rw [idle] at busy
      rcases busy with busy | busy | busy <;> cases busy
    | arrive index octets => exact idle

theorem run_preserves {P : List WorkerEvent → Worker → Prop}
    (step : ∀ w event events, P (event :: events) w → w.enabled event → event.ongoing = true →
      (∀ sends, event = .proceed sends → w.point ≠ .draining) → P events (w.perform clock event))
    (runs : (running clock start phase).Runs w events)
    (ended : ((running clock start phase).after w events).point = .draining) (h : P events w) :
    P [] ((running clock start phase).after w events) := by
  induction events generalizing w with
  | nil => exact h
  | cons event events ih =>
    obtain ⟨⟨enabled, ongoing⟩, rest⟩ := runs
    apply ih rest ended
    apply step w event events h enabled ongoing
    rintro sends rfl draining
    have idle : (w.proceed clock sends).point = .idle := by rw [proceed, draining]
    have still : ((running clock start phase).after (w.proceed clock sends) events).point = .idle :=
      idle_run rest idle
    have clash := ended.symm.trans still
    cases clash

structure Awaits (tally : Tally phase) (later : Nat → List Octet) (total : Nat) (w : Worker) :
    Prop where
  samePhase : w.phase = phase
  sum : tally.value w.state + ∑ index ∈ w.indices.toFinset,
    tally.ahead index (later index) (w.clients index) = total
  held : ∀ index ∈ w.indices, newline ∉ text (w.clients index).buffer

variable {tally : Tally phase} {later : Nat → List Octet} {total : Nat}

theorem Awaits.apart (h : w.Awaits tally later total) {frames : List BroadcastFrame} {w' : Worker}
    (same : Apart frames w w') : w'.Awaits tally later total := by
  refine ⟨same.phase.trans h.samePhase, ?_, fun index mem => ?_⟩
  · rw [tally.same same.deliveries same.completions, same.indices, ← h.sum]
    congr 1
    apply Finset.sum_congr rfl
    intro index _
    exact tally.ahead_received index _ (same.clients index)
  · have received := same.clients index
    simp only [BenchClient.received, Prod.mk.injEq] at received
    rw [received.1]
    exact h.held index (same.indices ▸ mem)

theorem Awaits.serve (h : w.Awaits tally later total) (readyNs : Int) {event : ServiceEvent}
    (mem : event.index ∈ w.indices) :
    (w.perform clock (.serve readyNs event)).Awaits tally later total := by
  have same := h.samePhase
  subst same
  have read := tally.serviceEvent clock (later event.index) readyNs event (w.served event.index)
  have rest := sum_update (List.mem_toFinset.mpr mem) w.clients
    (serviceEvent clock w.phase readyNs event (w.served event.index)).client
    fun index client => tally.ahead index (later index) client
  refine ⟨rfl, ?_, ?_⟩
  · have sum := h.sum
    simp only [Tally.total, served] at read rest
    change tally.value (serviceEvent clock w.phase readyNs event (w.served event.index)).state +
      ∑ index ∈ w.indices.toFinset, tally.ahead index (later index) (Function.update w.clients
        event.index (serviceEvent clock w.phase readyNs event (w.served event.index)).client
          index) = total
    simp only [served]
    omega
  · apply (Function.forall_update_iff w.clients
      fun index client => index ∈ w.indices → newline ∉ text client.buffer).mpr
    refine ⟨fun own => ?_, fun index _ => h.held index⟩
    exact serviceEvent_held clock readyNs event (h.held event.index own)

theorem Awaits.arrive {index : Nat} {octets : List Octet}
    (h : w.Awaits tally (fun i => arrivals i (.arrive index octets :: events)) total) :
    (w.perform clock (.arrive index octets)).Awaits tally (fun i => arrivals i events) total := by
  refine ⟨h.samePhase, ?_, ?_⟩
  · rw [← h.sum]
    change tally.value w.state + ∑ i ∈ w.indices.toFinset, tally.ahead i (arrivals i events)
      (Function.update w.clients index ((w.clients index).arrive octets) i) = _
    congr 1
    apply Finset.sum_congr rfl
    intro i _
    by_cases here : i = index
    · subst here
      simp [arrivals, Tally.ahead, BenchClient.arrive, List.append_assoc]
    · rw [Function.update_of_ne here]
      simp [arrivals, Ne.symm here]
  · apply (Function.forall_update_iff w.clients
      fun i client => i ∈ w.indices → newline ∉ text client.buffer).mpr
    exact ⟨h.held index, fun i _ => h.held i⟩

theorem Awaits.run (broadcast : phase.workload ≠ .direct)
    (runs : (running clock start phase).Runs w events)
    (ended : ((running clock start phase).after w events).point = .draining)
    (h : w.Awaits tally (fun index => arrivals index events) total) :
    ((running clock start phase).after w events).Awaits tally (fun _ => []) total := by
  refine run_preserves (P := fun events w => w.Awaits tally (fun i => arrivals i events) total)
    (fun w event events h enabled ongoing more => ?_) runs ended h
  cases event with
  | command phase => cases ongoing
  | proceed sends =>
    exact h.apart (proceed_apart clock w (h.samePhase ▸ broadcast) (more sends rfl) sends)
  | serve readyNs event => exact Awaits.serve h readyNs enabled.1
  | arrive index octets => exact Awaits.arrive h

theorem sent_run (broadcast : phase.workload ≠ .direct)
    (runs : (running clock start phase).Runs w events)
    (ended : ((running clock start phase).after w events).point = .draining)
    (samePhase : w.phase = phase) :
    ((running clock start phase).after w events).indices = w.indices ∧
      ((running clock start phase).after w events).state.sentOperations =
        w.state.sentOperations + (sentFrames clock w events).length := by
  have kept := run_preserves (P := fun later t => t.phase = phase ∧ t.indices = w.indices ∧
    t.state.sentOperations + (sentFrames clock t later).length =
      w.state.sentOperations + (sentFrames clock w events).length) ?_ runs ended
      ⟨samePhase, rfl, rfl⟩
  · exact ⟨kept.2.1, kept.2.2⟩
  · rintro t event later ⟨phase', indices, sent⟩ enabled ongoing more
    rw [sentFrames, List.length_append] at sent
    cases event with
    | command phase => cases ongoing
    | proceed sends =>
      have apart := proceed_apart clock t (phase' ▸ broadcast) (more sends rfl) sends
      refine ⟨apart.phase.trans phase', apart.indices.trans indices, ?_⟩
      have step := apart.sent
      change (t.proceed clock sends).state.sentOperations +
        (sentFrames clock (t.proceed clock sends) later).length = _
      change t.state.sentOperations + (_ +
        (sentFrames clock (t.proceed clock sends) later).length) = _ at sent
      omega
    | serve readyNs event =>
      have tally := serviceEvent_tally clock t.phase readyNs event (t.served event.index)
      have same : (serviceEvent clock t.phase readyNs event
          (t.served event.index)).state.sentOperations = t.state.sentOperations :=
        congrArg (fun tally => tally.2.1) tally
      refine ⟨phase', indices, ?_⟩
      simp only [stepFrames, List.length_nil, Nat.zero_add] at sent
      rw [← sent, ← same]
      rfl
    | arrive index octets =>
      refine ⟨phase', indices, ?_⟩
      simp only [stepFrames, List.length_nil, Nat.zero_add] at sent
      exact sent

/-- When all that has come has been read, a count is what its lines have added. -/
theorem value_run (tally : Tally phase) (broadcast : phase.workload ≠ .direct)
    (runs : (running clock start phase).Runs w events)
    (ended : ((running clock start phase).after w events).point = .draining)
    (samePhase : w.phase = phase)
    (fresh : ∀ index ∈ w.indices,
      (w.clients index).buffer = [] ∧ (w.clients index).incoming = [])
    (all : ∀ index ∈ w.indices,
      (((running clock start phase).after w events).clients index).incoming = []) :
    tally.value ((running clock start phase).after w events).state =
      tally.value w.state + ∑ index ∈ w.indices.toFinset,
        tally.adds index (w.clients index).pending (completeLines (arrivals index events)).1 := by
  have indices := (sent_run broadcast runs ended samePhase).1
  have begun : w.Awaits tally (fun index => arrivals index events) (tally.value w.state +
      ∑ index ∈ w.indices.toFinset,
        tally.adds index (w.clients index).pending (completeLines (arrivals index events)).1) := by
    refine ⟨samePhase, ?_, fun index own => ?_⟩
    · congr 1
      apply Finset.sum_congr rfl
      intro index mem
      obtain ⟨buffer, incoming⟩ := fresh index (List.mem_toFinset.mp mem)
      rw [Tally.ahead, buffer, incoming, List.append_nil, List.nil_append]
    · rw [(fresh index own).1]
      exact List.not_mem_nil
  have done := begun.run broadcast runs ended
  have nothing : ∑ index ∈ w.indices.toFinset, tally.ahead index []
      (((running clock start phase).after w events).clients index) = 0 := by
    apply Finset.sum_eq_zero
    intro index mem
    have own := List.mem_toFinset.mp mem
    rw [Tally.ahead, all index own, List.append_nil, List.append_nil,
      completeLines_clean (done.held index (indices ▸ own))]
    exact tally.nothing _ _
  rw [← done.sum, indices, nothing, Nat.add_zero]

/-- Only active clients have offers that are scheduled or due. -/
structure Rostered (w : Worker) : Prop where
  scheduled : ∀ offer ∈ w.schedule, offer.client ∈ w.phase.activeIndices
  ready : ∀ nowNs ready, w.point = .offering nowNs ready →
    ∀ due ∈ ready, due.offer.client ∈ w.phase.activeIndices

theorem active_of_scheduled {indices : List Nat} {offer : Offer}
    (mem : offer ∈ scheduleForClients indices phase) : offer.client ∈ phase.activeIndices := by
  obtain ⟨index, -, first⟩ := List.mem_filterMap.mp
    ((scheduleForClients_perm phase indices).mem_iff.mp mem)
  unfold firstOffer at first
  cases position : phase.activePosition index with
  | none => simp [position] at first
  | some position' =>
    rw [position] at first
    dsimp only at first
    split_ifs at first
    obtain rfl := Option.some.inj first
    obtain ⟨entry, last, -⟩ := Option.map_eq_some_iff.mp position
    obtain ⟨listed, same⟩ := List.mem_filter.mp (List.mem_of_getLast? last)
    have here := List.fst_mem_of_mem_zipIdx listed
    rwa [of_decide_eq_true same] at here

theorem countRest_schedule (entries : List Offer) :
    (entries.foldl countRest w).schedule = w.schedule := by
  induction entries generalizing w with
  | nil => rfl
  | cons offer others ih =>
    rw [List.foldl_cons, ih, countRest]
    split_ifs <;> rfl

theorem Rostered.offer (h : w.Rostered) {nowNs : Int} {due : Due} {ready : List Due}
    (point : w.point = .offering nowNs (due :: ready)) (sends : List SendAnswer) :
    Rostered { w.offerDue clock sends nowNs due with point := .offering nowNs ready } := by
  have mem := h.ready nowNs _ point
  obtain ⟨phase, -, schedule, -⟩ := sendOffer_counts clock sends due (w.countOffer nowNs due.offer)
  constructor
  · intro offer listed
    change offer ∈ (w.offerDue clock sends nowNs due).schedule at listed
    change offer.client ∈ (w.offerDue clock sends nowNs due).phase.activeIndices
    rw [offerDue, schedule] at listed
    rw [offerDue, phase]
    simp only [countOffer] at listed ⊢
    split_ifs at listed
    · rcases List.mem_cons.mp ((heappush_perm _ _).mem_iff.mp listed) with rfl | old
      · exact mem due List.mem_cons_self
      · exact h.scheduled offer old
    · exact h.scheduled offer listed
  · intro nowNs' ready' same due' listed
    change due'.offer.client ∈ (w.offerDue clock sends nowNs due).phase.activeIndices
    rw [offerDue, phase]
    injection same with _ same
    exact mem due' (List.mem_cons_of_mem due (same ▸ listed))

theorem Rostered.proceed (h : w.Rostered) (sends : List SendAnswer) :
    (w.proceed clock sends).Rostered := by
  unfold Worker.proceed
  cases point : w.point with
  | idle => exact h
  | waiting =>
    dsimp only
    split_ifs
    · exact ⟨h.scheduled, fun nowNs ready same => by cases same⟩
    · exact ⟨fun offer mem => active_of_scheduled mem, fun nowNs ready same => by cases same⟩
  | sending =>
    dsimp only
    split_ifs
    · have popped := dueOffers_append (clock (w.ticks + 1)) w.phase.maxLagNs
        w.phase.maxOverdueSends w.schedule
      generalize dueOffers _ _ _ _ = result at popped ⊢
      obtain ⟨ready, schedule⟩ := result
      have scheduled := h.scheduled
      rw [← popped] at scheduled
      refine ⟨fun offer mem => scheduled offer (List.mem_append_right _ mem), ?_⟩
      intro nowNs' ready' same due mem
      injection same with _ same
      subst same
      exact scheduled due.offer (List.mem_append_left _ (List.mem_map_of_mem mem))
    · have phase : w.countUnpopped.phase = w.phase := (countRest_apart w w.schedule).phase
      have schedule : w.countUnpopped.schedule = w.schedule := countRest_schedule w.schedule
      refine ⟨fun offer mem => ?_, fun nowNs ready same => by cases same⟩
      dsimp only at mem ⊢
      rw [schedule] at mem
      rw [phase]
      exact h.scheduled offer mem
  | offering nowNs ready =>
    cases ready with
    | nil => exact ⟨h.scheduled, fun nowNs ready same => by cases same⟩
    | cons due ready => exact h.offer point sends
  | servicing => exact ⟨h.scheduled, fun nowNs ready same => by cases same⟩
  | draining => exact ⟨h.scheduled, fun nowNs ready same => by cases same⟩

theorem Rostered.sender (h : w.Rostered) {event : WorkerEvent} {frame : BroadcastFrame}
    (mem : frame ∈ w.stepFrames clock event) : frame.sender ∈ w.phase.activeIndices := by
  unfold stepFrames at mem
  split at mem
  · rename_i sends nowNs due ready point
    unfold queuedFrames at mem
    dsimp only at mem
    split_ifs at mem
    · cases mem
    · obtain rfl := List.mem_singleton.mp mem
      exact h.ready nowNs _ point due List.mem_cons_self
    · cases mem
  · cases mem

theorem sender_run (broadcast : phase.workload ≠ .direct)
    (runs : (running clock start phase).Runs w events)
    (ended : ((running clock start phase).after w events).point = .draining)
    (samePhase : w.phase = phase) (begun : w.Rostered) {frame : BroadcastFrame}
    (mem : frame ∈ sentFrames clock w events) : frame.sender ∈ phase.activeIndices := by
  have kept := run_preserves (P := fun later t => t.Rostered ∧ t.phase = phase ∧
    (frame ∈ sentFrames clock t later ∨ frame.sender ∈ phase.activeIndices)) ?_ runs ended
      ⟨begun, samePhase, .inl mem⟩
  · exact kept.2.2.resolve_left List.not_mem_nil
  · rintro t event later ⟨roster, phase', from_here⟩ enabled ongoing more
    have sent : frame ∈ sentFrames clock (t.perform clock event) later ∨
        frame.sender ∈ phase.activeIndices := by
      rcases from_here with here | active
      · rcases List.mem_append.mp here with now | later
        · exact .inr (phase' ▸ roster.sender now)
        · exact .inl later
      · exact .inr active
    cases event with
    | command phase => cases ongoing
    | proceed sends =>
      have apart := proceed_apart clock t (phase' ▸ broadcast) (more sends rfl) sends
      exact ⟨roster.proceed sends, apart.phase.trans phase', sent⟩
    | serve readyNs event => exact ⟨⟨roster.scheduled, roster.ready⟩, phase', sent⟩
    | arrive index octets => exact ⟨⟨roster.scheduled, roster.ready⟩, phase', sent⟩

end Running

end Worker

section Lines

theorem completeLines_delimited {lines : List Bytes} (clean : ∀ line ∈ lines, newline ∉ line)
    {xs : List Octet} (wire : text xs = delimited newline lines) :
    (completeLines xs).1.map text = lines := by
  induction lines generalizing xs with
  | nil =>
    rw [delimited_nil] at wire
    obtain rfl := List.map_eq_nil_iff.mp wire
    rfl
  | cons line lines ih =>
    rw [delimited_cons] at wire
    obtain ⟨first, rest, rfl, own, others⟩ := List.map_eq_append_iff.mp wire
    obtain ⟨ending, rest, rfl, ends, others⟩ := List.map_eq_cons_iff.mp others
    have one : completeLines (first ++ [ending]) = ([first], []) := by
      apply completeLines_line _ ends
      rw [text, own]
      exact clean line List.mem_cons_self
    have split : first ++ ending :: rest = first ++ [ending] ++ rest := by simp
    rw [split, completeLines_whole (by rw [one]), one, List.map_append, List.map_singleton, text,
      own, ih (fun line mem => clean line (List.mem_cons_of_mem _ mem)) others,
      List.singleton_append]

/-- The line is of a frame whose completion the client is credited with. -/
def credits (phase : Phase) (index : Nat) (line : Bytes) : Bool :=
  (parseBench phase.token line).any fun parsed =>
    (index : Int) = (parsed.1 + 1) % phase.totalConnections

def completionTally {phase : Phase} (broadcast : phase.workload ≠ .direct) : Tally phase where
  value := BenchState.eventualCompletions
  adds index _ lines := lines.countP fun line => credits phase index (text line)
  nothing _ _ := rfl
  line clock index s line lines := by
    unfold handleLine
    dsimp only
    generalize (if clock s.ticks ≤ phase.deadlineNs then 1 else 0) = byDeadline
    rw [if_neg broadcast, List.countP_cons, credits]
    cases parseBench phase.token (text line) with
    | none => simp
    | some parsed =>
      by_cases own : (index : Int) = (parsed.1 + 1) % phase.totalConnections
      · simp only [Option.any_some, own, decide_true, if_true]
        omega
      · simp [own]
  same _ same := same

end Lines

end Partyline.Bench
