import Partyline.Answering

/-! Which request a response is counted for. A connection is a queue of answers and
of frames still to be answered, and `pending` names their requests as long as
the two are of one length whenever a frame is queued. -/
namespace Partyline.Bench

open Library

def answers (octets : List Octet) : List (Option Request) :=
  ((completeLines octets).1.filter fun line => whereResponse <:+: text line).map lineRequest

def frames (octets : List Octet) : List (Option Request) :=
  ((completeLines octets).1.filter fun line => text line = whereText).map lineRequest

/-- What a later recorded sample has been taken of. -/
structure BenchState.Attributed (number : Nat) (state : BenchState) : Prop where
  completions : state.eventualCompletions = state.pairs.length
  samples : state.latenciesMs.length = state.pairs.length
  own : ∀ pair ∈ state.pairs, pair.2 = some pair.1 ∧ pair.1.phase = number

namespace BenchClient

def outstanding (client : BenchClient) : List (Option Request) :=
  answers (client.buffer ++ client.incoming) ++ frames (client.uplink ++ client.sendBuffer)

def expected (client : BenchClient) : List (Option Request) :=
  client.pending.map fun entry => some entry.request

/-- The connection carries as many answers and frames as `pending` has entries, and
its last frame is not cut off. -/
structure InStep (client : BenchClient) : Prop where
  length : client.outstanding.length = client.pending.length
  whole : (completeLines (client.uplink ++ client.sendBuffer)).2 = []

instance (client : BenchClient) : Decidable client.InStep :=
  decidable_of_iff (client.outstanding.length = client.pending.length ∧
    (completeLines (client.uplink ++ client.sendBuffer)).2 = [])
    ⟨fun h => ⟨h.1, h.2⟩, fun h => ⟨h.length, h.whole⟩⟩

structure Lockstep (number : Nat) (client : BenchClient) : Prop where
  whole : (completeLines (client.buffer ++ client.incoming)).2 = []
  current : ∀ entry ∈ client.pending, entry.request.phase = number
  order : client.pending = [] ∨ client.outstanding <+: client.expected

end BenchClient

namespace Worker

def queues (w : Worker) : Option Nat :=
  match w.point with
  | .offering _ (due :: _) =>
    let client := w.clients due.offer.client
    if due.missed = true ∨ client.closed = true ∨
        client.sendBuffer.length + (whereText ++ [newline]).length > maxClientSendQueue then none
    else some due.offer.client
  | _ => none

/-- A frame is queued only where the connection is in step. -/
def queuesInStep (event : DirectEvent) (w : Worker) : Prop :=
  match event with
  | .worker (.proceed _) => ∀ index ∈ w.queues, (w.clients index).InStep
  | _ => True

instance : (event : DirectEvent) → (w : Worker) → Decidable (w.queuesInStep event)
  | .worker (.proceed _), w =>
    inferInstanceAs (Decidable (∀ index ∈ w.queues, (w.clients index).InStep))
  | .worker (.command _), _ | .worker (.serve _ _), _ | .worker (.arrive _ _), _
  | .answer _, _ | .notice _ _, _ => .isTrue trivial

def directInStep (clock : Nat → Int) : Transition Worker DirectEvent where
  init := Connected
  enabled event w := w.directEnabled event ∧ w.queuesInStep event
  perform := performDirect clock

instance (clock : Nat → Int) (event : DirectEvent) (w : Worker) :
    Decidable ((directInStep clock).enabled event w) := inferInstanceAs (Decidable (_ ∧ _))

structure Tracked (w : Worker) : Prop where
  direct : w.point ≠ .idle → w.phase.workload = .direct
  idle : w.point = .idle → ∀ index, (w.clients index).pending = []
  clients : ∀ index, (w.clients index).Lockstep w.number
  state : w.state.Attributed w.number

end Worker

section Connection

variable {number : Nat} {client : BenchClient}

theorem answers_append {xs ys : List Octet} (whole : (completeLines xs).2 = []) :
    answers (xs ++ ys) = answers xs ++ answers ys := by
  rw [answers, completeLines_whole whole, List.filter_append, List.map_append]
  rfl

theorem frames_append {xs ys : List Octet} (whole : (completeLines xs).2 = []) :
    frames (xs ++ ys) = frames xs ++ frames ys := by
  rw [frames, completeLines_whole whole, List.filter_append, List.map_append]
  rfl

theorem frames_prefix (xs ys : List Octet) : frames xs <+: frames (xs ++ ys) := by
  rw [frames, frames, completeLines_append, List.filter_append, List.map_append]
  exact List.prefix_append _ _

theorem frames_whereFrame (request : Request) :
    frames (mark (some request) (whereText ++ [newline])) = [some request] := by
  have clean : newline ∉ whereText := by decide
  rw [frames, completeLines_mark _ clean]
  simp [lineRequest_mark _ (show whereText ≠ [] by decide)]

theorem answers_reply (line : List Octet) : (completeLines (reply line)).2 = [] ∧
    answers (reply line) = if text line = whereText then [lineRequest line] else [] := by
  have sent : whereReply mainRoomName = ascii "> server: you are in room main-room" ++ [newline] := by
    decide +kernel
  have clean : newline ∉ ascii "> server: you are in room main-room" := by decide
  have nonempty : ascii "> server: you are in room main-room" ≠ [] := by decide
  have marked : whereResponse <:+: ascii "> server: you are in room main-room" := by
    decide +kernel
  rw [reply]
  split_ifs
  · rw [answers, sent, completeLines_mark _ clean]
    simp [marked, lineRequest_mark _ nonempty]
  · exact ⟨rfl, rfl⟩

theorem answers_notice {line : Bytes} (clean : newline ∉ line)
    (other : ¬ whereResponse <:+: line) : answers (mark none (line ++ [newline])) = [] := by
  rw [answers, completeLines_mark _ clean]
  simp [other]

namespace BenchClient

theorem outstanding_answer (whole : (completeLines (client.buffer ++ client.incoming)).2 = []) :
    client.answer.outstanding = client.outstanding ∧
      (completeLines (client.answer.buffer ++ client.answer.incoming)).2 = [] := by
  unfold answer
  cases taken : takeLine client.uplink with
  | none => exact ⟨rfl, whole⟩
  | some split =>
    obtain ⟨line, rest⟩ := split
    obtain ⟨ends, answered⟩ := answers_reply line
    constructor
    · have front : frames (client.uplink ++ client.sendBuffer) =
          (if text line = whereText then [lineRequest line] else []) ++
            frames (rest ++ client.sendBuffer) := by
        rw [frames, takeLine_append taken]
        by_cases asked : text line = whereText <;> simp [asked, frames]
      dsimp only [outstanding]
      rw [← List.append_assoc, answers_append whole, answered, front, List.append_assoc]
    · dsimp only
      rw [← List.append_assoc, completeLines_whole whole]
      exact ends

theorem pending_answer (client : BenchClient) : client.answer.pending = client.pending := by
  unfold answer
  cases takeLine client.uplink <;> rfl

theorem Lockstep.answer (h : client.Lockstep number) : client.answer.Lockstep number := by
  obtain ⟨same, whole⟩ := outstanding_answer h.whole
  refine ⟨whole, ?_, ?_⟩
  · rw [pending_answer]
    exact h.current
  · rw [expected, pending_answer, same]
    exact h.order

theorem Lockstep.notice (h : client.Lockstep number) {line : Bytes} (clean : newline ∉ line)
    (other : ¬ whereResponse <:+: line) :
    (client.arrive (mark none (line ++ [newline]))).Lockstep number := by
  have same : (client.arrive (mark none (line ++ [newline]))).outstanding = client.outstanding := by
    dsimp only [outstanding, arrive]
    rw [← List.append_assoc, answers_append h.whole, answers_notice clean other, List.append_nil]
  refine ⟨?_, h.current, ?_⟩
  · dsimp only [arrive]
    rw [← List.append_assoc, completeLines_whole h.whole, completeLines_mark _ clean]
  · rw [same]
    exact h.order

theorem Lockstep.reset (h : client.Lockstep number) (number' : Nat) :
    client.reset.Lockstep number' where
  whole := whole_of_append h.whole
  current := by simp [BenchClient.reset]
  order := .inl rfl

end BenchClient

/-- What sending leaves alone: everything but what is on its way to the server, of
which a failure drops the end. -/
theorem flushClientSend_sends (sends : List SendAnswer) (client : BenchClient)
    (state : BenchState) :
    let served := flushClientSend sends client state
    served.1.buffer = client.buffer ∧ served.1.incoming = client.incoming ∧
      served.1.pending = client.pending ∧
      frames (served.1.uplink ++ served.1.sendBuffer) <+:
        frames (client.uplink ++ client.sendBuffer) ∧
      served.2.pairs = state.pairs ∧
      served.2.eventualCompletions = state.eventualCompletions ∧
      served.2.latenciesMs = state.latenciesMs := by
  induction sends generalizing client state with
  | nil =>
    unfold flushClientSend
    split_ifs <;> exact ⟨rfl, rfl, rfl, List.prefix_rfl, rfl, rfl, rfl⟩
  | cons answer rest ih =>
    have dropped : frames (client.uplink ++ []) <+: frames (client.uplink ++ client.sendBuffer) := by
      rw [List.append_nil]
      exact frames_prefix _ _
    unfold flushClientSend
    split_ifs
    · exact ⟨rfl, rfl, rfl, List.prefix_rfl, rfl, rfl, rfl⟩
    · cases answer with
      | eagain => exact ⟨rfl, rfl, rfl, List.prefix_rfl, rfl, rfl, rfl⟩
      | error => exact ⟨rfl, rfl, rfl, dropped, rfl, rfl, rfl⟩
      | accepted count =>
        dsimp only
        split_ifs
        · exact ⟨rfl, rfl, rfl, dropped, rfl, rfl, rfl⟩
        · simpa using ih { client with
            sendBuffer := client.sendBuffer.drop (min count client.sendBuffer.length)
            uplink := client.uplink ++
              client.sendBuffer.take (min count client.sendBuffer.length) }
            { state with clientPartialSends := state.clientPartialSends + 1 }
        · simpa using ih { client with
            sendBuffer := client.sendBuffer.drop (min count client.sendBuffer.length)
            uplink := client.uplink ++
              client.sendBuffer.take (min count client.sendBuffer.length) } state

/-- A client between two of the lines that have been read from it. -/
structure Handling (number : Nat) (lines : List (List Octet)) (s : Served) : Prop where
  current : ∀ entry ∈ s.client.pending, entry.request.phase = number
  order : s.client.pending = [] ∨
    ((lines.filter fun line => whereResponse <:+: text line).map lineRequest) ++
      s.client.outstanding <+: s.client.expected
  state : s.state.Attributed number

structure Keeps (number : Nat) (s : Served) : Prop where
  client : s.client.Lockstep number
  state : s.state.Attributed number

section Reading

variable (clock : Nat → Int) {phase : Phase} (direct : phase.workload = .direct) (index : Nat)
include direct

theorem Handling.handleLine {line : List Octet} {lines : List (List Octet)} {s : Served}
    (h : Handling number (line :: lines) s) :
    Handling number lines (handleLine clock phase index s line) ∧
      (Bench.handleLine clock phase index s line).client.buffer = s.client.buffer ∧
      (Bench.handleLine clock phase index s line).client.incoming = s.client.incoming := by
  unfold Bench.handleLine
  simp only [if_pos direct]
  by_cases marked : whereResponse <:+: text line
  · rw [if_neg (not_not.mpr marked)]
    cases pending : s.client.pending with
    | nil => exact ⟨⟨by simp [pending], .inl pending, h.state⟩, rfl, rfl⟩
    | cons first rest =>
      have order := h.order.resolve_left (by simp [pending])
      rw [List.filter_cons, if_pos (by simpa using marked), List.map_cons, BenchClient.expected,
        pending, List.map_cons, List.cons_append, List.cons_prefix_cons] at order
      obtain ⟨own, order⟩ := order
      have current := h.current
      rw [pending] at current
      refine ⟨⟨fun entry mem => current entry (List.mem_cons_of_mem first mem), .inr order, ?_⟩,
        rfl, rfl⟩
      refine ⟨?_, ?_, ?_⟩
      · simp [h.state.completions]
      · simp [h.state.samples]
      · intro pair mem
        rcases List.mem_append.mp mem with old | new
        · exact h.state.own pair old
        · obtain rfl := List.mem_singleton.mp new
          exact ⟨own, current first List.mem_cons_self⟩
  · rw [if_pos marked]
    refine ⟨⟨h.current, ?_, h.state⟩, rfl, rfl⟩
    have order := h.order
    rwa [List.filter_cons, if_neg (by simpa using marked)] at order

theorem Handling.handleLines {lines : List (List Octet)} {s : Served}
    (h : Handling number lines s) :
    let served := lines.foldl (Bench.handleLine clock phase index) s
    Handling number [] served ∧ served.client.buffer = s.client.buffer ∧
      served.client.incoming = s.client.incoming := by
  induction lines generalizing s with
  | nil => exact ⟨h, rfl, rfl⟩
  | cons line lines ih =>
    obtain ⟨next, buffer, incoming⟩ := h.handleLine clock direct index
    obtain ⟨served, buffer', incoming'⟩ := ih next
    exact ⟨served, buffer'.trans buffer, incoming'.trans incoming⟩

theorem Keeps.takeData {s : Served} (h : Keeps number s) {data : List Octet}
    (arrived : data ++ s.client.incoming.drop data.length = s.client.incoming) :
    Keeps number (takeData clock phase index data s) := by
  have split := completeLines_append (s.client.buffer ++ data) (s.client.incoming.drop data.length)
  rw [List.append_assoc, arrived] at split
  have whole := h.client.whole
  rw [split] at whole
  have handling : Handling number (completeLines (s.client.buffer ++ data)).1
      { s with client := { s.client with
        buffer := (completeLines (s.client.buffer ++ data)).2
        incoming := s.client.incoming.drop data.length } } := by
    refine ⟨h.client.current, ?_, h.state⟩
    refine h.client.order.imp_right fun order => ?_
    rw [BenchClient.outstanding, answers, split, List.filter_append, List.map_append,
      List.append_assoc] at order
    exact order
  obtain ⟨served, buffer, incoming⟩ := handling.handleLines clock direct index
  have left : (Bench.takeData clock phase index data s).client.buffer ++
      (Bench.takeData clock phase index data s).client.incoming =
      (completeLines (s.client.buffer ++ data)).2 ++ s.client.incoming.drop data.length :=
    congrArg₂ (· ++ ·) buffer incoming
  refine ⟨⟨?_, served.current, served.order⟩, served.state⟩
  rw [left]
  exact whole

theorem Keeps.readLoop (answers : List RecvAnswer) (calls bytesRead : Nat) {s : Served}
    (h : Keeps number s) : Keeps number (readLoop clock phase index answers calls bytesRead s) := by
  refine readLoop_preserves clock phase index (fun s data taken h => ?_) (fun s h => ?_) answers
    calls bytesRead h
  · exact h.takeData clock direct index (List.prefix_iff_eq_append.mp taken)
  · unfold closeClient
    split_ifs
    · exact h
    · exact ⟨⟨h.client.whole, h.client.current, h.client.order⟩, ⟨h.state.1, h.state.2, h.state.3⟩⟩

omit direct in
theorem Keeps.flush (sends : List SendAnswer) {s : Served} (h : Keeps number s) :
    Keeps number { s with
      client := (flushClientSend sends s.client s.state).1
      state := (flushClientSend sends s.client s.state).2 } := by
  obtain ⟨buffer, incoming, pending, carried, pairs, completions, samples⟩ :=
    flushClientSend_sends sends s.client s.state
  refine ⟨⟨?_, ?_, ?_⟩, ?_, ?_, ?_⟩
  · rw [buffer, incoming]
    exact h.client.whole
  · rw [pending]
    exact h.client.current
  · dsimp only [BenchClient.outstanding, BenchClient.expected]
    rw [buffer, incoming, pending]
    refine h.client.order.imp_right fun order => ?_
    exact ((List.prefix_append_right_inj _).mpr carried).trans order
  · rw [completions, pairs]
    exact h.state.completions
  · rw [samples, pairs]
    exact h.state.samples
  · rw [pairs]
    exact h.state.own

theorem Keeps.serviceEvent (readyNs : Int) (event : ServiceEvent) {s : Served}
    (h : Keeps number s) : Keeps number (serviceEvent clock phase readyNs event s) := by
  have read : Keeps number (serviceRead clock phase readyNs event s) := by
    unfold serviceRead
    dsimp only
    split_ifs
    · exact Keeps.readLoop clock direct event.index event.recvs 0 0
        ⟨h.client, ⟨h.state.1, h.state.2, h.state.3⟩⟩
    · exact ⟨h.client, h.state⟩
  have write {s : Served} (h : Keeps number s) : Keeps number (serviceWrite event s) := by
    unfold serviceWrite
    split_ifs
    · exact h.flush event.sends
    · exact h
  unfold Bench.serviceEvent
  split_ifs
  · exact h
  · exact write read

end Reading

theorem BenchClient.Lockstep.outstanding_eq (h : client.Lockstep number) (step : client.InStep) :
    client.outstanding = client.expected := by
  have length : client.outstanding.length = client.expected.length := by
    rw [step.length, BenchClient.expected, List.length_map]
  rcases h.order with nothing | order
  · have empty : client.expected = [] := by rw [BenchClient.expected, nothing, List.map_nil]
    rw [empty, List.length_nil] at length
    rw [empty, List.length_eq_zero_iff.mp length]
  · exact order.eq_of_length length

theorem BenchClient.Lockstep.enqueue (h : client.Lockstep number) (step : client.InStep)
    (sequence : Nat) (sentNs : Int) :
    (client.enqueue (whereText ++ [newline]) ⟨number, sequence⟩ sentNs .direct).Lockstep number where
  whole := h.whole
  current := by
    intro entry mem
    rcases List.mem_append.mp mem with old | new
    · exact h.current entry old
    · obtain rfl := List.mem_singleton.mp new
      rfl
  order := by
    right
    have carried : (client.enqueue (whereText ++ [newline]) ⟨number, sequence⟩ sentNs
        .direct).outstanding = client.outstanding ++ [some ⟨number, sequence⟩] := by
      dsimp only [BenchClient.outstanding, BenchClient.enqueue]
      rw [← List.append_assoc, frames_append step.whole, frames_whereFrame, List.append_assoc]
    rw [carried, h.outstanding_eq step]
    simp [BenchClient.expected, BenchClient.enqueue]

theorem Keeps.queueClientFrame {s : Served} (h : Keeps number s) (sequence : Nat) (sentNs : Int)
    (sends : List SendAnswer)
    (step : s.client.sendBuffer.length + (whereText ++ [newline]).length ≤ maxClientSendQueue →
      s.client.InStep) :
    let served := queueClientFrame (whereText ++ [newline]) ⟨number, sequence⟩ sentNs .direct sends
      s.client s.state
    Keeps number { s with client := served.2.1, state := served.2.2 } := by
  unfold Bench.queueClientFrame
  split_ifs with full
  · exact h
  · have queued := h.client.enqueue (step (Nat.not_lt.mp full)) sequence sentNs
    exact Keeps.flush sends (s := ⟨_, _, s.ticks⟩)
      ⟨queued, ⟨h.state.completions, h.state.samples, h.state.own⟩⟩

end Connection

namespace Worker

section Steps

variable (clock : Nat → Int) {w : Worker}

theorem Connected.tracked (h : w.Connected) : w.Tracked where
  direct busy := absurd h.idle busy
  idle _ index := by
    rw [h.clients]
    rfl
  clients index := by
    rw [h.clients]
    exact ⟨rfl, by simp [newClient], .inl rfl⟩
  state := by
    rw [h.blank]
    exact ⟨rfl, rfl, by simp [emptyState]⟩

theorem Tracked.still (h : w.Tracked) {w' : Worker} (busy : w.point ≠ .idle)
    (busy' : w'.point ≠ .idle) (phases : w'.phase = w.phase) (number : w'.number = w.number)
    (clients : ∀ index, (w'.clients index).Lockstep w.number)
    (state : w'.state.Attributed w.number) : w'.Tracked where
  direct _ := phases ▸ h.direct busy
  idle idle := absurd idle busy'
  clients := number ▸ clients
  state := number ▸ state

theorem lockstep_update (h : w.Tracked) (index : Nat) {client : BenchClient}
    (kept : client.Lockstep w.number) (other : Nat) :
    (Function.update w.clients index client other).Lockstep w.number := by
  by_cases same : other = index
  · rw [same, Function.update_self]
    exact kept
  · rw [Function.update_of_ne same]
    exact h.clients other

theorem pending_update {clients : Nat → BenchClient} (empty : ∀ index, (clients index).pending = [])
    {index : Nat} {client : BenchClient} (emptied : client.pending = []) (other : Nat) :
    (Function.update clients index client other).pending = [] := by
  by_cases same : other = index
  · rw [same, Function.update_self]
    exact emptied
  · rw [Function.update_of_ne same]
    exact empty other

theorem Tracked.serve (h : w.Tracked) (busy : w.point ≠ .idle) (readyNs : Int)
    (event : ServiceEvent) : (w.perform clock (.serve readyNs event)).Tracked := by
  have served : Keeps w.number (serviceEvent clock w.phase readyNs event (w.served event.index)) :=
    Keeps.serviceEvent clock (h.direct busy) readyNs event ⟨h.clients event.index, h.state⟩
  exact h.still busy busy rfl rfl (lockstep_update h event.index served.client) served.state

theorem Tracked.offer (h : w.Tracked) {nowNs : Int} {due : Due} {ready : List Due}
    (point : w.point = .offering nowNs (due :: ready)) (sends : List SendAnswer)
    (step : ∀ index ∈ w.queues, (w.clients index).InStep) :
    Tracked { w.offerDue clock sends nowNs due with point := .offering nowNs ready } := by
  have busy : w.point ≠ .idle := by simp [point]
  have direct := h.direct busy
  have counted : (w.countOffer nowNs due.offer).state.Attributed w.number :=
    ⟨h.state.completions, h.state.samples, h.state.own⟩
  unfold offerDue sendOffer
  dsimp only
  split_ifs with missed
  · exact h.still busy (by simp) rfl rfl h.clients ⟨counted.1, counted.2, counted.3⟩
  · have fits : (w.clients due.offer.client).sendBuffer.length + (whereText ++ [newline]).length ≤
        maxClientSendQueue → (w.clients due.offer.client).InStep := by
      intro room
      apply step
      have open' : ¬(due.missed = true ∨ (w.clients due.offer.client).closed = true) := missed
      rw [queues, point]
      dsimp only
      rw [if_neg]
      · rfl
      · rw [← or_assoc]
        exact not_or.mpr ⟨open', Nat.not_lt.mpr room⟩
    have kept := Keeps.queueClientFrame (s := ⟨w.clients due.offer.client,
      (w.countOffer nowNs due.offer).state, w.ticks⟩) ⟨h.clients _, counted⟩ due.offer.sequence
      (clock w.ticks) sends fits
    have framed : whereText ++ [newline] =
        frame w.phase due.offer.client due.offer.sequence (clock w.ticks) := (if_pos direct).symm
    rw [framed, ← direct] at kept
    dsimp only [countOffer] at kept ⊢
    generalize queueClientFrame _ _ _ _ _ _ _ = result at kept ⊢
    obtain ⟨queued, client, state⟩ := result
    have clients := fun other => lockstep_update h due.offer.client kept.client other
    cases queued with
    | true => exact h.still busy (by simp) rfl rfl clients kept.state
    | false =>
      exact h.still busy (by simp) rfl rfl clients
        ⟨kept.state.completions, kept.state.samples, kept.state.own⟩

theorem countRest_same (entries : List Offer) :
    let w' := entries.foldl countRest w
    w'.phase = w.phase ∧ w'.number = w.number ∧ w'.clients = w.clients ∧
      (w.state.Attributed w.number → w'.state.Attributed w.number) := by
  induction entries generalizing w with
  | nil => exact ⟨rfl, rfl, rfl, id⟩
  | cons offer others ih =>
    have one : (w.countRest offer).phase = w.phase ∧ (w.countRest offer).number = w.number ∧
        (w.countRest offer).clients = w.clients ∧
        (w.state.Attributed w.number → (w.countRest offer).state.Attributed w.number) := by
      unfold countRest
      split_ifs
      · exact ⟨rfl, rfl, rfl, id⟩
      · exact ⟨rfl, rfl, rfl, fun h => ⟨h.completions, h.samples, h.own⟩⟩
    obtain ⟨phase, number, clients, state⟩ := one
    obtain ⟨phase', number', clients', state'⟩ := ih (w := w.countRest offer)
    rw [number] at number' state'
    exact ⟨phase'.trans phase, number', clients'.trans clients, fun h => state' (state h)⟩

theorem Tracked.proceed (h : w.Tracked) (sends : List SendAnswer) (busy : w.point ≠ .idle)
    (step : ∀ index ∈ w.queues, (w.clients index).InStep) :
    (w.proceed clock sends).Tracked := by
  unfold Worker.proceed
  cases point : w.point with
  | idle => exact absurd point busy
  | waiting =>
    dsimp only
    split_ifs
    · exact h.still busy (point ▸ busy) rfl rfl h.clients h.state
    · exact h.still busy (by simp) rfl rfl h.clients
        ⟨h.state.completions, h.state.samples, h.state.own⟩
  | sending =>
    dsimp only
    split_ifs
    · exact h.still busy (by simp) rfl rfl h.clients h.state
    · obtain ⟨phase, number, clients, state⟩ := countRest_same (w := w) w.schedule
      refine h.still busy (by simp) phase number ?_ (state h.state)
      intro index
      change ((w.schedule.foldl countRest w).clients index).Lockstep w.number
      rw [clients]
      exact h.clients index
  | offering nowNs ready =>
    cases ready with
    | nil => exact h.still busy (by simp) rfl rfl h.clients h.state
    | cons due ready => exact h.offer clock point sends step
  | servicing => exact h.still busy (by simp) rfl rfl h.clients h.state
  | draining =>
    exact ⟨fun busy => absurd rfl busy, fun _ _ => rfl,
      fun index => (h.clients index).reset w.number, h.state⟩

theorem Tracked.perform (h : w.Tracked) {event : DirectEvent}
    (enabled : (directInStep clock).enabled event w) : (w.performDirect clock event).Tracked := by
  obtain ⟨enabled, step⟩ := enabled
  cases event with
  | worker event =>
    cases event with
    | command phase =>
      refine ⟨fun _ => enabled.2, fun idle => ?_, fun index => ?_, rfl, rfl, ?_⟩
      · cases idle
      · have empty := h.idle enabled.1 index
        refine ⟨(h.clients index).whole, ?_, .inl empty⟩
        intro entry mem
        change entry ∈ (w.clients index).pending at mem
        rw [empty] at mem
        cases mem
      · intro pair mem
        cases mem
    | proceed sends => exact h.proceed clock sends enabled step
    | serve readyNs event =>
      refine h.serve clock ?_ readyNs event
      rcases enabled.2 with point | point | point <;> simp [point]
    | arrive index octets => exact enabled.elim
  | answer index =>
    refine ⟨h.direct, fun idle => ?_, ?_, h.state⟩
    · exact pending_update (h.idle idle) (by rw [BenchClient.pending_answer, h.idle idle])
    · exact lockstep_update h index (h.clients index).answer
  | notice index line =>
    refine ⟨h.direct, fun idle => ?_, ?_, h.state⟩
    · exact pending_update (h.idle idle) (h.idle idle index)
    · exact lockstep_update h index ((h.clients index).notice enabled.1 enabled.2)

/-- Every completion of a direct phase, and every latency sample, is of a request of
that phase and of the response to it. -/
theorem attributed (h : (directInStep clock).Reachable w) : w.state.Attributed w.number :=
  (h.invariant (fun _ start => start.tracked) fun _ _ known enabled =>
    known.perform clock enabled).state

def oneClient : Worker where
  indices := [0]
  clients := fun _ => newClient
  phase := phaseConfig 0 ⟨1, 0, 128, 10, 32, 1048576⟩ .direct 1 1 1 []
  number := 0
  state := emptyState
  counted := []
  schedule := []
  point := .idle
  ticks := 0

def twoPhasesClock (n : Nat) : Int :=
  if n < 6 then 200000000 else if n = 6 then 1300000000 else 2200000000

def oneOffer (nowNs : Nat) : List DirectEvent :=
  .worker (.command (phaseConfig nowNs ⟨1, 0, 128, 10, 32, 1048576⟩ .direct 1 1 1 [])) ::
    List.replicate 4 (.worker (.proceed [.accepted 6]))

def readAll : DirectEvent := .worker (.serve 0 ⟨0, true, false, [.received 100, .eagain], []⟩)

def toEnd : List DirectEvent := List.replicate 3 (.worker (.proceed []))

def lateAnswer : List DirectEvent :=
  oneOffer 0 ++ toEnd ++ oneOffer 2000000000 ++ [.answer 0, readAll]

def promptAnswer : List DirectEvent :=
  oneOffer 0 ++ [.answer 0, readAll] ++ toEnd ++ oneOffer 2000000000 ++ [.answer 0, readAll]

theorem lateAnswer_misattributed :
    let w := (direct twoPhasesClock).after oneClient lateAnswer
    (direct twoPhasesClock).Reachable w ∧ w.state.pairs = [(⟨2, 0⟩, some ⟨1, 0⟩)] ∧
      ¬ w.state.Attributed w.number := by
  intro w
  have runs : (direct twoPhasesClock).Runs oneClient lateAnswer := by decide +kernel
  have pairs : w.state.pairs = [(⟨2, 0⟩, some ⟨1, 0⟩)] := by decide +kernel
  refine ⟨⟨oneClient, ⟨rfl, rfl, fun _ => rfl⟩, runs.steps⟩, pairs, ?_⟩
  intro attributed
  have own := attributed.own
  rw [pairs] at own
  exact absurd (own _ List.mem_cons_self).1 (by decide)

theorem promptAnswer_attributed :
    let w := (directInStep twoPhasesClock).after oneClient promptAnswer
    w.state.Attributed w.number ∧ w.state.pairs = [(⟨2, 0⟩, some ⟨2, 0⟩)] := by
  have runs : (directInStep twoPhasesClock).Runs oneClient promptAnswer := by decide +kernel
  exact ⟨attributed twoPhasesClock ⟨oneClient, ⟨rfl, rfl, fun _ => rfl⟩, runs.steps⟩, by decide +kernel⟩

end Steps

end Worker

end Partyline.Bench
