import Partyline.BroadcastPhase

/-! What a broadcast trial counts where the server delivers each frame once to every
other client that has sent a username, and what `run_trial` expects it to count. -/
namespace Partyline.Bench

open Library

/-- The counts are added up, and the samples are taken together. -/
def mergeStates (states : List BenchState) : BenchState where
  offeredOperations := (states.map BenchState.offeredOperations).sum
  sentOperations := (states.map BenchState.sentOperations).sum
  missedOffers := (states.map BenchState.missedOffers).sum
  completedByDeadline := (states.map BenchState.completedByDeadline).sum
  eventualCompletions := (states.map BenchState.eventualCompletions).sum
  deliveries := (states.map BenchState.deliveries).sum
  deliveriesByDeadline := (states.map BenchState.deliveriesByDeadline).sum
  sendErrors := (states.map BenchState.sendErrors).sum
  disconnects := states.foldl (fun merged state => merged ∪ state.disconnects) []
  latenciesMs := states.flatMap BenchState.latenciesMs
  schedulingLagMs := states.flatMap BenchState.schedulingLagMs
  maxReadServiceGapMs := (states.map BenchState.maxReadServiceGapMs).foldl max 0
  startSkewMs := (states.map fun state => |state.startSkewMs|).foldl max 0
  clientPartialSends := (states.map BenchState.clientPartialSends).sum
  clientSendEagain := (states.map BenchState.clientSendEagain).sum
  pairs := states.flatMap BenchState.pairs

/-- A trial of the workload `broadcast`: what `main` passes on to `run_trial`, and of each
worker its clock, its state before the phase, and what happens to it in the phase. -/
structure BroadcastTrial where
  args : Args
  workers : Nat
  total : Nat
  active : Nat
  run : Nat
  duration : ℚ
  nowNs : Nat
  clock : Nat → Nat → Int
  start : Nat → Worker
  events : Nat → List WorkerEvent

theorem deliveryRatio_eq_one {workload : Workload} {total : Nat} {state : BenchState}
    (same : (state.deliveries : Int) = expectedDeliveries workload total state) :
    deliveryRatio workload total state = 1 := by
  unfold deliveryRatio
  dsimp only
  split_ifs with nonempty
  · have cast : (state.deliveries : ℚ) = (expectedDeliveries workload total state : ℚ) := by
      rw [← same, Int.cast_natCast]
    rw [cast]
    exact div_self (Int.cast_ne_zero.mpr nonempty)
  · rfl

namespace BroadcastTrial

section Definitions

variable (t : BroadcastTrial)

def workerCount : Nat := min t.total t.workers

def token : Bytes :=
  Worker.decimal t.total ++ ascii "-" ++ Worker.decimal t.active ++ ascii "-" ++
    Worker.decimal t.run

def phase : Phase := phaseConfig t.nowNs t.args .broadcast t.total t.active t.duration t.token

def begun (i : Nat) : Worker := (t.start i).perform (t.clock i) (.command t.phase)

def final (i : Nat) : Worker :=
  (Worker.running (t.clock i) (t.start i) t.phase).after (t.begun i) (t.events i)

def state : BenchState := mergeStates ((List.range t.workerCount).map fun i => (t.final i).state)

def frames : List BroadcastFrame :=
  (List.range t.workerCount).flatMap fun i => (t.begun i).sentFrames (t.clock i) (t.events i)

/-- `new_client` sends a username for an active client alone; without one a client
is in no room. -/
def heard (index : Nat) : List Bytes :=
  if index ∈ t.phase.activeIndices then
    (t.frames.filter fun frame => frame.sender ≠ index).map (BroadcastFrame.heard t.phase)
  else []

/-- The checks of `main`. -/
structure Accepted : Prop where
  total : 2 ≤ t.total
  someone : 1 ≤ t.active
  within : t.active ≤ t.total
  workers : 1 ≤ t.workers
  rate : 0 < t.args.rate
  duration : 0 < t.duration
  overdue : 1 ≤ t.args.maxOverdueSends
  calls : 1 ≤ t.args.maxRecvCalls
  payload : t.args.payloadSize ≤ 4000

/-- The phase ends with all that has come read, and what has come are the lines of the
frames, each once, in any order. -/
structure Perfect : Prop where
  assigned : ∀ i < t.workerCount,
    (partitionClients (List.range t.total) t.workerCount)[i]? = some (t.start i).indices
  fresh : ∀ i < t.workerCount, ∀ index ∈ (t.start i).indices,
    ((t.start i).clients index).buffer = [] ∧ ((t.start i).clients index).incoming = []
  runs : ∀ i < t.workerCount,
    (Worker.running (t.clock i) (t.start i) t.phase).Runs (t.begun i) (t.events i)
  ended : ∀ i < t.workerCount, (t.final i).point = .draining
  read : ∀ i < t.workerCount, ∀ index ∈ (t.start i).indices,
    ((t.final i).clients index).incoming = []
  delivered : ∀ i < t.workerCount, ∀ index ∈ (t.start i).indices, ∃ lines,
    lines.Perm (t.heard index) ∧ text (arrivals index (t.events i)) = delimited newline lines

/-- What is counted is what `run_trial` expects. -/
structure Scores : Prop where
  deliveries : (t.state.deliveries : Int) = expectedDeliveries .broadcast t.total t.state
  completions : t.state.eventualCompletions = t.state.sentOperations
  ratio : deliveryRatio .broadcast t.total t.state = 1

end Definitions

variable {t : BroadcastTrial}

theorem token_ok : TokenOk t.phase.token := by
  have clean {ch : UInt8} (other : ch.toNat < 45 ∨ 57 < ch.toNat) : ch ∉ t.token := by
    have dash : ch ∉ ascii "-" := by
      intro mem
      have same : ch = 45 := by simpa [ascii] using mem
      rw [same] at other
      revert other
      decide
    simp only [token, List.mem_append, not_mem_decimal other, dash, or_self, not_false_eq_true]
  exact ⟨clean (.inr (by decide)), clean (.inl (by decide)), clean (.inl (by decide))⟩

theorem clean_heard {index : Nat} {line : Bytes} (mem : line ∈ t.heard index) : newline ∉ line := by
  unfold heard at mem
  split_ifs at mem
  · obtain ⟨frame, -, rfl⟩ := List.mem_map.mp mem
    exact newline_not_mem_heardText token_ok
  · cases mem

theorem broadcast : t.phase.workload ≠ .direct := by
  intro same
  cases same

theorem countP_heard (counts : Nat → Bytes → Bool) (index : Nat) :
    (t.heard index).countP (counts index) = t.frames.countP fun frame =>
      decide (index < t.active ∧ frame.sender ≠ index) && counts index (frame.heard t.phase) := by
  have active : index ∈ t.phase.activeIndices ↔ index < t.active := List.mem_range
  unfold heard
  by_cases known : index < t.active
  · rw [if_pos (active.mpr known), List.countP_map, List.countP_filter]
    congr 1
    funext frame
    simp [known, Bool.and_comm]
  · rw [if_neg (mt active.mp known)]
    simp [known]

theorem state_counts :
    t.state.sentOperations =
        ((List.range t.workerCount).map fun i => (t.final i).state.sentOperations).sum ∧
      t.state.deliveries =
        ((List.range t.workerCount).map fun i => (t.final i).state.deliveries).sum ∧
      t.state.eventualCompletions =
        ((List.range t.workerCount).map fun i => (t.final i).state.eventualCompletions).sum := by
  simp only [state, mergeStates, List.map_map, Function.comp_def, and_self]

section Counts

variable (perfect : t.Perfect)

include perfect

theorem own_indices {i : Nat} (small : i < t.workerCount) :
    (t.start i).indices = (List.range t.total).filter fun n => n % t.workerCount = i := by
  have part := perfect.assigned i small
  rw [partitionClients, List.getElem?_map, List.getElem?_range small] at part
  exact (Option.some.inj part).symm.trans (slice_range small _)

theorem frames_active {frame : BroadcastFrame} (mem : frame ∈ t.frames) :
    frame.sender < t.active := by
  obtain ⟨i, small, sent⟩ := List.mem_flatMap.mp mem
  have below := List.mem_range.mp small
  have begun : (t.begun i).Rostered := by
    constructor
    · rintro offer ⟨⟩
    · rintro nowNs ready ⟨⟩
  exact List.mem_range.mp
    (Worker.sender_run broadcast (perfect.runs i below) (perfect.ended i below) rfl begun sent)

theorem sent_total : t.state.sentOperations = t.frames.length := by
  rw [state_counts.1, frames, List.length_flatMap]
  refine congrArg List.sum (List.map_congr_left fun i mem => ?_)
  have below := List.mem_range.mp mem
  have sent := (Worker.sent_run broadcast (perfect.runs i below) (perfect.ended i below) rfl).2
  exact sent.trans (Nat.zero_add _)

theorem value_total (accepted : t.Accepted) (tally : Tally t.phase) (counts : Nat → Bytes → Bool)
    (zero : tally.value emptyState = 0)
    (adds : ∀ index pending lines,
      tally.adds index pending lines = lines.countP fun line => counts index (text line)) :
    ((List.range t.workerCount).map fun i => tally.value (t.final i).state).sum =
      ∑ index ∈ Finset.range t.total, t.frames.countP fun frame =>
        decide (index < t.active ∧ frame.sender ≠ index) &&
          counts index (frame.heard t.phase) := by
  have each : ∀ i ∈ Finset.range t.workerCount, tally.value (t.final i).state =
      ∑ index ∈ (Finset.range t.total).filter fun n => n % t.workerCount = i,
        (t.heard index).countP (counts index) := by
    intro i mem
    have below := Finset.mem_range.mp mem
    have value := Worker.value_run tally broadcast (perfect.runs i below) (perfect.ended i below)
      rfl (perfect.fresh i below) (perfect.read i below)
    have isZero : tally.value (t.begun i).state = 0 := zero
    have own : (t.begun i).indices.toFinset =
        (Finset.range t.total).filter fun n => n % t.workerCount = i := by
      ext n
      change n ∈ (t.start i).indices.toFinset ↔ _
      rw [own_indices perfect below]
      simp
    refine value.trans ?_
    rw [isZero, Nat.zero_add, own]
    apply Finset.sum_congr rfl
    intro index listed
    have listed' : index ∈ (t.begun i).indices := by
      rw [← List.mem_toFinset, own]
      exact listed
    obtain ⟨lines, same, wire⟩ := perfect.delivered i below index listed'
    have read := completeLines_delimited (fun line mem => clean_heard (same.mem_iff.mp mem)) wire
    rw [adds, ← same.countP_eq, ← read, List.countP_map]
    rfl
  have sum : ((List.range t.workerCount).map fun i => tally.value (t.final i).state).sum =
      ∑ i ∈ Finset.range t.workerCount, tally.value (t.final i).state := rfl
  rw [sum, Finset.sum_congr rfl each]
  simp only [← countP_heard]
  apply Finset.sum_fiberwise_of_maps_to
  intro index _
  have positive : 0 < t.workerCount := by
    have total := accepted.total
    have workers := accepted.workers
    rw [workerCount]
    omega
  exact Finset.mem_range.mpr (Nat.mod_lt index positive)

theorem deliveries_total (accepted : t.Accepted) :
    t.state.deliveries = t.frames.length * (t.active - 1) := by
  have value := value_total perfect accepted (deliveryTally t.phase)
    (fun _ line => (parseBench t.phase.token line).isSome) rfl (fun index pending lines => by
      change countLines t.phase pending.length lines = _
      rw [countLines, if_neg broadcast])
  rw [state_counts.2.1]
  refine value.trans ?_
  refine sum_countP_eq fun frame mem => ?_
  have sender := frames_active perfect mem
  have others : ((Finset.range t.total).filter fun index =>
      (decide (index < t.active ∧ frame.sender ≠ index) &&
        (parseBench t.phase.token (frame.heard t.phase)).isSome) = true) =
      (Finset.range t.active).erase frame.sender := by
    have within := accepted.within
    ext index
    rw [BroadcastFrame.heard, parseBench_heard token_ok.1, if_pos rfl]
    simp only [Finset.mem_filter, Finset.mem_range, Finset.mem_erase, Option.isSome_some,
      Bool.and_true, decide_eq_true_eq]
    omega
  rw [others, Finset.card_erase_of_mem (Finset.mem_range.mpr sender), Finset.card_range]

/-- Where every client is active, the sender's successor hears each frame. -/
theorem completions_total (accepted : t.Accepted)
    (everyone : t.active = t.total ∨ t.frames = []) :
    t.state.eventualCompletions = t.frames.length := by
  have value := value_total perfect accepted (completionTally broadcast) (credits t.phase) rfl
    (fun index pending lines => rfl)
  rw [state_counts.2.2]
  refine value.trans ?_
  rw [← Nat.mul_one t.frames.length]
  refine sum_countP_eq fun frame mem => ?_
  have everyone := everyone.resolve_right (List.ne_nil_of_mem mem)
  have sender := frames_active perfect mem
  have nonempty := accepted.total
  have successor : ((Finset.range t.total).filter fun index =>
      (decide (index < t.active ∧ frame.sender ≠ index) &&
        credits t.phase index (frame.heard t.phase)) = true) =
      {(frame.sender + 1) % t.total} := by
    have below := Nat.mod_lt (frame.sender + 1) (show 0 < t.total by omega)
    have other : (frame.sender + 1) % t.total ≠ frame.sender := by
      intro same
      have small : frame.sender + 1 ≤ t.total := by omega
      rcases Nat.lt_or_eq_of_le small with less | last
      · rw [Nat.mod_eq_of_lt less] at same
        omega
      · rw [last, Nat.mod_self] at same
        omega
    have credited (index : Nat) : credits t.phase index (frame.heard t.phase) =
        decide ((index : Int) = ((frame.sender : Int) + 1) % t.total) := by
      rw [credits, BroadcastFrame.heard, parseBench_heard token_ok.1, if_pos rfl]
      rfl
    ext index
    simp only [credited, Finset.mem_filter, Finset.mem_range, Finset.mem_singleton,
      Bool.and_eq_true, decide_eq_true_eq]
    constructor
    · rintro ⟨-, -, same⟩
      exact_mod_cast same
    · rintro rfl
      exact ⟨below, ⟨everyone ▸ below, Ne.symm other⟩, by push_cast; rfl⟩
  rw [successor, Finset.card_singleton]

end Counts

/-- A perfect server has a broadcast trial score perfectly just where every client is active
or nothing is sent: the expectation is of all clients, but one that is not active hears nothing. -/
theorem scores_iff (accepted : t.Accepted) (perfect : t.Perfect) :
    t.Scores ↔ t.active = t.total ∨ t.frames = [] := by
  have sent := sent_total perfect
  have deliveries := deliveries_total perfect accepted
  have nonempty := accepted.someone
  have within := accepted.within
  have expected : expectedDeliveries .broadcast t.total t.state =
      t.frames.length * ((t.total : Int) - 1) := by
    rw [expectedDeliveries, sent, if_pos rfl]
  have others : ((t.active - 1 : Nat) : Int) = (t.active : Int) - 1 := by omega
  constructor
  · intro scores
    have same := scores.deliveries
    rw [deliveries, expected, Nat.cast_mul, others] at same
    rcases eq_or_ne t.frames [] with nothing | nonempty
    · exact .inr nothing
    · have length : (t.frames.length : Int) ≠ 0 := by
        exact_mod_cast mt List.length_eq_zero_iff.mp nonempty
      have equal := mul_left_cancel₀ length same
      apply Or.inl
      omega
  · intro condition
    have same : (t.state.deliveries : Int) = expectedDeliveries .broadcast t.total t.state := by
      rw [deliveries, expected, Nat.cast_mul, others]
      rcases condition with everyone | nothing
      · rw [everyone]
      · rw [nothing, List.length_nil, Nat.cast_zero, zero_mul, zero_mul]
    refine ⟨same, ?_, deliveryRatio_eq_one same⟩
    rw [sent]
    exact completions_total perfect accepted condition

def oneFrame (total : Nat) : BroadcastTrial where
  args := ⟨1, 0, 128, 10, 32, 1048576⟩
  workers := 1
  total := total
  active := 2
  run := 1
  duration := 1
  nowNs := 0
  clock _ := lateClock 5
  start _ :=
    { indices := List.range total
      clients := fun _ => Worker.newClient
      phase := twoWorkersPhase
      number := 0
      state := emptyState
      counted := []
      schedule := []
      point := .idle
      ticks := 0 }
  events _ :=
    let token := Worker.decimal total ++ ascii "-2-1"
    let phase := phaseConfig 0 ⟨1, 0, 128, 10, 32, 1048576⟩ .broadcast total 2 1 token
    List.replicate 6 (.proceed [.accepted 100]) ++
      [.arrive 1 (mark none (heardText phase 0 0 200000000 ++ [newline])),
        .serve 0 ⟨1, true, false, [.received 40, .received 100, .eagain], []⟩]

theorem oneFrame_perfect {total : Nat} (small : total = 2 ∨ total = 3) :
    (oneFrame total).Accepted ∧ (oneFrame total).Perfect := by
  constructor
  · constructor
    all_goals
      rcases small with rfl | rfl <;> decide +kernel
  · have delivered : ∀ i < (oneFrame total).workerCount,
        ∀ index ∈ ((oneFrame total).start i).indices,
        text (arrivals index ((oneFrame total).events i)) =
          delimited newline ((oneFrame total).heard index) := by
      rcases small with rfl | rfl <;> decide +kernel
    refine ⟨?_, ?_, ?_, ?_, ?_, fun i below index own => ⟨_, .refl _, delivered i below index own⟩⟩
    all_goals
      rcases small with rfl | rfl <;> decide +kernel

/-- With two clients, both active, the trial scores perfectly. -/
theorem scores_iff_two : (oneFrame 2).Scores := by
  obtain ⟨accepted, perfect⟩ := oneFrame_perfect (.inl rfl)
  exact (scores_iff accepted perfect).mpr (.inl rfl)

/-- With a third client, that is not active, one delivery is counted and two are expected. -/
theorem oneFrame_not_scores : (oneFrame 3).Accepted ∧ (oneFrame 3).Perfect ∧
    (oneFrame 3).state.deliveries = 1 ∧
    expectedDeliveries .broadcast (oneFrame 3).total (oneFrame 3).state = 2 ∧
    ¬ (oneFrame 3).Scores := by
  obtain ⟨accepted, perfect⟩ := oneFrame_perfect (.inr rfl)
  have deliveries : (oneFrame 3).state.deliveries = 1 := by decide +kernel
  have expected : expectedDeliveries .broadcast (oneFrame 3).total (oneFrame 3).state = 2 := by
    decide +kernel
  refine ⟨accepted, perfect, deliveries, expected, fun scores => ?_⟩
  have same := scores.deliveries
  rw [deliveries, expected] at same
  cases same

end BroadcastTrial

end Partyline.Bench
