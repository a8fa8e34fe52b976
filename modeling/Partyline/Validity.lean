import Mathlib.Data.Rat.Floor
import Partyline.Percentile
import Partyline.TrialProtocol

/-! `classify_result`, and what stands behind a row that it finds valid. -/
namespace Partyline.Bench

open Benchmark (PyError percentile)

def serverMetricFields : List String :=
  ["wait_calls", "total_events", "events_per_wait_p50", "events_per_wait_p95",
    "events_per_wait_max", "full_event_batches", "epoll_ctl_add", "epoll_ctl_mod",
    "epoll_ctl_del", "immediate_write_successes", "partial_writes", "send_calls",
    "recv_calls", "send_eagain", "recv_eagain", "bytes_read", "bytes_written",
    "queue_overflows", "disconnects", "queue_high_water_bytes", "queue_high_water_messages"]

/-- The options of `benchmark.py` that `classify_result` reads. -/
structure Limits where
  minDeliveryRatio : ℚ
  minDeadlineCompletionRatio : ℚ
  maxMissedOfferRatio : ℚ
  maxSchedulerLagMs : ℚ
  maxReadServiceGapMs : ℚ
  maxLatencyP99Ms : ℚ
  allowDisconnects : Bool
  allowQueueOverflow : Bool

/-- The part of a result that `classify_result` reads; `metrics` has the fields of
`SERVER_METRIC_FIELDS` that are not `None`. -/
structure TrialRow where
  diagnosticMode : String
  profileStarted : Bool
  harnessError : String
  serverCrashed : Bool
  clientDisconnects : Nat
  serverDisconnects : Nat
  sendErrors : Nat
  deliveryRatio : ℚ
  deadlineCompletionRatio : ℚ
  missedOfferRatio : ℚ
  schedulingLagP99Ms : Option ℚ
  p99Ms : Option ℚ
  maxReadServiceGapMs : Option ℚ
  metrics : List (String × Nat)

/-- What `run_trial` knows besides what its workers send. `serverMetrics` is the last line of
the metrics file, if there are two, without its status. -/
structure TrialFacts where
  workload : Workload
  totalConnections : Nat
  diagnosticMode : String
  profileStarted : Bool
  serverCrashed : Bool
  serverMetrics : Option (List (String × Nat))

/-- `round` of a number that is not negative, to the even side of a half. -/
def roundHalfEven (x : ℚ) : Nat :=
  let whole := ⌊x⌋.toNat
  let rest := x - whole
  if rest < 1 / 2 then whole
  else if 1 / 2 < rest then whole + 1
  else if whole % 2 = 0 then whole else whole + 1

/-- The format `.{digits}f`. -/
def fixed (digits : Nat) (x : ℚ) : String :=
  let scaled := roundHalfEven (|x| * 10 ^ digits)
  let places := toString (scaled % 10 ^ digits)
  (if x < 0 then "-" else "") ++ toString (scaled / 10 ^ digits) ++ "." ++
    String.ofList (List.replicate (digits - places.length) '0') ++ places

/-- The result of a trial that is over, as far as it is classified. -/
def trialRow (facts : TrialFacts) (t : Trial) : Except PyError TrialRow := do
  let state := t.state
  let metrics := facts.serverMetrics.getD []
  return {
    diagnosticMode := facts.diagnosticMode
    profileStarted := facts.profileStarted
    harnessError := t.harnessError.getD ""
    serverCrashed := facts.serverCrashed
    clientDisconnects := state.disconnects.length
    serverDisconnects := (metrics.lookup "disconnects").getD 0
    sendErrors := state.sendErrors
    deliveryRatio := deliveryRatio facts.workload facts.totalConnections state
    deadlineCompletionRatio :=
      if state.sentOperations ≠ 0 then state.completedByDeadline / state.sentOperations else 0
    missedOfferRatio :=
      if state.offeredOperations ≠ 0 then state.missedOffers / state.offeredOperations else 1
    schedulingLagP99Ms := ← percentile state.schedulingLagMs (99 / 100)
    p99Ms := ← percentile state.latenciesMs (99 / 100)
    maxReadServiceGapMs := some state.maxReadServiceGapMs
    metrics }

section Classify

variable (row : TrialRow) (limits : Limits)

def aboveLimit (missing name : String) (value : Option ℚ) (limit : ℚ) : List String :=
  match value with
  | none => [missing]
  | some value =>
    if value > limit then [name ++ fixed 3 value ++ " ms above " ++ fixed 3 limit ++ " ms"] else []

/-- The `disconnects` that are unexpected. -/
def TrialRow.disconnects : Nat := max row.clientDisconnects row.serverDisconnects

def TrialRow.queueOverflows : Nat := (row.metrics.lookup "queue_overflows").getD 0

def TrialRow.missing : List String :=
  serverMetricFields.filter fun field => (row.metrics.lookup field).isNone

/-- The `if` statements of `classify_result`, in their order. -/
def checks : List (List String) := [
  if row.diagnosticMode ≠ "none" then
    ["diagnostic " ++ row.diagnosticMode ++ " run is not eligible for latency claims"] ++
      if row.profileStarted then [] else [row.diagnosticMode ++ " profiler unavailable"]
  else [],
  if row.harnessError ≠ "" then ["harness error: " ++ row.harnessError] else [],
  if row.serverCrashed then ["server crash"] else [],
  if row.disconnects ≠ 0 ∧ limits.allowDisconnects = false then
    ["unexpected disconnects: " ++ toString row.disconnects]
  else [],
  if row.sendErrors ≠ 0 then ["unexpected send errors: " ++ toString row.sendErrors] else [],
  if row.deliveryRatio < limits.minDeliveryRatio then
    ["delivery ratio " ++ fixed 6 row.deliveryRatio ++ " below " ++
      fixed 6 limits.minDeliveryRatio]
  else [],
  if row.deadlineCompletionRatio < limits.minDeadlineCompletionRatio then
    ["deadline completion ratio " ++ fixed 6 row.deadlineCompletionRatio ++ " below " ++
      fixed 6 limits.minDeadlineCompletionRatio]
  else [],
  if row.missedOfferRatio > limits.maxMissedOfferRatio then
    ["missed offer ratio " ++ fixed 6 row.missedOfferRatio ++ " above " ++
      fixed 6 limits.maxMissedOfferRatio]
  else [],
  aboveLimit "missing scheduler lag" "scheduler p99 " row.schedulingLagP99Ms
    limits.maxSchedulerLagMs,
  aboveLimit "missing latency p99" "latency p99 " row.p99Ms limits.maxLatencyP99Ms,
  aboveLimit "missing read-service gap" "read-service gap " row.maxReadServiceGapMs
    limits.maxReadServiceGapMs,
  if row.missing ≠ [] then ["missing instrumentation: " ++ ",".intercalate row.missing] else [],
  if row.queueOverflows ≠ 0 ∧ limits.allowQueueOverflow = false then
    ["unexpected queue overflows: " ++ toString row.queueOverflows]
  else []]

def classifyResult : Bool × String :=
  let reasons := (checks row limits).flatten
  (reasons.isEmpty, "; ".intercalate reasons)

variable {row limits}

theorem aboveLimit_eq_nil {missing name : String} {value : Option ℚ} {limit : ℚ} :
    aboveLimit missing name value limit = [] ↔ ∃ x, value = some x ∧ x ≤ limit := by
  cases value with
  | none => simp [aboveLimit]
  | some x => simp [aboveLimit]

structure Accepted (row : TrialRow) (limits : Limits) : Prop where
  diagnostic : row.diagnosticMode = "none"
  harness : row.harnessError = ""
  running : row.serverCrashed = false
  connected : limits.allowDisconnects = false →
    row.clientDisconnects = 0 ∧ row.serverDisconnects = 0
  sends : row.sendErrors = 0
  delivered : limits.minDeliveryRatio ≤ row.deliveryRatio
  inTime : limits.minDeadlineCompletionRatio ≤ row.deadlineCompletionRatio
  offered : row.missedOfferRatio ≤ limits.maxMissedOfferRatio
  lag : ∃ lag, row.schedulingLagP99Ms = some lag ∧ lag ≤ limits.maxSchedulerLagMs
  latency : ∃ latency, row.p99Ms = some latency ∧ latency ≤ limits.maxLatencyP99Ms
  gap : ∃ gap, row.maxReadServiceGapMs = some gap ∧ gap ≤ limits.maxReadServiceGapMs
  instrumented : ∀ field ∈ serverMetricFields, (row.metrics.lookup field).isSome
  overflows : limits.allowQueueOverflow = false →
    (row.metrics.lookup "queue_overflows").getD 0 = 0

theorem ite_eq_nil {p : Prop} [Decidable p] {reason : String} {more : List String} :
    (if p then reason :: more else []) = [] ↔ ¬ p := by
  by_cases holds : p <;> simp [holds]

theorem classifyResult_valid : (classifyResult row limits).1 = true ↔ Accepted row limits := by
  rw [classifyResult, List.isEmpty_iff, List.flatten_eq_nil_iff]
  simp only [checks, List.forall_mem_cons, List.cons_append, ite_eq_nil, aboveLimit_eq_nil, not_and,
    not_not, not_lt, gt_iff_lt]
  constructor
  · rintro ⟨diagnostic, harness, running, connected, sends, delivered, inTime, offered, lag, latency,
      gap, instrumented, overflows, -⟩
    refine ⟨diagnostic, harness, by simpa using running, fun strict => ?_, sends, delivered, inTime,
      offered, lag, latency, gap, fun field mem => ?_, fun strict => ?_⟩
    · exact Nat.max_eq_zero_iff.mp (by_contra fun lost => connected lost strict)
    · have empty := List.filter_eq_nil_iff.mp instrumented field mem
      simpa [Option.isSome_iff_ne_none] using empty
    · exact by_contra fun refused => overflows refused strict
  · intro h
    refine ⟨h.diagnostic, h.harness, by simp [h.running], fun lost strict => lost ?_, h.sends,
      h.delivered, h.inTime, h.offered, h.lag, h.latency, h.gap, ?_, fun refused strict => refused ?_,
      nofun⟩
    · exact Nat.max_eq_zero_iff.mpr (h.connected strict)
    · refine List.filter_eq_nil_iff.mpr fun field mem => ?_
      simpa [Option.isSome_iff_ne_none] using h.instrumented field mem
    · exact h.overflows strict

end Classify

/-! What a trial has to have done for its row to be valid. -/

theorem mergeStates_disconnects (states : List BenchState) (seen : List Nat) :
    states.foldl (fun merged state => merged ∪ state.disconnects) seen = [] ↔
      seen = [] ∧ ∀ state ∈ states, state.disconnects = [] := by
  induction states generalizing seen with
  | nil => simp
  | cons state states ih =>
    rw [List.foldl_cons, ih]
    have both : seen ∪ state.disconnects = [] ↔ seen = [] ∧ state.disconnects = [] := by
      simp only [List.eq_nil_iff_forall_not_mem, List.mem_union_iff, not_or, forall_and]
    rw [both, List.forall_mem_cons, and_assoc]

theorem trialRow_ok {facts : TrialFacts} {t : Trial} {row : TrialRow}
    (computed : trialRow facts t = .ok row) :
    row.harnessError = t.harnessError.getD "" ∧
      row.clientDisconnects = t.state.disconnects.length ∧ row.sendErrors = t.state.sendErrors ∧
      row.metrics = facts.serverMetrics.getD [] ∧
      row.serverDisconnects = ((facts.serverMetrics.getD []).lookup "disconnects").getD 0 ∧
      percentile t.state.schedulingLagMs (99 / 100) = .ok row.schedulingLagP99Ms := by
  rw [trialRow] at computed
  cases lag : percentile t.state.schedulingLagMs (99 / 100) with
  | error error =>
    rw [lag] at computed
    cases computed
  | ok value =>
    cases latency : percentile t.state.latenciesMs (99 / 100) with
    | error error =>
      rw [lag, latency] at computed
      cases computed
    | ok p99 =>
      rw [lag, latency] at computed
      obtain rfl := Except.ok.inj computed
      exact ⟨rfl, rfl, rfl, rfl, rfl, rfl⟩

/-- A valid row is one of a trial in which nothing was raised, and it counts what each worker
has measured, whose clients were all connected to the end. -/
theorem valid_trial {plan : TrialPlan} {t : Trial} (reachable : (Trial.machine plan).Reachable t)
    (finished : t.point = .done) {facts : TrialFacts} {limits : Limits} {row : TrialRow}
    (computed : trialRow facts t = .ok row) (valid : (classifyResult row limits).1 = true) :
    t.harnessError = none ∧ ∃ results : List BenchState, results.length = plan.workerCount ∧
      t.state = mergeStates results ∧
      (∀ i < plan.workerCount, (t.processes i).log.map Prod.fst = plan.phases ∧
        (t.processes i).log.getLast?.map Prod.snd = results[i]?) ∧
      ∀ state ∈ results, state.sendErrors = 0 ∧
        (limits.allowDisconnects = false → state.disconnects = []) := by
  have accepted := classifyResult_valid.mp valid
  obtain ⟨-, disconnects, sends, -, -, lag⟩ := trialRow_ok computed
  have standing := Trial.reachable_standing reachable
  rw [Trial.Standing, finished] at standing
  -- an error may have no text, but nothing is merged then and there is no lag to report
  have fine : t.harnessError = none := by
    by_contra raised
    rw [standing.2 raised] at lag
    obtain ⟨value, found, -⟩ := accepted.lag
    rw [found] at lag
    cases lag
  obtain ⟨results, length, merged, each⟩ := standing.1 fine
  refine ⟨fine, results, length, merged, fun i here => ⟨(each i here).log, (each i here).last⟩,
    fun state mem => ⟨?_, fun strict => ?_⟩⟩
  · have total : (results.map BenchState.sendErrors).sum = 0 := by
      rw [← accepted.sends, sends, merged, mergeStates]
    exact List.sum_eq_zero_iff_forall_eq_nat.mp total _ (List.mem_map_of_mem mem)
  · have empty : t.state.disconnects = [] :=
      List.eq_nil_of_length_eq_zero (disconnects ▸ (accepted.connected strict).1)
    rw [merged, mergeStates] at empty
    exact ((mergeStates_disconnects results []).mp empty).2 state mem

def defaultLimits : Limits := ⟨999 / 1000, 99 / 100, 1 / 100, 20, 20, 50, false, false⟩

def quietFacts : TrialFacts :=
  ⟨.direct, 2, "none", false, false, some (serverMetricFields.map fun field => (field, 0))⟩

theorem wholeTrial_valid : (Trial.machine twoWorkers).Runs .initial wholeTrial ∧
    ∃ row, trialRow quietFacts ((Trial.machine twoWorkers).after .initial wholeTrial) = .ok row ∧
      ∃ results : List BenchState, results.length = 2 ∧
        ∀ state ∈ results, state.sendErrors = 0 ∧ state.disconnects = [] := by
  have runs : (Trial.machine twoWorkers).Runs .initial wholeTrial := by decide +kernel
  have valid : (match trialRow quietFacts ((Trial.machine twoWorkers).after .initial wholeTrial) with
      | .ok row => (classifyResult row defaultLimits).1
      | .error _ => false) = true := by decide +kernel
  cases computed : trialRow quietFacts ((Trial.machine twoWorkers).after .initial wholeTrial) with
  | error error => simp [computed] at valid
  | ok row =>
    rw [computed] at valid
    obtain ⟨-, results, length, -, -, each⟩ :=
      valid_trial ⟨_, rfl, runs.steps⟩ (by decide +kernel) computed valid
    exact ⟨runs, row, rfl, results, length, fun state mem =>
      ⟨(each state mem).1, (each state mem).2 rfl⟩⟩

end Partyline.Bench
