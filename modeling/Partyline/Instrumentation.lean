import Partyline.EventPercentiles
import Partyline.Library.Delimited
import Partyline.Library.Json
import Partyline.SignalOrder
import Partyline.Validity

/-! The metrics file: the lines that the server appends to it, and what the load generator reads
in it for the row of a trial. -/
namespace Partyline

open Library

/-- The names and the values of a `stopped` line, in their order. -/
def counters (m : ServerMetrics) : List (String × Nat) := [
  ("wait_calls", m.waitCalls),
  ("total_events", m.totalEvents),
  ("events_per_wait_p50", m.eventsPercentile (50 / 100)),
  ("events_per_wait_p95", m.eventsPercentile (95 / 100)),
  ("events_per_wait_max", m.maxEventsPerWait),
  ("full_event_batches", m.fullEventBatches),
  ("epoll_ctl_add", m.epollCtlAdd),
  ("epoll_ctl_mod", m.epollCtlMod),
  ("epoll_ctl_del", m.epollCtlDel),
  ("immediate_write_successes", m.immediateWriteSuccesses),
  ("partial_writes", m.partialWrites),
  ("send_calls", m.sendCalls),
  ("recv_calls", m.recvCalls),
  ("send_eagain", m.sendEagain),
  ("recv_eagain", m.recvEagain),
  ("bytes_read", m.bytesRead),
  ("bytes_written", m.bytesWritten),
  ("queue_overflows", m.queueOverflows),
  ("disconnects", m.disconnects),
  ("queue_high_water_bytes", m.queueHighWaterBytes),
  ("queue_high_water_messages", m.queueHighWaterMessages)]

/-- `<< ",\"name\":" << value`. -/
def printed (counter : String × Nat) : List Char :=
  ",\"".toList ++ counter.1.toList ++ "\":".toList ++ Nat.toDigits 10 counter.2

def startedText : List Char := "\x7b\"status\":\"started\"\x7d".toList

def stoppedStart : List Char := "\x7b\"status\":\"stopped\"".toList

def stoppedText (m : ServerMetrics) : List Char :=
  stoppedStart ++ (counters m).flatMap printed ++ [Json.closeBrace]

/-- What `serviceMetricsSignals` gives to `appendMetrics`. -/
def MetricsLine.text : MetricsLine → List Char
  | .started => startedText
  | .stopped m => stoppedText m

def endOfLine : Char := Char.ofNat 10

def metricsFile (output : List MetricsLine) : List Char :=
  delimited endOfLine (output.map MetricsLine.text)

namespace Bench

/-- `splitlines`, of a text that has no other line boundaries than line feeds. -/
def splitlines (file : List Char) : List (List Char) :=
  let pieces := file.splitOn endOfLine
  if pieces.getLast? = some [] then pieces.dropLast else pieces

/-- What `wait_for_metrics` makes of the file at the end of its waiting; `none` where `json.loads`
raises. -/
def waitForMetrics (count : Nat) (file : List Char) : Option (List (List Json.Field)) :=
  let lines := splitlines file
  if count ≤ lines.length then lines.mapM Json.readObject else some []

/-- The items of a record but for its status, which alone is a string. -/
def withoutStatus (record : List Json.Field) : List (String × Nat) :=
  record.filterMap fun (key, value) =>
    match value with
    | .number n => if String.ofList key = "status" then none else some (String.ofList key, n)
    | .string _ => none

/-- `server_metrics` of `run_trial`, without its status. -/
def serverMetrics (file : List Char) : Option (List (String × Nat)) :=
  match waitForMetrics 2 file with
  | some records =>
    if 2 ≤ records.length then records.getLast?.map withoutStatus else none
  | none => none

end Bench

/-! What is written is read. -/

def statusField (status : String) : Json.Field := ("status".toList, .string status.toList)

def counterField (counter : String × Nat) : Json.Field := (counter.1.toList, .number counter.2)

def MetricsLine.record : MetricsLine → List Json.Field
  | .started => [statusField "started"]
  | .stopped m => statusField "stopped" :: (counters m).map counterField

theorem counters_names (m : ServerMetrics) :
    (counters m).map Prod.fst = Bench.serverMetricFields := rfl

theorem name_mem_of_mem_counters {m : ServerMetrics} {counter : String × Nat}
    (there : counter ∈ counters m) : counter.1 ∈ Bench.serverMetricFields :=
  counters_names m ▸ List.mem_map_of_mem there

theorem printed_eq (counter : String × Nat) :
    printed counter = ',' :: Json.writeField (counterField counter) := by
  have front : ",\"".toList = [',', Json.quote] := by decide
  have back : "\":".toList = [Json.quote, ':'] := by decide
  simp [printed, counterField, front, back, Json.writeField, Json.writeString, Json.writeValue]

theorem startedText_eq : startedText = Json.writeObject [statusField "started"] := by decide

theorem flatMap_printed (all : List (String × Nat)) : all.flatMap printed =
    (all.map counterField).flatMap fun field => ',' :: Json.writeField field := by
  rw [List.flatMap_map]
  exact List.flatMap_congr fun counter _ => printed_eq counter

theorem stoppedStart_eq : stoppedStart =
    Json.openBrace :: Json.writeField (statusField "stopped") := by decide

theorem stoppedText_eq (m : ServerMetrics) : stoppedText m =
    Json.writeObject (statusField "stopped" :: (counters m).map counterField) := by
  rw [Json.writeObject, Json.writeFields_cons, stoppedText, stoppedStart_eq, flatMap_printed,
    List.cons_append, List.cons_append]

theorem text_eq (line : MetricsLine) : line.text = Json.writeObject line.record := by
  cases line with
  | started => exact startedText_eq
  | stopped m => exact stoppedText_eq m

theorem status_plain : ("status".toList ++ "started".toList ++ "stopped".toList).all Json.plain =
    true := by decide

theorem serverMetricFields_plain :
    ∀ name ∈ Bench.serverMetricFields, name.toList.all Json.plain = true := by decide

theorem record_plain (line : MetricsLine) :
    ∀ field ∈ line.record, (∀ ch ∈ field.1, Json.plain ch = true) ∧ field.2.Plain := by
  have all := List.all_eq_true.mp status_plain
  simp only [List.mem_append, or_imp, forall_and] at all
  obtain ⟨⟨status, started⟩, stopped⟩ := all
  cases line with
  | started =>
    intro field mem
    obtain rfl := List.mem_singleton.mp mem
    exact ⟨status, started⟩
  | stopped m =>
    intro field mem
    rcases List.mem_cons.mp mem with rfl | counted
    · exact ⟨status, stopped⟩
    · obtain ⟨counter, there, rfl⟩ := List.mem_map.mp counted
      have named := name_mem_of_mem_counters there
      exact ⟨List.all_eq_true.mp (serverMetricFields_plain _ named), trivial⟩

theorem endOfLine_not_mem_printed {m : ServerMetrics} {counter : String × Nat}
    (there : counter ∈ counters m) : endOfLine ∉ printed counter := by
  have names : ∀ name ∈ Bench.serverMetricFields, endOfLine ∉ name.toList := by decide
  have named : endOfLine ∉ counter.1.toList := names _ (name_mem_of_mem_counters there)
  have digits : endOfLine ∉ Nat.toDigits 10 counter.2 := fun mem =>
    absurd (Nat.isDigit_of_mem_toDigits (by decide) (by decide) mem) (by decide)
  have front : endOfLine ∉ ",\"".toList := by decide
  have back : endOfLine ∉ "\":".toList := by decide
  simp only [printed, List.mem_append, front, back, named, digits, or_self, not_false_eq_true]

theorem endOfLine_not_mem_stoppedText (m : ServerMetrics) : endOfLine ∉ stoppedText m := by
  have front : endOfLine ∉ stoppedStart := by decide
  have last : endOfLine ∉ [Json.closeBrace] := by decide
  intro mem
  rcases List.mem_append.mp mem with start | ends
  · rcases List.mem_append.mp start with status | counted
    · exact front status
    · obtain ⟨counter, there, printed⟩ := List.mem_flatMap.mp counted
      exact endOfLine_not_mem_printed there printed
  · exact last ends

theorem endOfLine_not_mem_startedText : endOfLine ∉ startedText := by decide

theorem endOfLine_not_mem_text (line : MetricsLine) : endOfLine ∉ line.text := by
  cases line with
  | started => exact endOfLine_not_mem_startedText
  | stopped m => exact endOfLine_not_mem_stoppedText m

namespace Bench

theorem splitlines_metricsFile (output : List MetricsLine) :
    splitlines (metricsFile output) = output.map MetricsLine.text := by
  have whole : ∀ piece ∈ output.map MetricsLine.text, endOfLine ∉ piece := by
    intro piece mem
    obtain ⟨line, -, rfl⟩ := List.mem_map.mp mem
    exact endOfLine_not_mem_text line
  have split := splitOn_delimited whole ([] : List Char)
  rw [List.append_nil] at split
  rw [splitlines, metricsFile, split]
  simp

theorem waitForMetrics_metricsFile {count : Nat} {output : List MetricsLine}
    (enough : count ≤ output.length) :
    waitForMetrics count (metricsFile output) = some (output.map MetricsLine.record) := by
  have each (line : MetricsLine) : Json.readObject line.text = some line.record := by
    rw [text_eq, Json.readObject_writeObject (record_plain line)]
  have all (output : List MetricsLine) :
      (output.map MetricsLine.text).mapM Json.readObject = some (output.map MetricsLine.record) := by
    induction output with
    | nil => rfl
    | cons line output ih => simp [each, ih]
  rw [waitForMetrics, splitlines_metricsFile, if_pos (by simpa using enough), all]

theorem withoutStatus_stopped (m : ServerMetrics) :
    withoutStatus (MetricsLine.stopped m).record = counters m := by
  have names : ∀ name ∈ serverMetricFields, name ≠ "status" := by decide
  have each : ∀ counter ∈ counters m, counter.1 ≠ "status" := fun counter there =>
    names _ (name_mem_of_mem_counters there)
  change withoutStatus ((counters m).map counterField) = counters m
  generalize counters m = all at each
  induction all with
  | nil => rfl
  | cons counter rest ih =>
    have here := each counter List.mem_cons_self
    have later := ih fun counter mem => each counter (List.mem_cons_of_mem _ mem)
    rw [withoutStatus] at later ⊢
    rw [List.map_cons, List.filterMap_cons, later]
    simp only [counterField, String.ofList_toList, if_neg here]

theorem serverMetrics_metricsFile {output : List MetricsLine} {m : ServerMetrics}
    (enough : 2 ≤ output.length) (last : output.getLast? = some (.stopped m)) :
    serverMetrics (metricsFile output) = some (counters m) := by
  rw [serverMetrics, waitForMetrics_metricsFile enough]
  simp only [List.length_map, enough, if_true, List.getLast?_map, last, Option.map_some,
    withoutStatus_stopped]

theorem lookup_counters_isSome (m : ServerMetrics) {field : String}
    (mem : field ∈ serverMetricFields) : ((counters m).lookup field).isSome := by
  rw [← counters_names m] at mem
  obtain ⟨counter, there, rfl⟩ := List.mem_map.mp mem
  rw [Option.isSome_iff_ne_none, ne_eq, List.lookup_eq_none_iff]
  exact fun empty => by simpa using empty counter there

end Bench

def Measurement.isQueueOverflow : Measurement → Bool
  | .queueOverflow => true
  | _ => false

def Measurement.isDisconnect : Measurement → Bool
  | .disconnect => true
  | _ => false

namespace ServerMetrics

theorem record_counts {m : ServerMetrics} (active : m.active = true) (measured : Measurement) :
    (m.record measured).queueOverflows =
        m.queueOverflows + (if measured.isQueueOverflow then 1 else 0) ∧
      (m.record measured).disconnects =
        m.disconnects + if measured.isDisconnect then 1 else 0 := by
  cases measured with
  | receive result =>
    cases result <;> simp [record, recordReceiveResult, active, Measurement.isQueueOverflow,
      Measurement.isDisconnect]
  | _ =>
    simp [record, recordWait, whenActive, active, Measurement.isQueueOverflow,
      Measurement.isDisconnect]

theorem accumulated_counts (tally : List Measurement) : (accumulated tally).active = true ∧
    (accumulated tally).queueOverflows = tally.countP Measurement.isQueueOverflow ∧
      (accumulated tally).disconnects = tally.countP Measurement.isDisconnect := by
  induction tally using List.reverseRecOn with
  | nil => exact ⟨rfl, rfl, rfl⟩
  | append_singleton tally measured ih =>
    obtain ⟨active, overflows, disconnects⟩ := ih
    obtain ⟨overflow, disconnect⟩ := record_counts active measured
    rw [Observed.accumulated_concat]
    refine ⟨by rw [record_active, active], ?_, ?_⟩
    · rw [overflow, overflows, List.countP_append, List.countP_singleton]
    · rw [disconnect, disconnects, List.countP_append, List.countP_singleton]

end ServerMetrics

namespace Observed

/-- What is measured for an interval, or owed to a snapshot, follows a `started` line. -/
def Announced (o : Observed) : Prop :=
  o.tally.isSome ∨ o.awaited.isSome ∨ (∃ answer ∈ o.answers, answer.isSome) →
    .started ∈ o.service.signals.output

theorem Announced.deliver {o : Observed} (h : Announced o) (signal : MetricsSignal) :
    Announced (perform (.deliver signal) o) := by
  have output : (perform (.deliver signal) o).service.signals.output =
      o.service.signals.output := by cases signal <;> rfl
  rintro (tally | awaited | answers)
  · exact output ▸ h (.inl tally)
  · simp only [perform] at awaited
    split_ifs at awaited
    · exact output ▸ h (.inl awaited)
    · exact output ▸ h (.inr (.inl awaited))
  · exact output ▸ h (.inr (.inr answers))

theorem Announced.measure {o : Observed} (h : Announced o) (measured : Measurement) :
    Announced (perform (.measure measured) o) := by
  simpa [Announced, perform, Service.measure] using h

theorem Announced.proceed {o : Observed} (h : Announced o) : Announced (perform .proceed o) := by
  obtain ⟨⟨point, signals⟩, last, settled, tally, awaited, answers⟩ := o
  cases point with
  | startReset => exact fun _ => by simp [perform, Service.proceed, MetricsSignals.restart]
  | stopWrite =>
    have before : tally.isSome ∨ awaited.isSome ∨ (∃ answer ∈ answers, answer.isSome) →
        .started ∈ signals.output := h
    simp only [Announced, perform, Service.proceed, MetricsSignals.finish, if_true,
      List.mem_append, List.mem_singleton]
    rintro (owed | empty | ⟨answer, mem, owed⟩)
    · exact .inl (before (.inl owed))
    · cases empty
    · rcases mem with old | rfl
      · exact .inl (before (.inr (.inr ⟨answer, old, owed⟩)))
      · exact .inl (before (.inr (.inl owed)))
  | outside | startTest | startClear | stopTest | stopClear => exact h

theorem announced_of_ordered {o : Observed} (h : ordered.Reachable o) : Announced o := by
  refine h.invariant (P := Announced) ?_ fun o event kept _ => ?_
  · rintro o rfl
    simp [Announced, initial]
  · cases event with
    | deliver signal => exact kept.deliver signal
    | proceed => exact kept.proceed
    | measure measured => exact kept.measure measured

/-- What the row of a trial says of overflows and disconnects is what the server has measured
between its start and its stop. -/
theorem metrics_arrive {o : Observed} (h : ordered.Reachable o) {m : ServerMetrics}
    {tally : List Measurement} (last : o.service.signals.output.getLast? = some (.stopped m))
    (answered : o.answers.getLast? = some (some tally)) {facts : Bench.TrialFacts}
    (read : facts.serverMetrics = Bench.serverMetrics (metricsFile o.service.signals.output))
    {t : Bench.Trial} {row : Bench.TrialRow} (computed : Bench.trialRow facts t = .ok row) :
    facts.serverMetrics = some (counters { ServerMetrics.accumulated tally with active := false }) ∧
      row.missing = [] ∧ row.queueOverflows = tally.countP Measurement.isQueueOverflow ∧
      row.serverDisconnects = tally.countP Measurement.isDisconnect := by
  obtain ⟨lines, output⟩ := List.getLast?_eq_some_iff.mp last
  obtain ⟨earlier, answers⟩ := List.getLast?_eq_some_iff.mp answered
  have kept := (kept_of_ordered h).counts
  have counted : m = { ServerMetrics.accumulated tally with active := false } := by
    have shown : snapshots o.service.signals.output = snapshots lines ++ [m] := by
      simp [snapshots, output, List.filterMap_append]
    rw [shown, answers, ← List.forall₂_reverse_iff, List.reverse_concat, List.reverse_concat] at kept
    exact (List.forall₂_cons.mp kept).1 tally rfl
  -- the line of the start is another one
  have enough : 2 ≤ o.service.signals.output.length := by
    have mem := announced_of_ordered h (.inr (.inr ⟨some tally, by simp [answers], rfl⟩))
    rw [output, List.mem_append] at mem
    have there : MetricsLine.started ∈ lines := mem.resolve_right (by simp)
    have positive := List.length_pos_of_mem there
    rw [output, List.length_append, List.length_singleton]
    omega
  rw [Bench.serverMetrics_metricsFile enough last] at read
  obtain ⟨-, -, -, metrics, disconnects, -⟩ := Bench.trialRow_ok computed
  obtain ⟨-, overflows, closed⟩ := ServerMetrics.accumulated_counts tally
  rw [read, Option.getD_some] at metrics disconnects
  have overflow : (counters m).lookup "queue_overflows" = some m.queueOverflows := rfl
  have disconnect : (counters m).lookup "disconnects" = some m.disconnects := rfl
  refine ⟨counted ▸ read, ?_, ?_, ?_⟩
  · refine List.filter_eq_nil_iff.mpr fun field mem => ?_
    have found := Bench.lookup_counters_isSome m mem
    rw [metrics]
    simpa [Option.isSome_iff_ne_none] using found
  · rw [Bench.TrialRow.queueOverflows, metrics, overflow, counted]
    exact overflows
  · rw [disconnects, disconnect, counted]
    exact closed

def interval : List MetricsEvent :=
  [.deliver .sigusr1] ++ List.replicate 5 .proceed ++
    [.measure (.wait 1 4096), .measure .queueOverflow, .measure .disconnect] ++
    [.deliver .sigusr2] ++ List.replicate 5 .proceed

def intervalFacts : Bench.TrialFacts where
  workload := .direct
  totalConnections := 2
  diagnosticMode := "none"
  profileStarted := false
  serverCrashed := false
  serverMetrics :=
    Bench.serverMetrics (metricsFile (machine.after initial interval).service.signals.output)

theorem metrics_arrive_interval : ∃ row, Bench.trialRow intervalFacts .initial = .ok row ∧
    row.missing = [] ∧ row.queueOverflows = 1 ∧ row.serverDisconnects = 1 := by
  have runs : ordered.Runs initial interval := by decide
  have reached : ordered.Reachable (machine.after initial interval) := ⟨initial, rfl, runs.steps⟩
  have last : (machine.after initial interval).service.signals.output.getLast? = some (.stopped
      { ServerMetrics.accumulated [.wait 1 4096, .queueOverflow, .disconnect] with
        active := false }) := by decide
  have answered : (machine.after initial interval).answers.getLast? =
      some (some [.wait 1 4096, .queueOverflow, .disconnect]) := rfl
  have read : intervalFacts.serverMetrics = Bench.serverMetrics
      (metricsFile (machine.after initial interval).service.signals.output) := rfl
  obtain ⟨row, computed⟩ : ∃ row, Bench.trialRow intervalFacts .initial = .ok row := ⟨_, rfl⟩
  exact ⟨row, computed, (metrics_arrive reached last answered read computed).2⟩

end Observed
end Partyline
