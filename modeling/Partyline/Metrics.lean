import Mathlib.Logic.Function.Iterate
import Partyline.Library.Transition
import Partyline.ServerCommon

/-! `ServerMetrics` and the two signals that start and stop an interval of
measurement. A signal may be delivered between any two steps of
`serviceMetricsSignals`, which reads and clears each flag in a step of its own. -/
namespace Partyline

open Library

structure ServerMetrics where
  active : Bool
  waitCalls : Nat
  totalEvents : Nat
  fullEventBatches : Nat
  epollCtlAdd : Nat
  epollCtlMod : Nat
  epollCtlDel : Nat
  immediateWriteSuccesses : Nat
  partialWrites : Nat
  sendCalls : Nat
  recvCalls : Nat
  sendEagain : Nat
  recvEagain : Nat
  bytesRead : Nat
  bytesWritten : Nat
  queueOverflows : Nat
  disconnects : Nat
  queueHighWaterBytes : Nat
  queueHighWaterMessages : Nat
  eventsPerWait : List Nat
deriving DecidableEq

/-- What the server measures, as the calls and branches that count it. -/
inductive Measurement where
  | wait (ready maxevents : Nat)
  | epollCtlAdd
  | epollCtlMod
  | epollCtlDel
  | receive (result : RecvResult)
  | sendCall
  | sendEagain
  | written (count bytesToSend : Nat)
  | immediateWrite
  | queueOverflow
  | highWater (bytes messages : Nat)
  | disconnect

namespace ServerMetrics

/-- `ServerMetrics{}`. -/
def empty : ServerMetrics where
  active := false
  waitCalls := 0
  totalEvents := 0
  fullEventBatches := 0
  epollCtlAdd := 0
  epollCtlMod := 0
  epollCtlDel := 0
  immediateWriteSuccesses := 0
  partialWrites := 0
  sendCalls := 0
  recvCalls := 0
  sendEagain := 0
  recvEagain := 0
  bytesRead := 0
  bytesWritten := 0
  queueOverflows := 0
  disconnects := 0
  queueHighWaterBytes := 0
  queueHighWaterMessages := 0
  eventsPerWait := []

def reset (m : ServerMetrics) : ServerMetrics := { empty with active := m.active }

def recordWait (m : ServerMetrics) (ready maxevents : Nat) : ServerMetrics :=
  if m.active = false then m
  else
    let eventsPerWait := m.eventsPerWait ++ List.replicate (ready + 1 - m.eventsPerWait.length) 0
    { m with
      waitCalls := m.waitCalls + 1
      totalEvents := m.totalEvents + ready
      fullEventBatches := if ready = maxevents then m.fullEventBatches + 1 else m.fullEventBatches
      eventsPerWait := eventsPerWait.modify ready (· + 1) }

def recordReceiveResult (m : ServerMetrics) (result : RecvResult) : ServerMetrics :=
  if m.active = false then m
  else
    let m := { m with recvCalls := m.recvCalls + 1 }
    match result with
    | .received chunk _ => { m with bytesRead := m.bytesRead + chunk.length }
    | .eagain => { m with recvEagain := m.recvEagain + 1 }
    | .eintr | .error _ => m

/-- `if (metrics.active)`. -/
def whenActive (m counted : ServerMetrics) : ServerMetrics :=
  if m.active = false then m else counted

def record (m : ServerMetrics) : Measurement → ServerMetrics
  | .wait ready maxevents => m.recordWait ready maxevents
  | .epollCtlAdd => m.whenActive { m with epollCtlAdd := m.epollCtlAdd + 1 }
  | .epollCtlMod => m.whenActive { m with epollCtlMod := m.epollCtlMod + 1 }
  | .epollCtlDel => m.whenActive { m with epollCtlDel := m.epollCtlDel + 1 }
  | .receive result => m.recordReceiveResult result
  | .sendCall => m.whenActive { m with sendCalls := m.sendCalls + 1 }
  | .sendEagain => m.whenActive { m with sendEagain := m.sendEagain + 1 }
  | .written count bytesToSend =>
    m.whenActive { m with
      bytesWritten := m.bytesWritten + count
      partialWrites := if count < bytesToSend then m.partialWrites + 1 else m.partialWrites }
  | .immediateWrite =>
    m.whenActive { m with immediateWriteSuccesses := m.immediateWriteSuccesses + 1 }
  | .queueOverflow => m.whenActive { m with queueOverflows := m.queueOverflows + 1 }
  | .highWater bytes messages =>
    m.whenActive { m with
      queueHighWaterBytes := max m.queueHighWaterBytes bytes
      queueHighWaterMessages := max m.queueHighWaterMessages messages }
  | .disconnect => m.whenActive { m with disconnects := m.disconnects + 1 }

theorem record_inactive {m : ServerMetrics} (inactive : m.active = false)
    (measured : Measurement) : m.record measured = m := by
  cases measured <;> simp [record, recordWait, recordReceiveResult, whenActive, inactive]

@[simp] theorem record_active (m : ServerMetrics) (measured : Measurement) :
    (m.record measured).active = m.active := by
  cases active : m.active with
  | false => rw [record_inactive active, active]
  | true =>
    cases measured with
    | receive result => cases result <;> simp [record, recordReceiveResult, active]
    | _ => simp [record, recordWait, whenActive, active]

def accumulated (tally : List Measurement) : ServerMetrics :=
  tally.foldl record { empty with active := true }

end ServerMetrics

/-- What `appendMetrics` writes. The `stopped` line prints the counters of its record. -/
inductive MetricsLine where
  | started
  | stopped (metrics : ServerMetrics)
deriving DecidableEq

inductive MetricsSignal where
  | sigusr1
  | sigusr2
deriving DecidableEq

structure MetricsSignals where
  startRequested : Bool
  stopRequested : Bool
  metrics : ServerMetrics
  output : List MetricsLine
deriving DecidableEq

namespace MetricsSignals

def initial : MetricsSignals := ⟨false, false, .empty, []⟩

def metricsSignalHandler (s : MetricsSignals) : MetricsSignal → MetricsSignals
  | .sigusr1 => { s with startRequested := true }
  | .sigusr2 => { s with stopRequested := true }

def restart (s : MetricsSignals) : MetricsSignals :=
  let metrics := { s.metrics with active := false }
  { s with metrics := { metrics.reset with active := true }, output := s.output ++ [.started] }

def finish (s : MetricsSignals) : MetricsSignals :=
  let metrics := { s.metrics with active := false }
  { s with metrics, output := s.output ++ [.stopped metrics] }

/-- The function when no signal is delivered while it runs. -/
def serviceMetricsSignals (s : MetricsSignals) : MetricsSignals :=
  let s := if s.startRequested then restart { s with startRequested := false } else s
  if s.stopRequested = false then s
  else finish { s with stopRequested := false }

@[simp] theorem serviceMetricsSignals_startRequested (s : MetricsSignals) :
    s.serviceMetricsSignals.startRequested = false := by
  cases start : s.startRequested <;> cases stop : s.stopRequested <;>
    simp [serviceMetricsSignals, restart, finish, start, stop]

@[simp] theorem serviceMetricsSignals_stopRequested (s : MetricsSignals) :
    s.serviceMetricsSignals.stopRequested = false := by
  cases start : s.startRequested <;> cases stop : s.stopRequested <;>
    simp [serviceMetricsSignals, restart, finish, start, stop]

end MetricsSignals

/-- How far a call of `serviceMetricsSignals` has come. -/
inductive ServicePoint where
  | outside
  | startTest
  | startClear
  | startReset
  | stopTest
  | stopClear
  | stopWrite
deriving DecidableEq

structure Service where
  point : ServicePoint
  signals : MetricsSignals
deriving DecidableEq

namespace Service

def initial : Service := ⟨.outside, .initial⟩

def proceed (s : Service) : Service :=
  match s.point with
  | .outside => { s with point := .startTest }
  | .startTest => { s with point := if s.signals.startRequested then .startClear else .stopTest }
  | .startClear => ⟨.startReset, { s.signals with startRequested := false }⟩
  | .startReset => ⟨.stopTest, s.signals.restart⟩
  | .stopTest => { s with point := if s.signals.stopRequested = false then .outside else .stopClear }
  | .stopClear => ⟨.stopWrite, { s.signals with stopRequested := false }⟩
  | .stopWrite => ⟨.outside, s.signals.finish⟩

theorem proceed_serviceMetricsSignals (s : MetricsSignals) :
    ∃ steps, proceed^[steps + 1] ⟨.outside, s⟩ = ⟨.outside, s.serviceMetricsSignals⟩ := by
  cases start : s.startRequested <;> cases stop : s.stopRequested
  · exact ⟨2, by simp [proceed, MetricsSignals.serviceMetricsSignals, start, stop]⟩
  · exact ⟨4, by simp [proceed, MetricsSignals.serviceMetricsSignals, start, stop]⟩
  · exact ⟨4, by simp [proceed, MetricsSignals.serviceMetricsSignals, MetricsSignals.restart, start,
      stop]⟩
  · exact ⟨6, by simp [proceed, MetricsSignals.serviceMetricsSignals, MetricsSignals.restart, start,
      stop]⟩

theorem proceed_returns (s : Service) : ∃ steps, (proceed^[steps] s).point = .outside := by
  obtain ⟨point, signals⟩ := s
  have next {s : Service} (later : ∃ steps, (proceed^[steps] s.proceed).point = .outside) :
      ∃ steps, (proceed^[steps] s).point = .outside := by
    obtain ⟨steps, returned⟩ := later
    exact ⟨steps + 1, returned⟩
  have stopWrite (signals : MetricsSignals) :
      ∃ steps, (proceed^[steps] ⟨.stopWrite, signals⟩).point = .outside := ⟨1, rfl⟩
  have stopClear (signals : MetricsSignals) :
      ∃ steps, (proceed^[steps] ⟨.stopClear, signals⟩).point = .outside := next (stopWrite _)
  have stopTest (signals : MetricsSignals) :
      ∃ steps, (proceed^[steps] ⟨.stopTest, signals⟩).point = .outside := by
    refine next ?_
    simp only [proceed]
    split_ifs
    · exact ⟨0, rfl⟩
    · exact stopClear signals
  have startClear (signals : MetricsSignals) :
      ∃ steps, (proceed^[steps] ⟨.startClear, signals⟩).point = .outside :=
    next (next (stopTest _))
  cases point with
  | outside => exact ⟨0, rfl⟩
  | startTest =>
    refine next ?_
    simp only [proceed]
    split_ifs
    · exact startClear signals
    · exact stopTest signals
  | startClear => exact startClear signals
  | startReset => exact next (stopTest _)
  | stopTest => exact stopTest signals
  | stopClear => exact stopClear signals
  | stopWrite => exact stopWrite signals

end Service

end Partyline
