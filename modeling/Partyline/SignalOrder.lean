import Mathlib.Data.List.Forall2
import Partyline.Metrics

/-! Deliveries of the two signals among the steps of `serviceMetricsSignals`. The
two flags do not keep the order in which they were set: as long as no delivery is
overtaken by one that came after it, requests take effect in order. -/
namespace Partyline

open Library

/-- The service and an observer's notes: the signal delivered last; whether the
current or latest call began after it; what was measured since the last start
that was serviced; what the next snapshot owes to a stop that followed a serviced
start; and what each snapshot owed. -/
structure Observed where
  service : Service
  last : Option MetricsSignal
  settled : Bool
  tally : Option (List Measurement)
  awaited : Option (List Measurement)
  answers : List (Option (List Measurement))

inductive MetricsEvent where
  | deliver (signal : MetricsSignal)
  | proceed
  | measure (measured : Measurement)

def snapshots (output : List MetricsLine) : List ServerMetrics :=
  output.filterMap fun line => match line with
    | .started => none
    | .stopped metrics => some metrics

namespace Service

def deliver (s : Service) (signal : MetricsSignal) : Service :=
  { s with signals := s.signals.metricsSignalHandler signal }

def measure (s : Service) (measured : Measurement) : Service :=
  { s with signals := { s.signals with metrics := s.signals.metrics.record measured } }

/-- Whether the metrics will be active when every request pending has been serviced. -/
def outcome (s : Service) : Bool :=
  match s.point with
  | .outside | .startTest =>
    !s.signals.stopRequested && (s.signals.startRequested || s.signals.metrics.active)
  | .startClear => !s.signals.stopRequested
  | .startReset => s.signals.startRequested || !s.signals.stopRequested
  | .stopTest =>
    s.signals.startRequested || (!s.signals.stopRequested && s.signals.metrics.active)
  | .stopClear => s.signals.startRequested
  | .stopWrite => !s.signals.stopRequested && s.signals.startRequested

/-- The delivery does not overtake one before it: a start request is not set where
the call will come to it before it comes to a stop request already set, nor the
other way round. -/
def InOrder (s : Service) : MetricsSignal → Prop
  | .sigusr1 => s.signals.stopRequested = true →
      s.point = .startReset ∨ s.point = .stopTest ∨ s.point = .stopClear
  | .sigusr2 => s.signals.startRequested = true →
      s.point ≠ .startReset ∧ s.point ≠ .stopTest ∧ s.point ≠ .stopClear

instance (s : Service) : (signal : MetricsSignal) → Decidable (s.InOrder signal)
  | .sigusr1 => inferInstanceAs (Decidable (_ → _))
  | .sigusr2 => inferInstanceAs (Decidable (_ → _))

theorem proceed_outcome (s : Service) : s.proceed.outcome = s.outcome := by
  obtain ⟨point, signals⟩ := s
  cases point with
  | startTest => cases start : signals.startRequested <;> simp [proceed, outcome, start]
  | startReset => simp [proceed, outcome, MetricsSignals.restart]
  | stopTest => cases stop : signals.stopRequested <;> simp [proceed, outcome, stop]
  | stopWrite => simp [proceed, outcome, MetricsSignals.finish]
  | outside | startClear | stopClear => simp [proceed, outcome]

theorem deliver_outcome {s : Service} {signal : MetricsSignal} (order : s.InOrder signal) :
    (s.deliver signal).outcome = true ↔ signal = .sigusr1 := by
  obtain ⟨point, signals⟩ := s
  cases signal with
  | sigusr1 =>
    simp only [InOrder] at order
    cases point <;> simp_all [outcome, deliver, MetricsSignals.metricsSignalHandler]
  | sigusr2 =>
    simp only [InOrder] at order
    cases point <;> simp_all [outcome, deliver, MetricsSignals.metricsSignalHandler]

@[simp] theorem measure_outcome (s : Service) (measured : Measurement) :
    (s.measure measured).outcome = s.outcome := by
  simp [outcome, measure]

end Service

namespace Observed

def initial : Observed := ⟨.initial, none, false, none, none, []⟩

/-- The signal delivered last was a start, and it has been serviced. -/
def started (o : Observed) : Bool :=
  o.last = some .sigusr1 ∧ o.service.signals.startRequested = false ∧
    o.service.point ≠ .startReset

def perform (event : MetricsEvent) (o : Observed) : Observed :=
  match event with
  | .deliver signal =>
    { o with
      service := o.service.deliver signal
      last := some signal
      settled := false
      awaited := if signal = .sigusr2 ∧ o.started then o.tally else o.awaited }
  | .proceed =>
    { o with
      service := o.service.proceed
      settled := o.settled || o.service.point = .outside
      tally := if o.service.point = .startReset then some [] else o.tally
      awaited := if o.service.point = .stopWrite then none else o.awaited
      answers := if o.service.point = .stopWrite then o.answers ++ [o.awaited] else o.answers }
  | .measure measured =>
    { o with
      service := o.service.measure measured
      tally := o.tally.map (· ++ [measured])
      awaited := o.awaited.map (· ++ [measured]) }

/-- The server measures only outside of the call. -/
def enabled (event : MetricsEvent) (o : Observed) : Prop :=
  match event with
  | .deliver _ | .proceed => True
  | .measure _ => o.service.point = .outside

/-- The delivery, if the step is one, does not overtake another. -/
def inOrder (event : MetricsEvent) (o : Observed) : Prop :=
  match event with
  | .deliver signal => o.service.InOrder signal
  | .proceed | .measure _ => True

instance : (event : MetricsEvent) → (o : Observed) → Decidable (enabled event o)
  | .deliver _, _ | .proceed, _ => .isTrue trivial
  | .measure _, o => inferInstanceAs (Decidable (o.service.point = .outside))

instance : (event : MetricsEvent) → (o : Observed) → Decidable (inOrder event o)
  | .deliver signal, o => inferInstanceAs (Decidable (o.service.InOrder signal))
  | .proceed, _ | .measure _, _ => .isTrue trivial

def machine : Transition Observed MetricsEvent where
  init o := o = initial
  enabled := enabled
  perform := perform

def ordered : Transition Observed MetricsEvent where
  init o := o = initial
  enabled event o := enabled event o ∧ inOrder event o
  perform := perform

instance (event : MetricsEvent) (o : Observed) : Decidable (machine.enabled event o) :=
  inferInstanceAs (Decidable (enabled event o))

instance (event : MetricsEvent) (o : Observed) : Decidable (ordered.enabled event o) :=
  inferInstanceAs (Decidable (enabled event o ∧ inOrder event o))

/-- Requests have taken effect in order. -/
structure InEffect (o : Observed) : Prop where
  active : o.service.point = .outside → o.settled = true →
    (o.service.signals.metrics.active = true ↔ o.last = some .sigusr1)
  answered : o.service.point = .outside → o.settled = true → o.awaited = none
  counts : List.Forall₂ (fun metrics awaited => ∀ tally, awaited = some tally →
      metrics = { ServerMetrics.accumulated tally with active := false })
    (snapshots o.service.signals.output) o.answers

/-- What every step keeps as long as deliveries stay in order. -/
structure Kept (o : Observed) : Prop where
  outcome : o.service.outcome = true ↔ o.last = some .sigusr1
  tally : o.service.signals.metrics.active = true →
    ∃ tally, o.tally = some tally ∧ o.service.signals.metrics = .accumulated tally
  awaited : ∀ tally, o.awaited = some tally →
    o.tally = some tally ∧ o.service.signals.metrics.active = true ∧
      match o.service.point with
      | .outside | .startTest => o.service.signals.startRequested = false ∧
          o.service.signals.stopRequested = true
      | .startClear | .startReset => False
      | .stopTest => o.service.signals.stopRequested = true
      | .stopClear | .stopWrite => True
  clearing : o.service.point = .startClear → o.service.signals.startRequested = true
  settled : o.settled = true →
    match o.service.point with
    | .outside | .stopWrite => o.service.signals.startRequested = false ∧
        o.service.signals.stopRequested = false
    | .startTest | .startClear => True
    | .startReset | .stopTest | .stopClear => o.service.signals.startRequested = false
  counts : List.Forall₂ (fun metrics awaited => ∀ tally, awaited = some tally →
      metrics = { ServerMetrics.accumulated tally with active := false })
    (snapshots o.service.signals.output) o.answers

theorem Kept.inEffect {o : Observed} (h : Kept o) : InEffect o where
  active outside settled := by
    have clear := h.settled settled
    rw [outside] at clear
    rw [← h.outcome, Service.outcome, outside]
    simp [clear]
  answered outside settled := by
    have clear := h.settled settled
    rw [outside] at clear
    by_contra awaits
    obtain ⟨tally, awaited⟩ := Option.ne_none_iff_exists'.mp awaits
    obtain ⟨-, -, pending⟩ := h.awaited tally awaited
    rw [outside] at pending
    simp [clear.2] at pending
  counts := h.counts

theorem kept_initial : Kept initial :=
  ⟨by decide, by decide, by simp [initial], by decide, by simp [initial], .nil⟩

/-- A stop that follows a serviced start finds the metrics active, and will be
serviced before any later start. -/
theorem Kept.of_started {o : Observed} (h : Kept o) (started : o.started = true) :
    o.service.signals.metrics.active = true ∧ o.service.signals.startRequested = false ∧
      (o.service.point = .outside ∨ o.service.point = .startTest ∨ o.service.point = .stopTest) := by
  simp only [Observed.started, Bool.decide_and, Bool.and_eq_true, decide_eq_true_eq] at started
  obtain ⟨last, serviced, elsewhere⟩ := started
  have outcome := h.outcome.mpr last
  have clearing := h.clearing
  cases point : o.service.point with
  | outside | startTest | stopTest =>
    rw [Service.outcome, point] at outcome
    simp_all
  | startClear => simp_all
  | startReset => exact (elsewhere point).elim
  | stopClear | stopWrite =>
    rw [Service.outcome, point] at outcome
    simp_all

theorem Kept.deliver {o : Observed} (h : Kept o) {signal : MetricsSignal}
    (order : o.service.InOrder signal) : Kept (perform (.deliver signal) o) where
  outcome := by
    simp only [perform, Service.deliver_outcome order, Option.some.injEq]
  tally := by
    cases signal <;> exact h.tally
  awaited := by
    intro tally awaited
    cases signal with
    | sigusr1 =>
      obtain ⟨same, active, pending⟩ := h.awaited tally awaited
      refine ⟨same, active, ?_⟩
      cases point : o.service.point <;> rw [point] at pending <;>
        simp_all [perform, Service.deliver, Service.InOrder, MetricsSignals.metricsSignalHandler]
    | sigusr2 =>
      by_cases started : o.started = true
      · obtain ⟨active, serviced, point⟩ := h.of_started started
        simp only [perform, started, and_self, if_true] at awaited
        refine ⟨awaited, active, ?_⟩
        rcases point with point | point | point <;>
          simp [perform, Service.deliver, MetricsSignals.metricsSignalHandler, point, serviced]
      · have unchanged : o.awaited = some tally := by simpa [perform, started] using awaited
        obtain ⟨same, active, pending⟩ := h.awaited tally unchanged
        refine ⟨same, active, ?_⟩
        cases point : o.service.point <;> rw [point] at pending <;>
          simp_all [perform, Service.deliver, MetricsSignals.metricsSignalHandler]
  clearing := by
    intro point
    have start := h.clearing point
    cases signal <;> simp [perform, Service.deliver, MetricsSignals.metricsSignalHandler, start]
  settled := by simp [perform]
  counts := by
    cases signal <;> exact h.counts

theorem accumulated_concat (tally : List Measurement) (measured : Measurement) :
    ServerMetrics.accumulated (tally ++ [measured]) =
      (ServerMetrics.accumulated tally).record measured := by
  rw [ServerMetrics.accumulated, List.foldl_append]
  rfl

theorem Kept.measure {o : Observed} (h : Kept o) (outside : o.service.point = .outside)
    (measured : Measurement) : Kept (perform (.measure measured) o) where
  outcome := by
    simp only [perform, Service.measure_outcome]
    exact h.outcome
  tally := by
    intro active
    simp only [perform, Service.measure, ServerMetrics.record_active] at active
    obtain ⟨tally, same, counted⟩ := h.tally active
    exact ⟨tally ++ [measured], by simp [perform, same],
      by simp [perform, Service.measure, counted, accumulated_concat]⟩
  awaited := by
    intro tally awaited
    obtain ⟨before, awaits, rfl⟩ := Option.map_eq_some_iff.mp awaited
    obtain ⟨same, active, pending⟩ := h.awaited before awaits
    refine ⟨by simp [perform, same], by simpa [perform, Service.measure] using active, ?_⟩
    rw [outside] at pending
    simpa [perform, Service.measure, outside] using pending
  clearing := h.clearing
  settled := h.settled
  counts := h.counts

theorem Kept.proceed {o : Observed} (h : Kept o) : Kept (perform .proceed o) := by
  obtain ⟨⟨point, signals⟩, last, settled, tally, awaited, answers⟩ := o
  have clearing := h.clearing
  have clear := h.settled
  refine ⟨?_, ?_, ?_, ?_, ?_, ?_⟩
  · simp only [perform, Service.proceed_outcome]
    exact h.outcome
  · cases point with
    | startReset => exact fun _ => ⟨[], rfl, rfl⟩
    | stopWrite => simp [perform, Service.proceed, MetricsSignals.finish]
    | outside | startTest | startClear | stopTest | stopClear => exact h.tally
  · intro counted awaits
    have owed := h.awaited counted
    cases point with
    | stopWrite => simp [perform] at awaits
    | startTest | stopTest =>
      obtain ⟨same, active, pending⟩ := owed awaits
      refine ⟨same, active, ?_⟩
      simp_all [perform, Service.proceed]
    | startReset | startClear => exact (owed awaits).2.2.elim
    | outside | stopClear =>
      obtain ⟨same, active, pending⟩ := owed awaits
      exact ⟨same, active, pending⟩
  · cases point with
    | startTest =>
      intro reached
      simpa [perform, Service.proceed] using reached
    | stopTest =>
      intro reached
      simp only [perform, Service.proceed] at reached
      split_ifs at reached
    | outside | startClear | startReset | stopClear | stopWrite =>
      intro reached
      cases reached
  · intro now
    cases point with
    | startTest | stopTest =>
      have known := clear (by simpa [perform] using now)
      simp only [perform, Service.proceed]
      split_ifs <;> simp_all
    | outside => trivial
    | startClear => rfl
    | startReset | stopClear | stopWrite =>
      have known := clear (by simpa [perform] using now)
      simp_all [perform, Service.proceed, MetricsSignals.restart, MetricsSignals.finish]
  · cases point with
    | stopWrite =>
      have written : snapshots (signals.output ++ [.stopped { signals.metrics with active := false }]) =
          snapshots signals.output ++ [{ signals.metrics with active := false }] := by
        simp [snapshots]
      simp only [perform, if_true, Service.proceed, MetricsSignals.finish, written]
      refine List.rel_append h.counts (.cons (fun owed awaits => ?_) .nil)
      obtain ⟨same, active, -⟩ := h.awaited owed awaits
      obtain ⟨since, same', counted⟩ := h.tally active
      obtain rfl : owed = since := Option.some.inj (same.symm.trans same')
      rw [← counted]
    | startReset =>
      have written : snapshots (signals.output ++ [.started]) = snapshots signals.output := by
        simp [snapshots]
      simp only [perform, reduceCtorEq, if_false, Service.proceed, MetricsSignals.restart, written]
      exact h.counts
    | outside | startTest | startClear | stopTest | stopClear => exact h.counts

theorem kept_of_ordered {o : Observed} (h : ordered.Reachable o) : Kept o := by
  refine h.invariant (P := Kept) ?_ fun o event kept allowed => ?_
  · rintro o rfl
    exact kept_initial
  · cases event with
    | deliver signal => exact kept.deliver allowed.2
    | proceed => exact kept.proceed
    | measure measured => exact kept.measure allowed.1 measured

theorem proceeds (o : Observed) (steps : Nat) : ∃ t, machine.Steps o t ∧
    t.service = Service.proceed^[steps] o.service ∧ t.last = o.last ∧
      (o.settled = true → t.settled = true) := by
  induction steps generalizing o with
  | zero => exact ⟨o, .refl o, rfl, rfl, id⟩
  | succ steps ih =>
    obtain ⟨t, path, service, last, settled⟩ := ih (perform .proceed o)
    exact ⟨t, .cons (M := machine) .proceed trivial path, service, last,
      fun before => settled (by simp [perform, before])⟩

theorem proceed_iterate_outcome (s : Service) (steps : Nat) :
    (Service.proceed^[steps] s).outcome = s.outcome := by
  induction steps generalizing s with
  | zero => rfl
  | succ steps ih => rw [Function.iterate_succ_apply, ih, Service.proceed_outcome]

theorem settles (o : Observed) : ∃ t, machine.Steps o t ∧ t.service.point = .outside ∧
    t.settled = true ∧ t.last = o.last ∧
      t.service.signals.metrics.active = o.service.outcome := by
  obtain ⟨first, returned⟩ := Service.proceed_returns o.service
  obtain ⟨t, path, service, last, -⟩ := proceeds o first
  have outside : t.service.point = .outside := by rw [service, returned]
  have whole : t.service = ⟨.outside, t.service.signals⟩ := by rw [← outside]
  obtain ⟨steps, served⟩ := Service.proceed_serviceMetricsSignals t.service.signals
  obtain ⟨u, rest, service', last', settled⟩ := proceeds (perform .proceed t) steps
  have result : u.service = ⟨.outside, t.service.signals.serviceMetricsSignals⟩ := by
    rw [service', ← served, ← whole]
    rfl
  refine ⟨u, path.trans (.cons (M := machine) .proceed trivial rest), by rw [result],
    settled (by simp [perform, outside]), last'.trans last, ?_⟩
  have outcome : u.service.outcome = o.service.outcome := by
    rw [service', proceed_iterate_outcome]
    change t.service.proceed.outcome = _
    rw [Service.proceed_outcome, service, proceed_iterate_outcome]
  rw [← outcome, result]
  simp [Service.outcome]

theorem overtaken_outcome {s : Service} {signal : MetricsSignal} (late : ¬ s.InOrder signal) :
    ¬ ((s.deliver signal).outcome = true ↔ signal = .sigusr1) := by
  obtain ⟨point, signals⟩ := s
  cases signal with
  | sigusr1 =>
    simp only [Service.InOrder] at late
    cases point <;>
      simp_all [Service.outcome, Service.deliver, MetricsSignals.metricsSignalHandler]
  | sigusr2 =>
    simp only [Service.InOrder] at late
    cases point <;>
      simp_all [Service.outcome, Service.deliver, MetricsSignals.metricsSignalHandler]

/-- Requests take effect in order as long as no delivery overtakes another, and
after one that does they need not. -/
theorem requests_in_order {o : Observed} (h : ordered.Reachable o) :
    InEffect o ∧ ∀ signal, ¬ o.service.InOrder signal →
      ∃ t, machine.Steps (perform (.deliver signal) o) t ∧ ¬ InEffect t := by
  refine ⟨(kept_of_ordered h).inEffect, fun signal late => ?_⟩
  obtain ⟨t, path, outside, settled, last, active⟩ := settles (perform (.deliver signal) o)
  refine ⟨t, path, fun inEffect => overtaken_outcome late ?_⟩
  have same := inEffect.active outside settled
  rw [active, last] at same
  simpa [perform] using same

/-- An interval is started and something is measured; then a stop and a start
arrive before the next call. -/
def stopThenStart : List MetricsEvent :=
  [.deliver .sigusr1] ++ List.replicate 5 .proceed ++ [.measure (.wait 1 4096)] ++
    [.deliver .sigusr2, .deliver .sigusr1] ++ List.replicate 7 .proceed

def stopServiceStart : List MetricsEvent :=
  [.deliver .sigusr1] ++ List.replicate 5 .proceed ++ [.measure (.wait 1 4096)] ++
    [.deliver .sigusr2] ++ List.replicate 5 .proceed ++ [.deliver .sigusr1] ++
      List.replicate 5 .proceed

theorem stopThenStart_not_inEffect :
    let o := machine.after initial stopThenStart
    machine.Reachable o ∧ o.service.point = .outside ∧ o.settled = true ∧
      o.last = some .sigusr1 ∧ o.service.signals.metrics.active = false ∧
      snapshots o.service.signals.output = [.empty] ∧ o.answers = [some [.wait 1 4096]] ∧
      ¬ InEffect o := by
  intro o
  have runs : machine.Runs initial stopThenStart := by decide
  have outside : o.service.point = .outside := by decide
  have settled : o.settled = true := by decide
  have last : o.last = some .sigusr1 := by decide
  have inactive : o.service.signals.metrics.active = false := by decide
  refine ⟨⟨initial, rfl, runs.steps⟩, outside, settled, last, inactive, by decide, rfl,
    fun inEffect => ?_⟩
  have active := (inEffect.active outside settled).mpr last
  rw [inactive] at active
  cases active

theorem stopServiceStart_inEffect :
    let o := machine.after initial stopServiceStart
    InEffect o ∧ o.service.signals.metrics.active = true ∧
      snapshots o.service.signals.output =
        [{ ServerMetrics.accumulated [.wait 1 4096] with active := false }] := by
  have runs : ordered.Runs initial stopServiceStart := by decide
  have reached : ordered.Reachable (machine.after initial stopServiceStart) :=
    ⟨initial, rfl, runs.steps⟩
  exact ⟨(requests_in_order reached).1, by decide, by decide⟩

end Observed

end Partyline
