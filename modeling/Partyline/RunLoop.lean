import Partyline.Metrics

/-! The loop of `run` with its signals. The loop tests for a signal and then waits
without a timeout; one delivered between the test and the wait goes unseen until
something else ends the wait. -/
namespace Partyline

open Library

inductive ProcessSignal where
  | sigint
  | sigterm
  | metrics (signal : MetricsSignal)
deriving DecidableEq

/-- What the loop does next, or that it is blocked inside of `wait`. -/
inductive LoopPoint where
  | test
  | service
  | enterWait
  | blocked
  | interrupted
  | batch
  | leaving
  | returned
deriving DecidableEq

/-- `ready`: some descriptor is ready. -/
structure ServerLoop where
  point : LoopPoint
  shutdownSignal : Nat
  signals : MetricsSignals
  ready : Bool
deriving DecidableEq

/-- `arrive` makes a descriptor ready; `handled` is the end of a batch, after which
`still` says whether a descriptor is ready; `waitFailed` is any error but EINTR. -/
inductive LoopEvent where
  | deliver (signal : ProcessSignal)
  | arrive
  | proceed
  | handled (events maxevents : Nat) (still : Bool)
  | waitFailed
deriving DecidableEq

namespace ServerLoop

def initial : ServerLoop := ⟨.test, 0, .initial, false⟩

/-- `handleShutdown` and `metricsSignalHandler`. -/
def handler (s : ServerLoop) : ProcessSignal → ServerLoop
  | .sigint => { s with shutdownSignal := 2 }
  | .sigterm => { s with shutdownSignal := 15 }
  | .metrics signal => { s with signals := s.signals.metricsSignalHandler signal }

/-- A delivery to a blocked `wait` that has nothing to return makes it fail with EINTR. -/
def deliver (s : ServerLoop) (signal : ProcessSignal) : ServerLoop :=
  let s := s.handler signal
  if s.point = .blocked ∧ s.ready = false then { s with point := .interrupted } else s

def proceed (s : ServerLoop) : ServerLoop :=
  match s.point with
  | .test => { s with point := if s.shutdownSignal = 0 then .service else .leaving }
  | .service => { s with point := .enterWait, signals := s.signals.serviceMetricsSignals }
  | .enterWait => { s with point := if s.ready then .batch else .blocked }
  | .blocked => { s with point := .batch }
  | .interrupted => { s with point := .test, signals := s.signals.serviceMetricsSignals }
  | .leaving => { s with point := .returned, signals := s.signals.serviceMetricsSignals }
  | .batch | .returned => s

def perform (event : LoopEvent) (s : ServerLoop) : ServerLoop :=
  match event with
  | .deliver signal => s.deliver signal
  | .arrive => { s with ready := true }
  | .proceed => s.proceed
  | .handled events maxevents still =>
    { s with
      point := .test
      signals := { s.signals with metrics := s.signals.metrics.record (.wait events maxevents) }
      ready := still }
  | .waitFailed => { s with point := .returned }

def enabled (event : LoopEvent) (s : ServerLoop) : Prop :=
  match event with
  | .deliver _ | .arrive => True
  | .proceed =>
    s.point ≠ .batch ∧ s.point ≠ .returned ∧ (s.point = .blocked → s.ready = true)
  | .handled _ _ _ => s.point = .batch
  | .waitFailed => s.point = .enterWait ∨ s.point = .blocked

instance (event : LoopEvent) (s : ServerLoop) : Decidable (enabled event s) := by
  cases event <;> unfold enabled <;> infer_instance

/-- A request that the loop has not acted on. -/
def pending (s : ServerLoop) : Prop :=
  s.shutdownSignal ≠ 0 ∨ s.signals.startRequested = true ∨ s.signals.stopRequested = true

/-- The loop does not sleep on a request. -/
def Awake (s : ServerLoop) : Prop :=
  s.point = .blocked → s.ready = false → ¬ s.pending

/-- A delivery here comes too late for the test of its flag and too early for `wait`. -/
def inWindow (s : ServerLoop) : ProcessSignal → Prop
  | .sigint | .sigterm => s.point = .service ∨ s.point = .enterWait
  | .metrics _ => s.point = .enterWait

instance (s : ServerLoop) : (signal : ProcessSignal) → Decidable (s.inWindow signal)
  | .sigint | .sigterm => inferInstanceAs (Decidable (_ ∨ _))
  | .metrics _ => inferInstanceAs (Decidable (_ = _))

end ServerLoop

structure WatchedLoop where
  loop : ServerLoop
  late : Bool
deriving DecidableEq

namespace WatchedLoop

def perform (event : LoopEvent) (w : WatchedLoop) : WatchedLoop where
  loop := w.loop.perform event
  late := match event with
    | .deliver signal => w.late || w.loop.inWindow signal
    | .proceed => w.late && w.loop.point ≠ .test
    | .arrive | .handled _ _ _ | .waitFailed => w.late

/-- The iteration does not enter a wait that will block, after a signal in its window. -/
def punctual (event : LoopEvent) (w : WatchedLoop) : Prop :=
  event = .proceed → w.loop.point = .enterWait → w.loop.ready = false → w.late = false

instance (event : LoopEvent) (w : WatchedLoop) : Decidable (punctual event w) :=
  inferInstanceAs (Decidable (_ → _))

def initial : WatchedLoop := ⟨.initial, false⟩

def machine : Transition WatchedLoop LoopEvent where
  init w := w = initial
  enabled event w := w.loop.enabled event
  perform := perform

/-- The runs in which no signal in the window precedes a wait that blocks. -/
def punctually : Transition WatchedLoop LoopEvent where
  init w := w = initial
  enabled event w := w.loop.enabled event ∧ punctual event w
  perform := perform

instance (event : LoopEvent) (w : WatchedLoop) : Decidable (machine.enabled event w) :=
  inferInstanceAs (Decidable (w.loop.enabled event))

instance (event : LoopEvent) (w : WatchedLoop) : Decidable (punctually.enabled event w) :=
  inferInstanceAs (Decidable (w.loop.enabled event ∧ punctual event w))

structure Kept (w : WatchedLoop) : Prop where
  service : w.loop.point = .service → (w.loop.shutdownSignal ≠ 0 ↔ w.late = true)
  enterWait : w.loop.point = .enterWait → (w.loop.pending ↔ w.late = true)
  awake : w.loop.Awake

theorem kept_initial : Kept initial :=
  ⟨by simp [initial, ServerLoop.initial], by simp [initial, ServerLoop.initial],
    by simp [initial, ServerLoop.Awake, ServerLoop.initial]⟩

theorem handler_pending (s : ServerLoop) (signal : ProcessSignal) : (s.handler signal).pending := by
  cases signal with
  | sigint | sigterm => exact Or.inl (by simp [ServerLoop.handler])
  | metrics signal =>
    cases signal with
    | sigusr1 => exact Or.inr (Or.inl rfl)
    | sigusr2 => exact Or.inr (Or.inr rfl)

@[simp] theorem handler_point (s : ServerLoop) (signal : ProcessSignal) :
    (s.handler signal).point = s.point := by
  cases signal <;> rfl

@[simp] theorem handler_ready (s : ServerLoop) (signal : ProcessSignal) :
    (s.handler signal).ready = s.ready := by
  cases signal <;> rfl

theorem deliver_awake (s : ServerLoop) (signal : ProcessSignal) : (s.deliver signal).Awake := by
  intro blocked quiet
  by_cases asleep : s.point = .blocked ∧ s.ready = false
  · simp [ServerLoop.deliver, asleep] at blocked
  · simp only [ServerLoop.deliver, handler_point, handler_ready, asleep, if_false] at blocked quiet
    exact (asleep ⟨blocked, quiet⟩).elim

theorem deliver_elsewhere {s : ServerLoop} (elsewhere : s.point ≠ .blocked)
    (signal : ProcessSignal) : s.deliver signal = s.handler signal := by
  simp [ServerLoop.deliver, elsewhere]

theorem deliver_point {s : ServerLoop} {signal : ProcessSignal} {point : LoopPoint}
    (reached : (s.deliver signal).point = point) (running : point ≠ .interrupted) :
    s.point = point := by
  by_cases asleep : s.point = .blocked ∧ s.ready = false
  · simp only [ServerLoop.deliver, handler_point, handler_ready, asleep, and_self, if_true]
      at reached
    exact (running reached.symm).elim
  · simpa [ServerLoop.deliver, asleep] using reached

theorem Kept.deliver {w : WatchedLoop} (h : Kept w) (signal : ProcessSignal) :
    Kept (perform (.deliver signal) w) where
  service := by
    intro reached
    have point : w.loop.point = .service := deliver_point reached (by decide)
    have before := h.service point
    simp only [perform, ServerLoop.perform, deliver_elsewhere (by simp [point] : w.loop.point ≠ _)]
    cases signal with
    | sigint | sigterm => simp [ServerLoop.handler, ServerLoop.inWindow, point]
    | metrics signal => simpa [ServerLoop.handler, ServerLoop.inWindow, point] using before
  enterWait := by
    intro reached
    have point : w.loop.point = .enterWait := deliver_point reached (by decide)
    have inWindow : w.loop.inWindow signal := by cases signal <;> simp [ServerLoop.inWindow, point]
    simp only [perform, ServerLoop.perform, deliver_elsewhere (by simp [point] : w.loop.point ≠ _),
      handler_pending, inWindow, decide_true, Bool.or_true]
  awake := deliver_awake w.loop signal

theorem Kept.proceed {w : WatchedLoop} (h : Kept w) (allowed : punctual .proceed w) :
    Kept (perform .proceed w) := by
  obtain ⟨⟨point, shutdownSignal, signals, ready⟩, late⟩ := w
  cases point with
  | test =>
    by_cases running : shutdownSignal = 0
    · exact ⟨by simp [perform, ServerLoop.perform, ServerLoop.proceed, running],
        by simp [perform, ServerLoop.perform, ServerLoop.proceed, running],
        by simp [perform, ServerLoop.perform, ServerLoop.proceed, running, ServerLoop.Awake]⟩
    · exact ⟨by simp [perform, ServerLoop.perform, ServerLoop.proceed, running],
        by simp [perform, ServerLoop.perform, ServerLoop.proceed, running],
        by simp [perform, ServerLoop.perform, ServerLoop.proceed, running, ServerLoop.Awake]⟩
  | service =>
    refine ⟨nofun, fun _ => ?_, nofun⟩
    have before := h.service rfl
    simpa [perform, ServerLoop.perform, ServerLoop.proceed, ServerLoop.pending] using before
  | enterWait =>
    have before := h.enterWait rfl
    have onTime : ready = false → late = false := allowed rfl rfl
    cases ready with
    | true => exact ⟨nofun, nofun, nofun⟩
    | false =>
      refine ⟨nofun, nofun, fun _ _ pending => ?_⟩
      have served := before.mp pending
      rw [onTime rfl] at served
      cases served
  | batch | returned => exact ⟨nofun, nofun, nofun⟩
  | blocked | interrupted | leaving => exact ⟨nofun, nofun, nofun⟩

theorem kept_of_punctually {w : WatchedLoop} (h : punctually.Reachable w) : Kept w := by
  refine h.invariant (P := Kept) ?_ fun w event kept allowed => ?_
  · rintro w rfl
    exact kept_initial
  · cases event with
    | deliver signal => exact kept.deliver signal
    | proceed => exact kept.proceed allowed.2
    | arrive => exact ⟨kept.service, kept.enterWait, nofun⟩
    | handled events maxevents still => exact ⟨nofun, nofun, nofun⟩
    | waitFailed => exact ⟨nofun, nofun, nofun⟩

/-- The loop is awake as long as no signal comes between the test of its flag and a
wait that blocks, and asleep on a request as soon as one does. -/
theorem loop_awake {w : WatchedLoop} (h : punctually.Reachable w) :
    w.loop.Awake ∧ (w.loop.enabled .proceed → ¬ punctual .proceed w →
      ¬ (perform .proceed w).loop.Awake) := by
  have kept := kept_of_punctually h
  refine ⟨kept.awake, fun _ late awake => late ?_⟩
  intro _ enterWait quiet
  have asleep : (perform .proceed w).loop.point = .blocked := by
    simp [perform, ServerLoop.perform, ServerLoop.proceed, enterWait, quiet]
  have still : (perform .proceed w).loop.ready = false := by
    simp [perform, ServerLoop.perform, ServerLoop.proceed, enterWait, quiet]
  have unchanged : (perform .proceed w).loop.pending ↔ w.loop.pending := by
    simp [perform, ServerLoop.perform, ServerLoop.proceed, enterWait, ServerLoop.pending]
  have served := awake asleep still
  rw [unchanged, kept.enterWait enterWait] at served
  simpa using served

def shutdownInWindow : List LoopEvent :=
  [.proceed, .proceed, .deliver .sigint, .proceed]

def signalsOutside : List LoopEvent :=
  [.proceed, .proceed, .proceed, .arrive, .proceed, .deliver (.metrics .sigusr2),
    .handled 1 4096 false, .proceed, .proceed, .proceed, .deliver (.metrics .sigusr1)]

theorem shutdownInWindow_asleep :
    let w := machine.after initial shutdownInWindow
    machine.Reachable w ∧ w.loop.point = .blocked ∧ w.loop.ready = false ∧
      w.loop.shutdownSignal = 2 ∧ ¬ w.loop.Awake := by
  intro w
  have runs : machine.Runs initial shutdownInWindow := by decide
  have blocked : w.loop.point = .blocked := by decide
  have quiet : w.loop.ready = false := by decide
  have signalled : w.loop.shutdownSignal = 2 := by decide
  exact ⟨⟨initial, rfl, runs.steps⟩, blocked, quiet, signalled,
    fun awake => awake blocked quiet (Or.inl (by simp [signalled]))⟩

theorem signalsOutside_awake :
    let w := machine.after initial signalsOutside
    w.loop.Awake ∧ w.loop.point = .interrupted ∧ w.loop.pending := by
  have runs : punctually.Runs initial signalsOutside := by decide
  have reached : punctually.Reachable (machine.after initial signalsOutside) :=
    ⟨initial, rfl, runs.steps⟩
  exact ⟨(loop_awake reached).1, by decide, Or.inr (Or.inl (by decide))⟩

end WatchedLoop

end Partyline
