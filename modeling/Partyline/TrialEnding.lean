import Mathlib.Algebra.Order.BigOperators.Group.Finset
import Mathlib.Order.RelClasses
import Partyline.Library.Ending
import Partyline.TrialProtocol

/-! A trial comes to its end: no order of the steps makes `run_trial` and a worker wait for
each other, and there are only so many steps. -/
namespace Partyline.Bench

open Library

/-- More than the steps that a worker can take with the commands that it has been sent. -/
def Process.potential (connections : Nat) (w : Process) : Nat :=
  2 * w.commands.length +
    match w.point with
    | .connecting opened => connections - opened + 5
    | .waiting => 3
    | .settling => 4
    | .idle => 1
    | .running _ => 2
    | .ended => 0

def TrialPoint.stage : TrialPoint → Nat
  | .sending .connect _ => 12
  | .collecting .connect _ => 11
  | .sending .setup _ => 10
  | .collecting .setup _ => 9
  | .sending (.phase .warmup) _ => 8
  | .collecting (.phase .warmup) _ => 7
  | .sending (.phase .measured) _ => 6
  | .timing => 5
  | .collecting (.phase .measured) _ => 4
  | .closing _ => 3
  | .joining _ => 2
  | .done => 0

def TrialPoint.turn : TrialPoint → Nat
  | .collecting _ k | .sending _ k | .closing k | .joining k => k
  | .timing | .done => 0

def TrialPoint.rank (workerCount : Nat) (point : TrialPoint) : Nat :=
  point.stage * (workerCount + 2) + (workerCount + 1 - point.turn)

namespace Trial

variable {plan : TrialPlan} {t : Trial}

def measure (plan : TrialPlan) (t : Trial) : Nat × Nat :=
  (t.point.rank plan.workerCount,
    ∑ i ∈ Finset.range plan.workerCount, (t.processes i).potential (plan.connections i))

theorem potential_ready {w : Process} {i : Nat} {a : TrialAction} {change : Process → Process}
    (own : onProcess a = some (i, change)) (ready : ProcessReady plan w i a) :
    (change w).potential (plan.connections i) < w.potential (plan.connections i) := by
  have moves := moves_of_ready own ready
  obtain ⟨point, commands, messages, ready, log⟩ := w
  cases a with
  | collect | send | advance | join | timeout | endOfFile | interrupt error => cases own
  | connect j | announce j applied cpu | settle j | finish j state | raise j text | die j =>
    obtain ⟨rfl, rfl⟩ := Prod.mk.inj (Option.some.inj own)
    cases point <;>
      simp_all [ProcessReady, Process.potential, Process.finish, Process.raise] <;> omega
  | receive j =>
    obtain ⟨rfl, rfl⟩ := Prod.mk.inj (Option.some.inj own)
    obtain ⟨at_, nonempty⟩ := ready
    obtain ⟨command, rest, rfl⟩ := List.exists_cons_of_ne_nil nonempty
    cases point <;> cases command <;>
      simp_all [Process.potential, Process.receive, Process.raise] <;> omega

theorem rank_next {n : Nat} {point next : TrialPoint} (stage : next.stage = point.stage)
    (turn : point.turn < n) (succ : next.turn = point.turn + 1) : next.rank n < point.rank n := by
  rw [TrialPoint.rank, TrialPoint.rank, stage, succ]
  omega

theorem collecting_stage (round : Round) (k : Nat) :
    (TrialPoint.collecting round (k + 1)).stage = (TrialPoint.collecting round k).stage := by
  cases round with
  | connect | setup => rfl
  | phase kind => cases kind <;> rfl

theorem sending_stage (round : Round) (k : Nat) :
    (TrialPoint.sending round (k + 1)).stage = (TrialPoint.sending round k).stage := by
  cases round with
  | connect | setup => rfl
  | phase kind => cases kind <;> rfl

theorem rank_later {n : Nat} {point next : TrialPoint} (later : next.stage < point.stage)
    (first : next.turn = 0) : next.rank n < point.rank n := by
  have : (next.stage + 1) * (n + 2) ≤ point.stage * (n + 2) := Nat.mul_le_mul_right _ later
  rw [TrialPoint.rank, TrialPoint.rank, first]
  rw [Nat.succ_mul] at this
  omega

theorem early_stage {point : TrialPoint}
    (early : match point with
      | .closing _ | .joining _ | .done => False
      | _ => True) : (TrialPoint.closing 0).stage < point.stage := by
  cases point with
  | closing k | joining k | done => exact early.elim
  | timing => decide
  | collecting round k | sending round k =>
    cases round with
    | connect | setup => simp [TrialPoint.stage]
    | phase kind => cases kind <;> simp [TrialPoint.stage]

theorem rank_join {k : Nat} (at_ : t.point = .joining k) (turn : k < plan.workerCount) :
    t.join.point.rank plan.workerCount < t.point.rank plan.workerCount := by
  simp only [join, at_]
  exact rank_next rfl turn rfl

theorem rank_collect {round : Round} {k : Nat} (at_ : t.point = .collecting round k)
    (turn : k < plan.workerCount) (nonempty : (t.processes k).messages ≠ []) :
    t.collect.point.rank plan.workerCount < t.point.rank plan.workerCount := by
  obtain ⟨message, rest, next⟩ := List.exists_cons_of_ne_nil nonempty
  have failing : (TrialPoint.closing 0).rank plan.workerCount < t.point.rank plan.workerCount :=
    rank_later (early_stage (by simp [at_])) rfl
  have onward : (TrialPoint.collecting round (k + 1)).rank plan.workerCount <
      t.point.rank plan.workerCount := by
    rw [at_]
    exact rank_next (collecting_stage round k) turn rfl
  simp only [collect, at_, next] at failing onward ⊢
  split
  · exact failing
  · split_ifs
    · exact failing
    · exact onward

theorem rank_advances (enabled : Trial.enabled plan .advance t) :
    (t.advance plan).point.rank plan.workerCount < t.point.rank plan.workerCount := by
  cases at_ : t.point with
  | done => simp [Trial.enabled, onProcess, at_] at enabled
  | timing | closing k | joining k =>
    simp only [advance, at_]
    exact rank_later (by simp [TrialPoint.stage]) rfl
  | sending round k =>
    cases round with
    | connect | setup =>
      simp only [advance, at_]
      exact rank_later (by simp [TrialPoint.stage]) rfl
    | phase kind =>
      cases kind <;> simp only [advance, at_] <;> exact rank_later (by simp [TrialPoint.stage]) rfl
  | collecting round k =>
    cases round with
    | connect =>
      simp only [advance, at_]
      exact rank_later (by simp [TrialPoint.stage]) rfl
    | setup =>
      simp only [advance, at_]
      cases plan.warmup <;> exact rank_later (by simp [TrialPoint.stage]) rfl
    | phase kind =>
      cases kind with
      | measured =>
        simp only [advance, at_]
        exact rank_later (by simp [TrialPoint.stage]) rfl
      | warmup =>
        simp only [advance, at_]
        split_ifs
        · exact rank_later (by simp [TrialPoint.stage, fail]) rfl
        · exact rank_later (by simp [TrialPoint.stage]) rfl

theorem rank_perform {a : TrialAction} (own : onProcess a = none)
    (enabled : Trial.enabled plan a t) :
    (perform plan a t).point.rank plan.workerCount < t.point.rank plan.workerCount := by
  cases a with
  | connect i | announce i applied cpu | receive i | settle i | finish i state | raise i text
  | die i => cases own
  | advance => exact rank_advances enabled
  | send =>
    cases at_ : t.point with
    | sending round k =>
      have turn : k < plan.workerCount := by simpa [Trial.enabled, onProcess, at_] using enabled
      simp only [perform, own, send, at_]
      exact rank_next (sending_stage round k) turn rfl
    | closing k =>
      have turn : k < plan.workerCount := by simpa [Trial.enabled, onProcess, at_] using enabled
      simp only [perform, own, send, at_]
      exact rank_next rfl turn rfl
    | collecting round k | timing | joining k | done =>
      simp [Trial.enabled, onProcess, at_] at enabled
  | collect =>
    cases at_ : t.point with
    | collecting round k =>
      have turn : k < plan.workerCount ∧ (t.processes k).messages ≠ [] := by
        simpa [Trial.enabled, onProcess, at_] using enabled
      exact at_ ▸ rank_collect at_ turn.1 turn.2
    | sending round k | timing | closing k | joining k | done =>
      simp [Trial.enabled, onProcess, at_] at enabled
  | join =>
    cases at_ : t.point with
    | joining k =>
      have turn : k < plan.workerCount ∧ (t.processes k).point = .ended := by
        simpa [Trial.enabled, onProcess, at_] using enabled
      exact at_ ▸ rank_join at_ turn.1
    | collecting round k | sending round k | timing | closing k | done =>
      simp [Trial.enabled, onProcess, at_] at enabled
  | endOfFile | interrupt error =>
    refine rank_later (early_stage ?_) rfl
    cases at_ : t.point <;> simp [Trial.enabled, onProcess, at_] at enabled ⊢
  | timeout =>
    cases at_ : t.point with
    | collecting round k =>
      simp only [perform, own, at_]
      exact rank_later (early_stage trivial) rfl
    | joining k =>
      have turn : k < plan.workerCount := by simpa [Trial.enabled, onProcess, at_] using enabled
      simp only [perform, own, at_]
      exact at_ ▸ rank_join at_ turn
    | sending round k | timing | closing k | done =>
      simp [Trial.enabled, onProcess, at_] at enabled

theorem measure_perform {a : TrialAction} (enabled : Trial.enabled plan a t) :
    Prod.Lex (· < ·) (· < ·) (measure plan (perform plan a t)) (measure plan t) := by
  cases own : onProcess a with
  | none => exact .left _ _ (rank_perform own enabled)
  | some step =>
    obtain ⟨i, change⟩ := step
    simp only [Trial.enabled, own] at enabled
    simp only [perform, own]
    refine Prod.Lex.right _ (Finset.sum_lt_sum (fun j _ => ?_) ⟨i, by simpa using enabled.1, ?_⟩)
    · by_cases same : j = i
      · subst same
        rw [update_self]
        exact (potential_ready own enabled.2).le
      · rw [update_of_ne same]
    · rw [update_self]
      exact potential_ready own enabled.2

def Closes (w : Process) : Prop := w.point = .ended ∨ .close ∈ w.commands

/-- Who has been told to close, and who has been joined. -/
def Leaving (plan : TrialPlan) (t : Trial) : Prop :=
  match t.point with
  | .collecting _ _ | .sending _ _ | .timing => True
  | .closing k => ∀ i < plan.workerCount, i < k → Closes (t.processes i)
  | .joining k => ∀ i < plan.workerCount,
      Closes (t.processes i) ∧ (i < k → (t.processes i).point = .ended)
  | .done => ∀ i < plan.workerCount, (t.processes i).point = .ended

theorem closes_moves {w w' : Process} {i : Nat} (moves : w.Moves i w') (h : Closes w) :
    Closes w' := by
  have told := h.resolve_left moves.alive
  cases moves with
  | connect opened at_ | announce opened at_ | settle at_ | finish kind at_ => exact .inr told
  | stop live commands fewer last error | close at_ rest asked => exact .inl rfl
  | setup at_ rest asked | phase at_ kind rest asked =>
    rw [asked] at told
    exact .inr (by simpa using told)

theorem leaving_moves {i : Nat} {change : Process → Process}
    (moves : (t.processes i).Moves i (change (t.processes i))) (h : Leaving plan t) :
    Leaving plan (t.update i change) := by
  have point : (t.update i change).point = t.point := rfl
  unfold Leaving at h ⊢
  rw [point]
  cases at_ : t.point with
  | collecting round k | sending round k | timing => trivial
  | closing k =>
    rw [at_] at h
    intro j here told
    rcases update_moves moves j with same | moves
    · exact same ▸ h j here told
    · exact closes_moves moves (h j here told)
  | joining k =>
    rw [at_] at h
    intro j here
    rcases update_moves moves j with same | moves
    · exact same ▸ h j here
    · exact ⟨closes_moves moves (h j here).1, fun joined =>
        absurd ((h j here).2 joined) moves.alive⟩
  | done =>
    rw [at_] at h
    intro j here
    rcases update_moves moves j with same | moves
    · exact same ▸ h j here
    · exact absurd (h j here) moves.alive

theorem leaving_fail (error : String) : Leaving plan (t.fail error) := nofun

theorem leaving_join (h : Leaving plan t) : Leaving plan t.join := by
  cases at_ : t.point with
  | collecting round k | sending round k | timing | closing k | done =>
    simpa only [join, at_] using h
  | joining k =>
    simp only [Leaving, at_] at h
    simp only [join, at_]
    intro j here
    by_cases same : j = k
    · subst same
      exact ⟨.inl (by rw [update_self]), fun _ => by rw [update_self]⟩
    · simp only [update_of_ne same]
      exact ⟨(h j here).1, fun joined => (h j here).2 (by omega)⟩

theorem leaving_perform {a : TrialAction} (h : Leaving plan t)
    (enabled : Trial.enabled plan a t) : Leaving plan (perform plan a t) := by
  cases own : onProcess a with
  | some step =>
    obtain ⟨i, change⟩ := step
    simp only [Trial.enabled, own] at enabled
    simp only [perform, own]
    exact leaving_moves (moves_of_ready own enabled.2) h
  | none =>
    cases a with
    | connect i | announce i applied cpu | receive i | settle i | finish i state | raise i text
    | die i => cases own
    | join => exact leaving_join h
    | endOfFile | interrupt error => exact leaving_fail _
    | timeout =>
      simp only [perform, own]
      split
      · exact leaving_fail _
      · exact leaving_join h
    | collect =>
      cases at_ : t.point with
      | sending round k | timing | closing k | joining k | done =>
        simp [Trial.enabled, onProcess, at_] at enabled
      | collecting round k =>
        simp only [perform, own, collect, at_]
        split
        · exact h
        · split
          · exact leaving_fail _
          · split_ifs
            · exact leaving_fail _
            · trivial
    | send =>
      cases at_ : t.point with
      | collecting round k | timing | joining k | done =>
        simp [Trial.enabled, onProcess, at_] at enabled
      | sending round k =>
        simp only [perform, own, send, at_]
        trivial
      | closing k =>
        simp only [Leaving, at_] at h
        simp only [perform, own, send, at_]
        intro j here told
        by_cases same : j = k
        · subst same
          exact .inr (by simp)
        · simp only [update_of_ne same]
          exact h j here (by omega)
    | advance =>
      cases at_ : t.point with
      | done => simp [Trial.enabled, onProcess, at_] at enabled
      | timing =>
        simp only [perform, own, advance, at_]
        trivial
      | sending round k =>
        simp only [perform, own, advance, at_]
        split <;> trivial
      | closing k =>
        have all : plan.workerCount ≤ k := by simpa [Trial.enabled, onProcess, at_] using enabled
        simp only [Leaving, at_] at h
        simp only [perform, own, advance, at_]
        exact fun j here => ⟨h j here (by omega), fun joined => absurd joined (Nat.not_lt_zero j)⟩
      | joining k =>
        have all : plan.workerCount ≤ k := by simpa [Trial.enabled, onProcess, at_] using enabled
        simp only [Leaving, at_] at h
        simp only [perform, own, advance, at_]
        exact fun j here => (h j here).2 (by omega)
      | collecting round k =>
        simp only [perform, own, advance, at_]
        cases round with
        | connect | setup => trivial
        | phase kind =>
          cases kind with
          | measured => exact fun j _ told => absurd told (Nat.not_lt_zero j)
          | warmup =>
            simp only
            split_ifs
            · exact leaving_fail _
            · trivial

theorem reachable_leaving (h : (machine plan).Reachable t) : Leaving plan t := by
  refine h.invariant ?_ fun t a => leaving_perform
  rintro t rfl
  trivial

/-! Before the end somebody can go on. -/

theorem works {w : Process} {i : Nat} (here : i < plan.workerCount) (own : t.processes i = w)
    (live : w.point ≠ .ended)
    (busy : w.point = .waiting ∨ w.point = .idle → w.commands ≠ []) :
    ∃ a : TrialAction, a.orderly = true ∧ Trial.enabled plan a t := by
  subst own
  cases at_ : (t.processes i).point with
  | ended => exact absurd at_ live
  | waiting =>
    exact ⟨.receive i, rfl, here, .inl at_, busy (.inl at_)⟩
  | idle => exact ⟨.receive i, rfl, here, .inr at_, busy (.inr at_)⟩
  | settling => exact ⟨.settle i, rfl, here, at_⟩
  | running kind => exact ⟨.finish i emptyState, rfl, here, by simp [ProcessReady, at_]⟩
  | connecting opened =>
    by_cases more : opened < plan.connections i
    · exact ⟨.connect i, rfl, here, by simpa [ProcessReady, at_] using more⟩
    · exact ⟨.announce i false none, rfl, here, by simpa [ProcessReady, at_] using more⟩

theorem asked_works {round : Round} {k : Nat} (at_ : t.point = .collecting round k)
    (turn : k < plan.workerCount) (asked : (t.processes k).Asked plan round k) :
    ∃ a : TrialAction, a.orderly = true ∧ Trial.enabled plan a t := by
  have collects (nonempty : (t.processes k).messages ≠ []) :
      ∃ a : TrialAction, a.orderly = true ∧ Trial.enabled plan a t :=
    ⟨.collect, rfl, by simpa [Trial.enabled, onProcess, at_] using ⟨turn, nonempty⟩⟩
  cases asked with
  | answering message rest messages silent answers log live => exact collects (by simp [messages])
  | working log messages live =>
    by_cases finished : (t.processes k).point = .ended
    · by_cases empty : (t.processes k).messages = []
      · exact ⟨.endOfFile, rfl, by simpa [Trial.enabled, onProcess, at_] using ⟨turn, empty, finished⟩⟩
      · exact collects empty
    · refine works turn rfl finished fun waits => ?_
      rcases live finished with ⟨-, once, -⟩ | ⟨work, -⟩
      · simp [once]
      · cases round with
        | connect =>
          obtain ⟨opened, work⟩ := work
          simp [work] at waits
        | setup | phase kind => simp [show _ = _ from work] at waits

/-- `run_trial` has returned, and no worker is left. -/
def Over (plan : TrialPlan) (t : Trial) : Prop :=
  t.point = .done ∧ ∀ i < plan.workerCount, (t.processes i).point = .ended

theorem progress (standing : Standing plan t) (leaving : Leaving plan t)
    (more : ¬ t.Over plan) :
    ∃ a : TrialAction, a.orderly = true ∧ Trial.enabled plan a t := by
  have advances (enabled : Trial.enabled plan .advance t) :
      ∃ a : TrialAction, a.orderly = true ∧ Trial.enabled plan a t := ⟨.advance, rfl, enabled⟩
  cases at_ : t.point with
  | done =>
    simp only [Leaving, at_] at leaving
    exact absurd ⟨at_, leaving⟩ more
  | timing => exact advances (by simp [Trial.enabled, onProcess, at_])
  | sending round k | closing k =>
    by_cases turn : k < plan.workerCount
    · exact ⟨.send, rfl, by simpa [Trial.enabled, onProcess, at_] using turn⟩
    · exact advances (by simpa [Trial.enabled, onProcess, at_] using turn)
  | collecting round k =>
    by_cases turn : k < plan.workerCount
    · simp only [Standing, at_] at standing
      obtain ⟨-, -, -, -, each⟩ := standing
      have asked := each k turn
      rw [if_neg (lt_irrefl k)] at asked
      exact asked_works at_ turn asked
    · exact advances (by simpa [Trial.enabled, onProcess, at_] using turn)
  | joining k =>
    by_cases turn : k < plan.workerCount
    · simp only [Leaving, at_] at leaving
      by_cases finished : (t.processes k).point = .ended
      · exact ⟨.join, rfl, by simpa [Trial.enabled, onProcess, at_] using ⟨turn, finished⟩⟩
      · have told := (leaving k turn).1.resolve_left finished
        exact works turn rfl finished fun _ => List.ne_nil_of_mem told
    · exact advances (by simpa [Trial.enabled, onProcess, at_] using turn)

end Trial

/-- Whatever the processes do, a trial ends with every worker ended; until then one of them can
go on without a deadline and without failing, as they never all wait for each other. Where a
worker has failed, that may be `run_trial` as it reads the error or the end of the pipe. -/
theorem trial_ends {plan : TrialPlan} {t : Trial} (reachable : (Trial.machine plan).Reachable t) :
    (Trial.machine plan).Inevitable (fun a => a.orderly = true) (Trial.Over plan) t :=
  reachable.inevitable (WellFounded.prod_lex Nat.lt_wfRel.wf Nat.lt_wfRel.wf) (Trial.measure plan)
    (fun _ _ enabled => Trial.measure_perform enabled)
    fun _ reachable more => Trial.progress (Trial.reachable_standing reachable)
      (Trial.reachable_leaving reachable) more

theorem twoWorkers_ends : (Trial.machine twoWorkers).Runs .initial (wholeTrial.take 20) ∧
    (Trial.machine twoWorkers).Inevitable (fun a => a.orderly = true) (Trial.Over twoWorkers)
      ((Trial.machine twoWorkers).after .initial (wholeTrial.take 20)) := by
  have runs : (Trial.machine twoWorkers).Runs .initial (wholeTrial.take 20) := by decide +kernel
  exact ⟨runs, trial_ends ⟨_, rfl, runs.steps⟩⟩

end Partyline.Bench
