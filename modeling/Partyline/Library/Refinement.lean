import Partyline.Library.Transition

/-! A transition system that does what a labelled one allows: some of its actions are
seen as events of the other system, the rest are not seen there at all. -/
namespace Partyline.Library

universe u v w x

/-- What may happen, event by event. An event may have more than one outcome. -/
structure Behaviour (τ : Type u) (ε : Type v) where
  init : τ → Prop
  step : τ → ε → τ → Prop

namespace Behaviour

variable {τ : Type u} {ε : Type v} (N : Behaviour τ ε)

inductive Runs : List ε → τ → Prop where
  | init {t : τ} : N.init t → Runs [] t
  | step {events : List ε} {e : ε} {t u : τ} : Runs events t → N.step t e u → Runs (events ++ [e]) u

variable {N}

theorem Runs.invariant {P : τ → Prop} {events : List ε} {t : τ} (runs : N.Runs events t)
    (base : ∀ t, N.init t → P t) (step : ∀ t e u, P t → N.step t e u → P u) : P t := by
  induction runs with
  | init start => exact base _ start
  | step _ next ih => exact step _ _ _ ih next

theorem Runs.invariant_of {P : τ → Prop} {Q : ε → Prop} {events : List ε} {t : τ}
    (runs : N.Runs events t) (all : ∀ e ∈ events, Q e) (base : ∀ t, N.init t → P t)
    (step : ∀ t e u, P t → Q e → N.step t e u → P u) : P t := by
  induction runs with
  | init start => exact base _ start
  | step _ next ih =>
    have before := ih fun e mem => all e (List.mem_append_left _ mem)
    exact step _ _ _ before (all _ (List.mem_append_right _ List.mem_cons_self)) next

end Behaviour

namespace Transition

variable {σ : Type u} {α : Type v} {τ : Type w} {ε : Type x} (M : Transition σ α)

/-- What is seen of a list of actions. -/
def observed (event : σ → α → Option ε) : σ → List α → List ε
  | _, [] => []
  | s, a :: rest => (event s a).toList ++ observed event (M.perform a s) rest

/-- The actions that are seen are allowed by `N`, and the others change nothing there. -/
structure Refines (N : Behaviour τ ε) (abs : σ → τ) (event : σ → α → Option ε) : Prop where
  init : ∀ s, M.init s → N.init (abs s)
  silent : ∀ s a, M.Reachable s → M.enabled a s → event s a = none →
    abs (M.perform a s) = abs s
  seen : ∀ s a e, M.Reachable s → M.enabled a s → event s a = some e →
    N.step (abs s) e (abs (M.perform a s))

variable {M}

theorem of_mem_observed {event : σ → α → Option ε} {s : σ} {actions : List α} {e : ε}
    (mem : e ∈ M.observed event s actions) : ∃ t a, event t a = some e := by
  induction actions generalizing s with
  | nil => exact absurd mem List.not_mem_nil
  | cons a rest ih =>
    rcases List.mem_append.mp mem with here | later
    · exact ⟨s, a, Option.mem_toList.mp here⟩
    · exact ih later

theorem observed_invariant {P : List ε → σ → Prop} {event : σ → α → Option ε} {s : σ}
    (initial : M.init s) (base : P [] s)
    (step : ∀ events t a, M.Reachable t → M.enabled a t → P events t →
      P (events ++ (event t a).toList) (M.perform a t))
    {actions : List α} (runs : M.Runs s actions) :
    P (M.observed event s actions) (M.after s actions) := by
  have later (events : List ε) (t : σ) (reachable : M.Reachable t) (before : P events t)
      (rest : List α) (runs : M.Runs t rest) :
      P (events ++ M.observed event t rest) (M.after t rest) := by
    induction rest generalizing events t with
    | nil =>
      rw [observed, List.append_nil]
      exact before
    | cons a rest ih =>
      rw [observed, ← List.append_assoc]
      exact ih _ _ (reachable.perform runs.1) (step events t a reachable runs.1 before) runs.2
  exact later [] s (.of_init initial) base actions runs

variable {N : Behaviour τ ε} {abs : σ → τ} {event : σ → α → Option ε}

theorem Refines.step (h : M.Refines N abs event) {s : σ} (reachable : M.Reachable s) {a : α}
    (enabled : M.enabled a s) {events : List ε} (runs : N.Runs events (abs s)) :
    N.Runs (events ++ (event s a).toList) (abs (M.perform a s)) := by
  cases seen : event s a with
  | none =>
    rw [h.silent s a reachable enabled seen, Option.toList_none, List.append_nil]
    exact runs
  | some e =>
    rw [Option.toList_some]
    exact runs.step (h.seen s a e reachable enabled seen)

theorem Refines.runs (h : M.Refines N abs event) {s : σ} (initial : M.init s) {actions : List α}
    (runs : M.Runs s actions) :
    N.Runs (M.observed event s actions) (abs (M.after s actions)) :=
  observed_invariant (P := fun events t => N.Runs events (abs t)) initial (.init (h.init s initial))
    (fun _ _ _ reachable enabled before => h.step reachable enabled before) runs

end Transition
end Partyline.Library
