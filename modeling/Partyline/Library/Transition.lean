import Mathlib.Logic.Relation

/-! Labelled transition systems with a partial, deterministic step: what an
invariant is, that it holds of every reachable state, and how a larger
operation is shown to be a sequence of steps. -/
namespace Partyline.Library

universe u v

structure Transition (σ : Type u) (α : Type v) where
  init : σ → Prop
  enabled : α → σ → Prop
  perform : α → σ → σ

namespace Transition

variable {σ : Type u} {α : Type v} (M : Transition σ α)

inductive Steps : σ → σ → Prop where
  | refl (s : σ) : Steps s s
  | cons {s t : σ} (a : α) : M.enabled a s → Steps (M.perform a s) t → Steps s t

def Reachable (s : σ) : Prop := ∃ s₀, M.init s₀ ∧ M.Steps s₀ s

variable {M}

theorem Steps.single {s : σ} (a : α) (h : M.enabled a s) : M.Steps s (M.perform a s) :=
  .cons a h (.refl _)

theorem Steps.trans {s t u : σ} (first : M.Steps s t) (rest : M.Steps t u) : M.Steps s u := by
  induction first with
  | refl => exact rest
  | cons a enabled _ ih => exact .cons a enabled (ih rest)

theorem Steps.preserves {P : σ → Prop} {s t : σ} (path : M.Steps s t)
    (step : ∀ s a, P s → M.enabled a s → P (M.perform a s)) (h : P s) : P t := by
  induction path with
  | refl => exact h
  | cons a enabled _ ih => exact ih (step _ a h enabled)

theorem Reachable.of_init {s : σ} (h : M.init s) : M.Reachable s := ⟨s, h, .refl s⟩

theorem Reachable.steps {s t : σ} (h : M.Reachable s) (path : M.Steps s t) : M.Reachable t :=
  let ⟨s₀, initial, before⟩ := h
  ⟨s₀, initial, before.trans path⟩

theorem Reachable.perform {s : σ} (h : M.Reachable s) {a : α} (enabled : M.enabled a s) :
    M.Reachable (M.perform a s) :=
  h.steps (.single a enabled)

theorem Reachable.invariant {P : σ → Prop} {s : σ} (h : M.Reachable s)
    (base : ∀ s, M.init s → P s) (step : ∀ s a, P s → M.enabled a s → P (M.perform a s)) : P s :=
  let ⟨s₀, initial, path⟩ := h
  path.preserves step (base s₀ initial)

theorem Reachable.invariant_of {I P : σ → Prop} {s : σ} (h : M.Reachable s)
    (known : ∀ s, M.Reachable s → I s) (base : ∀ s, M.init s → P s)
    (step : ∀ s a, I s → P s → M.enabled a s → P (M.perform a s)) : P s := by
  have both : M.Reachable s ∧ P s := h.invariant (P := fun s => M.Reachable s ∧ P s)
    (fun s initial => ⟨.of_init initial, base s initial⟩)
    (fun s a ih enabled => ⟨ih.1.perform enabled, step s a (known s ih.1) ih.2 enabled⟩)
  exact both.2

theorem Steps.foldl {β : Type*} {f : σ → β → σ} (each : ∀ s b, M.Steps s (f s b))
    (bs : List β) (s : σ) : M.Steps s (bs.foldl f s) := by
  induction bs generalizing s with
  | nil => exact .refl s
  | cons b bs ih => exact (each s b).trans (ih (f s b))

/-- The system in which only some of the actions are taken. -/
def restrict (M : Transition σ α) (allowed : α → Prop) : Transition σ α where
  init := M.init
  enabled a s := allowed a ∧ M.enabled a s
  perform := M.perform

theorem Steps.of_restrict {allowed : α → Prop} {s t : σ} (path : (M.restrict allowed).Steps s t) :
    M.Steps s t := by
  induction path with
  | refl s => exact .refl s
  | cons a enabled _ ih => exact .cons a enabled.2 ih

section Runs

variable (M)

def after (s : σ) (actions : List α) : σ :=
  actions.foldl (fun s a => M.perform a s) s

def Runs : σ → List α → Prop
  | _, [] => True
  | s, a :: rest => M.enabled a s ∧ Runs (M.perform a s) rest

variable {M}

instance Runs.decide [∀ a s, Decidable (M.enabled a s)] :
    (s : σ) → (actions : List α) → Decidable (M.Runs s actions)
  | _, [] => .isTrue trivial
  | s, a :: rest =>
    have := Runs.decide (M.perform a s) rest
    inferInstanceAs (Decidable (M.enabled a s ∧ M.Runs (M.perform a s) rest))

theorem Runs.steps {s : σ} {actions : List α} (runs : M.Runs s actions) :
    M.Steps s (M.after s actions) := by
  induction actions generalizing s with
  | nil => exact .refl s
  | cons a rest ih => exact .cons a runs.1 (ih runs.2)

theorem after_append (s : σ) (first rest : List α) :
    M.after s (first ++ rest) = M.after (M.after s first) rest :=
  List.foldl_append

theorem Runs.append {s : σ} {first rest : List α} (runs : M.Runs s first)
    (next : M.Runs (M.after s first) rest) : M.Runs s (first ++ rest) := by
  induction first generalizing s with
  | nil => exact next
  | cons a first ih => exact ⟨runs.1, ih runs.2 next⟩

theorem Runs.take {s : σ} {actions : List α} (runs : M.Runs s actions) (n : Nat) :
    M.Runs s (actions.take n) := by
  induction actions generalizing s n with
  | nil => simpa using runs
  | cons a rest ih =>
    cases n with
    | zero => trivial
    | succ n => exact ⟨runs.1, ih runs.2 n⟩

theorem Runs.enabled {s : σ} {actions : List α} (runs : M.Runs s actions) {n : Nat} {a : α}
    (turn : actions[n]? = some a) : M.enabled a (M.after s (actions.take n)) := by
  induction actions generalizing s n with
  | nil => simp at turn
  | cons first rest ih =>
    cases n with
    | zero =>
      obtain rfl : first = a := by simpa using turn
      exact runs.1
    | succ n => exact ih runs.2 (by simpa using turn)

theorem after_take_succ (s : σ) {actions : List α} {n : Nat} {a : α}
    (turn : actions[n]? = some a) :
    M.after s (actions.take (n + 1)) = M.perform a (M.after s (actions.take n)) := by
  simp [after, List.take_add_one, turn]

theorem Runs.along {P : Nat → σ → Prop} {s : σ} {actions : List α} (runs : M.Runs s actions)
    (base : P 0 s)
    (step : ∀ n a, actions[n]? = some a → M.enabled a (M.after s (actions.take n)) →
      P n (M.after s (actions.take n)) → P (n + 1) (M.perform a (M.after s (actions.take n))))
    {n : Nat} (le : n ≤ actions.length) : P n (M.after s (actions.take n)) := by
  induction n with
  | zero => exact base
  | succ n ih =>
    have turn : actions[n]? = some actions[n] := List.getElem?_eq_getElem le
    rw [after_take_succ s turn]
    exact step n _ turn (runs.enabled turn) (ih (by omega))

end Runs

end Transition
end Partyline.Library
