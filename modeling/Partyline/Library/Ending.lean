import Mathlib.Order.WellFounded
import Partyline.Library.Transition

/-! Systems that come to an end: every action makes a measure smaller, and before the end
there is always one that can be taken. -/
namespace Partyline.Library

universe u v w

namespace Transition

variable {σ : Type u} {α : Type v} (M : Transition σ α)

/-- Whatever is done leads to the end, and until then one of the `orderly` actions can be
taken. -/
inductive Inevitable (orderly : α → Prop) (finished : σ → Prop) : σ → Prop where
  | now {s : σ} : finished s → Inevitable orderly finished s
  | later {s : σ} (a : α) : orderly a → M.enabled a s →
    (∀ b, M.enabled b s → Inevitable orderly finished (M.perform b s)) → Inevitable orderly finished s

variable {M} {orderly : α → Prop} {finished : σ → Prop}

theorem Reachable.inevitable {β : Type w} {r : β → β → Prop} (wf : WellFounded r)
    (measure : σ → β)
    (decreases : ∀ s a, M.enabled a s → r (measure (M.perform a s)) (measure s))
    (progress : ∀ s, M.Reachable s → ¬ finished s → ∃ a, orderly a ∧ M.enabled a s)
    {s : σ} (reachable : M.Reachable s) : M.Inevitable orderly finished s := by
  induction h : measure s using wf.induction generalizing s with
  | h rank ih =>
    by_cases done : finished s
    · exact .now done
    · obtain ⟨a, good, enabled⟩ := progress s reachable done
      refine .later a good enabled fun b enabled => ?_
      exact ih _ (h ▸ decreases s b enabled) (reachable.perform enabled) rfl

end Transition
end Partyline.Library
