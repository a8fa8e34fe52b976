import Mathlib.Logic.Function.Basic

/-! Operations that neither see nor change what a view of the state leaves out:
they take states with the same view to states with the same view. -/
namespace Partyline.Library

universe u v w

variable {σ : Type u} {κ : Type v} {β γ : Type w} (view : σ → σ) (hidden : σ → κ) (ok : κ → Prop)

/-- `f` does the same to a state and to its view, if what is hidden is `ok`. -/
def Blind (f : σ → σ) : Prop :=
  ∀ s, ok (hidden s) → f (view s) = view (f s) ∧ hidden (f s) = hidden s

def BlindResult (f : σ → β × σ) : Prop :=
  ∀ s, ok (hidden s) →
    f (view s) = ((f s).1, view (f s).2) ∧ hidden (f s).2 = hidden s

variable {view hidden ok}

theorem Blind.id : Blind view hidden ok fun s => s := fun _ _ => ⟨rfl, rfl⟩

theorem Blind.comp {f k : σ → σ} (first : Blind view hidden ok f) (next : Blind view hidden ok k) :
    Blind view hidden ok fun s => k (f s) := by
  intro s quiet
  obtain ⟨same, kept⟩ := first s quiet
  obtain ⟨same', kept'⟩ := next (f s) (kept ▸ quiet)
  refine ⟨?_, kept'.trans kept⟩
  dsimp only
  rw [same, same']

theorem Blind.congr {f k : σ → σ} (blind : Blind view hidden ok f) (same : ∀ s, k s = f s) :
    Blind view hidden ok k := funext same ▸ blind

theorem BlindResult.congr {f k : σ → β × σ} (blind : BlindResult view hidden ok f)
    (same : ∀ s, k s = f s) : BlindResult view hidden ok k := funext same ▸ blind

theorem Blind.result {f : σ → σ} (blind : Blind view hidden ok f) (b : β) :
    BlindResult view hidden ok fun s => (b, f s) := by
  intro s quiet
  obtain ⟨same, kept⟩ := blind s quiet
  refine ⟨?_, kept⟩
  dsimp only
  rw [same]

theorem BlindResult.state {f : σ → β × σ} (blind : BlindResult view hidden ok f) :
    Blind view hidden ok fun s => (f s).2 := by
  intro s quiet
  obtain ⟨same, kept⟩ := blind s quiet
  exact ⟨congrArg Prod.snd same, kept⟩

theorem BlindResult.bind {f : σ → β × σ} {k : β → σ → γ × σ}
    (first : BlindResult view hidden ok f) (next : ∀ b, BlindResult view hidden ok (k b)) :
    BlindResult view hidden ok fun s => k (f s).1 (f s).2 := by
  intro s quiet
  obtain ⟨same, kept⟩ := first s quiet
  obtain ⟨same', kept'⟩ := next (f s).1 (f s).2 (kept ▸ quiet)
  refine ⟨?_, kept'.trans kept⟩
  dsimp only
  rw [same, same']

theorem BlindResult.then {f : σ → β × σ} {k : β → σ → σ} (first : BlindResult view hidden ok f)
    (next : ∀ b, Blind view hidden ok (k b)) : Blind view hidden ok fun s => k (f s).1 (f s).2 := by
  intro s quiet
  obtain ⟨same, kept⟩ := first s quiet
  obtain ⟨same', kept'⟩ := next (f s).1 (f s).2 (kept ▸ quiet)
  refine ⟨?_, kept'.trans kept⟩
  dsimp only
  rw [same, same']

theorem Blind.foldl {α : Type w} {f : σ → α → σ} (each : ∀ a, Blind view hidden ok fun s => f s a)
    (as : List α) : Blind view hidden ok fun s => as.foldl f s := by
  induction as with
  | nil => exact Blind.id
  | cons a as ih => exact (each a).comp ih

theorem Blind.view_eq {f : σ → σ} (blind : Blind view hidden ok f) {s t : σ}
    (same : view s = view t) (hs : ok (hidden s)) (ht : ok (hidden t)) :
    view (f s) = view (f t) := by
  rw [← (blind s hs).1, ← (blind t ht).1, same]

end Partyline.Library
