import Mathlib.Logic.Basic

/-! Objects whose calls succeed and change them, or fail and leave them as they
were, and what it means that one of them refines another for a client that keeps
to its side of a contract. -/
namespace Partyline.Library

universe u v w x

variable {σ : Type u} {τ : Type v} {ω : Type w} {ε : Type x}

/-- The object after a sequence of calls, and the error of each call that failed. -/
def calls (apply : σ → ω → Except ε σ) : σ → List ω → σ × List (Option ε)
  | s, [] => (s, [])
  | s, op :: rest =>
    match apply s op with
    | .ok t => ((calls apply t rest).1, none :: (calls apply t rest).2)
    | .error e => ((calls apply s rest).1, some e :: (calls apply s rest).2)

/-- The client makes only calls that `allowed` lets it make. -/
def Allowed (apply : σ → ω → Except ε σ) (allowed : σ → ω → Prop) : σ → List ω → Prop
  | _, [] => True
  | s, op :: rest => allowed s op ∧
    match apply s op with
    | .ok t => Allowed apply allowed t rest
    | .error _ => Allowed apply allowed s rest

instance Allowed.decide (apply : σ → ω → Except ε σ) (allowed : σ → ω → Prop)
    [∀ s op, Decidable (allowed s op)] : (s : σ) → (ops : List ω) →
      Decidable (Allowed apply allowed s ops)
  | _, [] => .isTrue trivial
  | s, op :: rest =>
    have : Decidable (match apply s op with
        | .ok t => Allowed apply allowed t rest
        | .error _ => Allowed apply allowed s rest) :=
      match apply s op with
      | .ok t => Allowed.decide apply allowed t rest
      | .error _ => Allowed.decide apply allowed s rest
    inferInstanceAs (Decidable (_ ∧ _))

/-- Related objects answer an allowed call alike, and are related afterwards. -/
def Refines (concrete : σ → ω → Except ε σ) (abstract : τ → ω → Except ε τ)
    (allowed : τ → ω → Prop) (R : σ → τ → Prop) : Prop :=
  ∀ s t op, R s t → allowed t op →
    (∃ s' t', concrete s op = .ok s' ∧ abstract t op = .ok t' ∧ R s' t') ∨
      ∃ e, concrete s op = .error e ∧ abstract t op = .error e

theorem Refines.calls {concrete : σ → ω → Except ε σ} {abstract : τ → ω → Except ε τ}
    {allowed : τ → ω → Prop} {R : σ → τ → Prop} (refines : Refines concrete abstract allowed R)
    {s : σ} {t : τ} (related : R s t) {ops : List ω} (keeps : Allowed abstract allowed t ops) :
    R (Library.calls concrete s ops).1 (Library.calls abstract t ops).1 ∧
      (Library.calls concrete s ops).2 = (Library.calls abstract t ops).2 := by
  induction ops generalizing s t with
  | nil => exact ⟨related, rfl⟩
  | cons op rest ih =>
    obtain ⟨may, later⟩ := keeps
    rcases refines s t op related may with ⟨s', t', same, same', related'⟩ | ⟨e, same, same'⟩
    · rw [same'] at later
      obtain ⟨after, results⟩ := ih related' later
      simp only [Library.calls, same, same', results]
      exact ⟨after, trivial⟩
    · rw [same'] at later
      obtain ⟨after, results⟩ := ih related later
      simp only [Library.calls, same, same', results]
      exact ⟨after, trivial⟩

end Partyline.Library
