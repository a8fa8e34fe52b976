import Mathlib.Algebra.BigOperators.Ring.Finset

/-! Sums over finitely many parties: what becomes of one when a single party changes, and
what each of a list of messages adds to it. -/
namespace Partyline.Library

open Finset

variable {ι α β : Type*} [DecidableEq ι]

theorem sum_update {parties : Finset ι} {i : ι} (mem : i ∈ parties) (f : ι → β) (b : β)
    (g : ι → β → Nat) :
    ∑ j ∈ parties, g j (Function.update f i b j) + g i (f i) =
      ∑ j ∈ parties, g j (f j) + g i b := by
  have others : ∑ j ∈ parties \ {i}, g j (Function.update f i b j) =
      ∑ j ∈ parties \ {i}, g j (f j) := by
    apply Finset.sum_congr rfl
    intro j other
    have apart : j ≠ i := by simpa using (Finset.mem_sdiff.mp other).2
    rw [Function.update_of_ne apart]
  have single : {i} ⊆ parties := Finset.singleton_subset_iff.mpr mem
  rw [← Finset.sum_sdiff single, ← Finset.sum_sdiff single, Finset.sum_singleton,
    Finset.sum_singleton, others, Function.update_self]
  omega

omit [DecidableEq ι] in
theorem sum_countP (messages : List α) (parties : Finset ι) (hears : ι → α → Bool) :
    ∑ i ∈ parties, messages.countP (hears i) =
      (messages.map fun message => (parties.filter fun i => hears i message).card).sum := by
  induction messages with
  | nil => simp
  | cons message messages ih =>
    simp only [List.countP_cons, Finset.sum_add_distrib, ih, List.map_cons, List.sum_cons,
      Finset.card_filter]
    exact Nat.add_comm _ _

omit [DecidableEq ι] in
theorem sum_countP_eq {messages : List α} {parties : Finset ι} {hears : ι → α → Bool} {count : Nat}
    (each : ∀ message ∈ messages, (parties.filter fun i => hears i message).card = count) :
    ∑ i ∈ parties, messages.countP (hears i) = messages.length * count := by
  rw [sum_countP, List.map_congr_left each, List.map_const', List.sum_replicate_nat]

end Partyline.Library
