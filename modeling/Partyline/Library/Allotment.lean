import Partyline.Library.Keyed

/-! Tables whose entries are given ids one above the highest id in use and may be
removed at any time. An id is as high as the longest stack that ends in its entry:
entries that were each made while the one before was still there. -/
namespace Partyline.Library

variable {κ : Type*}

/-- One step of a table: whatever is new in it is `made`, with the next id. -/
structure Allots (made : κ → Prop) (before after : List (Nat × κ)) : Prop where
  fresh : ∀ name, made name → ∀ old ∈ before, old.2 ≠ name
  entries : ∀ entry ∈ after, entry ∈ before ∨
    made entry.2 ∧ (∀ old ∈ before, old.1 < entry.1) ∧ ∃ old ∈ before, entry.1 = old.1 + 1

section Stacks

variable (root : κ) (made : Nat → κ → Prop) (table : Nat → List (Nat × κ))

/-- At point `n` the entry `name` is there, the last of `k` that were made since the
root, each while the one before it was there. -/
inductive Stacked : Nat → Nat → κ → Prop where
  | root : Stacked 0 0 root
  | stays {n k : Nat} {name : κ} : Stacked n k name → name ∈ (table (n + 1)).map Prod.snd →
      Stacked (n + 1) k name
  | made {n k : Nat} {below name : κ} : Stacked n k below → made n name →
      name ∈ (table (n + 1)).map Prod.snd → Stacked (n + 1) (k + 1) name

variable {root made table}

theorem Stacked.le {n k : Nat} {name : κ} (stacked : Stacked root made table n k name) :
    k ≤ n := by
  induction stacked with
  | root => exact Nat.le_refl 0
  | stays _ _ ih => exact Nat.le_succ_of_le ih
  | made _ _ _ ih => exact Nat.succ_le_succ ih

variable (start : table 0 = [(0, root)])
  (steps : ∀ n, Allots (made n) (table n) (table (n + 1)))

include start steps

theorem stacked_of_mem {n : Nat} {entry : Nat × κ} (mem : entry ∈ table n) :
    Stacked root made table n entry.1 entry.2 := by
  induction n generalizing entry with
  | zero =>
    rw [start, List.mem_singleton] at mem
    rw [mem]
    exact .root
  | succ n ih =>
    have here : entry.2 ∈ (table (n + 1)).map Prod.snd := List.mem_map_of_mem mem
    rcases (steps n).entries entry mem with old | ⟨new, -, below, there, next⟩
    · exact .stays (ih old) here
    · rw [next]
      exact .made (ih there) new here

theorem Stacked.mem (unique : ∀ n, ((table n).map Prod.snd).Nodup) {n k : Nat} {name : κ}
    (stacked : Stacked root made table n k name) : ∃ id, (id, name) ∈ table n ∧ k ≤ id := by
  induction stacked with
  | root => exact ⟨0, by simp [start], Nat.le_refl 0⟩
  | @stays n k name _ here ih =>
    obtain ⟨id, there, le⟩ := ih
    obtain ⟨⟨id', name⟩, mem, rfl⟩ := List.mem_map.mp here
    refine ⟨id', mem, ?_⟩
    rcases (steps n).entries _ mem with old | ⟨new, -⟩
    · have same : (id, name) = (id', name) := eq_of_key (unique n) there old rfl
      have ids : id = id' := (Prod.mk.inj same).1
      omega
    · exact absurd rfl ((steps n).fresh name new _ there)
  | @made n k below name _ new here ih =>
    obtain ⟨id, there, le⟩ := ih
    obtain ⟨⟨id', name⟩, mem, rfl⟩ := List.mem_map.mp here
    refine ⟨id', mem, ?_⟩
    rcases (steps n).entries _ mem with old | ⟨-, above, -⟩
    · exact absurd rfl ((steps n).fresh name new _ old)
    · have lower : id < id' := above _ there
      omega

/-- The ids stay below a bound exactly as long as the stacks do. -/
theorem ids_lt_iff_stacks_lt (unique : ∀ n, ((table n).map Prod.snd).Nodup) {n bound : Nat} :
    (∀ entry ∈ table n, entry.1 < bound) ↔
      ∀ k name, Stacked root made table n k name → k < bound := by
  constructor
  · intro below k name stacked
    obtain ⟨id, mem, le⟩ := stacked.mem start steps unique
    exact Nat.lt_of_le_of_lt le (below _ mem)
  · intro below entry mem
    exact below entry.1 entry.2 (stacked_of_mem start steps mem)

end Stacks

end Partyline.Library
