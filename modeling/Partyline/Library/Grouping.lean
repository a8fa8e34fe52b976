import Mathlib.Algebra.Ring.Nat
import Mathlib.Data.List.Induction
import Mathlib.Data.List.Nodup

/-! A dictionary of lists in the order of its first entries: what is put in under a key comes
out under it, in its order. -/
namespace Partyline.Library

variable {α κ : Type*} [DecidableEq κ] (key : α → κ)

/-- `setdefault(key(x), []).append(x)`. -/
def addTo (x : α) : List (κ × List α) → List (κ × List α)
  | [] => [(key x, [x])]
  | (k, xs) :: rest => if k = key x then (k, xs ++ [x]) :: rest else (k, xs) :: addTo x rest

/-- The dictionary after all of `xs`. -/
def grouped (xs : List α) : List (κ × List α) := xs.foldl (fun groups x => addTo key x groups) []

structure Groups (xs : List α) (groups : List (κ × List α)) : Prop where
  nodup : (groups.map Prod.fst).Nodup
  keys : ∀ k, k ∈ groups.map Prod.fst ↔ ∃ x ∈ xs, key x = k
  each : ∀ g ∈ groups, g.2 = xs.filter (key · = g.1)

theorem addTo_keys (x : α) (groups : List (κ × List α)) : (addTo key x groups).map Prod.fst =
    if key x ∈ groups.map Prod.fst then groups.map Prod.fst
    else groups.map Prod.fst ++ [key x] := by
  induction groups with
  | nil => rfl
  | cons g rest ih =>
    obtain ⟨k, xs⟩ := g
    rw [addTo]
    by_cases here : k = key x
    · simp [here]
    · rw [if_neg here, List.map_cons, ih]
      by_cases later : key x ∈ rest.map Prod.fst
      · simp [later]
      · have nowhere : key x ∉ ((k, xs) :: rest).map Prod.fst := by
          rw [List.map_cons, List.mem_cons, not_or]
          exact ⟨Ne.symm here, later⟩
        rw [if_neg later, if_neg nowhere]
        rfl

theorem mem_addTo {x : α} {groups : List (κ × List α)} (nodup : (groups.map Prod.fst).Nodup)
    {g : κ × List α} (mem : g ∈ addTo key x groups) :
    (g ∈ groups ∧ g.1 ≠ key x) ∨ ∃ old, g = (key x, old ++ [x]) ∧
      ((key x, old) ∈ groups ∨ old = [] ∧ key x ∉ groups.map Prod.fst) := by
  induction groups with
  | nil => exact .inr ⟨[], List.mem_singleton.mp mem, .inr ⟨rfl, List.not_mem_nil⟩⟩
  | cons first rest ih =>
    obtain ⟨k, xs⟩ := first
    rw [List.map_cons, List.nodup_cons] at nodup
    rw [addTo] at mem
    by_cases here : k = key x
    · rw [if_pos here] at mem
      rcases List.mem_cons.mp mem with rfl | later
      · exact .inr ⟨xs, by rw [here], .inl (by simp [here])⟩
      · refine .inl ⟨List.mem_cons_of_mem _ later, fun same => nodup.1 ?_⟩
        rw [here, ← same]
        exact List.mem_map.mpr ⟨g, later, rfl⟩
    · rw [if_neg here] at mem
      rcases List.mem_cons.mp mem with rfl | later
      · exact .inl ⟨List.mem_cons_self, here⟩
      · rcases ih nodup.2 later with ⟨old, ne⟩ | ⟨old, same, before | ⟨rfl, new⟩⟩
        · exact .inl ⟨List.mem_cons_of_mem _ old, ne⟩
        · exact .inr ⟨old, same, .inl (List.mem_cons_of_mem _ before)⟩
        · refine .inr ⟨[], same, .inr ⟨rfl, ?_⟩⟩
          rw [List.map_cons, List.mem_cons, not_or]
          exact ⟨Ne.symm here, new⟩

theorem addTo_length (x : α) (groups : List (κ × List α)) :
    ((addTo key x groups).map fun g => g.2.length).sum =
      (groups.map fun g => g.2.length).sum + 1 := by
  induction groups with
  | nil => rfl
  | cons g rest ih =>
    obtain ⟨k, xs⟩ := g
    rw [addTo]
    split_ifs
    · simp only [List.map_cons, List.sum_cons, List.length_append, List.length_singleton]
      omega
    · simp only [List.map_cons, List.sum_cons, ih]
      omega

variable {key}

theorem Groups.add {xs : List α} {groups : List (κ × List α)} (h : Groups key xs groups) (x : α) :
    Groups key (xs ++ [x]) (addTo key x groups) where
  nodup := by
    rw [addTo_keys]
    split_ifs with old
    · exact h.nodup
    · exact h.nodup.append (List.nodup_singleton _) (by simpa using old)
  keys k := by
    rw [addTo_keys]
    split_ifs with old
    · rw [h.keys]
      constructor
      · rintro ⟨y, mem, same⟩
        exact ⟨y, List.mem_append_left _ mem, same⟩
      · rintro ⟨y, mem, rfl⟩
        rcases List.mem_append.mp mem with before | now
        · exact ⟨y, before, rfl⟩
        · obtain rfl := List.mem_singleton.mp now
          exact (h.keys _).mp old
    · simp [h.keys, or_and_right, exists_or, eq_comm]
  each g mem := by
    rcases mem_addTo key h.nodup mem with ⟨old, ne⟩ | ⟨old, rfl, before | ⟨rfl, new⟩⟩
    · rw [h.each g old, List.filter_append]
      simp [Ne.symm ne]
    · have same := h.each _ before
      simp [List.filter_append, ← same]
    · have empty : xs.filter (key · = key x) = [] := by
        rw [List.filter_eq_nil_iff]
        intro y there
        simpa using fun same => new ((h.keys _).mpr ⟨y, there, same⟩)
      simp [List.filter_append, empty]

theorem grouped_groups (xs : List α) : Groups key xs (grouped key xs) := by
  induction xs using List.reverseRecOn with
  | nil => exact ⟨List.nodup_nil, by simp [grouped], by simp [grouped]⟩
  | append_singleton xs x ih =>
    rw [grouped, List.foldl_append]
    exact ih.add x

theorem grouped_length (xs : List α) :
    ((grouped key xs).map fun g => g.2.length).sum = xs.length := by
  induction xs using List.reverseRecOn with
  | nil => rfl
  | append_singleton xs x ih =>
    rw [grouped, List.foldl_append, List.length_append]
    exact (addTo_length key x _).trans (congrArg (· + 1) ih)

end Partyline.Library
