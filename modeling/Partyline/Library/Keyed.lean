import Mathlib.Data.List.Nodup

/-! Lists whose elements carry pairwise distinct keys. -/
namespace Partyline.Library

variable {α κ : Type*} {key : α → κ} {l : List α}

theorem map_modify {f : α → α} (same : ∀ a, key (f a) = key a) (position : Nat) :
    (l.modify position f).map key = l.map key := by
  refine List.ext_getElem? fun j => ?_
  rw [List.getElem?_map, List.getElem?_map, List.getElem?_modify]
  cases l[j]? with
  | none => rfl
  | some a => by_cases here : position = j <;> simp [here, same]

theorem eq_of_key (unique : (l.map key).Nodup) {a b : α} (ha : a ∈ l) (hb : b ∈ l)
    (same : key a = key b) : a = b :=
  List.inj_on_of_nodup_map unique ha hb same

variable [DecidableEq κ]

theorem find?_key (unique : (l.map key).Nodup) {k : κ} {a : α} :
    l.find? (fun b => key b == k) = some a ↔ a ∈ l ∧ key a = k := by
  constructor
  · intro found
    exact ⟨List.mem_of_find?_eq_some found, by simpa using List.find?_some found⟩
  · rintro ⟨mem, rfl⟩
    obtain ⟨b, found⟩ : ∃ b, l.find? (fun b => key b == key a) = some b := by
      rw [← Option.isSome_iff_exists, List.find?_isSome]
      exact ⟨a, mem, by simp⟩
    have same : key b = key a := by simpa using List.find?_some found
    rw [found, eq_of_key unique (List.mem_of_find?_eq_some found) mem same]

theorem find?_key_eq_none {k : κ} : l.find? (fun b => key b == k) = none ↔ ∀ a ∈ l, key a ≠ k := by
  simp

theorem mem_eraseP_key (unique : (l.map key).Nodup) {k : κ} {a : α} :
    a ∈ l.eraseP (fun b => key b == k) ↔ a ∈ l ∧ key a ≠ k := by
  induction l with
  | nil => simp
  | cons b rest ih =>
    rw [List.map_cons, List.nodup_cons] at unique
    by_cases here : key b = k
    · rw [List.eraseP_cons_of_pos (by simpa using here)]
      have others : a ∈ rest → key a ≠ k := by
        rintro mem rfl
        exact unique.1 (here ▸ List.mem_map_of_mem mem)
      grind
    · rw [List.eraseP_cons_of_neg (by simpa using here), List.mem_cons, ih unique.2, List.mem_cons]
      grind

theorem nodup_eraseP {α β : Type*} {f : α → β} {l : List α} (unique : (l.map f).Nodup)
    (p : α → Bool) : ((l.eraseP p).map f).Nodup :=
  unique.sublist (List.eraseP_sublist.map f)

theorem modify_key (unique : (l.map key).Nodup) {position : Nat} {a : α}
    (found : l[position]? = some a) (f : α → α) :
    l.modify position f = l.map fun b => if key b = key a then f b else b := by
  refine List.ext_getElem? fun j => ?_
  rw [List.getElem?_modify, List.getElem?_map]
  by_cases here : position = j
  · subst here
    simp [found]
  · cases there : l[j]? with
    | none => simp
    | some b =>
      have other : key b ≠ key a := by
        intro same
        have positions : (l.map key)[position]? = (l.map key)[j]? := by simp [found, there, same]
        obtain ⟨bound, -⟩ := List.getElem?_eq_some_iff.mp found
        exact here ((List.getElem?_inj (by simpa using bound) unique).mp positions)
      simp [here, other]

theorem lookup_key {μ ν : Type*} [BEq μ] [LawfulBEq μ] {entries : List (μ × ν)}
    (unique : (entries.map Prod.fst).Nodup) {k : μ} {v : ν} (mem : (k, v) ∈ entries) :
    entries.lookup k = some v := by
  induction entries with
  | nil => exact absurd mem List.not_mem_nil
  | cons entry entries ih =>
    rw [List.map_cons, List.nodup_cons] at unique
    cases mem with
    | head => exact List.lookup_cons_self
    | tail _ mem =>
      have other : k ≠ entry.1 := by
        rintro rfl
        exact unique.1 (List.mem_map.mpr ⟨_, mem, rfl⟩)
      rw [List.lookup_cons, beq_false_of_ne other, ih unique.2 mem]

end Partyline.Library
