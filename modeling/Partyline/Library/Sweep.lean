import Mathlib.Data.List.Sort

/-! Folds seen through a view of their state, and the elements of a list that are tried
until one of them fails. -/
namespace Partyline.Library

section View

variable {σ α τ : Type*} (step : σ → α → σ) (view : σ → τ) (own : τ → α → τ) (p : α → Prop)
  [DecidablePred p]

theorem foldl_view (xs : List α)
    (touched : ∀ s, ∀ x ∈ xs, p x → view (step s x) = own (view s) x)
    (blind : ∀ s, ∀ x ∈ xs, ¬ p x → view (step s x) = view s) (s : σ) :
    view (xs.foldl step s) = (xs.filter p).foldl own (view s) := by
  induction xs generalizing s with
  | nil => rfl
  | cons x xs ih =>
    have rest := ih (fun s y mem => touched s y (List.mem_cons_of_mem x mem))
      (fun s y mem => blind s y (List.mem_cons_of_mem x mem)) (step s x)
    rw [List.foldl_cons, rest]
    by_cases seen : p x
    · rw [List.filter_cons_of_pos (by simpa using seen), List.foldl_cons,
        touched s x List.mem_cons_self seen]
    · rw [List.filter_cons_of_neg (by simpa using seen), blind s x List.mem_cons_self seen]

end View

theorem flatMap_ite {α β : Type*} (p : α → Prop) [DecidablePred p] (f : α → β) (xs : List α) :
    (xs.flatMap fun x => if p x then [f x] else []) = (xs.filter p).map f := by
  induction xs with
  | nil => rfl
  | cons x xs ih =>
    rw [List.flatMap_cons, ih, List.filter_cons]
    by_cases here : p x <;> simp [here]

section Tried

variable {α : Type*} {reported good : α → Bool}

/-- The elements that are reported, up to the first that is not good. -/
def tried (reported good : α → Bool) : List α → List α
  | [] => []
  | x :: xs =>
    if reported x then x :: (if good x then tried reported good xs else []) else []

theorem tried_sublist (xs : List α) : (tried reported good xs).Sublist xs := by
  induction xs with
  | nil => exact .slnil
  | cons x xs ih =>
    unfold tried
    split_ifs
    · exact ih.cons_cons x
    · exact (List.nil_sublist xs).cons_cons x
    · exact List.nil_sublist _

theorem reported_of_mem_tried {xs : List α} {x : α} (mem : x ∈ tried reported good xs) :
    reported x = true := by
  induction xs with
  | nil => cases mem
  | cons y xs ih =>
    unfold tried at mem
    split_ifs at mem with reportedY goodY
    · rcases List.mem_cons.mp mem with rfl | later
      · exact reportedY
      · exact ih later
    · rw [List.mem_singleton.mp mem]
      exact reportedY
    · cases mem

/-- In an ascending list a good element is tried where all below it are good. -/
theorem good_tried_iff [LinearOrder α] (sound : ∀ x, good x = true → reported x = true)
    {xs : List α} (ascending : xs.Pairwise (· < ·)) (x : α) :
    x ∈ tried reported good xs ∧ good x = true ↔
      x ∈ xs ∧ ∀ y ∈ xs, y ≤ x → good y = true := by
  induction xs with
  | nil => simp [tried]
  | cons first xs ih =>
    obtain ⟨least, ascending⟩ := List.pairwise_cons.mp ascending
    have later := ih ascending
    by_cases passes : good first = true
    · rw [tried, if_pos (sound first passes), if_pos passes, List.mem_cons, List.mem_cons,
        List.forall_mem_cons]
      constructor
      · rintro ⟨rfl | mem, here⟩
        · refine ⟨.inl rfl, fun _ => here, fun y mem below => ?_⟩
          exact absurd below (not_le.mpr (least y mem))
        · obtain ⟨mem', below⟩ := later.mp ⟨mem, here⟩
          exact ⟨.inr mem', fun _ => passes, below⟩
      · rintro ⟨rfl | mem, first_le, below⟩
        · exact ⟨.inl rfl, passes⟩
        · obtain ⟨mem', here⟩ := later.mpr ⟨mem, below⟩
          exact ⟨.inr mem', here⟩
    · constructor
      · rintro ⟨mem, here⟩
        have at_first : x = first := by
          unfold tried at mem
          split_ifs at mem
          · simpa using mem
          · cases mem
        exact absurd (at_first ▸ here) passes
      · rintro ⟨mem, below⟩
        have first_le : first ≤ x := by
          rcases List.mem_cons.mp mem with rfl | mem
          · exact le_rfl
          · exact (least x mem).le
        exact absurd (below first List.mem_cons_self first_le) passes

end Tried

section Past

variable {α : Type*} (p : List α → α → Bool)

/-- The elements that pass a test of themselves and of all that come before them. -/
def filterPast (xs : List α) : List α :=
  (xs.zipIdx.filter fun x => p (xs.take x.2) x.1).map Prod.fst

theorem filterPast_concat (xs : List α) (x : α) :
    filterPast p (xs ++ [x]) = filterPast p xs ++ if p xs x then [x] else [] := by
  have before : xs.zipIdx.filter (fun y => p ((xs ++ [x]).take y.2) y.1) =
      xs.zipIdx.filter fun y => p (xs.take y.2) y.1 := by
    refine List.filter_congr fun y mem => ?_
    have := (List.mem_zipIdx' mem).1
    rw [List.take_append_of_le_length this.le]
  rw [filterPast, List.zipIdx_append, List.filter_append, List.map_append, before]
  congr 1
  by_cases here : p xs x <;> simp [here]

theorem filterPast_perm (xs : List α) :
    (filterPast p xs ++ filterPast (fun past x => !p past x) xs).Perm xs := by
  have both := (List.filter_append_perm (fun x => p (xs.take x.2) x.1) xs.zipIdx).map Prod.fst
  rw [List.map_append, List.zipIdx_map_fst] at both
  exact both

end Past

end Partyline.Library
