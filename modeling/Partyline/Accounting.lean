import Partyline.Sustainable

/-! What `metadata.json` says of a sweep: which of the planned executions it has run, which it
has skipped, and why. -/
namespace Partyline.Compare

open Library

variable {R : Type*} (run : Command R → Outcome)

section Plan

variable (implementations : List Implementation)

def pass (trial : Nat) (group : Group R) : List (Command R) :=
  group.rates.flatMap fun rate =>
    (executionOrder implementations trial).map fun label => ⟨trial, label, group, rate⟩

def passes (groups : List (Group R)) (runs : Nat) : List (List (Command R)) :=
  (List.range' 1 runs).flatMap fun trial => groups.map (pass implementations trial)

end Plan

/-- Everything of the same implementation has passed before. -/
def unhindered (past : List (Command R)) (command : Command R) : Bool :=
  past.all fun earlier => earlier.label ≠ command.label || passed run earlier

def executed (xs : List (Command R)) : List (Command R) := filterPast (unhindered run) xs

def omitted (xs : List (Command R)) : List (Command R) :=
  filterPast (fun past command => !unhindered run past command) xs

variable {run} {s : Sweep R} {command : Command R}

theorem executed_concat (xs : List (Command R)) : executed run (xs ++ [command]) =
    executed run xs ++ if unhindered run xs command then [command] else [] :=
  filterPast_concat _ xs command

theorem omitted_concat (xs : List (Command R)) : omitted run (xs ++ [command]) =
    omitted run xs ++ if !unhindered run xs command then [command] else [] :=
  filterPast_concat _ xs command

theorem execute_inactive (inactive : command.label ∉ s.activeImplementations) :
    execute run command s = { s with skipped := s.skipped ++ [command] } := if_pos inactive

theorem execute_active (active : command.label ∈ s.activeImplementations) :
    (execute run command s).commands = s.commands ++ [(command, (run command).returncode)] ∧
      (execute run command s).skipped = s.skipped ∧
      (execute run command s).csvPaths =
        s.csvPaths ++ (if reported run command then [command] else []) ∧
      (execute run command s).activeImplementations =
        if passed run command then s.activeImplementations
        else s.activeImplementations.filter (· ≠ command.label) := by
  rw [execute, if_neg (not_not.mpr active)]
  by_cases failed : (run command).returncode = 0
  · cases output : (run command).output with
    | none => simp [Sweep.discard, passed, reported, *]
    | some valid =>
      by_cases ok : rowValid (resultRow command valid) = true <;>
        simp [Sweep.discard, passed, reported, *]
  · simp [Sweep.discard, passed, reported, failed]

structure Passed (run : Command R → Outcome) (s : Sweep R) (xs : List (Command R)) (t : Sweep R) :
    Prop where
  active : ∀ label, label ∈ t.activeImplementations ↔
    label ∈ s.activeImplementations ∧ ∀ x ∈ xs, x.label = label → passed run x = true
  commands : t.commands = s.commands ++ (executed run xs).map fun x => (x, (run x).returncode)
  skipped : t.skipped = s.skipped ++ omitted run xs
  csvPaths : t.csvPaths = s.csvPaths ++ (executed run xs).filter (reported run)

theorem Passed.next {xs : List (Command R)} {t : Sweep R} (h : Passed run s xs t)
    (own : command.label ∈ s.activeImplementations) :
    Passed run s (xs ++ [command]) (execute run command t) := by
  have hindrance : command.label ∈ t.activeImplementations ↔ unhindered run xs command = true := by
    rw [h.active, and_iff_right own, unhindered, List.all_eq_true]
    refine forall₂_congr fun x mem => ?_
    simp [imp_iff_not_or]
  by_cases active : command.label ∈ t.activeImplementations
  · have free := hindrance.mp active
    obtain ⟨commands, skipped, csvPaths, left⟩ := @execute_active R run t command active
    refine ⟨fun label => ?_, ?_, ?_, ?_⟩
    · rw [left]
      have before := h.active label
      by_cases good : passed run command = true
      · rw [if_pos good, before]
        simp [or_imp, forall_and, good]
      · rw [if_neg good, List.mem_filter, before]
        by_cases same : label = command.label
        · subst same
          simp [good]
        · simp [same, Ne.symm same, or_imp, forall_and]
    · rw [commands, h.commands, executed_concat, if_pos free]
      simp
    · rw [skipped, h.skipped, omitted_concat, free]
      simp
    · rw [csvPaths, h.csvPaths, executed_concat, if_pos free, List.filter_append]
      cases reports : reported run command <;> simp [reports]
  · have hindered := mt hindrance.mpr active
    rw [execute_inactive active]
    refine ⟨fun label => ?_, ?_, ?_, ?_⟩
    · rw [h.active label]
      refine and_congr_right fun _ => ⟨fun all x mem same => ?_, fun all x mem =>
        all x (List.mem_append_left _ mem)⟩
      rcases List.mem_append.mp mem with old | new
      · exact all x old same
      · obtain rfl := List.mem_singleton.mp new
        exact absurd ((h.active _).mpr ⟨own, same ▸ all⟩) active
    · rw [h.commands, executed_concat, if_neg hindered, List.append_nil]
    · rw [h.skipped, omitted_concat]
      simp [hindered]
    · rw [h.csvPaths, executed_concat, if_neg hindered, List.append_nil]

theorem passed_foldl {xs : List (Command R)}
    (own : ∀ x ∈ xs, x.label ∈ s.activeImplementations) :
    Passed run s xs (xs.foldl (fun s x => execute run x s) s) := by
  induction xs using List.reverseRecOn with
  | nil => exact ⟨by simp, by simp [executed, filterPast], by simp [omitted, filterPast],
      by simp [executed, filterPast]⟩
  | append_singleton xs x ih =>
    rw [List.foldl_append]
    exact (ih fun y mem => own y (List.mem_append_left _ mem)).next (own x (by simp))

theorem mem_pass {implementations : List Implementation} {trial : Nat} {group : Group R}
    (mem : command ∈ pass implementations trial group) : command.label ∈ implementations := by
  obtain ⟨rate, -, mem⟩ := List.mem_flatMap.mp mem
  obtain ⟨label, own, rfl⟩ := List.mem_map.mp mem
  exact (executionOrder_perm implementations trial).mem_iff.mp own

theorem sweepGroup_eq (implementations : List Implementation) (trial : Nat) (s : Sweep R)
    (group : Group R) : sweepGroup run implementations trial s group =
      (pass implementations trial group).foldl (fun s x => execute run x s)
        { s with activeImplementations := implementations } := by
  rw [sweepGroup, pass, List.foldl_flatMap]
  congr 1
  funext s rate
  rw [sweepRate, List.foldl_map]

structure Recorded (run : Command R → Outcome) (done : List (List (Command R))) (s : Sweep R) :
    Prop where
  commands : s.commands =
    (done.flatMap (executed run)).map fun x => (x, (run x).returncode)
  skipped : s.skipped = done.flatMap (omitted run)
  csvPaths : s.csvPaths = (done.flatMap (executed run)).filter (reported run)

theorem Recorded.group {done : List (List (Command R))} (h : Recorded run done s)
    (implementations : List Implementation) (trial : Nat) (group : Group R) :
    Recorded run (done ++ [pass implementations trial group])
      (sweepGroup run implementations trial s group) := by
  have passed : Passed run { s with activeImplementations := implementations }
      (pass implementations trial group) (sweepGroup run implementations trial s group) :=
    sweepGroup_eq implementations trial s group ▸ passed_foldl fun x => mem_pass
  refine ⟨?_, ?_, ?_⟩
  · rw [passed.commands, h.commands]
    simp
  · rw [passed.skipped, h.skipped]
    simp
  · rw [passed.csvPaths, h.csvPaths]
    simp

theorem recorded_trial {done : List (List (Command R))} (h : Recorded run done s)
    (implementations : List Implementation) (groups : List (Group R)) (trial : Nat) :
    Recorded run (done ++ groups.map (pass implementations trial))
      (sweepTrial run implementations groups s trial) := by
  induction groups generalizing done s with
  | nil => simpa [sweepTrial] using h
  | cons group groups ih =>
    have rest := ih (h.group implementations trial group)
    rw [List.append_assoc] at rest
    exact rest

theorem recorded_sweep (implementations : List Implementation) (groups : List (Group R))
    (runs : Nat) :
    Recorded run (passes implementations groups runs) (sweep run implementations groups runs) := by
  have trials (trials : List Nat) {done : List (List (Command R))} {s : Sweep R}
      (h : Recorded run done s) :
      Recorded run (done ++ trials.flatMap fun trial => groups.map (pass implementations trial))
        (trials.foldl (sweepTrial run implementations groups) s) := by
    induction trials generalizing done s with
    | nil => simpa using h
    | cons trial trials ih =>
      have rest := ih (recorded_trial h implementations groups trial)
      rw [List.append_assoc] at rest
      exact rest
  exact trials _ (show Recorded run [] _ from ⟨rfl, rfl, rfl⟩)

/-- Every planned execution is either run or skipped, once and in its turn; it is skipped exactly
if an earlier one of its pass and implementation has not passed. -/
theorem sweep_accounts (run : Command R → Outcome) (implementations : List Implementation)
    (groups : List (Group R)) (runs : Nat) :
    (sweep run implementations groups runs).commands =
        ((passes implementations groups runs).flatMap (executed run)).map
          (fun x => (x, (run x).returncode)) ∧
      (sweep run implementations groups runs).skipped =
        (passes implementations groups runs).flatMap (omitted run) ∧
      (sweep run implementations groups runs).csvPaths =
        ((passes implementations groups runs).flatMap (executed run)).filter (reported run) ∧
      ((sweep run implementations groups runs).commands.map Prod.fst ++
        (sweep run implementations groups runs).skipped).Perm
          (passes implementations groups runs).flatten := by
  obtain ⟨commands, skipped, csvPaths⟩ :=
    (recorded_sweep implementations groups runs : Recorded run _ _)
  refine ⟨commands, skipped, csvPaths, ?_⟩
  rw [commands, skipped, List.map_map]
  have own : Prod.fst ∘ (fun x : Command R => (x, (run x).returncode)) = id := rfl
  rw [own, List.map_id, ← List.flatMap_id]
  exact (List.flatMap_append_perm _ _ _).trans
    (List.Perm.flatMap_left _ fun xs _ => filterPast_perm _ xs)

end Partyline.Compare
