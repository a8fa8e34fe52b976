import Partyline.Compare
import Partyline.Library.Sweep

/-! What the highest sustainable rate of a summary means. The rates of a group ascend
and an implementation is dropped at the first that fails, so that a valid row at a
rate stands for all rates below it. -/
namespace Partyline.Compare

open Library
open Bench (Workload)

variable {R : Type*} (run : Command R → Outcome)

/-- An execution that has exited cleanly and left a row. -/
def reported (command : Command R) : Bool :=
  (run command).returncode = 0 && (run command).output.isSome

/-- An execution that has exited cleanly and left a valid row. -/
def passed (command : Command R) : Bool :=
  (run command).returncode = 0 &&
    (run command).output.any fun valid => rowValid (resultRow command valid)

/-- Every rate up to this one has passed in every trial. -/
def Sustained [LE R] (runs : Nat) (group : Group R) (label : Implementation) (rate : R) : Prop :=
  rate ∈ group.rates ∧ ∀ trial ∈ List.range' 1 runs, ∀ lower ∈ group.rates, lower ≤ rate →
    passed run ⟨trial, label, group, lower⟩ = true

def Command.key (command : Command R) : Key :=
  ⟨command.group.experiment, command.label, command.group.total⟩

/-- What one implementation has at one tier: whether it is active, and its files. -/
def Sweep.view (key : Key) (s : Sweep R) : Bool × List (Command R) :=
  (decide (key.label ∈ s.activeImplementations), s.csvPaths.filter fun path => path.key = key)

theorem passed_reported (command : Command R) (h : passed run command = true) :
    reported run command = true := by
  simp only [passed, reported, Bool.and_eq_true] at h ⊢
  refine ⟨h.1, ?_⟩
  cases output : (run command).output with
  | none => simp [output] at h
  | some valid => rfl

def attempt (v : Bool × List (Command R)) (command : Command R) : Bool × List (Command R) :=
  if v.1 then (passed run command, v.2 ++ if reported run command then [command] else []) else v

section Views

variable {run} {key : Key} {command : Command R} {s : Sweep R}

theorem execute_view (own : command.key = key) :
    (execute run command s).view key = attempt run (s.view key) command := by
  subst own
  unfold execute
  by_cases active : command.label ∈ s.activeImplementations
  · rw [if_neg (not_not.mpr active)]
    by_cases failed : (run command).returncode = 0
    · cases output : (run command).output with
      | none => simp [Sweep.view, attempt, Sweep.discard, passed, reported, Command.key, *]
      | some valid =>
        by_cases ok : rowValid (resultRow command valid) = true <;>
          simp [Sweep.view, attempt, Sweep.discard, passed, reported, Command.key, *]
    · simp [Sweep.view, attempt, Sweep.discard, passed, reported, Command.key, *]
  · simp [Sweep.view, attempt, Command.key, active]

theorem execute_view_other (other : command.label ≠ key.label) :
    (execute run command s).view key = s.view key := by
  have unseen : command.key ≠ key := fun same => other (congrArg Key.label same)
  unfold execute
  by_cases active : command.label ∈ s.activeImplementations
  · rw [if_neg (not_not.mpr active)]
    by_cases failed : (run command).returncode = 0
    · cases output : (run command).output with
      | none => simp [Sweep.view, Sweep.discard, Ne.symm other, *]
      | some valid =>
        by_cases ok : rowValid (resultRow command valid) = true <;>
          simp [Sweep.view, Sweep.discard, Ne.symm other, *]
    · simp [Sweep.view, Sweep.discard, Ne.symm other, *]
  · simp [Sweep.view, active]

theorem execute_paths_other (other : command.key ≠ key) :
    ((execute run command s).view key).2 = (s.view key).2 := by
  cases output : (run command).output with
  | none =>
    simp only [execute, output]
    split_ifs <;> rfl
  | some valid =>
    simp only [execute, output]
    split_ifs <;> simp [Sweep.view, Sweep.discard, other]

end Views

section Loops

variable {implementations : List Implementation} {group : Group R} {label : Implementation}

theorem executionOrder_perm (implementations : List Implementation) (trial : Nat) :
    (executionOrder implementations trial).Perm implementations := by
  unfold executionOrder
  split_ifs
  · exact .refl _
  · exact List.reverse_perm _

def Group.key (group : Group R) (label : Implementation) : Key :=
  ⟨group.experiment, label, group.total⟩

theorem sweepRate_view (distinct : implementations.Nodup) (mem : label ∈ implementations)
    (trial : Nat) (s : Sweep R) (rate : R) :
    (sweepRate run implementations trial group s rate).view (group.key label) =
      attempt run (s.view (group.key label)) ⟨trial, label, group, rate⟩ := by
  have order := executionOrder_perm implementations trial
  have one : (executionOrder implementations trial).filter (fun other => other = label) =
      [label] := by
    rw [List.filter_eq, List.count_eq_one_of_mem (order.nodup_iff.mpr distinct)
      (order.mem_iff.mpr mem)]
    rfl
  have seen := foldl_view (fun s other => execute run ⟨trial, other, group, rate⟩ s)
    (Sweep.view (group.key label)) (fun v other => attempt run v ⟨trial, other, group, rate⟩)
    (· = label) (executionOrder implementations trial)
    (fun _ _ _ same => execute_view (congrArg group.key same))
    (fun _ _ _ different => execute_view_other different) s
  rw [one] at seen
  exact seen

def triedRates (group : Group R) (label : Implementation) (trial : Nat) : List R :=
  tried (fun rate => reported run ⟨trial, label, group, rate⟩)
    (fun rate => passed run ⟨trial, label, group, rate⟩) group.rates

def left (group : Group R) (label : Implementation) (trial : Nat) : List (Command R) :=
  (triedRates run group label trial).map fun rate => ⟨trial, label, group, rate⟩

theorem attempt_rates (label : Implementation) (trial : Nat) (rates : List R)
    (paths : List (Command R)) :
    (rates.foldl (fun v rate => attempt run v ⟨trial, label, group, rate⟩) (true, paths)).2 =
      paths ++ (tried (fun rate => reported run ⟨trial, label, group, rate⟩)
        (fun rate => passed run ⟨trial, label, group, rate⟩) rates).map
        fun rate => ⟨trial, label, group, rate⟩ := by
  have dropped (rates : List R) (paths : List (Command R)) :
      rates.foldl (fun v rate => attempt run v ⟨trial, label, group, rate⟩) (false, paths) =
        (false, paths) := by
    induction rates with
    | nil => rfl
    | cons rate rates ih => exact ih
  induction rates generalizing paths with
  | nil => simp [tried]
  | cons rate rates ih =>
    rw [List.foldl_cons, attempt, if_pos rfl, tried]
    by_cases ok : passed run ⟨trial, label, group, rate⟩ = true
    · have row := passed_reported run _ ok
      rw [if_pos row, if_pos row, if_pos ok, ok, ih]
      simp
    · rw [Bool.not_eq_true] at ok
      rw [ok, dropped]
      by_cases row : reported run ⟨trial, label, group, rate⟩ = true
      · simp [row]
      · simp [row]

theorem sweepGroup_paths (distinct : implementations.Nodup) (mem : label ∈ implementations)
    (trial : Nat) (s : Sweep R) :
    ((sweepGroup run implementations trial s group).view (group.key label)).2 =
      (s.view (group.key label)).2 ++ left run group label trial := by
  have seen := foldl_view (sweepRate run implementations trial group)
    (Sweep.view (group.key label)) (fun v rate => attempt run v ⟨trial, label, group, rate⟩)
    (fun _ => True) group.rates (fun s rate _ _ => sweepRate_view run distinct mem trial s rate)
    (fun _ _ _ never => absurd trivial never)
    { s with activeImplementations := implementations }
  have active : Sweep.view (group.key label) { s with activeImplementations := implementations } =
      (true, (s.view (group.key label)).2) := by
    simp [Sweep.view, Group.key, mem]
  rw [active] at seen
  rw [sweepGroup, seen, left, triedRates, ← attempt_rates]
  simp

theorem sweepGroup_paths_other {key : Key} {other : Group R} (implementations : List Implementation)
    (different : ¬(other.experiment = key.experiment ∧ other.total = key.total)) (trial : Nat)
    (s : Sweep R) :
    ((sweepGroup run implementations trial s other).view key).2 = (s.view key).2 := by
  have unseen (label : Implementation) (rate : R) :
      (Command.key ⟨trial, label, other, rate⟩) ≠ key := by
    rintro rfl
    exact different ⟨rfl, rfl⟩
  have blind (labels : List Implementation) (s : Sweep R) (rate : R) :
      ((labels.foldl (fun s label => execute run ⟨trial, label, other, rate⟩ s) s).view key).2 =
        (s.view key).2 := by
    induction labels generalizing s with
    | nil => rfl
    | cons label labels ih => exact (ih _).trans (execute_paths_other (unseen label rate))
  have all (rates : List R) (s : Sweep R) :
      ((rates.foldl (sweepRate run implementations trial other) s).view key).2 =
        (s.view key).2 := by
    induction rates generalizing s with
    | nil => rfl
    | cons rate rates ih => exact (ih _).trans (blind _ s rate)
  exact (all _ _).trans rfl

theorem sweep_paths (distinct : implementations.Nodup) (mem : label ∈ implementations)
    {groups : List (Group R)} (runs : Nat)
    (one : (groups.filter fun other =>
      other.experiment = group.experiment ∧ other.total = group.total) = [group]) :
    (sweep run implementations groups runs).csvPaths.filter
        (fun path => path.key = group.key label) =
      (List.range' 1 runs).flatMap (left run group label) := by
  have trial (s : Sweep R) (trial : Nat) :
      ((sweepTrial run implementations groups s trial).view (group.key label)).2 =
        (s.view (group.key label)).2 ++ left run group label trial := by
    have seen := foldl_view (sweepGroup run implementations trial)
      (fun s => (s.view (group.key label)).2) (fun paths other => paths ++ left run other label trial)
      (fun other => other.experiment = group.experiment ∧ other.total = group.total) groups
      ?_ (fun s other _ different => sweepGroup_paths_other run implementations different trial s) s
    · rw [one] at seen
      exact seen
    · intro s other known same
      have here : other ∈ [group] := one ▸ List.mem_filter.mpr ⟨known, by simpa using same⟩
      obtain rfl := List.mem_singleton.mp here
      exact sweepGroup_paths run distinct mem trial s
  have seen := foldl_view (sweepTrial run implementations groups)
    (fun s => (s.view (group.key label)).2) (fun paths trial => paths ++ left run group label trial)
    (fun _ => True) (List.range' 1 runs) (fun s n _ _ => trial s n)
    (fun _ _ _ never => absurd trivial never) ⟨[], [], [], []⟩
  rw [List.foldl_append_eq_append] at seen
  simpa [Sweep.view, sweep, List.flatMap] using seen

end Loops

section Rows

variable {group : Group R} {label : Implementation}

def rowOf (command : Command R) : Row R := resultRow command ((run command).output.getD "")

theorem combineCsvs_reported {paths : List (Command R)}
    (known : ∀ path ∈ paths, reported run path = true) :
    combineCsvs run paths = paths.map (rowOf run) := by
  induction paths with
  | nil => rfl
  | cons path paths ih =>
    have first := known path List.mem_cons_self
    rw [reported, Bool.and_eq_true, Option.isSome_iff_exists] at first
    obtain ⟨-, valid, output⟩ := first
    have rest := ih fun other mem => known other (List.mem_cons_of_mem path mem)
    rw [combineCsvs] at rest ⊢
    simp [rowOf, output, rest]

theorem combineCsvs_key (key : Key) (paths : List (Command R)) :
    (combineCsvs run paths).filter (fun row => row.key = key) =
      combineCsvs run (paths.filter fun path => path.key = key) := by
  induction paths with
  | nil => rfl
  | cons path paths ih =>
    rw [combineCsvs] at ih ⊢
    cases output : (run path).output with
    | none =>
      by_cases same : path.key = key <;> simp [output, same, ih, combineCsvs]
    | some valid =>
      have key_eq : (resultRow path valid).key = path.key := rfl
      by_cases same : path.key = key <;> simp [output, same, ih, combineCsvs, key_eq]

theorem reported_of_mem_left {trial : Nat} {path : Command R}
    (mem : path ∈ left run group label trial) : reported run path = true := by
  obtain ⟨rate, known, rfl⟩ := List.mem_map.mp mem
  have sent := reported_of_mem_tried known
  exact sent

variable {implementations : List Implementation} {groups : List (Group R)}

theorem keyRows_eq (distinct : implementations.Nodup) (mem : label ∈ implementations) (runs : Nat)
    (one : (groups.filter fun other =>
      other.experiment = group.experiment ∧ other.total = group.total) = [group]) :
    (combineCsvs run (sweep run implementations groups runs).csvPaths).filter
        (fun row => row.key = group.key label) =
      (List.range' 1 runs).flatMap fun trial =>
        (triedRates run group label trial).map fun rate => rowOf run ⟨trial, label, group, rate⟩ := by
  have known : ∀ path ∈ (List.range' 1 runs).flatMap (left run group label),
      reported run path = true := by
    intro path found
    obtain ⟨trial, -, found⟩ := List.mem_flatMap.mp found
    exact reported_of_mem_left run found
  rw [combineCsvs_key, sweep_paths run distinct mem runs one, combineCsvs_reported run known,
    List.map_flatMap]
  simp only [left, List.map_map, Function.comp_def]

variable [LinearOrder R]

theorem rateRows_eq (distinct : implementations.Nodup) (mem : label ∈ implementations) (runs : Nat)
    (one : (groups.filter fun other =>
      other.experiment = group.experiment ∧ other.total = group.total) = [group])
    (rates : group.rates.Nodup) (rate : R) :
    (combineCsvs run (sweep run implementations groups runs).csvPaths).filter
        (fun row => row.key = group.key label ∧ row.globalOfferedRate = rate) =
      ((List.range' 1 runs).filter fun trial => rate ∈ triedRates run group label trial).map
        fun trial => rowOf run ⟨trial, label, group, rate⟩ := by
  have split (row : Row R) : decide (row.key = group.key label ∧ row.globalOfferedRate = rate) =
      (decide (row.globalOfferedRate = rate) && decide (row.key = group.key label)) := by
    rw [Bool.and_comm, Bool.decide_and]
  have each (trial : Nat) : ((triedRates run group label trial).map fun rate =>
      rowOf run ⟨trial, label, group, rate⟩).filter (fun row => row.globalOfferedRate = rate) =
      if rate ∈ triedRates run group label trial then
        [rowOf run ⟨trial, label, group, rate⟩] else [] := by
    have once : (triedRates run group label trial).Nodup := (tried_sublist _).nodup rates
    have same : ((triedRates run group label trial).filter fun other => other = rate) =
        if rate ∈ triedRates run group label trial then [rate] else [] := by
      rw [List.filter_eq, once.count]
      split_ifs <;> rfl
    rw [List.filter_map]
    simp only [Function.comp_def, rowOf, resultRow, same]
    split_ifs <;> rfl
  simp only [split]
  rw [← List.filter_filter, keyRows_eq run distinct mem runs one, List.filter_flatMap]
  simp only [each]
  exact flatMap_ite _ _ _

theorem mem_candidates (distinct : implementations.Nodup) (mem : label ∈ implementations)
    {runs : Nat} (positive : 1 ≤ runs)
    (one : (groups.filter fun other =>
      other.experiment = group.experiment ∧ other.total = group.total) = [group])
    (ascending : group.rates.Pairwise (· < ·)) (rate : R) :
    rate ∈ candidates (combineCsvs run (sweep run implementations groups runs).csvPaths) runs
        (group.key label) ↔
      Sustained run runs group label rate := by
  have rates : group.rates.Nodup := ascending.imp ne_of_lt
  have rows := rateRows_eq run distinct mem runs one rates rate
  have passes (trial : Nat) (found : rate ∈ triedRates run group label trial) :
      rowValid (rowOf run ⟨trial, label, group, rate⟩) =
        passed run ⟨trial, label, group, rate⟩ := by
    have sent := reported_of_mem_tried found
    simp only [reported, Bool.and_eq_true, Option.isSome_iff_exists] at sent
    obtain ⟨clean, valid, output⟩ := sent
    simp [rowOf, passed, output, clean]
  have below (trial : Nat) : rate ∈ triedRates run group label trial ∧
      passed run ⟨trial, label, group, rate⟩ = true ↔ rate ∈ group.rates ∧
        ∀ lower ∈ group.rates, lower ≤ rate → passed run ⟨trial, label, group, lower⟩ = true :=
    good_tried_iff (fun _ => passed_reported run _) ascending rate
  have first : 1 ∈ List.range' 1 runs := by
    rw [List.mem_range'_1]
    omega
  have whole : ((List.range' 1 runs).filter fun trial =>
      rate ∈ triedRates run group label trial).length = runs ↔
      ∀ trial ∈ List.range' 1 runs, rate ∈ triedRates run group label trial := by
    have count := List.length_filter_eq_length_iff (l := List.range' 1 runs)
      (p := fun trial => decide (rate ∈ triedRates run group label trial))
    rw [List.length_range'] at count
    simpa only [decide_eq_true_eq] using count
  rw [candidates, List.mem_filter, List.mem_dedup, List.mem_map]
  simp only [decide_eq_true_eq, rows, List.length_map]
  constructor
  · rintro ⟨-, length, valid⟩
    have everywhere := whole.mp length
    have ok (trial : Nat) (known : trial ∈ List.range' 1 runs) :
        passed run ⟨trial, label, group, rate⟩ = true := by
      have found := everywhere trial known
      rw [← passes trial found]
      exact valid _ (List.mem_map.mpr
        ⟨trial, List.mem_filter.mpr ⟨known, by simpa using found⟩, rfl⟩)
    exact ⟨((below 1).mp ⟨everywhere 1 first, ok 1 first⟩).1,
      fun trial known => ((below trial).mp ⟨everywhere trial known, ok trial known⟩).2⟩
  · rintro ⟨swept, lower⟩
    have found (trial : Nat) (known : trial ∈ List.range' 1 runs) :=
      (below trial).mpr ⟨swept, lower trial known⟩
    refine ⟨?_, whole.mpr fun trial known => (found trial known).1, ?_⟩
    · have row : rowOf run ⟨1, label, group, rate⟩ ∈
          (combineCsvs run (sweep run implementations groups runs).csvPaths).filter
            fun row => row.key = group.key label ∧ row.globalOfferedRate = rate := by
        rw [rows]
        exact List.mem_map.mpr
          ⟨1, List.mem_filter.mpr ⟨first, by simpa using (found 1 first).1⟩, rfl⟩
      obtain ⟨known, same⟩ := List.mem_filter.mp row
      rw [decide_eq_true_eq] at same
      exact ⟨_, List.mem_filter.mpr ⟨known, by simpa using same.1⟩, same.2⟩
    · intro row mem
      obtain ⟨trial, known, rfl⟩ := List.mem_map.mp mem
      have here := found trial (List.mem_filter.mp known).1
      rw [passes trial here.1]
      exact here.2

end Rows

section Groups

variable {groups : List (Group R)} {group : Group R}

theorem fullGroups_filter {experiment : Experiment} {workload : Workload} {tiers : List Nat}
    {rates : List R} (distinct : tiers.Nodup) (total : Nat) :
    ((fullGroups experiment workload tiers rates).filter fun group =>
      group.experiment = experiment ∧ group.total = total) =
      if total ∈ tiers then [⟨experiment, workload, total, total, rates⟩] else [] := by
  rw [fullGroups, List.filter_map]
  simp only [Function.comp_def, true_and]
  rw [List.filter_eq, distinct.count]
  split_ifs <;> rfl

theorem mem_fullGroups {experiment : Experiment} {workload : Workload} {tiers : List Nat}
    {rates : List R} (mem : group ∈ fullGroups experiment workload tiers rates) :
    group.total ∈ tiers ∧ group = ⟨experiment, workload, group.total, group.total, rates⟩ := by
  obtain ⟨total, known, rfl⟩ := List.mem_map.mp mem
  exact ⟨known, rfl⟩

theorem filter_other {experiment other : Experiment} (total : Nat) (different : other ≠ experiment)
    {xs : List (Group R)} (known : ∀ group ∈ xs, group.experiment = other) :
    (xs.filter fun group => group.experiment = experiment ∧ group.total = total) = [] := by
  refine List.filter_eq_nil_iff.mpr fun group mem => ?_
  simp [known group mem, different]

variable [LinearOrder R] {args : Args R}

def soughtGroups (args : Args R) (name : String) (experiment : Experiment) (workload : Workload)
    (tiers : List Nat) (rates : List R) : List (Group R) :=
  if name ∈ args.experiments then
    fullGroups experiment workload tiers (rates.insertionSort (· ≤ ·))
  else []

theorem experimentGroups_ok (ok : experimentGroups args = .ok groups) :
    ∃ sparse : List (Group R), (∀ group ∈ sparse, group.experiment = .sparse) ∧
      groups = sparse ++
        soughtGroups args "dense" .dense .direct args.denseTiers args.denseRates ++
        soughtGroups args "broadcast" .broadcast .broadcast args.broadcastTiers
          args.broadcastRates := by
  unfold experimentGroups at ok
  dsimp only at ok
  by_cases unknown : (args.experiments.dedup.filter fun name =>
      name ∉ ["sparse", "dense", "broadcast"]) = []
  · rw [if_neg (not_not.mpr unknown)] at ok
    obtain rfl := Except.ok.inj ok
    refine ⟨_, ?_, rfl⟩
    intro group mem
    split_ifs at mem
    · obtain ⟨total, -, mem⟩ := List.mem_flatMap.mp mem
      obtain ⟨active, -, rfl⟩ := List.mem_map.mp mem
      rfl
    · cases mem
  · rw [if_pos unknown] at ok
    cases ok

section Sought

variable {name : String} {experiment : Experiment} {workload : Workload} {tiers : List Nat}
  {rates : List R}

theorem soughtGroups_experiment :
    ∀ group ∈ soughtGroups args name experiment workload tiers rates,
      group.experiment = experiment := by
  intro group mem
  unfold soughtGroups at mem
  split_ifs at mem
  · rw [(mem_fullGroups mem).2]
  · cases mem

theorem soughtGroups_one (mem : group ∈ soughtGroups args name experiment workload tiers rates)
    (distinct : tiers.Nodup) :
    ((soughtGroups args name experiment workload tiers rates).filter fun other =>
      other.experiment = group.experiment ∧ other.total = group.total) = [group] := by
  have same := soughtGroups_experiment group mem
  unfold soughtGroups at mem ⊢
  split_ifs at mem ⊢
  · obtain ⟨known, shape⟩ := mem_fullGroups mem
    rw [same, fullGroups_filter distinct, if_pos known, ← shape]
  · cases mem

theorem soughtGroups_ascending
    (mem : group ∈ soughtGroups args name experiment workload tiers rates)
    (distinct : rates.Nodup) : group.rates.Pairwise (· < ·) := by
  unfold soughtGroups at mem
  split_ifs at mem
  · rw [(mem_fullGroups mem).2]
    have sorted := List.pairwise_insertionSort (· ≤ ·) rates
    have once := (List.perm_insertionSort (· ≤ ·) rates).nodup_iff.mpr distinct
    exact (sorted.and once).imp fun both => lt_of_le_of_ne both.1 both.2
  · cases mem

end Sought

/-- A group in which a rate is sought is the only one of its experiment and tier, and its
rates ascend. -/
theorem experimentGroups_group (ok : experimentGroups args = .ok groups)
    (tiers : args.denseTiers.Nodup ∧ args.broadcastTiers.Nodup)
    (rates : args.denseRates.Nodup ∧ args.broadcastRates.Nodup) (mem : group ∈ groups)
    (sought : group.experiment ≠ .sparse) :
    (groups.filter fun other =>
      other.experiment = group.experiment ∧ other.total = group.total) = [group] ∧
      group.rates.Pairwise (· < ·) := by
  obtain ⟨sparse, known, rfl⟩ := experimentGroups_ok ok
  rw [List.filter_append, List.filter_append, filter_other _ sought.symm known]
  rcases List.mem_append.mp mem with mem | mem
  · rcases List.mem_append.mp mem with mem | mem
    · exact absurd (known group mem) sought
    · have dense := soughtGroups_experiment group mem
      have different : Experiment.broadcast ≠ group.experiment := by simp [dense]
      rw [soughtGroups_one mem tiers.1, filter_other _ different soughtGroups_experiment]
      exact ⟨rfl, soughtGroups_ascending mem rates.1⟩
  · have broadcast := soughtGroups_experiment group mem
    have different : Experiment.dense ≠ group.experiment := by simp [broadcast]
    rw [soughtGroups_one mem tiers.2, filter_other _ different soughtGroups_experiment]
    exact ⟨rfl, soughtGroups_ascending mem rates.2⟩

end Groups

section Reported

variable [LinearOrder R] {rows : List (Row R)} {runs : Nat} {key : Key}

/-- What a summary reports for a key: one rate, or that there is none, or nothing. -/
def Summary.rates (summary : Summary R) (key : Key) : List (Option R) :=
  (summary.highestSustainable.filter fun entry => entry.key = key).map Highest.rate

theorem writeSummaries_rates (sought : key.experiment ≠ .sparse) :
    (writeSummaries rows runs).rates key =
      if ∃ row ∈ rows, row.key = key then [(candidates rows runs key).max?] else [] := by
  have known : (((rows.map Row.key).dedup.insertionSort Key.before).filter fun key =>
      key.experiment ≠ .sparse).filter (fun other => other = key) =
      if ∃ row ∈ rows, row.key = key then [key] else [] := by
    have order := List.perm_insertionSort Key.before (rows.map Row.key).dedup
    have once := ((order.nodup_iff.mpr (List.nodup_dedup _)).filter
      (fun key : Key => key.experiment ≠ .sparse))
    have found : key ∈ ((rows.map Row.key).dedup.insertionSort Key.before).filter
        (fun key => key.experiment ≠ .sparse) ↔ ∃ row ∈ rows, row.key = key := by
      rw [List.mem_filter, order.mem_iff, List.mem_dedup, List.mem_map]
      simp [sought]
    rw [List.filter_eq, once.count]
    by_cases here : ∃ row ∈ rows, row.key = key
    · rw [if_pos (found.mpr here), if_pos here]
      rfl
    · rw [if_neg (mt found.mp here), if_neg here]
      rfl
  rw [Summary.rates, writeSummaries, List.filter_map]
  simp only [Function.comp_def]
  rw [known]
  split_ifs <;> rfl

theorem row_of_mem_candidates {rate : R} (mem : rate ∈ candidates rows runs key) :
    ∃ row ∈ rows, row.key = key := by
  rw [candidates, List.mem_filter, List.mem_dedup, List.mem_map] at mem
  obtain ⟨⟨row, found, -⟩, -⟩ := mem
  obtain ⟨known, same⟩ := List.mem_filter.mp found
  exact ⟨row, known, of_decide_eq_true same⟩

theorem main_ok {args : Args R} {groups : List (Group R)} {group : Group R}
    {label : Implementation} (grouped : experimentGroups args = .ok groups) (runs : 1 ≤ args.runs)
    (swept : group ∈ groups) (mem : label ∈ args.implementations) :
    main run args = .ok (writeSummaries
      (combineCsvs run (sweep run args.implementations groups args.runs).csvPaths) args.runs) := by
  unfold main
  rw [if_neg (List.ne_nil_of_mem mem), if_neg (Nat.not_lt.mpr runs), grouped]
  cases groups with
  | nil => cases swept
  | cons first rest => rfl

end Reported

/-- What is reported is the greatest rate up to which every rate has passed in every trial. -/
theorem highest_sustainable [LinearOrder R] (run : Command R → Outcome) {args : Args R}
    {groups : List (Group R)} {group : Group R} {label : Implementation} (runs : 1 ≤ args.runs)
    (implementations : args.implementations.Nodup)
    (tiers : args.denseTiers.Nodup ∧ args.broadcastTiers.Nodup)
    (rates : args.denseRates.Nodup ∧ args.broadcastRates.Nodup)
    (grouped : experimentGroups args = .ok groups) (swept : group ∈ groups)
    (sought : group.experiment = .dense ∨ group.experiment = .broadcast)
    (mem : label ∈ args.implementations) :
    ∃ summary, main run args = .ok summary ∧
      let reports := summary.rates (group.key label)
      let rows := combineCsvs run (sweep run args.implementations groups args.runs).csvPaths
      (∀ rate, reports = [some rate] ↔
        IsGreatest {rate | Sustained run args.runs group label rate} rate) ∧
      ((∀ rate, ¬ Sustained run args.runs group label rate) →
        if ∃ row ∈ rows, row.key = group.key label then reports = [none] else reports = []) := by
  refine ⟨_, main_ok run grouped runs swept mem, ?_⟩
  intro reports rows
  have known : group.experiment ≠ .sparse := by
    rcases sought with same | same <;> simp [same]
  obtain ⟨one, ascending⟩ := experimentGroups_group grouped tiers rates swept known
  have reported : reports = if ∃ row ∈ rows, row.key = group.key label then
      [(candidates rows args.runs (group.key label)).max?] else [] := writeSummaries_rates known
  have sustained (rate : R) : rate ∈ candidates rows args.runs (group.key label) ↔
      Sustained run args.runs group label rate :=
    mem_candidates run implementations mem runs one ascending rate
  have same : {rate | Sustained run args.runs group label rate} =
      {rate | rate ∈ candidates rows args.runs (group.key label)} := by
    ext rate
    exact (sustained rate).symm
  rw [reported, same]
  constructor
  · intro rate
    by_cases row : ∃ row ∈ rows, row.key = group.key label
    · rw [if_pos row, List.singleton_inj]
      exact List.max?_eq_some_iff
    · rw [if_neg row]
      constructor
      · intro absurd
        cases absurd
      · intro greatest
        exact absurd (row_of_mem_candidates greatest.1) row
  · intro nothing
    have empty : candidates rows args.runs (group.key label) = [] :=
      List.eq_nil_iff_forall_not_mem.mpr fun rate found => nothing rate ((sustained rate).mp found)
    rw [empty]
    split_ifs <;> rfl

def twoTrialsArgs : Args Nat where
  implementations := [.poll, .epoll]
  experiments := ["dense"]
  sparseTiers := []
  sparseActive := []
  sparseRate := 1000
  denseTiers := [100]
  denseRates := [5000, 1000, 10000]
  broadcastTiers := []
  broadcastRates := []
  runs := 2

def twoTrialsGroup : Group Nat := ⟨.dense, .direct, 100, 100, [1000, 5000, 10000]⟩

def twoTrialsRun (command : Command Nat) : Outcome :=
  if command.trial = 2 ∧ command.label = .poll ∧ command.rate = 5000 then ⟨0, some "False"⟩
  else ⟨0, some "True"⟩

theorem twoTrials_sustainable :
    IsGreatest {rate | Sustained twoTrialsRun 2 twoTrialsGroup .poll rate} 1000 := by
  have grouped : experimentGroups twoTrialsArgs = .ok [twoTrialsGroup] := by decide +kernel
  have reports : (main twoTrialsRun twoTrialsArgs).toOption.map
      (fun summary => summary.rates (twoTrialsGroup.key .poll)) = some [some 1000] := by
    decide +kernel
  obtain ⟨summary, completed, exact, -⟩ := highest_sustainable twoTrialsRun
    (by decide) (by decide) (by decide) (by decide) grouped List.mem_cons_self
    (.inl rfl) (show Implementation.poll ∈ twoTrialsArgs.implementations by decide)
  rw [completed] at reports
  exact (exact 1000).mp (Option.some.inj reports)

end Partyline.Compare
