import Mathlib.Data.List.Dedup
import Mathlib.Data.List.Sort
import Mathlib.Data.Prod.Lex
import Mathlib.Data.String.Basic
import Partyline.Benchmark

/-! The sweep of `bench/compare.py` over trials, groups, rates and implementations, and
the highest rates that its summary reports. `args` holds what `comma_values` makes of
the options; a rate may be of any linear order. -/
namespace Partyline.Compare

open Bench (Workload)

inductive Experiment where
  | sparse
  | dense
  | broadcast
deriving DecidableEq

/-- The names in `SERVERS`. -/
inductive Implementation where
  | poll
  | epoll
deriving DecidableEq

variable (R : Type*)

structure Args where
  implementations : List Implementation
  experiments : List String
  sparseTiers : List Nat
  sparseActive : List Nat
  sparseRate : R
  denseTiers : List Nat
  denseRates : List R
  broadcastTiers : List Nat
  broadcastRates : List R
  runs : Nat

structure Group where
  experiment : Experiment
  workload : Workload
  total : Nat
  active : Nat
  rates : List R
deriving DecidableEq

/-- What `benchmark_command` is given; its output file is named after it. -/
structure Command where
  trial : Nat
  label : Implementation
  group : Group R
  rate : R

/-- `output` is the field `valid` of the row of the file that has been written, if any. -/
structure Outcome where
  returncode : Int
  output : Option String

structure Row where
  experiment : Experiment
  label : Implementation
  totalConnections : Nat
  activeConnections : Nat
  globalOfferedRate : R
  valid : String

structure Key where
  experiment : Experiment
  label : Implementation
  total : Nat
deriving DecidableEq

structure Highest where
  key : Key
  rate : Option R

structure Summary where
  validTrials : Nat
  invalidTrials : Nat
  highestSustainable : List (Highest R)

structure Sweep where
  activeImplementations : List Implementation
  skipped : List (Command R)
  commands : List (Command R × Int)
  csvPaths : List (Command R)

variable {R}

def executionOrder (implementations : List Implementation) (trial : Nat) : List Implementation :=
  if trial % 2 = 1 then implementations else implementations.reverse

def fullGroups (experiment : Experiment) (workload : Workload) (tiers : List Nat)
    (rates : List R) : List (Group R) :=
  tiers.map fun total => ⟨experiment, workload, total, total, rates⟩

section Groups

variable [LinearOrder R]

def experimentGroups (args : Args R) : Except String (List (Group R)) :=
  let unknown := args.experiments.dedup.filter fun name =>
    name ∉ ["sparse", "dense", "broadcast"]
  if unknown ≠ [] then
    .error ("unknown experiments: " ++ String.intercalate "," (unknown.insertionSort (· ≤ ·)))
  else
    let sparse := if "sparse" ∈ args.experiments then
        args.sparseTiers.flatMap fun total =>
          (args.sparseActive.filter (· ≤ total)).map fun active =>
            ⟨.sparse, .direct, total, active, [args.sparseRate]⟩
      else []
    let dense := if "dense" ∈ args.experiments then
        fullGroups .dense .direct args.denseTiers (args.denseRates.insertionSort (· ≤ ·))
      else []
    let broadcast := if "broadcast" ∈ args.experiments then
        fullGroups .broadcast .broadcast args.broadcastTiers
          (args.broadcastRates.insertionSort (· ≤ ·))
      else []
    .ok (sparse ++ dense ++ broadcast)

end Groups

def resultRow (command : Command R) (valid : String) : Row R where
  experiment := command.group.experiment
  label := command.label
  totalConnections := command.group.total
  activeConnections := command.group.active
  globalOfferedRate := command.rate
  valid := valid

def rowValid (row : Row R) : Bool := row.valid.toLower ∈ ["1", "true", "yes"]

section Loop

variable (run : Command R → Outcome)

def Sweep.discard (label : Implementation) (s : Sweep R) : Sweep R :=
  { s with activeImplementations := s.activeImplementations.filter (· ≠ label) }

/-- The body of the innermost loop. -/
def execute (command : Command R) (s : Sweep R) : Sweep R :=
  if command.label ∉ s.activeImplementations then
    { s with skipped := s.skipped ++ [command] }
  else
    let completed := run command
    let s := { s with commands := s.commands ++ [(command, completed.returncode)] }
    if completed.returncode ≠ 0 then s.discard command.label
    else match completed.output with
      | none => s.discard command.label
      | some valid =>
        let s := { s with csvPaths := s.csvPaths ++ [command] }
        if rowValid (resultRow command valid) then s else s.discard command.label

variable (implementations : List Implementation)

def sweepRate (trial : Nat) (group : Group R) (s : Sweep R) (rate : R) : Sweep R :=
  (executionOrder implementations trial).foldl
    (fun s label => execute run ⟨trial, label, group, rate⟩ s) s

def sweepGroup (trial : Nat) (s : Sweep R) (group : Group R) : Sweep R :=
  group.rates.foldl (sweepRate run implementations trial group)
    { s with activeImplementations := implementations }

def sweepTrial (groups : List (Group R)) (s : Sweep R) (trial : Nat) : Sweep R :=
  groups.foldl (sweepGroup run implementations trial) s

def sweep (groups : List (Group R)) (runs : Nat) : Sweep R :=
  (List.range' 1 runs).foldl (sweepTrial run implementations groups) ⟨[], [], [], []⟩

def combineCsvs (paths : List (Command R)) : List (Row R) :=
  paths.filterMap fun command => (run command).output.map (resultRow command)

end Loop

section Summaries

variable [LinearOrder R]

def Row.key (row : Row R) : Key := ⟨row.experiment, row.label, row.totalConnections⟩

def Experiment.rank : Experiment → Nat
  | .broadcast => 0
  | .dense => 1
  | .sparse => 2

def Implementation.rank : Implementation → Nat
  | .epoll => 0
  | .poll => 1

def Key.before (k k' : Key) : Prop :=
  toLex (k.experiment.rank, toLex (k.label.rank, k.total)) ≤
    toLex (k'.experiment.rank, toLex (k'.label.rank, k'.total))

instance : DecidableRel Key.before := fun _ _ => inferInstanceAs (Decidable (toLex _ ≤ toLex _))

/-- The rates of a key at which every requested trial has left a valid row. -/
def candidates (rows : List (Row R)) (runs : Nat) (key : Key) : List R :=
  let rates := ((rows.filter fun row => row.key = key).map Row.globalOfferedRate).dedup
  rates.filter fun rate =>
    let rateRows := rows.filter fun row => row.key = key ∧ row.globalOfferedRate = rate
    rateRows.length = runs ∧ ∀ row ∈ rateRows, rowValid row = true

def writeSummaries (rows : List (Row R)) (runs : Nat) : Summary R where
  validTrials := (rows.filter rowValid).length
  invalidTrials := (rows.filter fun row => ¬ rowValid row).length
  highestSustainable :=
    (((rows.map Row.key).dedup.insertionSort Key.before).filter fun key =>
      key.experiment ≠ .sparse).map fun key => ⟨key, (candidates rows runs key).max?⟩

/-- `main`, from its checks of `args` on. -/
def main (run : Command R → Outcome) (args : Args R) : Except String (Summary R) :=
  if args.implementations = [] then
    .error "implementations must contain poll and/or epoll"
  else if args.runs < 1 then .error "invalid run durations"
  else match experimentGroups args with
    | .error message => .error message
    | .ok [] => .error "no experiment groups selected"
    | .ok groups =>
      let csvPaths := (sweep run args.implementations groups args.runs).csvPaths
      .ok (writeSummaries (combineCsvs run csvPaths) args.runs)

end Summaries

end Partyline.Compare
