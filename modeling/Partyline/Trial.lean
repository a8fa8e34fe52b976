import Partyline.Library.Transition
import Partyline.PerfectBroadcast

/-! The processes of a trial: `run_trial` with a `worker_main` at the end of each of its
pipes. A step is one of either side between two waits; whatever raises may do so at any
point, and a worker may die without a message. -/
namespace Partyline.Bench

open Library

inductive PhaseKind where
  | warmup
  | measured
deriving DecidableEq

/-- What `run_trial` asks of every worker, and waits for. The connections of the first round
are asked for with the arguments of the process. -/
inductive Round where
  | connect
  | setup
  | phase (kind : PhaseKind)
deriving DecidableEq

inductive Command where
  | setupComplete
  | phase (kind : PhaseKind)
  | close
deriving DecidableEq

inductive Message where
  | connected (workerId : Nat) (affinityApplied : Bool) (assignedCpu : Option Nat)
  | ready (workerId : Nat)
  | result (workerId : Nat) (state : BenchState)
  | error (workerId : Nat) (error : String)

def Message.type : Message → String
  | .connected _ _ _ => "connected"
  | .ready _ => "ready"
  | .result _ _ => "result"
  | .error _ _ => "error"

def Round.expectedType : Round → String
  | .connect => "connected"
  | .setup => "ready"
  | .phase _ => "result"

def Round.command : Round → Command
  | .connect | .setup => .setupComplete
  | .phase kind => .phase kind

/-- Where `worker_main` is: it has opened some of its connections; polls for
`setup_complete`; settles the clients after it; waits for a command; is in `run_phase`;
has left its `try`. -/
inductive ProcessPoint where
  | connecting (opened : Nat)
  | waiting
  | settling
  | idle
  | running (kind : PhaseKind)
  | ended
deriving DecidableEq

/-- A worker and both directions of its pipe. The source does not keep `ready` and `log`: whether
the worker has sent that it is ready, and the phases that it has run. -/
structure Process where
  point : ProcessPoint
  commands : List Command
  messages : List Message
  ready : Bool
  log : List (PhaseKind × BenchState)

namespace Process

def initial : Process := ⟨.connecting 0, [], [], false, []⟩

/-- The `except` of `worker_main`. -/
def raise (workerId : Nat) (error : String) (w : Process) : Process :=
  { w with point := .ended, messages := w.messages ++ [.error workerId error] }

/-- `control.recv()`, and the tests of the command. -/
def receive (workerId : Nat) (w : Process) : Process :=
  match w.commands with
  | [] => w
  | command :: commands =>
    let w := { w with commands }
    match w.point, command with
    | .waiting, .setupComplete => { w with point := .settling }
    | .waiting, _ => w.raise workerId "RuntimeError('invalid setup command')"
    | .idle, .close => { w with point := .ended }
    | .idle, .phase kind => { w with point := .running kind }
    | .idle, .setupComplete => w.raise workerId "RuntimeError('invalid worker command')"
    | _, _ => w

/-- `control.send({"type": "result", …})` after `run_phase`. -/
def finish (workerId : Nat) (state : BenchState) (w : Process) : Process :=
  match w.point with
  | .running kind =>
    { w with
      point := .idle
      messages := w.messages ++ [.result workerId state]
      log := w.log ++ [(kind, state)] }
  | _ => w

end Process

/-- Where `run_trial` is: in `receive_worker_messages`, with `k` messages received; in a loop
that has sent `k` commands; between the start of the measured phase and its results; in its
`finally`, with `k` workers told to close, or `k` processes joined. -/
inductive TrialPoint where
  | collecting (round : Round) (k : Nat)
  | sending (round : Round) (k : Nat)
  | timing
  | closing (k : Nat)
  | joining (k : Nat)
  | done
deriving DecidableEq

/-- What a trial is started with: the sizes of the partitions, and whether `args.warmup` is
other than zero. -/
structure TrialPlan where
  workerCount : Nat
  connections : Nat → Nat
  warmup : Bool

/-- The processes and the locals of `run_trial`. `harnessError` is `none` before anything is
raised, for which the source has the empty text. -/
structure Trial where
  processes : Nat → Process
  point : TrialPoint
  messages : List Message
  workerSetup : List Message
  state : BenchState
  harnessError : Option String

/-- `message["state"]`, with the `worker_id` that it contains. -/
def Message.state? : Message → Option (Nat × BenchState)
  | .result workerId state => some (workerId, state)
  | _ => none

/-- `merge_states` of the states in these messages, with its sort by `worker_id`. -/
def mergeResults (messages : List Message) : BenchState :=
  let states := messages.filterMap Message.state?
  mergeStates ((states.insertionSort fun a b => a.1 ≤ b.1).map Prod.snd)

/-- `repr` of a list of integers. -/
def reprInts (xs : List Nat) : String := "[" ++ ", ".intercalate (xs.map toString) ++ "]"

namespace Trial

def initial : Trial := ⟨fun _ => .initial, .collecting .connect 0, [], [], emptyState, none⟩

def update (i : Nat) (change : Process → Process) (t : Trial) : Trial :=
  { t with processes := Function.update t.processes i (change (t.processes i)) }

/-- The `except` of `run_trial`, on the way into its `finally`. -/
def fail (error : String) (t : Trial) : Trial :=
  { t with harnessError := some error, point := .closing 0 }

/-- The body of the loop of `receive_worker_messages`, once there is a message. -/
def collect (t : Trial) : Trial :=
  match t.point with
  | .collecting round k =>
    match (t.processes k).messages with
    | [] => t
    | message :: rest =>
      let t := t.update k fun w => { w with messages := rest }
      match message with
      | .error workerId error => t.fail s!"worker {workerId}: {error}"
      | message =>
        if message.type ≠ round.expectedType then
          t.fail s!"expected {round.expectedType}, received {message.type}"
        else { t with messages := t.messages ++ [message], point := .collecting round (k + 1) }
  | _ => t

/-- The body of a loop of `control.send`. -/
def send (t : Trial) : Trial :=
  match t.point with
  | .sending round k =>
    { t.update k fun w => { w with commands := w.commands ++ [round.command] } with
      point := .sending round (k + 1) }
  | .closing k =>
    { t.update k fun w => { w with commands := w.commands ++ [.close] } with
      point := .closing (k + 1) }
  | _ => t

/-- What follows a loop over all controls, up to the next one. -/
def advance (plan : TrialPlan) (t : Trial) : Trial :=
  match t.point with
  | .collecting .connect _ =>
    { t with workerSetup := t.messages, point := .sending .setup 0 }
  | .collecting .setup _ =>
    { t with point := .sending (.phase (if plan.warmup then .warmup else .measured)) 0 }
  | .collecting (.phase .warmup) _ =>
    let warmupState := mergeResults t.messages
    if warmupState.disconnects ≠ [] ∨ warmupState.sendErrors ≠ 0 then
      t.fail ("client failure during warmup: disconnects=" ++
        reprInts (warmupState.disconnects.insertionSort (· ≤ ·)) ++
        s!" send_errors={warmupState.sendErrors}")
    else { t with point := .sending (.phase .measured) 0 }
  | .collecting (.phase .measured) _ =>
    { t with state := mergeResults t.messages, point := .closing 0 }
  | .sending (.phase .measured) _ => { t with point := .timing }
  | .sending round _ => { t with messages := [], point := .collecting round 0 }
  | .timing => { t with messages := [], point := .collecting (.phase .measured) 0 }
  | .closing _ => { t with point := .joining 0 }
  | .joining _ => { t with point := .done }
  | .done => t

/-- `process.join` of the next process, which has ended or is terminated. -/
def join (t : Trial) : Trial :=
  match t.point with
  | .joining k =>
    { t.update k fun w => { w with point := .ended } with point := .joining (k + 1) }
  | _ => t

end Trial

inductive TrialAction where
  /-- `new_client` returns. -/
  | connect (i : Nat)
  | announce (i : Nat) (affinityApplied : Bool) (assignedCpu : Option Nat)
  | receive (i : Nat)
  | settle (i : Nat)
  | finish (i : Nat) (state : BenchState)
  | raise (i : Nat) (error : String)
  | die (i : Nat)
  | collect
  | send
  | advance
  | join
  /-- A deadline passes: a message has not come, or a process has not ended. -/
  | timeout
  /-- The worker that is waited for has ended, and its pipe is empty. -/
  | endOfFile
  | interrupt (error : String)

/-- The steps but a timeout, an interruption, and those with which a worker fails. That a failed
worker has left an error or the end of its pipe behind is found out in an orderly step. -/
def TrialAction.orderly : TrialAction → Bool
  | .raise _ _ | .die _ | .timeout | .interrupt _ => false
  | _ => true

namespace Trial

variable (plan : TrialPlan)

def onProcess : TrialAction → Option (Nat × (Process → Process))
  | .connect i => some (i, fun w =>
      match w.point with
      | .connecting opened => { w with point := .connecting (opened + 1) }
      | _ => w)
  | .announce i affinityApplied assignedCpu => some (i, fun w =>
      { w with
        point := .waiting
        messages := w.messages ++ [.connected i affinityApplied assignedCpu] })
  | .receive i => some (i, Process.receive i)
  | .settle i => some (i, fun w =>
      { w with point := .idle, messages := w.messages ++ [.ready i], ready := true })
  | .finish i state => some (i, Process.finish i state)
  | .raise i error => some (i, Process.raise i error)
  | .die i => some (i, fun w => { w with point := .ended })
  | _ => none

def perform (a : TrialAction) (t : Trial) : Trial :=
  match onProcess a with
  | some (i, change) => t.update i change
  | none =>
    match a with
    | .collect => t.collect
    | .send => t.send
    | .advance => t.advance plan
    | .join => t.join
    | .timeout =>
      match t.point with
      | .collecting round _ => t.fail s!"worker timed out waiting for {round.expectedType}"
      | _ => t.join
    -- an EOFError has no text
    | .endOfFile => t.fail ""
    | .interrupt error => t.fail error
    | _ => t

def ProcessReady (w : Process) (i : Nat) : TrialAction → Prop
  | .connect _ =>
    match w.point with
    | .connecting opened => opened < plan.connections i
    | _ => False
  | .announce _ _ _ =>
    match w.point with
    | .connecting opened => plan.connections i ≤ opened
    | _ => False
  | .receive _ => (w.point = .waiting ∨ w.point = .idle) ∧ w.commands ≠ []
  | .settle _ => w.point = .settling
  | .finish _ _ =>
    match w.point with
    | .running _ => True
    | _ => False
  | .raise _ _ | .die _ => w.point ≠ .ended
  | _ => False

def enabled (a : TrialAction) (t : Trial) : Prop :=
  match onProcess a with
  | some (i, _) => i < plan.workerCount ∧ ProcessReady plan (t.processes i) i a
  | none =>
    match a, t.point with
    | .collect, .collecting _ k => k < plan.workerCount ∧ (t.processes k).messages ≠ []
    | .send, .sending _ k | .send, .closing k => k < plan.workerCount
    | .advance, .collecting _ k | .advance, .sending _ k | .advance, .closing k
    | .advance, .joining k => plan.workerCount ≤ k
    | .advance, .timing => True
    | .join, .joining k => k < plan.workerCount ∧ (t.processes k).point = .ended
    | .timeout, .collecting _ k | .timeout, .joining k => k < plan.workerCount
    | .endOfFile, .collecting _ k =>
      k < plan.workerCount ∧ (t.processes k).messages = [] ∧ (t.processes k).point = .ended
    | .interrupt _, .collecting _ _ | .interrupt _, .sending _ _ | .interrupt _, .timing => True
    | _, _ => False

instance (w : Process) (i : Nat) (a : TrialAction) : Decidable (ProcessReady plan w i a) := by
  obtain ⟨point, commands, messages, ready, log⟩ := w
  cases a <;> cases point <;> unfold ProcessReady <;> infer_instance

instance (a : TrialAction) (t : Trial) : Decidable (enabled plan a t) := by
  obtain ⟨processes, point, messages, setup, state, error⟩ := t
  cases a <;> cases point <;> unfold enabled <;> dsimp only [onProcess] <;> infer_instance

def machine : Transition Trial TrialAction where
  init t := t = initial
  enabled := enabled plan
  perform := perform plan

instance (a : TrialAction) (t : Trial) : Decidable ((machine plan).enabled a t) :=
  inferInstanceAs (Decidable (enabled plan a t))

end Trial
end Partyline.Bench
