import Partyline.Trial

/-! What `run_trial` and its workers keep to, in every order of their steps: the workers
take each round together, and what is merged in the end is what each of them has measured. -/
namespace Partyline.Bench

open Library

/-- What a step of a worker does. The last one is every way to its end but `close`. -/
inductive Process.Moves (i : Nat) (w : Process) : Process → Prop where
  | connect (opened : Nat) (at_ : w.point = .connecting opened) :
    w.Moves i { w with point := .connecting (opened + 1) }
  | announce (opened : Nat) (at_ : w.point = .connecting opened) (applied : Bool)
    (cpu : Option Nat) :
    w.Moves i { w with point := .waiting, messages := w.messages ++ [.connected i applied cpu] }
  | setup (at_ : w.point = .waiting) (rest : List Command)
    (asked : w.commands = .setupComplete :: rest) :
    w.Moves i { w with point := .settling, commands := rest }
  | settle (at_ : w.point = .settling) :
    w.Moves i { w with point := .idle, messages := w.messages ++ [.ready i], ready := true }
  | phase (at_ : w.point = .idle) (kind : PhaseKind) (rest : List Command)
    (asked : w.commands = .phase kind :: rest) :
    w.Moves i { w with point := .running kind, commands := rest }
  | finish (kind : PhaseKind) (at_ : w.point = .running kind) (state : BenchState) :
    w.Moves i { w with
      point := .idle
      messages := w.messages ++ [.result i state]
      log := w.log ++ [(kind, state)] }
  | close (at_ : w.point = .idle) (rest : List Command) (asked : w.commands = .close :: rest) :
    w.Moves i { w with point := .ended, commands := rest }
  | stop (live : w.point ≠ .ended) (commands : List Command) (fewer : commands ⊆ w.commands)
    (last : List Message) (error : last = [] ∨ ∃ text, last = [.error i text]) :
    w.Moves i { w with point := .ended, commands, messages := w.messages ++ last }

namespace Trial

variable {plan : TrialPlan}

theorem moves_of_ready {w : Process} {i : Nat} {a : TrialAction} {change : Process → Process}
    (own : onProcess a = some (i, change)) (ready : ProcessReady plan w i a) :
    w.Moves i (change w) := by
  cases a with
  | collect | send | advance | join | timeout | endOfFile | interrupt error => cases own
  | connect j =>
    obtain ⟨rfl, rfl⟩ := Prod.mk.inj (Option.some.inj own)
    cases at_ : w.point with
    | connecting opened => simpa only [at_] using Process.Moves.connect opened at_
    | waiting | settling | idle | running kind | ended => simp [ProcessReady, at_] at ready
  | announce j applied cpu =>
    obtain ⟨rfl, rfl⟩ := Prod.mk.inj (Option.some.inj own)
    cases at_ : w.point with
    | connecting opened => exact .announce opened at_ applied cpu
    | waiting | settling | idle | running kind | ended => simp [ProcessReady, at_] at ready
  | settle j =>
    obtain ⟨rfl, rfl⟩ := Prod.mk.inj (Option.some.inj own)
    exact .settle ready
  | finish j state =>
    obtain ⟨rfl, rfl⟩ := Prod.mk.inj (Option.some.inj own)
    cases at_ : w.point with
    | running kind => simpa only [Process.finish, at_] using Process.Moves.finish kind at_ state
    | connecting opened | waiting | settling | idle | ended => simp [ProcessReady, at_] at ready
  | raise j text =>
    obtain ⟨rfl, rfl⟩ := Prod.mk.inj (Option.some.inj own)
    exact .stop ready _ (List.Subset.refl _) _ (.inr ⟨text, rfl⟩)
  | die j =>
    obtain ⟨rfl, rfl⟩ := Prod.mk.inj (Option.some.inj own)
    simpa using Process.Moves.stop ready w.commands (List.Subset.refl _) [] (.inl rfl)
  | receive j =>
    obtain ⟨rfl, rfl⟩ := Prod.mk.inj (Option.some.inj own)
    obtain ⟨at_, nonempty⟩ := ready
    obtain ⟨command, rest, asked⟩ := List.exists_cons_of_ne_nil nonempty
    have live : w.point ≠ .ended := by
      rcases at_ with at_ | at_ <;> simp [at_]
    have stopped (text : String) : w.Moves j (Process.raise j text { w with commands := rest }) :=
      .stop live rest (asked ▸ List.subset_cons_self _ _) _ (.inr ⟨text, rfl⟩)
    rcases at_ with at_ | at_
    · cases command with
      | setupComplete => simpa [Process.receive, asked, at_] using Process.Moves.setup at_ rest asked
      | phase kind | close => simpa [Process.receive, asked, at_] using stopped _
    · cases command with
      | setupComplete => simpa [Process.receive, asked, at_] using stopped _
      | phase kind => simpa [Process.receive, asked, at_] using Process.Moves.phase at_ kind rest asked
      | close => simpa [Process.receive, asked, at_] using Process.Moves.close at_ rest asked

end Trial

section Rounds

variable (plan : TrialPlan)

def TrialPlan.phases : List PhaseKind := (if plan.warmup then [.warmup] else []) ++ [.measured]

def Round.before : Round → List PhaseKind
  | .connect | .setup | .phase .warmup => []
  | .phase .measured => if plan.warmup then [.warmup] else []

def Round.after : Round → List PhaseKind
  | .connect | .setup => []
  | .phase .warmup => [.warmup]
  | .phase .measured => plan.phases

def Round.Planned (round : Round) : Prop := round = .phase .warmup → plan.warmup = true

def Round.start : Round → ProcessPoint
  | .connect => .connecting 0
  | .setup => .waiting
  | .phase _ => .idle

def Round.stop : Round → ProcessPoint
  | .connect => .waiting
  | .setup | .phase _ => .idle

def Round.AtWork (round : Round) (point : ProcessPoint) : Prop :=
  match round with
  | .connect => ∃ opened, point = .connecting opened
  | .setup => point = .settling
  | .phase kind => point = .running kind

/-- The answer of worker `i`, which has `log` then. -/
def Round.Answers (round : Round) (i : Nat) (log : List (PhaseKind × BenchState)) :
    Message → Prop
  | .connected workerId _ _ => round = .connect ∧ workerId = i
  | .ready workerId => round = .setup ∧ workerId = i
  | .result workerId state =>
    ∃ kind, round = .phase kind ∧ workerId = i ∧ log.getLast? = some (kind, state)
  | .error _ _ => False

/-- Nothing more to read, but for the error of a worker that has ended. -/
def Process.Silent (w : Process) (messages : List Message) : Prop :=
  messages = [] ∨ w.point = .ended ∧ ∃ workerId text, messages = [.error workerId text]

structure Process.Resting (phases : List PhaseKind) (point : ProcessPoint) (w : Process) :
    Prop where
  log : w.log.map Prod.fst = phases
  messages : w.Silent w.messages
  live : w.point ≠ .ended → w.point = point ∧ w.commands = []

inductive Process.Asked (round : Round) (i : Nat) (w : Process) : Prop where
  | working (log : w.log.map Prod.fst = round.before plan) (messages : w.Silent w.messages)
    (live : w.point ≠ .ended →
      w.point = round.start ∧ w.commands = [round.command] ∧ round ≠ .connect ∨
        round.AtWork w.point ∧ w.commands = [])
  | answering (message : Message) (rest : List Message) (messages : w.messages = message :: rest)
    (silent : w.Silent rest) (answers : round.Answers i w.log message)
    (log : w.log.map Prod.fst = round.after plan)
    (live : w.point ≠ .ended → w.point = round.stop ∧ w.commands = [])

structure Process.Read (round : Round) (i : Nat) (message : Option Message) (w : Process) :
    Prop where
  resting : w.Resting (round.after plan) round.stop
  answers : ∃ m, message = some m ∧ round.Answers i w.log m

/-- A worker that has nothing left to do, and whose last state is the one that is merged. -/
structure Process.Finished (result : Option BenchState) (w : Process) : Prop where
  log : w.log.map Prod.fst = plan.phases
  last : w.log.getLast?.map Prod.snd = result
  live : w.point ≠ .ended → w.point = .idle ∧ ∀ command ∈ w.commands, command = .close

variable {plan} {round : Round} {i : Nat} {w w' : Process}

theorem Process.Moves.alive (moves : w.Moves i w') : w.point ≠ .ended := by
  cases moves with
  | stop live => exact live
  | connect opened at_ | announce opened at_ | setup at_ | settle at_ | phase at_
  | finish kind at_ | close at_ => simp [at_]

theorem Process.Silent.nil {messages : List Message} (h : w.Silent messages)
    (live : w.point ≠ .ended) : messages = [] :=
  h.resolve_right fun ended => live ended.1

theorem Round.stop_rests (round : Round) : round.stop = .waiting ∨ round.stop = .idle := by
  cases round <;> simp [Round.stop]

theorem Round.start_rests (asked : round ≠ .connect) :
    round.start = .waiting ∨ round.start = .idle := by
  cases round <;> simp [Round.start] at asked ⊢

/-- A worker that waits with an empty pipe can only stop. -/
theorem Process.Moves.of_waiting (moves : w.Moves i w')
    (waits : w.point = .waiting ∨ w.point = .idle) (empty : w.commands = []) :
    w'.point = .ended ∧ w'.log = w.log ∧
      ∃ last, w'.messages = w.messages ++ last ∧ (last = [] ∨ ∃ text, last = [.error i text]) := by
  cases moves with
  | stop live commands fewer last error => exact ⟨rfl, rfl, last, rfl, error⟩
  | connect opened at_ | announce opened at_ | settle at_ | finish kind at_ =>
    simp [at_] at waits
  | setup at_ rest asked | phase at_ kind rest asked | close at_ rest asked =>
    rw [empty] at asked
    cases asked

theorem Process.Moves.resting {phases : List PhaseKind} {point : ProcessPoint}
    (moves : w.Moves i w') (rests : point = .waiting ∨ point = .idle)
    (h : w.Resting phases point) : w'.Resting phases point ∧ w'.log = w.log := by
  obtain ⟨waits, empty⟩ := h.live moves.alive
  obtain ⟨ended, log, last, more, error⟩ := moves.of_waiting (waits ▸ rests) empty
  rw [h.messages.nil moves.alive, List.nil_append] at more
  refine ⟨⟨log ▸ h.log, ?_, fun live => absurd ended live⟩, log⟩
  rw [more]
  exact error.imp id fun ⟨text, same⟩ => ⟨ended, i, text, same⟩

theorem Process.Moves.read {message : Option Message} (moves : w.Moves i w')
    (h : w.Read plan round i message) : w'.Read plan round i message := by
  obtain ⟨resting, log⟩ := moves.resting round.stop_rests h.resting
  exact ⟨resting, log ▸ h.answers⟩

theorem Process.Moves.asked (moves : w.Moves i w') (h : w.Asked plan round i) :
    w'.Asked plan round i := by
  cases h with
  | answering message rest messages silent answers log live =>
    obtain ⟨waits, nothing⟩ := live moves.alive
    obtain ⟨ended, same, last, more, error⟩ :=
      moves.of_waiting (waits ▸ round.stop_rests) nothing
    have empty := silent.nil moves.alive
    refine .answering message last ?_ ?_ (same ▸ answers) (same ▸ log) fun live => absurd ended live
    · rw [more, messages, empty, List.singleton_append]
    · exact error.imp id fun ⟨text, same⟩ => ⟨ended, i, text, same⟩
  | working log messages live =>
    have empty := messages.nil moves.alive
    cases moves with
    | stop alive commands fewer last error =>
      refine .working log ?_ fun live => absurd rfl live
      simp only [empty, List.nil_append]
      exact error.imp id fun ⟨text, same⟩ => ⟨rfl, i, text, same⟩
    | connect opened at_ =>
      rcases live (by simp [at_]) with ⟨waits, -, other⟩ | ⟨work, nothing⟩
      · cases round <;> simp_all [Round.start]
      · refine .working log (.inl empty) fun _ => .inr ⟨?_, nothing⟩
        cases round <;> simp_all [Round.AtWork]
    | announce opened at_ applied cpu =>
      rcases live (by simp [at_]) with ⟨waits, -, other⟩ | ⟨work, nothing⟩
      · cases round <;> simp_all [Round.start]
      · obtain rfl : round = .connect := by cases round <;> simp_all [Round.AtWork]
        exact .answering (.connected i applied cpu) [] (by simp [empty]) (.inl rfl) ⟨rfl, rfl⟩ log
          fun _ => ⟨rfl, nothing⟩
    | setup at_ rest asked =>
      rcases live (by simp [at_]) with ⟨waits, once, other⟩ | ⟨work, nothing⟩
      · obtain rfl : round = .setup := by cases round <;> simp_all [Round.start]
        rw [once] at asked
        obtain ⟨-, rfl⟩ := List.cons.inj asked
        exact .working log (.inl empty) fun _ => .inr ⟨rfl, rfl⟩
      · simp [nothing] at asked
    | settle at_ =>
      rcases live (by simp [at_]) with ⟨waits, -, other⟩ | ⟨work, nothing⟩
      · cases round <;> simp_all [Round.start]
      · obtain rfl : round = .setup := by cases round <;> simp_all [Round.AtWork]
        exact .answering (.ready i) [] (by simp [empty]) (.inl rfl) ⟨rfl, rfl⟩ log
          fun _ => ⟨rfl, nothing⟩
    | phase at_ kind rest asked =>
      rcases live (by simp [at_]) with ⟨waits, once, other⟩ | ⟨work, nothing⟩
      · rw [once] at asked
        obtain ⟨same, rfl⟩ := List.cons.inj asked
        obtain rfl : round = .phase kind := by
          cases round <;> simp_all [Round.start, Round.command]
        exact .working log (.inl empty) fun _ => .inr ⟨rfl, rfl⟩
      · simp [nothing] at asked
    | finish kind at_ state =>
      rcases live (by simp [at_]) with ⟨waits, -, other⟩ | ⟨work, nothing⟩
      · cases round <;> simp_all [Round.start]
      · obtain rfl : round = .phase kind := by cases round <;> simp_all [Round.AtWork]
        refine .answering (.result i state) [] (by simp [empty]) (.inl rfl)
          ⟨kind, rfl, rfl, by simp⟩ ?_ fun _ => ⟨rfl, nothing⟩
        rw [List.map_append, log]
        cases kind <;> rfl
    | close at_ rest asked =>
      rcases live (by simp [at_]) with ⟨waits, once, other⟩ | ⟨work, nothing⟩
      · rw [once] at asked
        cases round <;> simp [Round.command] at asked
      · simp [nothing] at asked

theorem Process.Moves.finished {result : Option BenchState} (moves : w.Moves i w')
    (h : w.Finished plan result) : w'.Finished plan result := by
  obtain ⟨waits, closes⟩ := h.live moves.alive
  cases moves with
  | stop live commands fewer last error => exact ⟨h.log, h.last, fun live => absurd rfl live⟩
  | connect opened at_ | announce opened at_ | settle at_ | finish kind at_ | setup at_ =>
    rw [waits] at at_
    cases at_
  | phase at_ kind rest asked => exact absurd (closes (.phase kind) (by simp [asked])) nofun
  | close at_ rest asked => exact ⟨h.log, h.last, fun live => absurd rfl live⟩

end Rounds

namespace Trial

variable (plan : TrialPlan)

def Fresh (t : Trial) : Prop := t.harnessError = none ∧ t.state = emptyState

/-- Where the workers are for each point of `run_trial` before its `finally`, and what has
been merged if nothing was raised. -/
def Standing (t : Trial) : Prop :=
  match t.point with
  | .collecting round k => t.Fresh ∧ round.Planned plan ∧
      k ≤ plan.workerCount ∧ t.messages.length = k ∧
      ∀ i < plan.workerCount,
        if i < k then (t.processes i).Read plan round i t.messages[i]?
        else (t.processes i).Asked plan round i
  | .sending round k => t.Fresh ∧ round.Planned plan ∧ round ≠ .connect ∧
      ∀ i < plan.workerCount,
        if i < k then (t.processes i).Asked plan round i
        else (t.processes i).Resting (round.before plan) round.start
  | .timing => t.Fresh ∧
      ∀ i < plan.workerCount, (t.processes i).Asked plan (.phase .measured) i
  | .closing _ | .joining _ | .done =>
      (t.harnessError = none → ∃ results : List BenchState,
        results.length = plan.workerCount ∧ t.state = mergeStates results ∧
          ∀ i < plan.workerCount, (t.processes i).Finished plan results[i]?) ∧
      (t.harnessError ≠ none → t.state = emptyState)

variable {plan} {t : Trial}

theorem standing_fail (empty : t.state = emptyState) (error : String) :
    Standing plan (t.fail error) := ⟨nofun, fun _ => empty⟩

@[simp] theorem update_self (i : Nat) (change : Process → Process) :
    (t.update i change).processes i = change (t.processes i) := Function.update_self _ _ _

theorem update_of_ne {i j : Nat} (ne : j ≠ i) (change : Process → Process) :
    (t.update i change).processes j = t.processes j := Function.update_of_ne ne _ _

theorem update_moves {i : Nat} {change : Process → Process}
    (moves : (t.processes i).Moves i (change (t.processes i))) (j : Nat) :
    (t.update i change).processes j = t.processes j ∨
      (t.processes j).Moves j ((t.update i change).processes j) := by
  by_cases same : j = i
  · subst same
    exact .inr (by rwa [update_self])
  · exact .inl (update_of_ne same change)

theorem standing_moves {i : Nat} {change : Process → Process}
    (moves : (t.processes i).Moves i (change (t.processes i))) (h : Standing plan t) :
    Standing plan (t.update i change) := by
  have point : (t.update i change).point = t.point := rfl
  unfold Standing at h ⊢
  rw [point]
  cases at_ : t.point with
  | collecting round k =>
    rw [at_] at h
    obtain ⟨fine, planned, most, length, each⟩ := h
    refine ⟨fine, planned, most, length, fun j here => ?_⟩
    have before := each j here
    rcases update_moves moves j with same | moves
    · rwa [same]
    · split_ifs at before ⊢ with read
      · exact moves.read before
      · exact moves.asked before
  | sending round k =>
    rw [at_] at h
    obtain ⟨fine, planned, asked, each⟩ := h
    refine ⟨fine, planned, asked, fun j here => ?_⟩
    have before := each j here
    rcases update_moves moves j with same | moves
    · rwa [same]
    · split_ifs at before ⊢ with sent
      · exact moves.asked before
      · exact (moves.resting (Round.start_rests asked) before).1
  | timing =>
    rw [at_] at h
    refine ⟨h.1, fun j here => ?_⟩
    rcases update_moves moves j with same | moves
    · exact same ▸ h.2 j here
    · exact moves.asked (h.2 j here)
  | closing k | joining k | done =>
    rw [at_] at h
    refine ⟨fun fine => ?_, h.2⟩
    obtain ⟨results, length, merged, each⟩ := h.1 fine
    refine ⟨results, length, merged, fun j here => ?_⟩
    rcases update_moves moves j with same | moves
    · exact same ▸ each j here
    · exact moves.finished (each j here)

section Coordinator

theorem asked_collect {w : Process} {round : Round} {i : Nat} (h : w.Asked plan round i)
    {message : Message} {rest : List Message} (next : w.messages = message :: rest) :
    (∃ workerId text, message = .error workerId text) ∨
      ({ w with messages := rest } : Process).Read plan round i (some message) := by
  cases h with
  | working log messages live =>
    rw [next] at messages
    rcases messages with empty | ⟨-, workerId, text, same⟩
    · cases empty
    · exact .inl ⟨workerId, text, (List.cons.inj same).1⟩
  | answering message' rest' messages silent answers log live =>
    rw [next] at messages
    obtain ⟨rfl, rfl⟩ := List.cons.inj messages
    exact .inr ⟨⟨log, silent, live⟩, message, rfl, answers⟩

theorem standing_collect (h : Standing plan t) {round : Round} {k : Nat}
    (at_ : t.point = .collecting round k) (turn : k < plan.workerCount)
    (nonempty : (t.processes k).messages ≠ []) : Standing plan t.collect := by
  obtain ⟨message, rest, next⟩ := List.exists_cons_of_ne_nil nonempty
  rw [Standing, at_] at h
  obtain ⟨fine, planned, most, length, each⟩ := h
  have failing (error : String) :
      Standing plan ((t.update k fun w => { w with messages := rest }).fail error) :=
    standing_fail (t := t.update k _) fine.2 error
  have own := each k turn
  rw [if_neg (lt_irrefl k)] at own
  rcases asked_collect own next with ⟨workerId, text, rfl⟩ | read
  · simp only [collect, at_, next]
    exact failing _
  · have standing : Standing plan { t.update k fun w => { w with messages := rest } with
        messages := t.messages ++ [message], point := .collecting round (k + 1) } := by
      refine ⟨fine, planned, turn, by simp [length], fun j here => ?_⟩
      have before := each j here
      by_cases same : j = k
      · subst same
        simpa [length] using read
      · simp only [update_of_ne same]
        by_cases earlier : j < k
        · rw [if_pos earlier] at before
          rwa [if_pos (by omega), List.getElem?_append_left (by omega)]
        · rw [if_neg earlier] at before
          rwa [if_neg (by omega)]
    cases message with
    | error workerId text => simpa [Process.Read, Round.Answers] using read.answers
    | connected workerId applied cpu =>
      simp only [collect, at_, next]
      split_ifs
      · exact failing _
      · exact standing
    | ready workerId =>
      simp only [collect, at_, next]
      split_ifs
      · exact failing _
      · exact standing
    | result workerId state =>
      simp only [collect, at_, next]
      split_ifs
      · exact failing _
      · exact standing

theorem standing_send (h : Standing plan t) (enabled : Trial.enabled plan .send t) :
    Standing plan t.send := by
  rw [Standing] at h
  cases at_ : t.point with
  | collecting round k | timing | joining k | done => simp [Trial.enabled, onProcess, at_] at enabled
  | sending round k =>
    have turn : k < plan.workerCount := by simpa [Trial.enabled, onProcess, at_] using enabled
    rw [at_] at h
    obtain ⟨fine, planned, asked, each⟩ := h
    simp only [send, at_]
    refine ⟨fine, planned, asked, fun j here => ?_⟩
    have before := each j here
    by_cases same : j = k
    · subst same
      rw [if_neg (lt_irrefl j)] at before
      rw [if_pos (Nat.lt_succ_self j), update_self]
      refine .working before.log before.messages fun live => .inl ?_
      obtain ⟨waits, empty⟩ := before.live live
      exact ⟨waits, by simp [empty], asked⟩
    · simp only [update_of_ne same]
      by_cases earlier : j < k
      · rw [if_pos earlier] at before
        rwa [if_pos (by omega)]
      · rw [if_neg earlier] at before
        rwa [if_neg (by omega)]
  | closing k =>
    rw [at_] at h
    simp only [send, at_]
    refine ⟨fun fine => ?_, h.2⟩
    obtain ⟨results, length, merged, each⟩ := h.1 fine
    refine ⟨results, length, merged, fun j here => ?_⟩
    by_cases same : j = k
    · subst same
      rw [update_self]
      obtain ⟨log, last, live⟩ := each j here
      refine ⟨log, last, fun alive => ⟨(live alive).1, fun command mem => ?_⟩⟩
      rcases List.mem_append.mp mem with old | new
      · exact (live alive).2 command old
      · simpa using new
    · simpa only [update_of_ne same] using each j here

theorem standing_join (h : Standing plan t) : Standing plan t.join := by
  rw [Standing] at h
  cases at_ : t.point with
  | collecting round k | sending round k | timing | closing k | done =>
    simpa only [join, at_, Standing] using h
  | joining k =>
    rw [at_] at h
    simp only [join, at_]
    refine ⟨fun fine => ?_, h.2⟩
    obtain ⟨results, length, merged, each⟩ := h.1 fine
    refine ⟨results, length, merged, fun j here => ?_⟩
    by_cases same : j = k
    · subst same
      rw [update_self]
      exact ⟨(each j here).log, (each j here).last, fun live => absurd rfl live⟩
    · simpa only [update_of_ne same] using each j here

theorem mergeResults_eq (results : List BenchState) :
    mergeResults (results.mapIdx .result) = mergeStates results := by
  have states : (results.mapIdx Message.result).filterMap Message.state? =
      results.mapIdx Prod.mk := by
    rw [List.mapIdx_eq_zipIdx_map, List.filterMap_map, List.mapIdx_eq_zipIdx_map,
      ← List.filterMap_eq_map]
    rfl
  have sorted : (results.mapIdx Prod.mk).Pairwise fun a b => a.1 ≤ b.1 := by
    rw [List.pairwise_iff_getElem]
    intro i j _ _ before
    simpa using before.le
  rw [mergeResults, states, sorted.insertionSort_eq]
  congr 1
  exact List.ext_getElem? fun k => by simp

theorem exists_results {n : Nat} {messages : List Message} (length : messages.length = n)
    {log : Nat → List (PhaseKind × BenchState)}
    (each : ∀ i < n, ∃ m, messages[i]? = some m ∧
      (Round.phase .measured).Answers i (log i) m) :
    ∃ results : List BenchState, messages = results.mapIdx .result ∧
      ∀ i < n, (log i).getLast?.map Prod.snd = results[i]? := by
  have results (i : Nat) (here : i < n) : ∃ state, messages[i]? = some (.result i state) ∧
      (log i).getLast?.map Prod.snd = some state := by
    obtain ⟨m, found, answers⟩ := each i here
    cases m with
    | connected workerId applied cpu => exact nomatch answers.1
    | ready workerId => exact nomatch answers.1
    | error workerId text => exact answers.elim
    | result workerId state =>
      obtain ⟨kind, -, rfl, last⟩ := answers
      exact ⟨state, found, by simp [last]⟩
  choose state found last using results
  refine ⟨List.ofFn fun i : Fin n => state i i.isLt, List.ext_getElem? fun i => ?_, fun i here => ?_⟩
  · by_cases here : i < n
    · simp [found i here, here]
    · simp [length, here]
  · simp [last i here, here]

theorem standing_advance (h : Standing plan t) (enabled : Trial.enabled plan .advance t) :
    Standing plan (t.advance plan) := by
  rw [Standing] at h
  cases at_ : t.point with
  | done => simpa only [advance, at_, Standing] using h
  | closing k | joining k =>
    rw [at_] at h
    simpa only [advance, at_, Standing] using h
  | timing =>
    rw [at_] at h
    simp only [advance, at_]
    exact ⟨h.1, nofun, Nat.zero_le _, rfl, fun i here => by simpa using h.2 i here⟩
  | sending round k =>
    have all : plan.workerCount ≤ k := by simpa [Trial.enabled, onProcess, at_] using enabled
    rw [at_] at h
    obtain ⟨fine, planned, asked, each⟩ := h
    have each (i : Nat) (here : i < plan.workerCount) : (t.processes i).Asked plan round i := by
      simpa only [if_pos (here.trans_le all)] using each i here
    cases round with
    | connect => exact absurd rfl asked
    | setup =>
      simp only [advance, at_]
      exact ⟨fine, planned, Nat.zero_le _, rfl, fun i here => by simpa using each i here⟩
    | phase kind =>
      cases kind with
      | warmup =>
        simp only [advance, at_]
        exact ⟨fine, planned, Nat.zero_le _, rfl, fun i here => by simpa using each i here⟩
      | measured =>
        simp only [advance, at_]
        exact ⟨fine, each⟩
  | collecting round k =>
    have all : plan.workerCount ≤ k := by simpa [Trial.enabled, onProcess, at_] using enabled
    rw [at_] at h
    obtain ⟨fine, planned, most, length, each⟩ := h
    have each (i : Nat) (here : i < plan.workerCount) :
        (t.processes i).Read plan round i t.messages[i]? := by
      simpa only [if_pos (here.trans_le all)] using each i here
    -- between two rounds nothing changes for the workers
    have onward (next : Round) (known : next.Planned plan) (asked : next ≠ .connect)
        (log : round.after plan = next.before plan) (rests : round.stop = next.start)
        (setup : List Message) :
        Standing plan { t with workerSetup := setup, point := .sending next 0 } := by
      refine ⟨fine, known, asked, fun i here => ?_⟩
      rw [if_neg (Nat.not_lt_zero i), ← log, ← rests]
      exact (each i here).resting
    cases round with
    | connect =>
      simp only [advance, at_]
      exact onward .setup nofun nofun rfl rfl _
    | setup =>
      simp only [advance, at_]
      refine onward (.phase _) ?_ nofun ?_ rfl t.workerSetup
      · cases warmup : plan.warmup <;> simp [Round.Planned, warmup]
      · cases warmup : plan.warmup <;> simp [Round.after, Round.before, warmup]
    | phase kind =>
      cases kind with
      | warmup =>
        simp only [advance, at_]
        split_ifs
        · exact standing_fail fine.2 _
        · exact onward (.phase .measured) nofun nofun
            (by simp [Round.after, Round.before, planned rfl]) rfl t.workerSetup
      | measured =>
        simp only [advance, at_]
        refine ⟨fun _ => ?_, fun raised => absurd fine.1 raised⟩
        obtain ⟨results, same, last⟩ := exists_results (by omega) fun i here => (each i here).answers
        refine ⟨results, ?_, ?_, fun i here => ?_⟩
        · rw [← List.length_mapIdx (f := Message.result), ← same]
          omega
        · rw [same, mergeResults_eq]
        · exact ⟨(each i here).resting.log, last i here, fun live =>
            ⟨((each i here).resting.live live).1, by simp [((each i here).resting.live live).2]⟩⟩

theorem standing_empty (h : Standing plan t)
    (early : match t.point with
      | .closing _ | .joining _ | .done => False
      | _ => True) : t.state = emptyState := by
  rw [Standing] at h
  cases at_ : t.point with
  | collecting round k | sending round k | timing =>
    rw [at_] at h
    exact h.1.2
  | closing k | joining k | done => simp [at_] at early

theorem standing_perform {a : TrialAction} (h : Standing plan t) (enabled : Trial.enabled plan a t) :
    Standing plan (perform plan a t) := by
  cases own : onProcess a with
  | some step =>
    obtain ⟨i, change⟩ := step
    simp only [Trial.enabled, own] at enabled
    simp only [perform, own]
    exact standing_moves (moves_of_ready own enabled.2) h
  | none =>
    cases a with
    | connect i | announce i applied cpu | receive i | settle i | finish i state | raise i text
    | die i => cases own
    | send => exact standing_send h enabled
    | advance => exact standing_advance h enabled
    | join => exact standing_join h
    | endOfFile | interrupt error =>
      refine standing_fail (standing_empty h ?_) _
      cases at_ : t.point <;> simp [Trial.enabled, onProcess, at_] at enabled ⊢
    | collect =>
      cases at_ : t.point with
      | collecting round k =>
        have turn : k < plan.workerCount ∧ (t.processes k).messages ≠ [] := by
          simpa [Trial.enabled, onProcess, at_] using enabled
        exact standing_collect h at_ turn.1 turn.2
      | sending round k | timing | closing k | joining k | done =>
        simp [Trial.enabled, onProcess, at_] at enabled
    | timeout =>
      simp only [perform, own]
      split
      · next round k at_ => exact standing_fail (standing_empty h (by simp [at_])) _
      · exact standing_join h

end Coordinator

theorem reachable_standing (h : (machine plan).Reachable t) : Standing plan t := by
  refine h.invariant ?_ fun t a => standing_perform
  rintro t rfl
  refine ⟨⟨rfl, rfl⟩, nofun, Nat.zero_le _, rfl, fun i _ => ?_⟩
  rw [if_neg (Nat.not_lt_zero i)]
  exact .working rfl (.inl rfl) fun _ => .inr ⟨⟨0, rfl⟩, rfl⟩

section SetUp

/-- How many workers `run_trial` has read to be ready, before its `finally`. -/
def setUpTo (plan : TrialPlan) : TrialPoint → Nat
  | .collecting .setup k => k
  | .sending (.phase _) _ | .collecting (.phase _) _ | .timing => plan.workerCount
  | _ => 0

/-- A worker whose ready message is in its pipe, or has been read, has sent it. -/
structure SetUp (plan : TrialPlan) (t : Trial) : Prop where
  sent : ∀ i, ∀ message ∈ (t.processes i).messages,
    message.type = "ready" → (t.processes i).ready = true
  received : ∀ i < setUpTo plan t.point, (t.processes i).ready = true

theorem ready_moves {i : Nat} {w w' : Process} (moves : w.Moves i w')
    (set : w.ready = true) : w'.ready = true := by
  cases moves <;> first | exact set | rfl

theorem sent_moves {i : Nat} {w w' : Process} (moves : w.Moves i w') {message : Message}
    (mem : message ∈ w'.messages) (type : message.type = "ready") :
    message ∈ w.messages ∨ w'.ready = true := by
  have older {added : Message} (other : added.type ≠ "ready")
      (mem : message ∈ w.messages ++ [added]) : message ∈ w.messages := by
    refine (List.mem_append.mp mem).resolve_right fun new => other ?_
    rwa [List.mem_singleton.mp new] at type
  cases moves with
  | connect opened at_ | setup at_ rest asked | phase at_ kind rest asked | close at_ rest asked =>
    exact .inl mem
  | settle at_ => exact .inr rfl
  | announce opened at_ applied cpu => exact .inl (older (by simp [Message.type]) mem)
  | finish kind at_ state => exact .inl (older (by simp [Message.type]) mem)
  | stop live commands fewer last error =>
    rcases error with rfl | ⟨text, rfl⟩
    · exact .inl (by simpa using mem)
    · exact .inl (older (by simp [Message.type]) mem)

theorem SetUp.moves {i : Nat} {change : Process → Process}
    (moves : (t.processes i).Moves i (change (t.processes i))) (h : SetUp plan t) :
    SetUp plan (t.update i change) := by
  have kept (j : Nat) (set : (t.processes j).ready = true) :
      ((t.update i change).processes j).ready = true := by
    rcases update_moves moves j with same | moves
    · exact same ▸ set
    · exact ready_moves moves set
  refine ⟨fun j message mem type => ?_, fun j early => kept j (h.received j early)⟩
  rcases update_moves moves j with same | moves
  · exact kept j (h.sent j message (same ▸ mem) type)
  · exact (sent_moves moves mem type).elim (fun old => kept j (h.sent j message old type)) id

theorem SetUp.of_same {t' : Trial} (h : SetUp plan t)
    (fewer : setUpTo plan t'.point ≤ setUpTo plan t.point)
    (same : ∀ j, (t'.processes j).ready = (t.processes j).ready ∧
      (t'.processes j).messages ⊆ (t.processes j).messages) : SetUp plan t' :=
  ⟨fun j message mem type => (same j).1 ▸ h.sent j message ((same j).2 mem) type,
    fun j early => (same j).1 ▸ h.received j (early.trans_le fewer)⟩

theorem SetUp.collect (h : SetUp plan t) : SetUp plan t.collect := by
  cases at_ : t.point with
  | sending round k | timing | closing k | joining k | done => simpa only [Trial.collect, at_] using h
  | collecting round k =>
    cases next : (t.processes k).messages with
    | nil => simpa only [Trial.collect, at_, next] using h
    | cons message rest =>
      have taken (j : Nat) : ((t.update k fun w => { w with messages := rest }).processes j).ready =
          (t.processes j).ready ∧
          ((t.update k fun w => { w with messages := rest }).processes j).messages ⊆
            (t.processes j).messages := by
        by_cases same : j = k
        · subst same
          rw [update_self, next]
          exact ⟨rfl, List.subset_cons_self _ _⟩
        · rw [update_of_ne same]
          exact ⟨rfl, List.Subset.refl _⟩
      have failing (error : String) :
          SetUp plan ((t.update k fun w => { w with messages := rest }).fail error) :=
        h.of_same (Nat.zero_le _) taken
      -- what has been read from the next worker says that it is ready
      have onward (expected : message.type = round.expectedType) :
          SetUp plan { t.update k fun w => { w with messages := rest } with
            messages := t.messages ++ [message], point := .collecting round (k + 1) } := by
        have kept : SetUp plan (t.update k fun w => { w with messages := rest }) :=
          h.of_same le_rfl taken
        refine ⟨kept.sent, fun j early => ?_⟩
        refine (taken j).1 ▸ ?_
        cases round with
        | connect => exact absurd early (Nat.not_lt_zero j)
        | phase kind => exact h.received j (by rwa [at_])
        | setup =>
          by_cases same : j = k
          · subst same
            exact h.sent j message (by simp [next]) expected
          · refine h.received j ?_
            rw [at_]
            exact lt_of_le_of_ne (Nat.le_of_lt_succ early) same
      simp only [Trial.collect, at_, next]
      split
      · exact failing _
      · split_ifs with other
        · exact failing _
        · exact onward (not_not.mp other)

theorem setUpTo_send (t : Trial) : setUpTo plan t.send.point = setUpTo plan t.point := by
  cases at_ : t.point with
  | collecting round k | timing | joining k | done | closing k => simp [send, at_, setUpTo]
  | sending round k => cases round <;> simp [send, at_, setUpTo]

theorem setUpTo_advance (enabled : Trial.enabled plan .advance t) :
    setUpTo plan (t.advance plan).point ≤ setUpTo plan t.point := by
  cases at_ : t.point with
  | done | timing | closing k | joining k => simp [advance, at_, setUpTo]
  | sending round k =>
    cases round with
    | connect | setup => simp [advance, at_, setUpTo]
    | phase kind => cases kind <;> simp [advance, at_, setUpTo]
  | collecting round k =>
    cases round with
    | connect => simp [advance, at_, setUpTo]
    | setup => simpa [advance, at_, setUpTo, Trial.enabled, onProcess] using enabled
    | phase kind =>
      cases kind with
      | measured => simp [advance, at_, setUpTo]
      | warmup =>
        simp only [advance, at_]
        split_ifs <;> simp [fail, setUpTo]

theorem SetUp.perform {a : TrialAction} (h : SetUp plan t) (enabled : Trial.enabled plan a t) :
    SetUp plan (Trial.perform plan a t) := by
  have joined : SetUp plan t.join := by
    cases at_ : t.point with
    | collecting round k | sending round k | timing | closing k | done => simpa only [join, at_] using h
    | joining k =>
      simp only [join, at_]
      refine h.of_same (Nat.zero_le _) fun j => ?_
      by_cases same : j = k
      · subst same
        simp
      · simp [update_of_ne same]
  cases own : onProcess a with
  | some step =>
    obtain ⟨i, change⟩ := step
    simp only [Trial.enabled, own] at enabled
    simp only [Trial.perform, own]
    exact h.moves (moves_of_ready own enabled.2)
  | none =>
    cases a with
    | connect i | announce i applied cpu | receive i | settle i | finish i state | raise i text
    | die i => cases own
    | collect => exact h.collect
    | join => exact joined
    | endOfFile | interrupt error =>
      exact h.of_same (Nat.zero_le _) fun j => ⟨rfl, List.Subset.refl _⟩
    | timeout =>
      simp only [Trial.perform, own]
      split
      · exact h.of_same (Nat.zero_le _) fun j => ⟨rfl, List.Subset.refl _⟩
      · exact joined
    | advance =>
      refine h.of_same (setUpTo_advance enabled) fun j => ?_
      simp only [Trial.perform, own, advance]
      split <;> first
        | exact ⟨rfl, List.Subset.refl _⟩
        | (split_ifs <;> exact ⟨rfl, List.Subset.refl _⟩)
    | send =>
      cases at_ : t.point with
      | collecting round k | timing | joining k | done =>
        simp [Trial.enabled, onProcess, at_] at enabled
      | sending round k | closing k =>
        refine h.of_same (setUpTo_send t).le fun j => ?_
        simp only [Trial.perform, own, send, at_]
        by_cases same : j = k
        · subst same
          simp
        · simp [update_of_ne same]

theorem reachable_setUp (h : (machine plan).Reachable t) : SetUp plan t := by
  refine h.invariant ?_ fun t a => SetUp.perform
  rintro t rfl
  exact ⟨fun i message mem => (nomatch mem), fun i early => absurd early (Nat.not_lt_zero i)⟩

end SetUp

section Together

def Entered (kind : PhaseKind) (w : Process) : Prop :=
  .phase kind ∈ w.commands ∨ w.point = .running kind ∨ kind ∈ w.log.map Prod.fst

/-- A worker that has done what comes before a phase. -/
structure Prepared (plan : TrialPlan) (kind : PhaseKind) (w : Process) : Prop where
  ready : w.ready = true
  log : (Round.phase kind).before plan <+: w.log.map Prod.fst
  point : w.point = .idle ∨ (∃ kind', w.point = .running kind') ∨ w.point = .ended

def Together (plan : TrialPlan) (t : Trial) : Prop :=
  ∀ kind, ∀ i < plan.workerCount, Entered kind (t.processes i) →
    ∀ j < plan.workerCount, Prepared plan kind (t.processes j)

variable {kind : PhaseKind} {w w' : Process} {i : Nat}

theorem entered_moves (moves : w.Moves i w') (h : Entered kind w') : Entered kind w := by
  cases moves with
  | connect opened at_ | announce opened at_ | settle at_ => simpa [Entered, at_] using h
  | stop live commands fewer last error =>
    rcases h with mem | running | ran
    · exact .inl (fewer mem)
    · cases running
    · exact .inr (.inr ran)
  | setup at_ rest asked | close at_ rest asked => simpa [Entered, at_, asked] using h
  | phase at_ kind' rest asked =>
    rcases h with mem | running | ran
    · exact .inl (by simp [asked, show Command.phase kind ∈ rest from mem])
    · exact .inl (by simp [asked, ProcessPoint.running.inj running])
    · exact .inr (.inr ran)
  | finish kind' at_ state =>
    rcases h with mem | running | ran
    · exact .inl mem
    · cases running
    · rw [List.map_append, List.mem_append] at ran
      rcases ran with ran | last
      · exact .inr (.inr ran)
      · obtain rfl : kind = kind' := by simpa using last
        exact .inr (.inl at_)

theorem prepared_moves (moves : w.Moves i w') (h : Prepared plan kind w) :
    Prepared plan kind w' := by
  cases moves with
  | connect opened at_ | announce opened at_ | setup at_ | settle at_ =>
    have := h.point
    simp [at_] at this
  | stop live commands fewer last error => exact ⟨h.ready, h.log, .inr (.inr rfl)⟩
  | close at_ rest asked => exact ⟨h.ready, h.log, .inr (.inr rfl)⟩
  | phase at_ kind' rest asked => exact ⟨h.ready, h.log, .inr (.inl ⟨kind', rfl⟩)⟩
  | finish kind' at_ state =>
    exact ⟨h.ready, by simpa using h.log.trans (List.prefix_append _ _), .inl rfl⟩

theorem prepared_asked (set : w.ready = true) (h : w.Asked plan (.phase kind) i) :
    Prepared plan kind w := by
  cases h with
  | working log messages live =>
    refine ⟨set, log ▸ List.prefix_rfl, ?_⟩
    by_cases finished : w.point = .ended
    · exact .inr (.inr finished)
    · rcases live finished with ⟨waits, -⟩ | ⟨work, -⟩
      · exact .inl waits
      · exact .inr (.inl ⟨kind, work⟩)
  | answering message rest messages silent answers log live =>
    refine ⟨set, ?_, ?_⟩
    · rw [log]
      cases kind with
      | warmup => exact List.nil_prefix
      | measured => exact List.prefix_append _ _
    · by_cases finished : w.point = .ended
      · exact .inr (.inr finished)
      · exact .inl (live finished).1

theorem prepared_resting (set : w.ready = true)
    (h : w.Resting ((Round.phase kind).before plan) (Round.phase kind).start) :
    Prepared plan kind w := by
  refine ⟨set, h.log ▸ List.prefix_rfl, ?_⟩
  by_cases finished : w.point = .ended
  · exact .inr (.inr finished)
  · exact .inl (h.live finished).1

theorem together_of_same {t' : Trial} (h : Together plan t)
    (same : ∀ j, (t'.processes j).commands = (t.processes j).commands ∧
      ((t'.processes j).point = (t.processes j).point ∨ (t'.processes j).point = .ended) ∧
      (t'.processes j).ready = (t.processes j).ready ∧
      (t'.processes j).log = (t.processes j).log) : Together plan t' := by
  intro kind i here entered j there
  obtain ⟨commands, point, -, log⟩ := same i
  have before : Entered kind (t.processes i) := by
    rcases entered with mem | running | ran
    · exact .inl (commands ▸ mem)
    · rcases point with point | finished
      · exact .inr (.inl (point ▸ running))
      · rw [finished] at running
        cases running
    · exact .inr (.inr (log ▸ ran))
  obtain ⟨set, ran, at_⟩ := h kind i here before j there
  obtain ⟨-, point', ready', log'⟩ := same j
  refine ⟨ready' ▸ set, log' ▸ ran, ?_⟩
  rcases point' with point' | finished
  · exact point' ▸ at_
  · exact .inr (.inr finished)

theorem together_send (standing : Standing plan t) (setUp : SetUp plan t) (h : Together plan t) :
    Together plan t.send := by
  have sent (round : Option Round) {command : Command} {k : Nat} {point : TrialPoint}
      (asks : ∀ kind, command = .phase kind → round = some (.phase kind))
      (ready : ∀ kind, round = some (.phase kind) →
        ∀ j < plan.workerCount, Prepared plan kind (t.processes j)) :
      Together plan { t.update k fun w => { w with commands := w.commands ++ [command] } with
        point := point } := by
    intro kind i here entered j there
    have before : ∀ j < plan.workerCount, Prepared plan kind (t.processes j) := by
      by_cases asked : command = .phase kind
      · exact ready kind (asks kind asked)
      · refine h kind i here ?_
        by_cases same : i = k
        · subst same
          simpa [Entered, Ne.symm asked] using entered
        · simpa [update_of_ne same] using entered
    by_cases same : j = k
    · subst same
      exact ⟨by simpa using (before j there).ready, by simpa using (before j there).log,
        by simpa using (before j there).point⟩
    · simpa only [update_of_ne same] using before j there
  cases at_ : t.point with
  | collecting round k | timing | joining k | done => simpa only [send, at_] using h
  | closing k =>
    simp only [send, at_]
    exact sent none nofun nofun
  | sending round k =>
    simp only [Standing, at_] at standing
    obtain ⟨-, -, -, each⟩ := standing
    simp only [send, at_]
    refine sent (some round) ?_ ?_
    · intro kind asked
      cases round with
      | connect | setup => cases asked
      | phase kind' => rw [Command.phase.inj asked]
    · intro kind same j there
      obtain rfl := Option.some.inj same
      have set := setUp.received j (by rwa [at_])
      have := each j there
      split_ifs at this with earlier
      · exact prepared_asked set this
      · exact prepared_resting set this

theorem together_perform {a : TrialAction} (standing : Standing plan t) (setUp : SetUp plan t)
    (h : Together plan t) (enabled : Trial.enabled plan a t) : Together plan (perform plan a t) := by
  cases own : onProcess a with
  | some step =>
    obtain ⟨i, change⟩ := step
    simp only [Trial.enabled, own] at enabled
    have moves := moves_of_ready own enabled.2
    simp only [perform, own]
    intro kind k here entered j there
    have before : Entered kind (t.processes k) := by
      rcases update_moves moves k with same | moves
      · exact same ▸ entered
      · exact entered_moves moves entered
    rcases update_moves moves j with same | moves
    · exact same ▸ h kind k here before j there
    · exact prepared_moves moves (h kind k here before j there)
  | none =>
    have joined : Together plan t.join := by
      refine together_of_same h fun j => ?_
      cases at_ : t.point with
      | collecting round k | sending round k | timing | closing k | done => simp [join, at_]
      | joining k =>
        by_cases same : j = k
        · subst same
          simp [join, at_]
        · simp [join, at_, update_of_ne same]
    cases a with
    | connect i | announce i applied cpu | receive i | settle i | finish i state | raise i text
    | die i => cases own
    | send => exact together_send standing setUp h
    | join => exact joined
    | endOfFile | interrupt error => exact h
    | timeout =>
      simp only [perform, own]
      split
      · exact h
      · exact joined
    | advance =>
      refine together_of_same h fun j => ?_
      simp only [perform, own, advance]
      split <;> first
        | exact ⟨rfl, .inl rfl, rfl, rfl⟩
        | (split_ifs <;> exact ⟨rfl, .inl rfl, rfl, rfl⟩)
    | collect =>
      refine together_of_same h fun j => ?_
      cases at_ : t.point with
      | sending round k | timing | closing k | joining k | done =>
        simp [perform, own, collect, at_]
      | collecting round k =>
        cases next : (t.processes k).messages with
        | nil => simp [perform, own, collect, at_, next]
        | cons message rest =>
          have same : ((perform plan .collect t).processes j) =
              (t.update k fun w => { w with messages := rest }).processes j := by
            simp only [perform, own, collect, at_, next]
            split
            · rfl
            · split_ifs <;> rfl
          rw [same]
          by_cases turn : j = k
          · subst turn
            simp
          · simp [update_of_ne turn]

theorem reachable_together (h : (machine plan).Reachable t) : Together plan t := by
  refine h.invariant_of (I := fun t => Standing plan t ∧ SetUp plan t)
    (fun t reachable => ⟨reachable_standing reachable, reachable_setUp reachable⟩) ?_
    fun t a known => together_perform known.1 known.2
  rintro t rfl kind i - entered
  simp [Entered, initial, Process.initial] at entered

end Together

end Trial

/-- No worker is told to run a phase before all have sent that they are ready and, where it is
the measured one of a trial with a warmup, have finished that. -/
theorem phases_together {plan : TrialPlan} {t : Trial}
    (reachable : (Trial.machine plan).Reachable t) {kind : PhaseKind} {i j : Nat}
    (here : i < plan.workerCount) (entered : .phase kind ∈ (t.processes i).commands ∨
      (t.processes i).point = .running kind ∨ kind ∈ (t.processes i).log.map Prod.fst)
    (there : j < plan.workerCount) :
    (t.processes j).ready = true ∧
      (kind = .measured → plan.warmup = true → .warmup ∈ (t.processes j).log.map Prod.fst) ∧
      ((t.processes j).point = .idle ∨ (∃ kind', (t.processes j).point = .running kind') ∨
        (t.processes j).point = .ended) := by
  obtain ⟨set, log, point⟩ := Trial.reachable_together reachable kind i here entered j there
  refine ⟨set, ?_, point⟩
  rintro rfl warmup
  exact log.subset (by simp [Round.before, warmup])

def twoWorkers : TrialPlan := ⟨2, fun _ => 1, true⟩

def answeredOnce : BenchState :=
  { emptyState with
    offeredOperations := 1
    sentOperations := 1
    completedByDeadline := 1
    eventualCompletions := 1
    deliveries := 1
    deliveriesByDeadline := 1
    latenciesMs := [1]
    schedulingLagMs := [0] }

def wholeTrial : List TrialAction :=
  let both (act : Nat → TrialAction) : List TrialAction := [act 0, act 1]
  let phase : List TrialAction :=
    [.send, .send, .advance, .receive 0, .receive 1, .finish 1 emptyState,
      .finish 0 answeredOnce]
  both .connect ++ both (.announce · false none) ++ [.collect, .collect, .advance] ++
    [.send, .send, .advance] ++ both .receive ++ both .settle ++ [.collect, .collect, .advance] ++
    phase ++ [.collect, .collect, .advance] ++
    phase ++ [.advance, .collect, .collect, .advance] ++
    [.send, .send, .advance] ++ both .receive ++ [.join, .join, .advance]

theorem twoWorkers_together : (Trial.machine twoWorkers).Runs .initial (wholeTrial.take 29) ∧
    (((Trial.machine twoWorkers).after .initial (wholeTrial.take 29)).processes 1).ready = true ∧
    .warmup ∈ (((Trial.machine twoWorkers).after .initial (wholeTrial.take 29)).processes 1).log.map
      Prod.fst := by
  have runs : (Trial.machine twoWorkers).Runs .initial (wholeTrial.take 29) := by decide +kernel
  have together := @phases_together twoWorkers _ ⟨_, rfl, runs.steps⟩ .measured 0 1 (by decide)
    (by decide +kernel) (by decide)
  exact ⟨runs, together.1, together.2.1 rfl rfl⟩

/-- However the steps of the processes come, what a trial merges is what each worker has
measured, once and in order, each after its own warmup; if anything was raised, nothing is
merged. -/
theorem trial_merges_measured {plan : TrialPlan} {t : Trial}
    (reachable : (Trial.machine plan).Reachable t) (finished : t.point = .done) :
    (t.harnessError = none → ∃ results : List BenchState,
      results.length = plan.workerCount ∧ t.state = mergeStates results ∧
        ∀ i < plan.workerCount, (t.processes i).log.map Prod.fst = plan.phases ∧
          (t.processes i).log.getLast?.map Prod.snd = results[i]?) ∧
    (t.harnessError ≠ none → t.state = emptyState) := by
  have standing := Trial.reachable_standing reachable
  rw [Trial.Standing, finished] at standing
  refine ⟨fun fine => ?_, standing.2⟩
  obtain ⟨results, length, merged, each⟩ := standing.1 fine
  exact ⟨results, length, merged, fun i here => ⟨(each i here).log, (each i here).last⟩⟩

theorem wholeTrial_merges : (Trial.machine twoWorkers).Runs .initial wholeTrial ∧
    ∃ results : List BenchState, results.length = 2 ∧
      ((Trial.machine twoWorkers).after .initial wholeTrial).state = mergeStates results := by
  have runs : (Trial.machine twoWorkers).Runs .initial wholeTrial := by decide +kernel
  obtain ⟨results, length, merged, -⟩ :=
    (trial_merges_measured ⟨_, rfl, runs.steps⟩ (by decide +kernel)).1 (by decide +kernel)
  exact ⟨runs, results, length, merged⟩

end Partyline.Bench
