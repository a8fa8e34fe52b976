import Partyline.Evolution
import Partyline.Guarantees

/-! The write budget of a client in one iteration of the server. What `send` has
accepted in the iteration and what `writeBudgetRemaining` has left of it stay
together the same, whoever spends it; and no subtraction goes below zero. -/
namespace Partyline

open Library

@[simp] def Effect.acceptedIn (iteration : Nat) : Effect → Nat
  | .send stamp _ accepted => if stamp = iteration then accepted else 0
  | _ => 0

def acceptedIn (iteration : Nat) (history : List Effect) : Nat :=
  (history.map (Effect.acceptedIn iteration)).sum

/-- What `clientWriteBudget` refers to. -/
def budgetLeft (serverIteration : Nat) (client : ClientConnection) : Nat :=
  (clientWriteBudget serverIteration client).writeBudgetRemaining

section Readings

variable (iteration : Nat) (history : List Effect)

@[simp] theorem acceptedIn_nil : acceptedIn iteration [] = 0 := rfl

@[simp] theorem acceptedIn_cons (effect : Effect) : acceptedIn iteration (effect :: history) =
    effect.acceptedIn iteration + acceptedIn iteration history := by
  simp [acceptedIn]

theorem acceptedIn_of_silent {effects : List Effect}
    (silent : ∀ effect ∈ effects, effect.acceptedIn iteration = 0) :
    acceptedIn iteration (effects ++ history) = acceptedIn iteration history := by
  induction effects with
  | nil => rfl
  | cons effect effects ih =>
    rw [List.cons_append, acceptedIn_cons, silent effect List.mem_cons_self, Nat.zero_add]
    exact ih fun other mem => silent other (List.mem_cons_of_mem _ mem)

end Readings

@[simp] theorem clientWriteBudget_stamp (serverIteration : Nat) (client : ClientConnection) :
    (clientWriteBudget serverIteration client).writeBudgetIteration = serverIteration := by
  unfold clientWriteBudget
  split_ifs with old
  · rfl
  · exact not_not.mp old

theorem budgetLeft_of_stamp {serverIteration : Nat} {client : ClientConnection}
    (stamp : client.writeBudgetIteration = serverIteration) :
    budgetLeft serverIteration client = client.writeBudgetRemaining := by
  rw [budgetLeft, clientWriteBudget, if_neg (not_not.mpr stamp)]

theorem budgetLeft_of_old {serverIteration : Nat} {client : ClientConnection}
    (old : client.writeBudgetIteration ≠ serverIteration) :
    budgetLeft serverIteration client = maxBytesWrittenPerPoll := by
  rw [budgetLeft, clientWriteBudget, if_pos old]

theorem budgetLeft_congr {serverIteration : Nat} {client client' : ClientConnection}
    (stamp : client'.writeBudgetIteration = client.writeBudgetIteration)
    (remaining : client'.writeBudgetRemaining = client.writeBudgetRemaining) :
    budgetLeft serverIteration client' = budgetLeft serverIteration client := by
  by_cases old : client.writeBudgetIteration = serverIteration
  · rw [budgetLeft_of_stamp (stamp.trans old), budgetLeft_of_stamp old, remaining]
  · rw [budgetLeft_of_old (stamp ▸ old), budgetLeft_of_old old]

structure Spends (serverIteration : Nat) (client : ClientConnection) (port : Port)
    (client' : ClientConnection) (port' : Port) : Prop where
  others : ∀ iteration, iteration ≠ serverIteration →
    acceptedIn iteration port'.history = acceptedIn iteration port.history
  balance : acceptedIn serverIteration port'.history + budgetLeft serverIteration client' =
    acceptedIn serverIteration port.history + budgetLeft serverIteration client
  stamp : client'.writeBudgetIteration = client.writeBudgetIteration ∨
    client'.writeBudgetIteration = serverIteration

namespace Spends

variable {serverIteration : Nat} {client client₁ client₂ : ClientConnection}
  {port port₁ port₂ : Port}

theorem refl (serverIteration : Nat) (client : ClientConnection) (port : Port) :
    Spends serverIteration client port client port :=
  ⟨fun _ _ => rfl, rfl, .inl rfl⟩

theorem trans (first : Spends serverIteration client port client₁ port₁)
    (rest : Spends serverIteration client₁ port₁ client₂ port₂) :
    Spends serverIteration client port client₂ port₂ := by
  refine ⟨fun iteration other => ?_, rest.balance.trans first.balance, ?_⟩
  · exact (rest.others iteration other).trans (first.others iteration other)
  · rcases rest.stamp with same | new
    · exact same ▸ first.stamp
    · exact .inr new

theorem silent (effects : List Effect) (history : port₁.history = effects ++ port.history)
    (silent : ∀ effect ∈ effects, ∀ iteration, effect.acceptedIn iteration = 0)
    (stamp : client₁.writeBudgetIteration = client.writeBudgetIteration)
    (remaining : client₁.writeBudgetRemaining = client.writeBudgetRemaining) :
    Spends serverIteration client port client₁ port₁ := by
  have same (iteration : Nat) :
      acceptedIn iteration port₁.history = acceptedIn iteration port.history := by
    rw [history]
    exact acceptedIn_of_silent _ _ fun effect mem => silent effect mem iteration
  exact ⟨fun iteration _ => same iteration, by rw [same, budgetLeft_congr stamp remaining],
    .inl stamp⟩

theorem offered (serverIteration : Nat) (client : ClientConnection) (port : Port) (data : Bytes)
    (outcome : Offer) :
    Spends serverIteration client port client (port.note (.offered data outcome)) :=
  .silent [_] rfl (by simp) rfl rfl

theorem refilled (serverIteration : Nat) (client : ClientConnection) (port : Port) :
    Spends serverIteration client port (clientWriteBudget serverIteration client) port :=
  ⟨fun _ _ => rfl, by rw [budgetLeft_of_stamp (clientWriteBudget_stamp _ _), budgetLeft],
    .inr (clientWriteBudget_stamp _ _)⟩

theorem sent (current : client.writeBudgetIteration = serverIteration) {request : Bytes}
    {written : Nat} (le : written ≤ client.writeBudgetRemaining)
    (history : port₁.history = .send serverIteration request written :: port.history)
    (stamp : client₁.writeBudgetIteration = client.writeBudgetIteration)
    (remaining : client₁.writeBudgetRemaining = client.writeBudgetRemaining - written) :
    Spends serverIteration client port client₁ port₁ := by
  refine ⟨fun iteration other => ?_, ?_, .inl stamp⟩
  · simp [history, Ne.symm other]
  · rw [history, acceptedIn_cons, Effect.acceptedIn, if_pos rfl,
      budgetLeft_of_stamp (stamp.trans current), budgetLeft_of_stamp current, remaining]
    omega

end Spends

section QueueOutput

variable (serverIteration : Nat) (client : ClientConnection) (port : Port) (data : Bytes)

theorem appendOutput_spends (offset : Nat) : Spends serverIteration client port
    (appendOutput client port data offset).2.1 (appendOutput client port data offset).2.2 := by
  have stamp : (pushed client data offset).writeBudgetIteration = client.writeBudgetIteration := by
    unfold pushed
    split_ifs <;> rfl
  have remaining :
      (pushed client data offset).writeBudgetRemaining = client.writeBudgetRemaining := by
    unfold pushed
    split_ifs <;> rfl
  rcases appendOutput_cases client port data offset with ⟨-, -, result⟩ | ⟨-, result⟩
  · rw [result]
    dsimp only
    split_ifs
    · exact .silent [_, _] rfl (by simp) stamp remaining
    · exact .silent [_, _] rfl (by simp) stamp remaining
  · rw [result]
    exact .silent [_] rfl (by simp) stamp remaining

theorem queueOutputCommon_spends : Spends serverIteration client port
    (queueOutputCommon serverIteration client port data).2.1
    (queueOutputCommon serverIteration client port data).2.2 := by
  unfold queueOutputCommon
  split_ifs with overflow
  · exact .offered _ _ _ _ _
  have refill := Spends.refilled serverIteration client port
  have current := clientWriteBudget_stamp serverIteration client
  generalize clientWriteBudget serverIteration client = refilled at refill current
  refine refill.trans ?_
  dsimp only
  split_ifs with fast
  · obtain ⟨written, rest, le, after, outcome⟩ :=
      port.send_spec serverIteration (data.take refilled.writeBudgetRemaining)
    generalize port.send serverIteration (data.take refilled.writeBudgetRemaining) = reply
      at after outcome ⊢
    obtain ⟨result, port₁⟩ := reply
    dsimp only at after outcome ⊢
    have within : written ≤ refilled.writeBudgetRemaining :=
      le.trans (List.length_take_le _ _)
    have history : port₁.history = .send serverIteration
        (data.take refilled.writeBudgetRemaining) written :: port.history := by rw [after]
    have sent : Spends serverIteration refilled port
        { refilled with writeBudgetRemaining := refilled.writeBudgetRemaining - written } port₁ :=
      .sent current within history rfl rfl
    have refused (zero : written = 0) : Spends serverIteration refilled port refilled port₁ :=
      .sent current within history rfl (by rw [zero, Nat.sub_zero])
    cases result with
    | accepted count =>
      obtain rfl : count = written := outcome
      dsimp only
      split_ifs with empty all
      · exact (refused empty).trans (.offered _ _ _ _ _)
      · exact sent.trans (.offered _ _ _ _ _)
      · exact sent.trans (appendOutput_spends _ _ _ _ _)
    | eagain => exact (refused outcome).trans (appendOutput_spends _ _ _ _ _)
    | eintr => exact (refused outcome).trans (.offered _ _ _ _ _)
    | error errno => exact (refused outcome).trans (.offered _ _ _ _ _)
  · exact appendOutput_spends _ _ _ _ _

end QueueOutput

section FlushOutput

variable (serverIteration : Nat)

theorem flushLoop_spends (sends : List SendResult) {client : ClientConnection}
    (current : client.writeBudgetIteration = serverIteration) (port : Port) :
    Spends serverIteration client port (flushLoop serverIteration sends client port).2.1
      (flushLoop serverIteration sends client port).2.2 := by
  have idle (client : ClientConnection) (port : Port) (rest : List SendResult) :
      Spends serverIteration client port client { port with sends := rest } :=
    .silent [] rfl (by simp) rfl rfl
  have refused (client : ClientConnection) (port : Port) (rest : List SendResult)
      (request : Bytes) : Spends serverIteration client port client { port with
        sends := rest, history := .send serverIteration request 0 :: port.history } :=
    .silent [_] rfl (by simp) rfl rfl
  induction sends generalizing client port with
  | nil =>
    unfold flushLoop
    split
    · exact idle _ _ _
    · split_ifs
      · exact idle _ _ _
      · exact refused _ _ _ _
  | cons result rest ih =>
    unfold flushLoop
    split
    · exact idle _ _ _
    · rename_i pending queue head
      split_ifs with spent
      · exact idle _ _ _
      · dsimp only
        cases result with
        | eintr => exact ih current port
        | eagain => exact refused _ _ _ _
        | error errno => exact refused _ _ _ _
        | accepted count =>
          dsimp only
          have within : min count ((pending.data.drop pending.offset).take
              client.writeBudgetRemaining).length ≤ client.writeBudgetRemaining :=
            (min_le_right _ _).trans (List.length_take_le _ _)
          split_ifs with empty
          · rw [empty]
            exact refused _ _ _ _
          all_goals
            refine Spends.trans ?_ (ih ?_ _)
            · exact .sent current within rfl rfl rfl
            · exact current

theorem flushOutputCommon_spends (client : ClientConnection) (port : Port) :
    Spends serverIteration client port (flushOutputCommon serverIteration client port).2.1
      (flushOutputCommon serverIteration client port).2.2 := by
  have loop := (Spends.refilled serverIteration client port).trans
    (flushLoop_spends serverIteration port.sends (clientWriteBudget_stamp serverIteration client)
      port)
  unfold flushOutputCommon
  generalize flushLoop serverIteration port.sends (clientWriteBudget serverIteration client) port =
    result at loop
  obtain ⟨done, client₁, port₁⟩ := result
  refine loop.trans ?_
  cases done with
  | false => exact .refl _ _ _
  | true =>
    dsimp only
    split_ifs with asks
    · have history := port₁.setWriteInterest_history false
      generalize port₁.setWriteInterest false = call at history
      obtain ⟨ok, port₂⟩ := call
      cases ok <;> exact .silent [_] history (by simp) rfl rfl
    · exact .refl _ _ _

end FlushOutput

section Checked

/-- A subtraction of two `size_t`: none where it would wrap around. -/
def checkedSub (minuend subtrahend : Nat) : Option Nat :=
  if subtrahend ≤ minuend then some (minuend - subtrahend) else none

theorem checkedSub_of_le {minuend subtrahend : Nat} (le : subtrahend ≤ minuend) :
    checkedSub minuend subtrahend = some (minuend - subtrahend) := if_pos le

/-- `queueOutputCommon` with its subtractions checked. -/
def queueOutputChecked (serverIteration : Nat) (client : ClientConnection) (port : Port)
    (data : Bytes) : Option (Bool × ClientConnection × Port) :=
  if client.outputQueueSize > maxPendingOutputBytes then
    some (false, client, port.note (.offered data .rejected))
  else (checkedSub maxPendingOutputBytes client.outputQueueSize).bind fun room =>
    if data.length > room then some (false, client, port.note (.offered data .rejected))
    else
      let client := clientWriteBudget serverIteration client
      if client.outputQueue = [] ∧ data ≠ [] ∧ client.writeBudgetRemaining ≠ 0 then
        match port.send serverIteration (data.take client.writeBudgetRemaining) with
        | (.accepted written, port) =>
          if written = 0 then some (false, client, port.note (.offered data .rejected))
          else (checkedSub client.writeBudgetRemaining written).bind fun writeBudgetRemaining =>
            let client := { client with writeBudgetRemaining }
            if written = data.length then some (true, client, port.note (.offered data .immediate))
            else (checkedSub data.length written).map fun _ => appendOutput client port data written
        | (.eagain, port) => some (appendOutput client port data 0)
        | (_, port) => some (false, client, port.note (.offered data .rejected))
      else some (appendOutput client port data 0)

def flushLoopChecked (serverIteration : Nat) :
    List SendResult → ClientConnection → Port → Option (Bool × ClientConnection × Port)
  | sends, client, port =>
    match client.outputQueue with
    | [] => some (true, client, { port with sends })
    | pending :: queue =>
      if client.writeBudgetRemaining = 0 then some (true, client, { port with sends })
      else (checkedSub pending.data.length pending.offset).bind fun _ =>
        let request := (pending.data.drop pending.offset).take client.writeBudgetRemaining
        match sends with
        | [] =>
          some (true, client, { port with
            sends := [], history := .send serverIteration request 0 :: port.history })
        | .eagain :: rest =>
          some (true, client, { port with
            sends := rest, history := .send serverIteration request 0 :: port.history })
        | .eintr :: rest => flushLoopChecked serverIteration rest client port
        | .error _ :: rest =>
          some (false, client, { port with
            sends := rest, history := .send serverIteration request 0 :: port.history })
        | .accepted count :: rest =>
          let written := min count request.length
          let port := { port with
            history := .send serverIteration request written :: port.history }
          if written = 0 then some (false, client, { port with sends := rest })
          else (checkedSub client.outputQueueSize written).bind fun outputQueueSize =>
            (checkedSub client.writeBudgetRemaining written).bind fun writeBudgetRemaining =>
              let pending := { pending with offset := pending.offset + written }
              let client := { client with
                outputQueue :=
                  if pending.offset = pending.data.length then queue else pending :: queue
                outputQueueSize, writeBudgetRemaining }
              flushLoopChecked serverIteration rest client port

/-- `flushOutputCommon` with its subtractions checked, all of them in the loop. -/
def flushOutputChecked (serverIteration : Nat) (client : ClientConnection) (port : Port) :
    Option (Bool × ClientConnection × Port) :=
  (flushLoopChecked serverIteration port.sends (clientWriteBudget serverIteration client) port).map
    fun
    | (false, client, port) => (false, client, port)
    | (true, client, port) =>
      if client.outputQueue = [] ∧ client.writeInterestEnabled = true then
        match port.setWriteInterest false with
        | (false, port) => (false, client, port)
        | (true, port) => (true, { client with writeInterestEnabled := false }, port)
      else (true, client, port)

theorem queueOutputChecked_eq (serverIteration : Nat) (client : ClientConnection) (port : Port)
    (data : Bytes) : queueOutputChecked serverIteration client port data =
      some (queueOutputCommon serverIteration client port data) := by
  unfold queueOutputChecked queueOutputCommon
  by_cases full : client.outputQueueSize > maxPendingOutputBytes
  · rw [if_pos full, if_pos (.inl full)]
  rw [if_neg full, checkedSub_of_le (by omega), Option.bind_some]
  by_cases long : data.length > maxPendingOutputBytes - client.outputQueueSize
  · rw [if_pos long, if_pos (.inr long)]
  rw [if_neg long, if_neg (not_or.mpr ⟨full, long⟩)]
  generalize clientWriteBudget serverIteration client = refilled
  dsimp only
  split_ifs with fast
  · obtain ⟨written, rest, le, -, outcome⟩ :=
      port.send_spec serverIteration (data.take refilled.writeBudgetRemaining)
    generalize port.send serverIteration (data.take refilled.writeBudgetRemaining) = reply
      at outcome ⊢
    obtain ⟨result, port₁⟩ := reply
    rw [List.length_take] at le
    cases result with
    | accepted count =>
      obtain rfl : count = written := outcome
      dsimp only
      split_ifs
      · rfl
      · rw [checkedSub_of_le (by omega), Option.bind_some]
      · rw [checkedSub_of_le (by omega), Option.bind_some, checkedSub_of_le (by omega),
          Option.map_some]
    | eagain => rfl
    | eintr => rfl
    | error errno => rfl
  · rfl

theorem flushLoopChecked_eq (serverIteration : Nat) (sends : List SendResult)
    {client : ClientConnection} {port : Port} (h : Accounts [] client port) :
    flushLoopChecked serverIteration sends client port =
      some (flushLoop serverIteration sends client port) := by
  induction sends generalizing client port with
  | nil =>
    unfold flushLoopChecked flushLoop
    cases head : client.outputQueue with
    | nil => rfl
    | cons pending queue =>
      have unfinished := h.unfinished pending (by simp [head])
      dsimp only
      split_ifs
      · rfl
      · rw [checkedSub_of_le unfinished.le, Option.bind_some]
  | cons result rest ih =>
    unfold flushLoopChecked flushLoop
    cases head : client.outputQueue with
    | nil => rfl
    | cons pending queue =>
      have unfinished := h.unfinished pending (by simp [head])
      have size := h.size
      rw [head, pendingBytes, List.map_cons, List.sum_cons] at size
      dsimp only
      split_ifs with spent
      · rfl
      rw [checkedSub_of_le unfinished.le, Option.bind_some]
      cases result with
      | eintr => exact ih h
      | eagain => rfl
      | error errno => rfl
      | accepted count =>
        dsimp only
        have le : min count ((pending.data.drop pending.offset).take
            client.writeBudgetRemaining).length ≤ min client.writeBudgetRemaining
              (pending.data.length - pending.offset) := by
          simp only [List.length_take, List.length_drop]
          omega
        by_cases empty : min count ((pending.data.drop pending.offset).take
            client.writeBudgetRemaining).length = 0
        · rw [if_pos empty, if_pos empty]
        · rw [if_neg empty, if_neg empty, checkedSub_of_le (by omega), Option.bind_some,
            checkedSub_of_le (by omega), Option.bind_some]
          exact ih ((Flushed.sent head spent (min_le_right count _)).accounts h)

theorem flushOutputChecked_eq (serverIteration : Nat) {client : ClientConnection} {port : Port}
    (h : Accounts [] client port) : flushOutputChecked serverIteration client port =
      some (flushOutputCommon serverIteration client port) := by
  unfold flushOutputChecked
  rw [flushLoopChecked_eq _ _ (h.refill serverIteration), Option.map_some]
  exact congrArg some rfl

end Checked

/-- The account of an entry: nothing was sent in an iteration to come, no iteration
has had more than its budget, and in the current one the rest of it is still there. -/
structure Budgeted (serverIteration : Nat) (e : Entry) : Prop where
  past : ∀ iteration, serverIteration < iteration → acceptedIn iteration e.port.history = 0
  total : ∀ iteration, acceptedIn iteration e.port.history ≤ maxBytesWrittenPerPoll
  left : ∀ record, e.client = some record → record.writeBudgetIteration ≤ serverIteration ∧
    acceptedIn serverIteration e.port.history + budgetLeft serverIteration record ≤
      maxBytesWrittenPerPoll

namespace Budgeted

variable {serverIteration : Nat} {e e' : Entry} {record : ClientConnection}

theorem spent (h : Budgeted serverIteration e) (found : e.client = some record)
    {record' : ClientConnection} {port : Port}
    (spends : Spends serverIteration record e.port record' port) :
    Budgeted serverIteration ⟨some record', port⟩ := by
  obtain ⟨stamp, left⟩ := h.left record found
  have balance := spends.balance
  refine ⟨fun iteration later => ?_, fun iteration => ?_, ?_⟩
  · rw [spends.others iteration later.ne']
    exact h.past iteration later
  · by_cases current : iteration = serverIteration
    · subst current
      dsimp only
      omega
    · rw [spends.others iteration current]
      exact h.total iteration
  · rintro _ ⟨⟩
    refine ⟨?_, by dsimp only; omega⟩
    rcases spends.stamp with same | new
    · exact same ▸ stamp
    · exact new.le

theorem silent (h : Budgeted serverIteration e) (effects : List Effect)
    (history : e'.port.history = effects ++ e.port.history)
    (silent : ∀ effect ∈ effects, ∀ iteration, effect.acceptedIn iteration = 0)
    (same : ∀ record', e'.client = some record' → ∃ record, e.client = some record ∧
      record'.writeBudgetIteration = record.writeBudgetIteration ∧
      record'.writeBudgetRemaining = record.writeBudgetRemaining) :
    Budgeted serverIteration e' := by
  have accepted (iteration : Nat) :
      acceptedIn iteration e'.port.history = acceptedIn iteration e.port.history := by
    rw [history]
    exact acceptedIn_of_silent _ _ fun effect mem => silent effect mem iteration
  refine ⟨fun iteration later => ?_, fun iteration => ?_, fun record' found' => ?_⟩
  · rw [accepted]
    exact h.past iteration later
  · rw [accepted]
    exact h.total iteration
  · obtain ⟨record, found, stamp, remaining⟩ := same record' found'
    rw [accepted, budgetLeft_congr stamp remaining, stamp]
    exact h.left record found

theorem closed (h : Budgeted serverIteration e) (reason : String) :
    Budgeted serverIteration (e.closed reason) := by
  unfold Entry.closed
  split
  · exact h
  · exact h.silent [_] rfl (by simp) (by simp)

theorem offered (h : Budgeted serverIteration e) (data : Bytes) (reason : String) :
    Budgeted serverIteration (e.offered serverIteration data reason) := by
  cases found : e.client with
  | none => rwa [Entry.offered_none found]
  | some record =>
    have spent := h.spent found (queueOutputCommon_spends serverIteration record e.port data)
    simp only [Entry.offered, found]
    generalize queueOutputCommon serverIteration record e.port data = result at spent ⊢
    obtain ⟨queued, record', port⟩ := result
    cases queued with
    | true => exact spent
    | false => exact spent.closed reason

theorem evolves (h : Budgeted serverIteration e) (evolves : Entry.Evolves serverIteration e e') :
    Budgeted serverIteration e' := by
  induction evolves with
  | refl => exact h
  | trans _ _ ih₁ ih₂ => exact ih₂ (ih₁ h)
  | answered e results =>
    exact h.silent [] rfl (by simp) fun record found => ⟨record, found, rfl, rfl⟩
  | closed e reason => exact h.closed reason
  | offered e data reason => exact h.offered data reason
  | moved e roomId =>
    refine h.silent [] rfl (by simp) fun record found => ?_
    obtain ⟨old, found', rfl⟩ := Option.map_eq_some_iff.mp found
    exact ⟨old, found', rfl, rfl⟩
  | noted found chunk =>
    refine h.silent [_] rfl (by simp) ?_
    rintro _ ⟨⟩
    exact ⟨_, found, rfl, rfl⟩
  | flushed e =>
    cases found : e.client with
    | none => simpa [Entry.flushed, found] using h
    | some record =>
      simp only [Entry.flushed, found]
      exact h.spent found (flushOutputCommon_spends serverIteration record e.port)
  | erased found =>
    refine h.silent [_] rfl (by simp) ?_
    rintro _ ⟨⟩
    exact ⟨_, found, rfl, rfl⟩
  | loggedIn found =>
    refine h.silent [_] rfl (by simp) ?_
    rintro _ ⟨⟩
    exact ⟨_, found, rfl, rfl⟩

theorem next (h : Budgeted serverIteration e) : Budgeted (serverIteration + 1) e := by
  refine ⟨fun iteration later => h.past iteration (by omega), h.total, fun record found => ?_⟩
  obtain ⟨stamp, -⟩ := h.left record found
  rw [h.past _ (Nat.lt_succ_self _), budgetLeft_of_old (by omega)]
  exact ⟨by omega, by omega⟩

theorem opened (serverIteration : Nat) (results : Results) :
    Budgeted serverIteration (Entry.opened results) := by
  refine ⟨fun _ _ => rfl, fun _ => Nat.zero_le _, ?_⟩
  rintro _ ⟨⟩
  refine ⟨Nat.zero_le _, ?_⟩
  simp only [Entry.opened, acceptedIn_nil, budgetLeft, clientWriteBudget]
  split_ifs <;> simp

end Budgeted

namespace ChatServer

theorem perform_budgeted {s : ChatServer} (h : Inv s) {a : Action} (enabled : a.enabled s)
    (budgeted : ∀ fd, Budgeted s.serverIteration (s.entry fd)) (fd : Fd) :
    Budgeted (a.perform s).serverIteration ((a.perform s).entry fd) := by
  by_cases begins : a = .iteration
  · subst begins
    exact (budgeted fd).next
  rw [perform_serverIteration h.rooms enabled begins]
  by_cases own : ∃ results, a = .accept fd results
  · obtain ⟨results, rfl⟩ := own
    have performs := acceptClient_performs enabled results
    change Budgeted s.serverIteration ((s.acceptClient fd results).entry fd)
    rw [performs.entries, only_self]
    exact (Budgeted.opened s.serverIteration results).offered _ _
  · exact (budgeted fd).evolves (perform_evolves h.rooms enabled fun results same =>
      own ⟨results, same⟩)

theorem reachable_budgeted {s : ChatServer} (h : Reachable s) (fd : Fd) :
    Budgeted s.serverIteration (s.entry fd) := by
  refine h.invariant_of (P := fun s => ∀ fd, Budgeted s.serverIteration (s.entry fd))
    (fun _ => reachable_inv) ?_ (fun _ _ inv ih enabled => perform_budgeted inv enabled ih) fd
  rintro _ ⟨listener, rfl⟩ fd
  exact ⟨fun _ _ => rfl, fun _ => Nat.zero_le _, by simp [entry, initial]⟩

/-- No iteration sends a client more than its budget, and the subtractions of both
output paths are those of natural numbers. -/
theorem write_budget_kept {s : ChatServer} (h : Reachable s) :
    (∀ fd iteration, acceptedIn iteration (s.ports fd).history ≤ maxBytesWrittenPerPoll) ∧
    (∀ serverIteration client port data, queueOutputChecked serverIteration client port data =
      some (queueOutputCommon serverIteration client port data)) ∧
    ∀ fd client, s.clients fd = some client → ∀ serverIteration,
      flushOutputChecked serverIteration client (s.ports fd) =
        some (flushOutputCommon serverIteration client (s.ports fd)) := by
  refine ⟨fun fd => (reachable_budgeted h fd).total, queueOutputChecked_eq,
    fun fd client found serverIteration => ?_⟩
  exact flushOutputChecked_eq serverIteration
    (((reachable_inv h).entries fd).output client found).toAccounts

def prompted : ChatServer :=
  machine.after (initial 3) [.accept 4 ⟨[], [.accepted 100], []⟩, .load fun _ => ⟨[], [], []⟩]

theorem prompted_budget_kept : acceptedIn 1 (prompted.ports 4).history = 21 ∧
    acceptedIn 1 (prompted.ports 4).history ≤ maxBytesWrittenPerPoll := by
  have runs : machine.Runs (initial 3)
      [.accept 4 ⟨[], [.accepted 100], []⟩, .load fun _ => ⟨[], [], []⟩] := by decide +kernel
  have here : Reachable prompted := ⟨initial 3, ⟨3, rfl⟩, runs.steps⟩
  exact ⟨by decide +kernel, (write_budget_kept here).1 4 1⟩

end ChatServer
end Partyline
