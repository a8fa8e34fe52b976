import Partyline.WriteBudget

/-! A client that keeps up: its socket takes every send in full. Two numbers then
say what becomes of a message, the bytes that its budget has left and the bytes
that wait in its queue, and whether the dispatcher grants write interest for the
first of these. -/
namespace Partyline

/-- Every send on the port takes all it is given, and there are answers for as many
sends as `budget` can be spent on. -/
structure Willing (budget : Nat) (port : Port) : Prop where
  sends : ∀ result ∈ port.sends, ∃ count, result = .accepted count ∧ maxBytesWrittenPerPoll ≤ count
  enough : budget ≤ port.sends.length
  registered : port.writeInterest.isSome = true

theorem admits_iff {serverIteration queued : Nat} {client : ClientConnection} {port : Port}
    (size : client.outputQueueSize = queued) (queue : client.outputQueue = [] ↔ queued = 0)
    (armed : client.writeInterestEnabled = true ↔ queued ≠ 0)
    (registered : port.writeInterest.isSome = true)
    (sends : budgetLeft serverIteration client ≠ 0 → ∃ count,
      (sendRetry port.sends).1 = .accepted count ∧ budgetLeft serverIteration client ≤ count)
    (data : Bytes) : admits serverIteration data client port = true ↔
      queued + data.length ≤ maxPendingOutputBytes ∧
        (queued ≠ 0 ∨ data.length ≤ budgetLeft serverIteration client ∨
          port.interests.headD true = true) := by
  have budget : (if client.writeBudgetIteration ≠ serverIteration then maxBytesWrittenPerPoll
      else client.writeBudgetRemaining) = budgetLeft serverIteration client := by
    unfold budgetLeft clientWriteBudget
    split_ifs <;> rfl
  unfold admits
  rw [budget]
  generalize budgetLeft serverIteration client = left at sends ⊢
  simp only [size, registered, Bool.true_and]
  rw [Bool.and_eq_true, decide_eq_true_eq]
  refine and_congr_right fun _ => ?_
  by_cases waits : queued = 0
  · have off : client.writeInterestEnabled = false := by simpa [waits] using armed
    simp only [off, queue.mpr waits, Bool.false_or, waits, ne_eq, not_true_eq_false, false_or]
    split_ifs with fast
    · obtain ⟨count, send, large⟩ := sends fast.2.2
      have positive : count ≠ 0 := by omega
      have covers : data.length ≤ min count left ↔ data.length ≤ left := by omega
      rw [send]
      simp [positive, covers]
    · have nothing : data = [] ↔ data.length ≤ left := by
        rw [← List.length_eq_zero_iff]
        by_cases spent : left = 0
        · omega
        · have empty : data = [] := by
            by_contra filled
            exact fast ⟨trivial, filled, spent⟩
          simp [empty]
      simp [nothing]
  · have nonempty : client.outputQueue ≠ [] := mt queue.mp waits
    simp [nonempty, armed.mpr waits, waits]

structure Healthy (serverIteration budget queued : Nat) (granted : Bool)
    (client : ClientConnection) (port : Port) : Prop where
  size : client.outputQueueSize = queued
  queue : client.outputQueue = [] ↔ queued = 0
  left : budgetLeft serverIteration client = budget
  within : budget ≤ maxBytesWrittenPerPoll
  willing : Willing budget port
  armed : client.writeInterestEnabled = true ↔ queued ≠ 0
  interest : queued = 0 → port.interests.headD true = granted

namespace Willing

variable {budget : Nat} {port : Port}

theorem note (h : Willing budget port) (effect : Effect) : Willing budget (port.note effect) :=
  ⟨h.sends, h.enough, h.registered⟩

theorem setWriteInterest (h : Willing budget port) (enabled : Bool) :
    (port.setWriteInterest enabled).1 = port.interests.headD true ∧
      Willing budget (port.setWriteInterest enabled).2 := by
  refine ⟨?_, h.sends, h.enough, ?_⟩
  · simp only [Port.setWriteInterest, h.registered, Bool.true_and]
  · rw [Port.setWriteInterest_isSome, h.registered]

theorem send (h : Willing budget port) (within : budget ≤ maxBytesWrittenPerPoll)
    (serverIteration : Nat) {request : Bytes} (nonempty : request ≠ [])
    (short : request.length ≤ budget) : ∃ port',
      port.send serverIteration request = (.accepted request.length, port') ∧
      Willing (budget - request.length) port' ∧ port'.interests = port.interests := by
  have positive := List.length_pos_iff.mpr nonempty
  have enough := h.enough
  cases answers : port.sends with
  | nil =>
    rw [answers, List.length_nil] at enough
    omega
  | cons result rest =>
    obtain ⟨count, rfl, large⟩ := h.sends result (by simp [answers])
    have all : min count request.length = request.length := by omega
    refine ⟨{ port with
      sends := rest
      history := .send serverIteration request request.length :: port.history }, ?_,
      ⟨fun result mem => ?_, ?_, h.registered⟩, rfl⟩
    · simp only [Port.send, answers, sendRetry, all]
    · exact h.sends result (by rw [answers]; exact List.mem_cons_of_mem _ mem)
    · rw [answers, List.length_cons] at enough
      dsimp only
      omega

end Willing

/-- What is left of the budget after a message of that length, and what waits. -/
def spentBudget (budget queued length : Nat) : Nat := if queued = 0 then budget - length else budget

def grownQueue (budget queued length : Nat) : Nat :=
  if queued = 0 then length - budget else queued + length

namespace Healthy

variable {serverIteration budget queued : Nat} {granted : Bool} {client : ClientConnection}
  {port : Port}

theorem append (h : Healthy serverIteration budget queued granted client port) (data : Bytes)
    {offset : Nat} (le : offset ≤ data.length)
    (announced : queued ≠ 0 ∨ offset = data.length ∨ granted = true) :
    Healthy serverIteration budget (queued + (data.length - offset)) granted
      (appendOutput client port data offset).2.1 (appendOutput client port data offset).2.2 := by
  have size : (pushed client data offset).outputQueueSize = queued + (data.length - offset) := by
    unfold pushed
    split_ifs with short
    · exact congrArg (fun size => size + _) h.size
    · rw [h.size]
      omega
  have queue : (pushed client data offset).outputQueue = [] ↔
      queued + (data.length - offset) = 0 := by
    unfold pushed
    split_ifs with short
    · simp only [List.append_eq_nil_iff, List.cons_ne_nil, and_false, false_iff]
      omega
    · rw [h.queue]
      omega
  have enabled : (pushed client data offset).writeInterestEnabled = client.writeInterestEnabled := by
    unfold pushed
    split_ifs <;> rfl
  have left : budgetLeft serverIteration (pushed client data offset) = budget := by
    rw [← h.left]
    unfold pushed
    split_ifs
    · exact budgetLeft_congr rfl rfl
    · rfl
  rcases appendOutput_cases client port data offset with ⟨nonempty, off, result⟩ | ⟨on, result⟩
  · have waits : queued + (data.length - offset) ≠ 0 := fun empty => nonempty (queue.mpr empty)
    have first : queued = 0 := by
      by_contra before
      rw [enabled, h.armed.mpr before] at off
      cases off
    obtain ⟨ok, willing⟩ := h.willing.setWriteInterest true
    have grants : port.interests.headD true = true := by
      rw [h.interest first]
      refine announced.resolve_left (not_not.mpr first) |>.resolve_left ?_
      omega
    rw [result]
    dsimp only
    rw [if_pos (ok.trans grants)]
    refine ⟨size, queue, ?_, h.within, willing.note _, iff_of_true rfl waits,
      fun empty => (waits empty).elim⟩
    rw [← left]
    exact budgetLeft_congr rfl rfl
  · rw [result]
    refine ⟨size, queue, left, h.within, h.willing.note _, ?_, fun empty => h.interest (by omega)⟩
    constructor
    · rintro armed empty
      rw [enabled, h.armed] at armed
      omega
    · exact fun waits => on fun empty => waits (queue.mp empty)

theorem refill (h : Healthy serverIteration budget queued granted client port) :
    Healthy serverIteration budget queued granted (clientWriteBudget serverIteration client) port := by
  have same : (clientWriteBudget serverIteration client).writeInterestEnabled =
      client.writeInterestEnabled := by
    unfold clientWriteBudget
    split_ifs <;> rfl
  refine ⟨?_, ?_, ?_, h.within, h.willing, ?_, h.interest⟩
  · rw [clientWriteBudget_outputQueueSize, h.size]
  · rw [clientWriteBudget_outputQueue, h.queue]
  · rw [budgetLeft_of_stamp (clientWriteBudget_stamp _ _)]
    exact h.left
  · rw [same, h.armed]

/-- A message is taken as long as the queue has room for all of it and what has to wait
can be announced. -/
theorem accepts (h : Healthy serverIteration budget queued granted client port) (data : Bytes) :
    (queueOutputCommon serverIteration client port data).1 = true ↔
      queued + data.length ≤ maxPendingOutputBytes ∧
        (queued ≠ 0 ∨ data.length ≤ budget ∨ granted = true) := by
  have sends (positive : budgetLeft serverIteration client ≠ 0) : ∃ count,
      (sendRetry port.sends).1 = .accepted count ∧ budgetLeft serverIteration client ≤ count := by
    have enough := h.willing.enough
    have within := h.within
    rw [h.left] at positive ⊢
    cases answers : port.sends with
    | nil =>
      rw [answers, List.length_nil] at enough
      omega
    | cons result rest =>
      obtain ⟨count, rfl, large⟩ := h.willing.sends result (by simp [answers])
      exact ⟨count, rfl, by omega⟩
  rw [queueOutputCommon_fst, admits_iff h.size h.queue h.armed h.willing.registered sends, h.left]
  by_cases waits : queued = 0
  · rw [h.interest waits]
  · simp [waits]

theorem queueOutput (h : Healthy serverIteration budget queued granted client port) {data : Bytes}
    (fits : queued + data.length ≤ maxPendingOutputBytes)
    (announced : queued ≠ 0 ∨ data.length ≤ budget ∨ granted = true) :
    Healthy serverIteration (spentBudget budget queued data.length)
      (grownQueue budget queued data.length) granted
      (queueOutputCommon serverIteration client port data).2.1
      (queueOutputCommon serverIteration client port data).2.2 := by
  have size := h.size
  have refilled := h.refill
  have stamp := clientWriteBudget_stamp serverIteration client
  unfold queueOutputCommon
  rw [if_neg (by omega)]
  generalize clientWriteBudget serverIteration client = client at refilled stamp
  have left : client.writeBudgetRemaining = budget := by
    rw [← refilled.left, budgetLeft_of_stamp stamp]
  dsimp only
  by_cases fast : client.outputQueue = [] ∧ data ≠ [] ∧ client.writeBudgetRemaining ≠ 0
  · obtain rfl : queued = 0 := refilled.queue.mp fast.1
    rw [if_pos fast, spentBudget, grownQueue, if_pos rfl, if_pos rfl]
    have request : data.take client.writeBudgetRemaining ≠ [] := by
      simpa [List.take_eq_nil_iff, not_or] using And.intro fast.2.2 fast.2.1
    have length : (data.take client.writeBudgetRemaining).length = min budget data.length := by
      rw [List.length_take, left]
    have positive := List.length_pos_iff.mpr request
    obtain ⟨port₁, sent, willing, interests⟩ :=
      refilled.willing.send refilled.within serverIteration request (by omega)
    rw [sent]
    dsimp only
    rw [if_neg (by omega)]
    generalize (data.take client.writeBudgetRemaining).length = written at *
    have spent : Healthy serverIteration (budget - written) 0 granted
        { client with writeBudgetRemaining := client.writeBudgetRemaining - written } port₁ := by
      refine ⟨refilled.size, refilled.queue, ?_, (Nat.sub_le _ _).trans refilled.within, willing,
        refilled.armed, fun empty => interests ▸ refilled.interest empty⟩
      exact (budgetLeft_of_stamp (by exact stamp)).trans (by rw [left])
    by_cases all : written = data.length
    · have rest : budget - written = budget - data.length := by omega
      have nothing : data.length - budget = 0 := by omega
      rw [if_pos all, nothing, ← rest]
      exact ⟨spent.size, spent.queue, spent.left, spent.within, spent.willing.note _,
        spent.armed, spent.interest⟩
    · have rest : budget - written = budget - data.length := by omega
      have queued : data.length - budget = 0 + (data.length - written) := by omega
      rw [if_neg all, queued, ← rest]
      refine spent.append data (by omega) (.inr (.inr ?_))
      exact (announced.resolve_left (by omega)).resolve_left (by omega)
  · rw [if_neg fast]
    have idle : queued = 0 → data.length = 0 ∨ budget = 0 := by
      intro idle
      rw [← left, List.length_eq_zero_iff]
      by_contra both
      obtain ⟨nonempty, more⟩ := not_or.mp both
      exact fast ⟨refilled.queue.mpr idle, nonempty, more⟩
    have waiting : queued ≠ 0 ∨ 0 = data.length ∨ granted = true := by
      by_cases zero : queued = 0
      · have nothing := idle zero
        refine .inr ((announced.resolve_left (not_not.mpr zero)).imp_left fun short => ?_)
        omega
      · exact .inl zero
    have whole := refilled.append data (Nat.zero_le _) waiting
    unfold spentBudget grownQueue
    split_ifs with empty
    · have nothing := idle empty
      have rest : budget - data.length = budget := by omega
      have queued : data.length - budget = queued + (data.length - 0) := by omega
      rw [rest, queued]
      exact whole
    · exact whole

end Healthy

def Entry.Healthy (serverIteration budget queued : Nat) (granted : Bool) (e : Entry) : Prop :=
  ∃ client, e.client = some client ∧
    Partyline.Healthy serverIteration budget queued granted client e.port

namespace Entry.Healthy

variable {serverIteration budget queued : Nat} {granted : Bool} {e : Entry}

theorem accepts (h : e.Healthy serverIteration budget queued granted) (data : Bytes) :
    e.accepts serverIteration data = true ↔ queued + data.length ≤ maxPendingOutputBytes ∧
      (queued ≠ 0 ∨ data.length ≤ budget ∨ granted = true) := by
  obtain ⟨client, found, healthy⟩ := h
  rw [Entry.accepts, found, ← healthy.accepts, queueOutputCommon_fst]

theorem offered (h : e.Healthy serverIteration budget queued granted) {data : Bytes}
    (taken : e.accepts serverIteration data = true) (reason : String) :
    (e.offered serverIteration data reason).Healthy serverIteration
      (spentBudget budget queued data.length) (grownQueue budget queued data.length) granted := by
  obtain ⟨fits, announced⟩ := (h.accepts data).mp taken
  obtain ⟨client, found, healthy⟩ := h
  obtain ⟨record, found', result⟩ := Entry.offered_of_accepts taken reason
  obtain rfl := Option.some.inj (found.symm.trans found')
  rw [result]
  exact ⟨_, rfl, healthy.queueOutput fits announced⟩

end Entry.Healthy

end Partyline
