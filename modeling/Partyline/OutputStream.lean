import Partyline.History
import Mathlib.Algebra.GroupWithZero.Nat
import Mathlib.Data.List.Range

/-! The accounts of one connection's output. `Accounts part` is the state in the
middle of `queueOutputCommon`, when `part` of the message at hand has been sent
and nothing of it recorded; `OutputOk` is the state between calls. -/
namespace Partyline

/-- What is still to be sent of a queue, in order. -/
def unsent (queue : List PendingWrite) : Bytes :=
  queue.flatMap fun pending => pending.data.drop pending.offset

def pendingBytes (queue : List PendingWrite) : Nat :=
  (queue.map fun pending => pending.data.length - pending.offset).sum

/-- Enable, disable, enable and so on, `n` calls in all. -/
def alternating (n : Nat) : List Bool := (List.range n).map fun i => i % 2 == 0

theorem alternating_succ (n : Nat) : alternating (n + 1) = alternating n ++ [n % 2 == 0] := by
  simp [alternating, List.range_succ]

structure Accounts (part : Bytes) (client : ClientConnection) (port : Port) : Prop where
  size : client.outputQueueSize = pendingBytes client.outputQueue
  bounded : client.outputQueueSize ≤ maxPendingOutputBytes
  peak : client.outputQueueSize ≤ client.peakPendingOutputBytes
  unfinished : ∀ pending ∈ client.outputQueue, pending.offset < pending.data.length
  armed : client.outputQueue ≠ [] → client.writeInterestEnabled = true
  registered : port.writeInterest = some client.writeInterestEnabled
  stream : sentBytes port.history ++ unsent client.outputQueue = offeredBytes port.history ++ part
  accepted : ∀ offer ∈ offers port.history, offer.2 ≠ .rejected
  calls : ∃ n, interestCalls port.history = alternating n ∧
    client.writeInterestEnabled = (n % 2 == 1)
  idle : (∀ offer ∈ offers port.history, offer.2 = .immediate) →
    client.outputQueue = [] ∧ interestCalls port.history = []

def Disarmed (client : ClientConnection) : Prop :=
  client.writeInterestEnabled = true → client.outputQueue ≠ []

structure OutputOk (client : ClientConnection) (port : Port) : Prop
    extends Accounts [] client port where
  disarmed : Disarmed client

theorem accepted_note {port : Port} {data : Bytes} {outcome : Offer}
    (h : ∀ offer ∈ offers port.history, offer.2 ≠ .rejected) (kept : outcome ≠ .rejected) :
    ∀ offer ∈ offers (port.note (.offered data outcome)).history, offer.2 ≠ .rejected := by
  intro offer mem
  simp only [Port.note, offers_cons, Effect.offer, Option.toList_some, List.mem_append,
    List.mem_singleton] at mem
  rcases mem with old | rfl
  · exact h offer old
  · exact kept

theorem Accounts.refill {part : Bytes} {client : ClientConnection} {port : Port}
    (h : Accounts part client port) (serverIteration : Nat) :
    Accounts part (clientWriteBudget serverIteration client) port := by
  unfold clientWriteBudget
  split_ifs
  · exact ⟨h.size, h.bounded, h.peak, h.unfinished, h.armed, h.registered, h.stream,
      h.accepted, h.calls, h.idle⟩
  · exact h

theorem Accounts.sent {client : ClientConnection} {port : Port} {data request : Bytes}
    (h : Accounts [] client port) (empty : client.outputQueue = []) (serverIteration budget : Nat)
    (sends : List SendResult) {written : Nat} (same : request.take written = data.take written) :
    Accounts (data.take written) { client with writeBudgetRemaining := budget }
      { port with sends, history := .send serverIteration request written :: port.history } := by
  have stream := h.stream
  simp only [empty, unsent, List.flatMap_nil, List.append_nil] at stream
  refine ⟨h.size, h.bounded, h.peak, h.unfinished, h.armed, h.registered, ?_, ?_, ?_, ?_⟩
  · simp [empty, unsent, stream, same]
  · simpa using h.accepted
  · simpa using h.calls
  · simpa using h.idle

theorem Accounts.immediate {client : ClientConnection} {port : Port} {data : Bytes}
    (h : Accounts data client port) : Accounts [] client (port.note (.offered data .immediate)) := by
  refine ⟨h.size, h.bounded, h.peak, h.unfinished, h.armed, h.registered, ?_, ?_, ?_, ?_⟩
  · simpa [Port.note] using h.stream
  · exact accepted_note h.accepted (by simp)
  · simpa [Port.note] using h.calls
  · intro all
    simp only [Port.note, offers_cons, Effect.offer, Option.toList_some, List.mem_append,
      List.mem_singleton] at all
    simpa [Port.note] using h.idle fun offer mem => all offer (.inl mem)

theorem Accounts.push {client : ClientConnection} {port : Port} {data : Bytes} {offset : Nat}
    (h : Accounts (data.take offset) client port)
    (fits : client.outputQueueSize + (data.length - offset) ≤ maxPendingOutputBytes)
    (short : offset < data.length) (port' : Port)
    (enabled : port'.writeInterest = some true)
    (history : sentBytes port'.history = sentBytes port.history ∧
      offers port'.history = offers port.history ++ [(data, .queued)])
    (calls : ∃ n, interestCalls port'.history = alternating n ∧ n % 2 = 1) :
    OutputOk { client with
      outputQueue := client.outputQueue ++ [⟨data.drop offset, 0⟩]
      outputQueueSize := client.outputQueueSize + (data.length - offset)
      peakPendingOutputBytes := max client.peakPendingOutputBytes
        (client.outputQueueSize + (data.length - offset))
      writeInterestEnabled := true } port' := by
  obtain ⟨sent, offered⟩ := history
  obtain ⟨n, called, odd⟩ := calls
  refine ⟨⟨?_, fits, le_max_right _ _, ?_, ?_, enabled, ?_, ?_, ⟨n, called, ?_⟩, ?_⟩, ?_⟩
  · simp [pendingBytes, h.size]
  · intro pending mem
    rcases List.mem_append.mp mem with old | new
    · exact h.unfinished pending old
    · obtain rfl := List.mem_singleton.mp new
      simp only [List.length_drop]
      omega
  · simp
  · have stream := h.stream
    simp only [unsent, offeredBytes, sent, offered, List.flatMap_append, List.flatMap_cons,
      List.flatMap_nil, List.append_nil, List.drop_zero] at stream ⊢
    rw [← List.append_assoc, stream, List.append_assoc, List.take_append_drop]
  · intro offer mem
    rw [offered] at mem
    rcases List.mem_append.mp mem with old | new
    · exact h.accepted offer old
    · obtain rfl := List.mem_singleton.mp new
      simp
  · simp [odd]
  · intro all
    have queued := all (data, .queued) (by simp [offered])
    simp at queued
  · simp [Disarmed]

/-- The part of a record that output never touches. -/
def ClientConnection.session (client : ClientConnection) : Bytes × Nat × Bytes × ClientState :=
  (client.username, client.currRoom, client.inputBuffer, client.clientState)

@[simp] theorem clientWriteBudget_session (serverIteration : Nat) (client : ClientConnection) :
    (clientWriteBudget serverIteration client).session = client.session := by
  unfold clientWriteBudget
  split_ifs <;> rfl

@[simp] theorem clientWriteBudget_outputQueue (serverIteration : Nat) (client : ClientConnection) :
    (clientWriteBudget serverIteration client).outputQueue = client.outputQueue := by
  unfold clientWriteBudget
  split_ifs <;> rfl

@[simp] theorem clientWriteBudget_outputQueueSize (serverIteration : Nat)
    (client : ClientConnection) :
    (clientWriteBudget serverIteration client).outputQueueSize = client.outputQueueSize := by
  unfold clientWriteBudget
  split_ifs <;> rfl

theorem clientWriteBudget_disarmed (serverIteration : Nat) {client : ClientConnection}
    (h : Disarmed client) : Disarmed (clientWriteBudget serverIteration client) := by
  unfold clientWriteBudget
  split_ifs <;> exact h

@[simp] theorem Port.setWriteInterest_history (port : Port) (enabled : Bool) :
    (port.setWriteInterest enabled).2.history =
      .interest enabled (port.setWriteInterest enabled).1 :: port.history := rfl

@[simp] theorem Port.setWriteInterest_recvs (port : Port) (enabled : Bool) :
    (port.setWriteInterest enabled).2.recvs = port.recvs := rfl

theorem Port.setWriteInterest_isSome (port : Port) (enabled : Bool) :
    (port.setWriteInterest enabled).2.writeInterest.isSome = port.writeInterest.isSome := by
  unfold Port.setWriteInterest
  cases port.writeInterest <;> simp
  split_ifs <;> rfl

theorem Port.setWriteInterest_ok {port : Port} {enabled : Bool}
    (h : (port.setWriteInterest enabled).1 = true) :
    (port.setWriteInterest enabled).2.writeInterest = some enabled := by
  unfold Port.setWriteInterest at h ⊢
  simp_all

theorem Port.send_spec (port : Port) (serverIteration : Nat) (request : Bytes) :
    ∃ written rest, written ≤ request.length ∧
      (port.send serverIteration request).2 = { port with
        sends := rest, history := .send serverIteration request written :: port.history } ∧
      match (port.send serverIteration request).1 with
      | .accepted count => count = written
      | _ => written = 0 := by
  unfold Port.send
  split
  · exact ⟨_, _, min_le_right _ _, rfl, rfl⟩
  · rename_i result rest notAccepted _
    refine ⟨0, rest, Nat.zero_le _, rfl, ?_⟩
    split
    · rename_i count e
      exact (notAccepted count e).elim
    · rfl

/-- Everything `queueOutputCommon` can do before its message is rejected, found
sent in full, or handed to the tail that queues the rest of it. -/
theorem queueOutputCommon_cases (serverIteration : Nat) (client : ClientConnection) (port : Port)
    (data : Bytes) :
    ∃ client₁ port₁ written calls,
      client₁.session = client.session ∧
      port₁.history = calls ++ port.history ∧
      (∀ effect ∈ calls, ∃ request accepted,
        effect = .send serverIteration request accepted ∧ request ≠ []) ∧
      port₁.recvs = port.recvs ∧ port₁.writeInterest = port.writeInterest ∧
      (OutputOk client port → Accounts (data.take written) client₁ port₁ ∧ Disarmed client₁) ∧
      (queueOutputCommon serverIteration client port data =
          (false, client₁, port₁.note (.offered data .rejected)) ∨
        (written = data.length ∧ queueOutputCommon serverIteration client port data =
          (true, client₁, port₁.note (.offered data .immediate))) ∨
        (written ≤ data.length ∧
          client₁.outputQueueSize + (data.length - written) ≤ maxPendingOutputBytes ∧
          queueOutputCommon serverIteration client port data =
            appendOutput client₁ port₁ data written)) := by
  by_cases overflow : client.outputQueueSize > maxPendingOutputBytes ∨
      data.length > maxPendingOutputBytes - client.outputQueueSize
  · refine ⟨client, port, 0, [], rfl, rfl, by simp, rfl, rfl,
      fun ok => by simpa using ⟨ok.toAccounts, ok.disarmed⟩, .inl ?_⟩
    rw [queueOutputCommon, if_pos overflow]
  have session := clientWriteBudget_session serverIteration client
  have size := clientWriteBudget_outputQueueSize serverIteration client
  have refill (ok : OutputOk client port) := And.intro (ok.refill serverIteration)
    (clientWriteBudget_disarmed serverIteration ok.disarmed)
  rw [queueOutputCommon, if_neg overflow]
  generalize clientWriteBudget serverIteration client = refilled at session size refill ⊢
  have fits : refilled.outputQueueSize + data.length ≤ maxPendingOutputBytes := by omega
  dsimp only
  split_ifs with fast
  · obtain ⟨written, rest, le, after, outcome⟩ :=
      port.send_spec serverIteration (data.take refilled.writeBudgetRemaining)
    generalize port.send serverIteration (data.take refilled.writeBudgetRemaining) = reply
      at after outcome ⊢
    obtain ⟨result, port₁⟩ := reply
    dsimp only at after outcome ⊢
    rw [List.length_take] at le
    have sent (budget : Nat) (ok : OutputOk client port) :
        Accounts (data.take written) { refilled with writeBudgetRemaining := budget } port₁ ∧
          Disarmed { refilled with writeBudgetRemaining := budget } := by
      rw [after]
      exact ⟨(refill ok).1.sent fast.1 serverIteration budget rest
        (by rw [List.take_take, min_eq_left (by omega)]), (refill ok).2⟩
    have history : port₁.history = [.send serverIteration
        (data.take refilled.writeBudgetRemaining) written] ++ port.history := by rw [after]; rfl
    have asked : data.take refilled.writeBudgetRemaining ≠ [] := by
      simpa [List.take_eq_nil_iff, not_or] using And.intro fast.2.2 fast.2.1
    have recvs : port₁.recvs = port.recvs := by rw [after]
    have registered : port₁.writeInterest = port.writeInterest := by rw [after]
    cases result with
    | accepted count =>
      obtain rfl : count = written := outcome
      dsimp only
      split_ifs with empty all
      · exact ⟨refilled, port₁, count, _, session, history, by simp [asked], recvs, registered, sent _,
          .inl rfl⟩
      · exact ⟨{ refilled with writeBudgetRemaining := refilled.writeBudgetRemaining - count },
          port₁, count, _, session, history, by simp [asked], recvs, registered, sent _,
          .inr (.inl ⟨all, rfl⟩)⟩
      · exact ⟨{ refilled with writeBudgetRemaining := refilled.writeBudgetRemaining - count },
          port₁, count, _, session, history, by simp [asked], recvs, registered, sent _,
          .inr (.inr ⟨by omega, by dsimp only; omega, rfl⟩)⟩
    | eagain =>
      obtain rfl : written = 0 := outcome
      exact ⟨refilled, port₁, 0, _, session, history, by simp [asked], recvs, registered, sent _,
        .inr (.inr ⟨by omega, by omega, rfl⟩)⟩
    | eintr =>
      obtain rfl : written = 0 := outcome
      exact ⟨refilled, port₁, 0, _, session, history, by simp [asked], recvs, registered, sent _,
        .inl rfl⟩
    | error errno =>
      obtain rfl : written = 0 := outcome
      exact ⟨refilled, port₁, 0, _, session, history, by simp [asked], recvs, registered, sent _,
        .inl rfl⟩
  · exact ⟨refilled, port, 0, [], session, rfl, by simp, rfl, rfl, fun ok => by simpa using refill ok,
      .inr (.inr ⟨by omega, by omega, rfl⟩)⟩

/-- What a call of `queueOutputCommon` does whatever becomes of its message. -/
structure Offered (data : Bytes) (client : ClientConnection) (port : Port) (queued : Bool)
    (client' : ClientConnection) (port' : Port) : Prop where
  session : client'.session = client.session
  recvs : port'.recvs = port.recvs
  registered : port'.writeInterest.isSome = port.writeInterest.isSome
  history : ∃ outcome calls, port'.history = .offered data outcome :: (calls ++ port.history) ∧
    (∀ effect ∈ calls, effect.isOutput = true ∧ effect.offer = none ∧ effect.request ≠ some []) ∧
    (outcome = .rejected ↔ queued = false)

def pushed (client : ClientConnection) (data : Bytes) (offset : Nat) : ClientConnection :=
  if offset < data.length then { client with
    outputQueue := client.outputQueue ++ [⟨data.drop offset, 0⟩]
    outputQueueSize := client.outputQueueSize + (data.length - offset)
    peakPendingOutputBytes := max client.peakPendingOutputBytes
      (client.outputQueueSize + (data.length - offset)) }
  else client

theorem pushed_session (client : ClientConnection) (data : Bytes) (offset : Nat) :
    (pushed client data offset).session = client.session := by
  unfold pushed
  split_ifs <;> rfl

theorem appendOutput_cases (client : ClientConnection) (port : Port) (data : Bytes)
    (offset : Nat) :
    ((pushed client data offset).outputQueue ≠ [] ∧
      (pushed client data offset).writeInterestEnabled = false ∧
      appendOutput client port data offset =
        let call := port.setWriteInterest true
        if call.1 = true then (true, { pushed client data offset with writeInterestEnabled := true },
          call.2.note (.offered data .queued))
        else (false, pushed client data offset, call.2.note (.offered data .rejected))) ∨
    (((pushed client data offset).outputQueue ≠ [] →
        (pushed client data offset).writeInterestEnabled = true) ∧
      appendOutput client port data offset =
        (true, pushed client data offset, port.note (.offered data .queued))) := by
  by_cases asks : (pushed client data offset).outputQueue ≠ [] ∧
      (pushed client data offset).writeInterestEnabled = false
  · refine .inl ⟨asks.1, asks.2, (if_pos asks).trans ?_⟩
    rcases port.setWriteInterest true with ⟨ok, port'⟩
    cases ok <;> rfl
  · refine .inr ⟨fun queue => ?_, if_neg asks⟩
    simpa using not_and.mp asks queue

/-- When `queueOutputCommon` takes a message, read off the record and the port:
the queue has room for it, the kernel's answer to the immediate send (if one is
made) is no failure, and write interest is or can be had if bytes stay behind. -/
def admits (serverIteration : Nat) (data : Bytes) (client : ClientConnection) (port : Port) :
    Bool :=
  let budget := if client.writeBudgetIteration ≠ serverIteration then maxBytesWrittenPerPoll
    else client.writeBudgetRemaining
  let armed := client.writeInterestEnabled ||
    (port.writeInterest.isSome && port.interests.headD true)
  decide (client.outputQueueSize + data.length ≤ maxPendingOutputBytes) &&
    if client.outputQueue = [] ∧ data ≠ [] ∧ budget ≠ 0 then
      match (sendRetry port.sends).1 with
      | .accepted count => count ≠ 0 && (decide (data.length ≤ min count budget) || armed)
      | .eagain => armed
      | _ => false
    else decide (client.outputQueue = [] ∧ data = []) || armed

theorem appendOutput_fst (client : ClientConnection) (port : Port) (data : Bytes) (offset : Nat) :
    (appendOutput client port data offset).1 =
      (decide (client.outputQueue = [] ∧ data.length ≤ offset) || (client.writeInterestEnabled ||
        (port.writeInterest.isSome && port.interests.headD true))) := by
  have queue : (pushed client data offset).outputQueue = [] ↔
      client.outputQueue = [] ∧ data.length ≤ offset := by
    unfold pushed
    split_ifs with short
    · simp [short]
    · simp [Nat.le_of_not_lt short]
  have enabled : (pushed client data offset).writeInterestEnabled = client.writeInterestEnabled := by
    unfold pushed
    split_ifs <;> rfl
  rw [← enabled]
  rcases appendOutput_cases client port data offset with ⟨nonempty, off, result⟩ | ⟨on, result⟩
  · rw [result, off, decide_eq_false (queue.not.mp nonempty)]
    dsimp only
    split_ifs with ok
    · exact ok.symm
    · exact (Bool.not_eq_true _ ▸ ok : _ = false).symm
  · rw [result]
    by_cases empty : client.outputQueue = [] ∧ data.length ≤ offset
    · simp [empty]
    · simp [on (queue.not.mpr empty)]

theorem queueOutputCommon_fst (serverIteration : Nat) (client : ClientConnection) (port : Port)
    (data : Bytes) :
    (queueOutputCommon serverIteration client port data).1 =
      admits serverIteration data client port := by
  by_cases overflow : client.outputQueueSize > maxPendingOutputBytes ∨
      data.length > maxPendingOutputBytes - client.outputQueueSize
  · have full : ¬ client.outputQueueSize + data.length ≤ maxPendingOutputBytes := by omega
    simp [queueOutputCommon, admits, overflow, full]
  have fits : client.outputQueueSize + data.length ≤ maxPendingOutputBytes := by omega
  have budget : (clientWriteBudget serverIteration client).writeBudgetRemaining =
      if client.writeBudgetIteration ≠ serverIteration then maxBytesWrittenPerPoll
      else client.writeBudgetRemaining := by
    unfold clientWriteBudget
    split_ifs <;> rfl
  have enabled : (clientWriteBudget serverIteration client).writeInterestEnabled =
      client.writeInterestEnabled := by
    unfold clientWriteBudget
    split_ifs <;> rfl
  simp only [queueOutputCommon, if_neg overflow, admits, decide_eq_true fits, Bool.true_and,
    clientWriteBudget_outputQueue, ← budget]
  split_ifs with fast
  · simp only [Port.send]
    have request : (data.take (clientWriteBudget serverIteration client).writeBudgetRemaining).length =
        min (clientWriteBudget serverIteration client).writeBudgetRemaining data.length :=
      List.length_take
    have positive : data.length ≠ 0 := by simpa using fast.2.1
    rcases sendRetry port.sends with ⟨result, rest⟩
    cases result with
    | accepted count =>
      dsimp only
      rw [request]
      have zero : min count (min (clientWriteBudget serverIteration client).writeBudgetRemaining
          data.length) = 0 ↔ count = 0 := by omega
      have all : min count (min (clientWriteBudget serverIteration client).writeBudgetRemaining
          data.length) = data.length ↔
            data.length ≤ min count (clientWriteBudget serverIteration client).writeBudgetRemaining := by
        omega
      simp only [zero, all]
      split_ifs with taken whole
      · simp [taken]
      · simp [taken, whole]
      · rw [appendOutput_fst]
        have short : ¬ data.length ≤ min count (min
            (clientWriteBudget serverIteration client).writeBudgetRemaining data.length) := by omega
        simp [taken, whole, short, enabled]
    | eagain =>
      dsimp only
      rw [appendOutput_fst]
      simp [fast.2.1, enabled]
    | eintr => rfl
    | error errno => rfl
  · rw [appendOutput_fst]
    simp [enabled]

theorem appendOutput_offered (client : ClientConnection) (port : Port) (data : Bytes)
    (offset : Nat) :
    Offered data client port (appendOutput client port data offset).1
      (appendOutput client port data offset).2.1 (appendOutput client port data offset).2.2 := by
  rcases appendOutput_cases client port data offset with ⟨-, -, result⟩ | ⟨-, result⟩
  · rw [result]
    dsimp only
    split_ifs with ok
    · exact ⟨pushed_session client data offset, rfl, port.setWriteInterest_isSome true,
        .queued, [_], rfl, by simp, by simp⟩
    · exact ⟨pushed_session client data offset, rfl, port.setWriteInterest_isSome true,
        .rejected, [_], rfl, by simp, by simp⟩
  · rw [result]
    exact ⟨pushed_session client data offset, rfl, rfl, .queued, [], rfl, by simp, by simp⟩

theorem queueOutputCommon_offered (serverIteration : Nat) (client : ClientConnection)
    (port : Port) (data : Bytes) :
    Offered data client port (queueOutputCommon serverIteration client port data).1
      (queueOutputCommon serverIteration client port data).2.1
      (queueOutputCommon serverIteration client port data).2.2 := by
  obtain ⟨client₁, port₁, written, sends, session, history, sent, recvs, registered, -, result⟩ :=
    queueOutputCommon_cases serverIteration client port data
  have sent' : ∀ effect ∈ sends, effect.isOutput = true ∧ effect.offer = none ∧
      effect.request ≠ some [] := by
    intro effect mem
    obtain ⟨request, accepted, rfl, asked⟩ := sent effect mem
    exact ⟨rfl, rfl, by simpa using asked⟩
  rcases result with result | ⟨-, result⟩ | ⟨-, -, result⟩
  · rw [result]
    exact ⟨session, recvs, by simp [Port.note, registered], .rejected, sends,
      by simp [Port.note, history], sent', by simp⟩
  · rw [result]
    exact ⟨session, recvs, by simp [Port.note, registered], .immediate, sends,
      by simp [Port.note, history], sent', by simp⟩
  · rw [result]
    obtain ⟨session', recvs', registered', outcome, calls, history', called, rejected⟩ :=
      appendOutput_offered client₁ port₁ data written
    refine ⟨session'.trans session, recvs'.trans recvs, by rw [registered', registered], outcome,
      calls ++ sends, by rw [history', history, List.append_assoc], ?_, rejected⟩
    intro effect mem
    exact (List.mem_append.mp mem).elim (called effect) (sent' effect)

theorem appendOutput_ok {client : ClientConnection} {port : Port} {data : Bytes} {offset : Nat}
    (h : Accounts (data.take offset) client port) (disarmed : Disarmed client)
    (le : offset ≤ data.length)
    (fits : client.outputQueueSize + (data.length - offset) ≤ maxPendingOutputBytes)
    (queued : (appendOutput client port data offset).1 = true) :
    OutputOk (appendOutput client port data offset).2.1
      (appendOutput client port data offset).2.2 := by
  obtain ⟨n, called, parity⟩ := h.calls
  by_cases short : offset < data.length
  · rcases appendOutput_cases client port data offset with ⟨-, off, result⟩ | ⟨on, result⟩
    · rw [result] at queued ⊢
      dsimp only at queued ⊢
      split_ifs at queued ⊢ with ok
      simp only [pushed, if_pos short] at off ⊢
      refine h.push fits short _ (Port.setWriteInterest_ok ok) ?_ ⟨n + 1, ?_, ?_⟩
      · simp [Port.note]
      · have even : n % 2 = 0 := by
          rw [off] at parity
          simpa using parity.symm
        simp [Port.note, called, alternating_succ, even]
      · rw [off] at parity
        have : ¬ n % 2 = 1 := by simpa using parity
        omega
    · rw [result]
      simp only [pushed, if_pos short] at on ⊢
      have enabled : client.writeInterestEnabled = true := on (by simp)
      have pushed := h.push fits short (port.note (.offered data .queued))
        (by simp [Port.note, h.registered, enabled]) (by simp [Port.note])
        ⟨n, by simp [Port.note, called], by simpa [enabled] using parity.symm⟩
      simpa [← enabled] using pushed
  · -- nothing is left to queue
    have all : data.take offset = data := List.take_of_length_le (by omega)
    have same : pushed client data offset = client := if_neg short
    rcases appendOutput_cases client port data offset with ⟨nonempty, off, -⟩ | ⟨-, result⟩
    · rw [same] at nonempty off
      simp [h.armed nonempty] at off
    · rw [result, same]
      refine ⟨⟨h.size, h.bounded, h.peak, h.unfinished, h.armed, h.registered, ?_, ?_, ?_, ?_⟩,
        disarmed⟩
      · simpa [Port.note, all] using h.stream
      · exact accepted_note h.accepted (by simp)
      · simpa [Port.note] using h.calls
      · intro immediate
        have queued := immediate (data, .queued) (by simp [Port.note])
        simp at queued

theorem appendOutput_calls {part : Bytes} {client : ClientConnection} {port : Port} {data : Bytes}
    {offset : Nat} (h : Accounts part client port) :
    ∃ n, interestCalls (appendOutput client port data offset).2.2.history = alternating n := by
  obtain ⟨n, called, parity⟩ := h.calls
  have kept : (pushed client data offset).writeInterestEnabled = client.writeInterestEnabled := by
    unfold pushed
    split_ifs <;> rfl
  rcases appendOutput_cases client port data offset with ⟨-, off, result⟩ | ⟨-, result⟩
  · have even : n % 2 = 0 := by
      rw [kept.symm.trans off] at parity
      simpa using parity.symm
    refine ⟨n + 1, ?_⟩
    rw [result]
    dsimp only
    split_ifs <;> simp [Port.note, called, alternating_succ, even]
  · exact ⟨n, by simp [result, Port.note, called]⟩

theorem queueOutputCommon_ok {client : ClientConnection} {port : Port} (h : OutputOk client port)
    {serverIteration : Nat} {data : Bytes}
    (queued : (queueOutputCommon serverIteration client port data).1 = true) :
    OutputOk (queueOutputCommon serverIteration client port data).2.1
      (queueOutputCommon serverIteration client port data).2.2 := by
  obtain ⟨client₁, port₁, written, -, -, -, -, -, -, accounts, result⟩ :=
    queueOutputCommon_cases serverIteration client port data
  obtain ⟨accounts, disarmed⟩ := accounts h
  rcases result with result | ⟨all, result⟩ | ⟨le, fits, result⟩
  · rw [result] at queued
    simp at queued
  · rw [result]
    rw [all, List.take_length] at accounts
    exact { accounts.immediate with disarmed }
  · rw [result] at queued ⊢
    exact appendOutput_ok accounts disarmed le fits queued

theorem queueOutputCommon_calls {client : ClientConnection} {port : Port}
    (h : OutputOk client port) (serverIteration : Nat) (data : Bytes) :
    ∃ n, interestCalls (queueOutputCommon serverIteration client port data).2.2.history =
      alternating n := by
  obtain ⟨client₁, port₁, written, -, -, -, -, -, -, accounts, result⟩ :=
    queueOutputCommon_cases serverIteration client port data
  obtain ⟨accounts, -⟩ := accounts h
  obtain ⟨n, called, -⟩ := accounts.calls
  rcases result with result | ⟨-, result⟩ | ⟨-, -, result⟩
  · exact ⟨n, by simp [result, Port.note, called]⟩
  · exact ⟨n, by simp [result, Port.note, called]⟩
  · rw [result]
    exact appendOutput_calls accounts

theorem Accounts.refused {client : ClientConnection} {port : Port} (h : Accounts [] client port)
    (serverIteration : Nat) (request : Bytes) (sends : List SendResult) :
    Accounts [] client { port with
      sends, history := .send serverIteration request 0 :: port.history } := by
  refine ⟨h.size, h.bounded, h.peak, h.unfinished, h.armed, h.registered, ?_, ?_, ?_, ?_⟩
  · simpa using h.stream
  · simpa using h.accepted
  · simpa using h.calls
  · simpa using h.idle

theorem Accounts.flushed {client : ClientConnection} {port : Port} (h : Accounts [] client port)
    {pending : PendingWrite} {queue : List PendingWrite}
    (head : client.outputQueue = pending :: queue) (serverIteration budget : Nat)
    {request : Bytes} {written : Nat} (le : written ≤ (pending.data.drop pending.offset).length)
    (same : request.take written = (pending.data.drop pending.offset).take written) :
    Accounts [] { client with
        outputQueue := if pending.offset + written = pending.data.length then queue
          else ⟨pending.data, pending.offset + written⟩ :: queue
        outputQueueSize := client.outputQueueSize - written
        writeBudgetRemaining := budget }
      { port with history := .send serverIteration request written :: port.history } := by
  rw [List.length_drop] at le
  have bounded := h.bounded
  have peak := h.peak
  have short := h.unfinished pending (by simp [head])
  have stream : sentBytes port.history ++ (pending.data.drop pending.offset ++ unsent queue) =
      offeredBytes port.history := by
    simpa [head, unsent] using h.stream
  have size : client.outputQueueSize =
      (pending.data.length - pending.offset) + pendingBytes queue := by
    rw [h.size, head]
    rfl
  have rest : (pending.data.drop pending.offset).take written ++
      pending.data.drop (pending.offset + written) = pending.data.drop pending.offset := by
    rw [← List.drop_drop, List.take_append_drop]
  refine ⟨?_, by dsimp only; omega, by dsimp only; omega, ?_, ?_, h.registered, ?_, ?_, ?_, ?_⟩
  · dsimp only
    split_ifs with all
    · omega
    · have added : pendingBytes (⟨pending.data, pending.offset + written⟩ :: queue) =
          (pending.data.length - (pending.offset + written)) + pendingBytes queue := rfl
      omega
  · intro entry mem
    dsimp only at mem
    split_ifs at mem with all
    · exact h.unfinished entry (by simp [head, mem])
    · rcases List.mem_cons.mp mem with rfl | old
      · dsimp only
        omega
      · exact h.unfinished entry (by simp [head, old])
  · exact fun _ => h.armed (by simp [head])
  · have moved : unsent (if pending.offset + written = pending.data.length then queue
        else ⟨pending.data, pending.offset + written⟩ :: queue) =
        pending.data.drop (pending.offset + written) ++ unsent queue := by
      split_ifs with all
      · simp [all]
      · rfl
    simp only [sentBytes_cons, Effect.sentBytes, same,
      moved, offeredBytes_cons, Effect.offer, Option.toList_none, List.flatMap_nil,
      List.append_nil]
    rw [List.append_assoc, ← List.append_assoc _ _ (unsent queue), rest, stream]
  · simpa using h.accepted
  · simpa using h.calls
  · intro all
    have empty := (h.idle (by simpa using all)).1
    simp [head] at empty

/-- What a call of `flushOutputCommon` does, whether or not it succeeds. -/
structure Flushed (serverIteration : Nat) (client : ClientConnection) (port : Port)
    (client' : ClientConnection) (port' : Port) : Prop where
  session : client'.session = client.session
  enabled : client'.writeInterestEnabled = client.writeInterestEnabled
  recvs : port'.recvs = port.recvs
  registered : port'.writeInterest = port.writeInterest
  history : ∃ calls, port'.history = calls ++ port.history ∧
    ∀ effect ∈ calls, ∃ request accepted, effect = .send serverIteration request accepted
  accounts : Accounts [] client port → Accounts [] client' port'
  asked : Accounts [] client port → ∀ effect ∈ port'.history,
    effect ∈ port.history ∨ effect.request ≠ some []

namespace Flushed

variable {serverIteration : Nat} {client client₁ client₂ : ClientConnection}
  {port port₁ port₂ : Port}

theorem idle (serverIteration : Nat) (client : ClientConnection) (port : Port)
    (sends : List SendResult) : Flushed serverIteration client port client { port with sends } :=
  ⟨rfl, rfl, rfl, rfl, ⟨[], rfl, by simp⟩, fun h => { h with }, fun _ _ => .inl⟩

theorem trans (first : Flushed serverIteration client port client₁ port₁)
    (rest : Flushed serverIteration client₁ port₁ client₂ port₂) :
    Flushed serverIteration client port client₂ port₂ := by
  obtain ⟨before, history₁, sent₁⟩ := first.history
  obtain ⟨after, history₂, sent₂⟩ := rest.history
  refine ⟨rest.session.trans first.session, rest.enabled.trans first.enabled,
    rest.recvs.trans first.recvs, rest.registered.trans first.registered,
    ⟨after ++ before, by rw [history₂, history₁, List.append_assoc], fun effect mem => ?_⟩,
    fun h => rest.accounts (first.accounts h), fun h effect mem => ?_⟩
  · exact (List.mem_append.mp mem).elim (sent₂ effect) (sent₁ effect)
  · exact (rest.asked (first.accounts h) effect mem).elim (first.asked h effect) .inr

variable {pending : PendingWrite} {queue : List PendingWrite}
  (head : client.outputQueue = pending :: queue) (budget : client.writeBudgetRemaining ≠ 0)

include head budget

/-- No call of `send` asks for nothing, since nothing finished stays in the queue. -/
theorem asks (h : Accounts [] client port) (accepted : Nat) (effect : Effect)
    (mem : effect ∈ .send serverIteration
      ((pending.data.drop pending.offset).take client.writeBudgetRemaining) accepted ::
        port.history) : effect ∈ port.history ∨ effect.request ≠ some [] := by
  rcases List.mem_cons.mp mem with rfl | old
  · have short := h.unfinished pending (by simp [head])
    refine .inr ?_
    simp only [Effect.request, ne_eq, Option.some.injEq, List.take_eq_nil_iff,
      List.drop_eq_nil_iff, not_or]
    exact ⟨budget, by omega⟩
  · exact .inl old

theorem refused (sends : List SendResult) : Flushed serverIteration client port client { port with
    sends
    history := .send serverIteration
      ((pending.data.drop pending.offset).take client.writeBudgetRemaining) 0 :: port.history } :=
  ⟨rfl, rfl, rfl, rfl, ⟨[_], rfl, by simp⟩, fun h => h.refused _ _ _,
    fun h => asks head budget h 0⟩

theorem sent {written : Nat} (le : written ≤
      ((pending.data.drop pending.offset).take client.writeBudgetRemaining).length) :
    Flushed serverIteration client port { client with
        outputQueue := if pending.offset + written = pending.data.length then queue
          else ⟨pending.data, pending.offset + written⟩ :: queue
        outputQueueSize := client.outputQueueSize - written
        writeBudgetRemaining := client.writeBudgetRemaining - written }
      { port with
        history := .send serverIteration
          ((pending.data.drop pending.offset).take client.writeBudgetRemaining) written ::
            port.history } := by
  rw [List.length_take] at le
  refine ⟨rfl, rfl, rfl, rfl, ⟨[_], rfl, by simp⟩, fun h => ?_,
    fun h => asks head budget h written⟩
  exact h.flushed head serverIteration _ (by omega) (by rw [List.take_take, min_eq_left (by omega)])

end Flushed

theorem flushLoop_flushed (serverIteration : Nat) (sends : List SendResult)
    (client : ClientConnection) (port : Port) :
    Flushed serverIteration client port (flushLoop serverIteration sends client port).2.1
      (flushLoop serverIteration sends client port).2.2 := by
  induction sends generalizing client port with
  | nil =>
    unfold flushLoop
    split
    · exact .idle _ _ _ _
    · rename_i pending queue head
      split_ifs with spent
      · exact .idle _ _ _ _
      · exact .refused head spent []
  | cons result rest ih =>
    unfold flushLoop
    split
    · exact .idle _ _ _ _
    · rename_i pending queue head
      split_ifs with spent
      · exact .idle _ _ _ _
      · dsimp only
        cases result with
        | eintr => exact ih client port
        | eagain => exact .refused head spent rest
        | error errno => exact .refused head spent rest
        | accepted count =>
          dsimp only
          by_cases empty : min count ((pending.data.drop pending.offset).take
              client.writeBudgetRemaining).length = 0
          · rw [if_pos empty, empty]
            exact .refused head spent rest
          · rw [if_neg empty]
            exact (Flushed.sent head spent (min_le_right _ _)).trans (ih _ _)

/-- The call to the dispatcher at the end, if it is made and succeeds, gives the
accounts between calls; otherwise the record is as the loop left it. -/
theorem flushOutputCommon_cases (serverIteration : Nat) (client : ClientConnection) (port : Port) :
    ∃ client₁ port₁,
      Flushed serverIteration (clientWriteBudget serverIteration client) port client₁ port₁ ∧
      ((flushOutputCommon serverIteration client port = (false, client₁, port₁)) ∨
        (client₁.outputQueue = [] ∧ client₁.writeInterestEnabled = true ∧
          flushOutputCommon serverIteration client port =
            let call := port₁.setWriteInterest false
            if call.1 = true then (true, { client₁ with writeInterestEnabled := false }, call.2)
            else (false, client₁, call.2)) ∨
        (Disarmed client₁ ∧ flushOutputCommon serverIteration client port =
          (true, client₁, port₁))) := by
  have flushed := flushLoop_flushed serverIteration port.sends
    (clientWriteBudget serverIteration client) port
  unfold flushOutputCommon
  generalize flushLoop serverIteration port.sends (clientWriteBudget serverIteration client) port =
    result at flushed
  obtain ⟨done, client₁, port₁⟩ := result
  refine ⟨client₁, port₁, flushed, ?_⟩
  cases done with
  | false => exact .inl rfl
  | true =>
    dsimp only
    by_cases asks : client₁.outputQueue = [] ∧ client₁.writeInterestEnabled = true
    · refine .inr (.inl ⟨asks.1, asks.2, ?_⟩)
      rw [if_pos asks]
      rcases port₁.setWriteInterest false with ⟨ok, port₂⟩
      cases ok <;> rfl
    · refine .inr (.inr ⟨fun enabled empty => asks ⟨empty, enabled⟩, ?_⟩)
      rw [if_neg asks]

theorem flushOutputCommon_ok {client : ClientConnection} {port : Port} (h : OutputOk client port)
    {serverIteration : Nat} (done : (flushOutputCommon serverIteration client port).1 = true) :
    OutputOk (flushOutputCommon serverIteration client port).2.1
      (flushOutputCommon serverIteration client port).2.2 := by
  obtain ⟨client₁, port₁, flushed, result⟩ := flushOutputCommon_cases serverIteration client port
  have accounts := flushed.accounts (h.refill serverIteration)
  rcases result with result | ⟨empty, enabled, result⟩ | ⟨disarmed, result⟩
  · rw [result] at done
    simp at done
  · rw [result] at done ⊢
    dsimp only at done ⊢
    split_ifs at done ⊢ with ok
    obtain ⟨n, called, parity⟩ := accounts.calls
    have odd : n % 2 = 1 := by
      rw [enabled] at parity
      simpa using parity.symm
    refine ⟨⟨accounts.size, accounts.bounded, accounts.peak, accounts.unfinished, ?_,
      Port.setWriteInterest_ok ok, ?_, ?_, ⟨n + 1, ?_, ?_⟩, ?_⟩, by simp [Disarmed]⟩
    · simp [empty]
    · simpa using accounts.stream
    · simpa using accounts.accepted
    · simp [called, alternating_succ, odd]
    · have : ¬ (n + 1) % 2 = 1 := by omega
      simp [this]
    · intro all
      have nothing := (accounts.idle (by simpa using all)).2
      rw [called] at nothing
      have : n = 0 := by simpa [alternating] using congrArg List.length nothing
      omega
  · rw [result]
    exact { accounts with disarmed }

theorem flushOutputCommon_calls {client : ClientConnection} {port : Port}
    (h : OutputOk client port) (serverIteration : Nat) :
    ∃ n, interestCalls (flushOutputCommon serverIteration client port).2.2.history =
      alternating n := by
  obtain ⟨client₁, port₁, flushed, result⟩ := flushOutputCommon_cases serverIteration client port
  obtain ⟨n, called, parity⟩ := (flushed.accounts (h.refill serverIteration)).calls
  rcases result with result | ⟨-, enabled, result⟩ | ⟨-, result⟩
  · exact ⟨n, by simp [result, called]⟩
  · have odd : n % 2 = 1 := by
      rw [enabled] at parity
      simpa using parity.symm
    refine ⟨n + 1, ?_⟩
    rw [result]
    dsimp only
    split_ifs <;> simp [called, alternating_succ, odd]
  · exact ⟨n, by simp [result, called]⟩

theorem flushOutputCommon_output (serverIteration : Nat) (client : ClientConnection)
    (port : Port) :
    (flushOutputCommon serverIteration client port).2.1.session = client.session ∧
      (flushOutputCommon serverIteration client port).2.2.recvs = port.recvs ∧
      (flushOutputCommon serverIteration client port).2.2.writeInterest.isSome =
        port.writeInterest.isSome ∧
      ∃ calls, (flushOutputCommon serverIteration client port).2.2.history =
          calls ++ port.history ∧
        ∀ effect ∈ calls, effect.isOutput = true ∧ effect.offer = none := by
  obtain ⟨client₁, port₁, flushed, result⟩ := flushOutputCommon_cases serverIteration client port
  obtain ⟨calls, history, sent⟩ := flushed.history
  have sent' : ∀ effect ∈ calls, effect.isOutput = true ∧ effect.offer = none := by
    intro effect mem
    obtain ⟨request, accepted, rfl⟩ := sent effect mem
    exact ⟨rfl, rfl⟩
  have session := flushed.session.trans (clientWriteBudget_session serverIteration client)
  rcases result with result | ⟨-, -, result⟩ | ⟨-, result⟩
  · rw [result]
    exact ⟨session, flushed.recvs, by rw [flushed.registered], calls, history, sent'⟩
  · rw [result]
    have registered := port₁.setWriteInterest_isSome false
    rw [flushed.registered] at registered
    have asked : ∀ effect ∈ .interest false (port₁.setWriteInterest false).1 :: calls,
        effect.isOutput = true ∧ effect.offer = none := by simpa using sent'
    dsimp only
    split_ifs
    · exact ⟨session, flushed.recvs, registered, _, by simp [history], asked⟩
    · exact ⟨session, flushed.recvs, registered, _, by simp [history], asked⟩
  · rw [result]
    exact ⟨session, flushed.recvs, by rw [flushed.registered], calls, history, sent'⟩

theorem flushOutputCommon_asked {client : ClientConnection} {port : Port}
    (h : OutputOk client port) (serverIteration : Nat) (effect : Effect)
    (mem : effect ∈ (flushOutputCommon serverIteration client port).2.2.history) :
    effect ∈ port.history ∨ effect.request ≠ some [] := by
  obtain ⟨client₁, port₁, flushed, result⟩ := flushOutputCommon_cases serverIteration client port
  have asked := flushed.asked (h.refill serverIteration) effect
  rcases result with result | ⟨-, -, result⟩ | ⟨-, result⟩
  · rw [result] at mem
    exact asked mem
  · rw [result] at mem
    dsimp only at mem
    split_ifs at mem <;>
      exact (List.mem_cons.mp mem).elim (fun here => .inr (by simp [here])) asked
  · rw [result] at mem
    exact asked mem

section InputSide

variable (serverIteration : Nat) (client : ClientConnection) (port : Port) (inputBuffer : Bytes)
  (recvs : List RecvResult) (history : List Effect)

theorem flushLoop_input (sends : List SendResult) : ∃ after,
    flushLoop serverIteration sends { client with inputBuffer } { port with recvs, history } =
      ((flushLoop serverIteration sends client port).1,
        { (flushLoop serverIteration sends client port).2.1 with inputBuffer },
        { (flushLoop serverIteration sends client port).2.2 with recvs, history := after }) := by
  induction sends generalizing client port history with
  | nil =>
    unfold flushLoop
    obtain ⟨_, _, buffer, queue, _, _, _, _, _, budget⟩ := client
    cases queue with
    | nil => exact ⟨_, rfl⟩
    | cons pending queue =>
      dsimp only
      split_ifs <;> exact ⟨_, rfl⟩
  | cons result rest ih =>
    unfold flushLoop
    obtain ⟨_, _, buffer, queue, _, _, _, _, _, budget⟩ := client
    cases queue with
    | nil => exact ⟨_, rfl⟩
    | cons pending queue =>
      dsimp only
      by_cases spent : budget = 0
      · simp only [if_pos spent]
        exact ⟨_, rfl⟩
      simp only [if_neg spent]
      cases result with
      | eagain => exact ⟨_, rfl⟩
      | error errno => exact ⟨_, rfl⟩
      | eintr => exact ih ⟨_, _, buffer, pending :: queue, _, _, _, _, _, _⟩ port history
      | accepted count =>
        dsimp only
        split_ifs
        · exact ⟨_, rfl⟩
        · exact ih ⟨_, _, buffer, _, _, _, _, _, _, _⟩ { port with history := _ :: port.history } _
        · exact ih ⟨_, _, buffer, _, _, _, _, _, _, _⟩ { port with history := _ :: port.history } _

/-- Whether a flush succeeds has nothing to do with the input side. -/
theorem flushOutputCommon_input :
    (flushOutputCommon serverIteration { client with inputBuffer }
      { port with recvs, history }).1 = (flushOutputCommon serverIteration client port).1 := by
  have refilled : clientWriteBudget serverIteration { client with inputBuffer } =
      { clientWriteBudget serverIteration client with inputBuffer } := by
    unfold clientWriteBudget
    split_ifs <;> rfl
  obtain ⟨after, same⟩ := flushLoop_input serverIteration
    (clientWriteBudget serverIteration client) port inputBuffer recvs history port.sends
  simp only [flushOutputCommon, refilled, same]
  generalize flushLoop serverIteration port.sends (clientWriteBudget serverIteration client) port =
    result
  obtain ⟨done, client₁, port₁⟩ := result
  cases done with
  | false => rfl
  | true =>
    by_cases asks : client₁.outputQueue = [] ∧ client₁.writeInterestEnabled = true
    · simp only [if_pos asks, Port.setWriteInterest]
      cases port₁.writeInterest.isSome && port₁.interests.headD true <;> rfl
    · simp only [if_neg asks]

end InputSide

end Partyline
