import Partyline.Replies

/-! What one call of `handleRead` for a client does to another one that keeps up.
The lines for it add up over the call. They are spent from its write budget first
and fill its queue from there. -/
namespace Partyline

/-- Lines of so many bytes fit the full budget of an iteration, or that and the queue
if the dispatcher grants write interest. -/
def FitsBurst (granted : Bool) (total : Nat) : Prop :=
  total ≤ maxBytesWrittenPerPoll ∨
    granted = true ∧ total ≤ maxBytesWrittenPerPoll + maxPendingOutputBytes

theorem fitsBurst_add {granted : Bool} {total length : Nat} (fits : FitsBurst granted total)
    (short : length ≤ maxPendingOutputBytes) :
    FitsBurst granted (total + length) ↔
      total - maxBytesWrittenPerPoll + length ≤ maxPendingOutputBytes ∧
        (total - maxBytesWrittenPerPoll ≠ 0 ∨ length ≤ maxBytesWrittenPerPoll - total ∨
          granted = true) := by
  unfold FitsBurst at fits ⊢
  cases granted with
  | false =>
    simp only [Bool.false_eq_true, false_and, or_false] at fits ⊢
    omega
  | true =>
    simp only [true_and, or_true, and_true] at fits ⊢
    omega

/-- Lines of `total` bytes have come for a client that had its whole budget and an empty
queue. -/
def Entry.Supplied (serverIteration : Nat) (granted : Bool) (total : Nat) (e : Entry) : Prop :=
  (FitsBurst granted total ∧ e.Healthy serverIteration (maxBytesWrittenPerPoll - total)
    (total - maxBytesWrittenPerPoll) granted) ∨ ¬ FitsBurst granted total ∧ e.client = none

namespace Entry.Supplied

variable {serverIteration total : Nat} {granted : Bool} {e : Entry}

theorem connected (h : e.Supplied serverIteration granted total) :
    e.client ≠ none ↔ FitsBurst granted total := by
  rcases h with ⟨fits, client, found, -⟩ | ⟨past, gone⟩
  · simp [found, fits]
  · simp [gone, past]

theorem offered (h : e.Supplied serverIteration granted total) {data : Bytes}
    (short : data.length ≤ maxPendingOutputBytes) (reason : String) : ∃ total',
      (e.offered serverIteration data reason).Supplied serverIteration granted total' ∧
      (offeredBytes (e.offered serverIteration data reason).port.history).length + total =
        (offeredBytes e.port.history).length + total' := by
  rcases h with ⟨fits, healthy⟩ | ⟨past, gone⟩
  · obtain ⟨client, found, -⟩ := id healthy
    obtain ⟨outcome, told, -⟩ := Entry.offered_offers found serverIteration data reason
    refine ⟨total + data.length, ?_, ?_⟩
    · have room := (healthy.accepts data).trans (fitsBurst_add fits short).symm
      cases taken : e.accepts serverIteration data with
      | true =>
        have after := healthy.offered taken reason
        have budget : spentBudget (maxBytesWrittenPerPoll - total) (total - maxBytesWrittenPerPoll)
            data.length = maxBytesWrittenPerPoll - (total + data.length) := by
          unfold spentBudget
          split_ifs <;> omega
        have queue : grownQueue (maxBytesWrittenPerPoll - total) (total - maxBytesWrittenPerPoll)
            data.length = total + data.length - maxBytesWrittenPerPoll := by
          unfold grownQueue
          split_ifs <;> omega
        rw [budget, queue] at after
        exact .inl ⟨room.mp taken, after⟩
      | false =>
        have refused : ¬ FitsBurst granted (total + data.length) := by
          rw [← room, taken]
          exact Bool.false_ne_true
        exact .inr ⟨refused, by rw [Entry.offered_of_rejects taken found]⟩
    · have grown : offeredBytes (e.offered serverIteration data reason).port.history =
          offeredBytes e.port.history ++ data := by
        unfold offeredBytes
        rw [told]
        simp
      rw [grown, List.length_append]
      omega
  · refine ⟨total, ?_, ?_⟩
    · rw [Entry.offered_none gone]
      exact .inr ⟨past, gone⟩
    · rw [Entry.offered_none gone]

end Entry.Supplied

namespace ChatServer

/-- The bytes of the lines that came for `fd` between two states. -/
def generated (s t : ChatServer) (fd : Fd) : Nat :=
  (offeredBytes (t.ports fd).history).length - (offeredBytes (s.ports fd).history).length

theorem reading_supplied {s : ChatServer} (h : Reachable s) {c r : Fd} (ne : r ≠ c) {a : Action}
    (enabled : (reading c).enabled a s) {granted : Bool} {total : Nat}
    (supplied : (s.entry r).Supplied s.serverIteration granted total) : ∃ total',
      ((a.perform s).entry r).Supplied s.serverIteration granted total' ∧
      (offeredBytes ((a.perform s).entry r).port.history).length + total =
        (offeredBytes (s.entry r).port.history).length + total' := by
  have offers (acts : a.actor = some c) : ∃ total',
      ((a.perform s).entry r).Supplied s.serverIteration granted total' ∧
      (offeredBytes ((a.perform s).entry r).port.history).length + total =
        (offeredBytes (s.entry r).port.history).length + total' := by
    rcases perform_offers h enabled.2 acts ne with same | ⟨data, reason, short, same⟩
    · rw [same]
      exact ⟨total, supplied, rfl⟩
    · have limit : maxLineBytes ≤ maxPendingOutputBytes := by decide
      rw [same]
      exact supplied.offered (short.trans limit) reason
  cases a with
  | iteration | load results | accept c results | write c => exact enabled.1.elim
  | answered c' recvs =>
    obtain rfl : c' = c := enabled.1
    have same : (Action.perform (.answered c' recvs) s).entry r = s.entry r := by
      refine ((setRecvs_performs s c' recvs).entries r).trans ?_
      simp [ne]
    rw [same]
    exact ⟨total, supplied, rfl⟩
  | receive c' chunk | frame c' framesProcessed | peerClosed c' | recvFailed c' =>
    exact offers (congrArg some enabled.1)

/-- The lines of one call are taken up to the sum that fits. -/
theorem handleRead_supplied {s : ChatServer} (h : Reachable s) {c r : Fd} (ne : r ≠ c)
    {granted : Bool} (supplied : (s.entry r).Supplied s.serverIteration granted 0) :
    ((s.handleRead c).entry r).Supplied s.serverIteration granted
      (s.generated (s.handleRead c) r) := by
  have kept : Reachable (s.handleRead c) ∧ (s.handleRead c).serverIteration = s.serverIteration ∧
      ∃ total, ((s.handleRead c).entry r).Supplied s.serverIteration granted total ∧
        (offeredBytes ((s.handleRead c).entry r).port.history).length =
          (offeredBytes (s.entry r).port.history).length + total := by
    refine (handleRead_reading s c).preserves (P := fun t => Reachable t ∧
      t.serverIteration = s.serverIteration ∧ ∃ total,
        (t.entry r).Supplied s.serverIteration granted total ∧
          (offeredBytes (t.entry r).port.history).length =
            (offeredBytes (s.entry r).port.history).length + total) ?_ ⟨h, rfl, 0, supplied, rfl⟩
    rintro t a ⟨reachable, iteration, total, supplied, sum⟩ enabled
    have within : a ≠ .iteration := by
      rintro rfl
      exact enabled.1
    have same := perform_serverIteration (reachable_inv reachable).rooms enabled.2 within
    rw [← iteration] at supplied
    obtain ⟨total', supplied', sum'⟩ := reading_supplied reachable ne enabled supplied
    rw [iteration] at supplied'
    exact ⟨reachable.perform enabled.2, same.trans iteration, total', supplied', by
      change (offeredBytes ((a.perform t).entry r).port.history).length = _
      omega⟩
  obtain ⟨-, -, total, supplied, sum⟩ := kept
  have all : s.generated (s.handleRead c) r = total := by
    simp only [entry_port] at sum
    unfold generated
    omega
  rw [all]
  exact supplied

/-- A client with an empty queue and its whole budget, whose socket takes every send,
survives a call for another client exactly if the lines of the call fit its budget, and
its queue where that can be announced. -/
theorem peer_survives {s : ChatServer} (h : Reachable s) {c r : Fd} {client : ClientConnection}
    (ne : r ≠ c) (found : s.clients r = some client) (idle : client.outputQueue = [])
    (full : budgetLeft s.serverIteration client = maxBytesWrittenPerPoll)
    (takes : TakesInFull (s.ports r)) (enough : maxBytesWrittenPerPoll ≤ (s.ports r).sends.length) :
    (s.handleRead c).clients r ≠ none ↔
      s.generated (s.handleRead c) r ≤ maxBytesWrittenPerPoll ∨
        (s.ports r).interests.headD true = true ∧
          s.generated (s.handleRead c) r ≤ maxBytesWrittenPerPoll + maxPendingOutputBytes := by
  have ok := ((reachable_inv h).entries r).output client found
  have size : client.outputQueueSize = 0 := by
    rw [ok.size, idle]
    rfl
  have off : client.writeInterestEnabled = true ↔ (0 : Nat) ≠ 0 :=
    iff_of_false (fun on => ok.disarmed on idle) (by simp)
  have healthy : (s.entry r).Healthy s.serverIteration maxBytesWrittenPerPoll 0
      ((s.ports r).interests.headD true) :=
    ⟨client, found, size, iff_of_true idle rfl, full, le_rfl,
      ⟨takes.2, enough, congrArg Option.isSome ok.registered⟩, off, fun _ => rfl⟩
  have supplied : (s.entry r).Supplied s.serverIteration ((s.ports r).interests.headD true) 0 :=
    .inl ⟨.inl (Nat.zero_le _), healthy⟩
  exact (handleRead_supplied h ne supplied).connected

def burstMet (frames : Nat) (interests : List Bool) : ChatServer :=
  ((initial 3).run (connects 4 [.accepted maxBytesWrittenPerPoll] (ascii "ann\n") ++
    connects 5 [.accepted maxBytesWrittenPerPoll] (List.replicate 1000 97 ++ [newline]) ++
    [.iteration])).load
      fun _ => ⟨fullReads ((List.replicate frames (ascii "x\n")).flatten),
        List.replicate maxBytesWrittenPerPoll (.accepted maxBytesWrittenPerPoll), interests⟩

theorem burstMet_ready (frames : Nat) (interests : List Bool) :
    Reachable (burstMet frames interests) ∧ TakesInFull ((burstMet frames interests).ports 4) ∧
      maxBytesWrittenPerPoll ≤ ((burstMet frames interests).ports 4).sends.length := by
  have sends : ((burstMet frames interests).ports 4).sends =
      List.replicate maxBytesWrittenPerPoll (.accepted maxBytesWrittenPerPoll) := rfl
  refine ⟨(run_reachable 3 _).perform (a := .load _) trivial, ⟨?_, fun result mem => ?_⟩, ?_⟩
  · rw [sends, ne_eq, List.replicate_eq_nil_iff]
    decide
  · rw [sends] at mem
    exact ⟨_, List.eq_of_mem_replicate mem, le_rfl⟩
  · rw [sends, List.length_replicate]

def fresh (s : ChatServer) (client : ClientConnection) : Bool :=
  client.outputQueue = [] && budgetLeft s.serverIteration client = maxBytesWrittenPerPoll

/-- The client 4 keeps up, and one call of `handleRead` for 5 ends its connection. -/
def LosesPeer (s : ChatServer) : Prop :=
  Reachable s ∧ TakesInFull (s.ports 4) ∧ maxBytesWrittenPerPoll ≤ (s.ports 4).sends.length ∧
    (s.clients 4).any s.fresh = true ∧ (s.handleRead 5).clients 4 = none

theorem losesPeer_of {frames : Nat} {interests : List Bool}
    (gone : (((burstMet frames interests).clients 4).any (burstMet frames interests).fresh &&
      (((burstMet frames interests).handleRead 5).clients 4).isNone) = true) :
    LosesPeer (burstMet frames interests) := by
  rw [Bool.and_eq_true, Option.isNone_iff_eq_none] at gone
  obtain ⟨reachable, takes, enough⟩ := burstMet_ready frames interests
  exact ⟨reachable, takes, enough, gone⟩

/-- As many short frames as one call takes, or fewer of them and no write interest. -/
theorem burst_evicts_peer : LosesPeer (burstMet 32 []) ∧ LosesPeer (burstMet 10 [false]) :=
  ⟨losesPeer_of (by decide +kernel), losesPeer_of (by decide +kernel)⟩

theorem burstMet_survives : ((burstMet 3 []).handleRead 5).clients 4 ≠ none := by
  obtain ⟨reachable, takes, enough⟩ := burstMet_ready 3 []
  have settled : ((burstMet 3 []).clients 4).any (burstMet 3 []).fresh = true := by
    decide +kernel
  obtain ⟨client, found, fresh⟩ := Option.any_eq_true .. |>.mp settled
  obtain ⟨idle, full⟩ := Bool.and_eq_true_iff.mp fresh
  have fits : ((burstMet 3 []).generated ((burstMet 3 []).handleRead 5) 4) ≤
      maxBytesWrittenPerPoll + maxPendingOutputBytes := by decide +kernel
  exact (peer_survives reachable (by decide) found (by simpa using idle) (by simpa using full)
    takes enough).mpr (.inr ⟨rfl, fits⟩)

end ChatServer
end Partyline
