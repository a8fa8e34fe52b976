import Partyline.Commands
import Partyline.Lengths
import Partyline.Healthy

/-! What becomes of the answers to LIST and WHERE. An answer is queued whole or not
at all, and the one to LIST grows with the rooms. -/
namespace Partyline

/-- The next send on the port takes all that a client's budget can have it asked for. -/
def TakesInFull (port : Port) : Prop :=
  port.sends ≠ [] ∧ ∀ result ∈ port.sends,
    ∃ count, result = .accepted count ∧ maxBytesWrittenPerPoll ≤ count

theorem TakesInFull.send {port : Port} (h : TakesInFull port) : ∃ count,
    (sendRetry port.sends).1 = .accepted count ∧ maxBytesWrittenPerPoll ≤ count := by
  obtain ⟨result, rest, sends⟩ := List.exists_cons_of_ne_nil h.1
  obtain ⟨count, rfl, large⟩ := h.2 result (by simp [sends])
  exact ⟨count, by rw [sends]; rfl, large⟩

/-- A client with nothing queued takes a message that fits its queue, if what its budget
does not cover can wait there. -/
theorem admits_idle {serverIteration : Nat} {client : ClientConnection} {port : Port}
    (ok : OutputOk client port) (idle : client.outputQueue = []) (takes : TakesInFull port)
    (within : budgetLeft serverIteration client ≤ maxBytesWrittenPerPoll) (data : Bytes) :
    admits serverIteration data client port = true ↔ data.length ≤ maxPendingOutputBytes ∧
      (data.length ≤ budgetLeft serverIteration client ∨ port.interests.headD true = true) := by
  have size : client.outputQueueSize = 0 := by
    rw [ok.size, idle]
    rfl
  have off : client.writeInterestEnabled = true ↔ (0 : Nat) ≠ 0 :=
    iff_of_false (fun on => ok.disarmed on idle) (by simp)
  obtain ⟨count, send, large⟩ := takes.send
  rw [admits_iff size (iff_of_true idle rfl) off (by simp [ok.registered])
    fun _ => ⟨count, send, within.trans large⟩]
  simp

namespace ChatServer

/-- The line is queued whole for a client that stays, and the client stays if `fits`; otherwise
its connection has been closed for that reason. -/
structure Served (s : ChatServer) (fd : Fd) (line : Bytes) (reason : String) (fits : Prop)
    (t : ChatServer) : Prop where
  stays : t.clients fd ≠ none ↔ fits
  complete : t.clients fd ≠ none → (t.entry fd).stream = (s.entry fd).stream ++ line
  evicted : t.clients fd = none → (t.ports fd).history.head? = some (.closed reason)

section Idle

variable {s : ChatServer} (h : Reachable s) {fd : Fd} {client : ClientConnection}
  (found : s.clients fd = some client) (active : client.clientState = .active)
  (idle : client.outputQueue = []) (takes : TakesInFull (s.ports fd))

/-- The room there is for an answer: in the queue, and in what is left of the budget if
the dispatcher does not grant write interest. -/
def HasRoom (s : ChatServer) (fd : Fd) (client : ClientConnection) (line : Bytes) : Prop :=
  line.length ≤ maxPendingOutputBytes ∧ (line.length ≤ budgetLeft s.serverIteration client ∨
    (s.ports fd).interests.headD true = true)

include h found active idle takes

theorem reply_served {frame line : Bytes} {reason : String}
    (asked : s.request client frame = .reply line reason) :
    Served s fd line reason (s.HasRoom fd client line) (s.processFrame fd frame).2 := by
  have inv := reachable_inv h
  have ok := (inv.entries fd).output client found
  have within := ((reachable_budgeted h fd).left client found).2
  have same := processFrame_reply inv.rooms found active frame asked
  obtain ⟨outcome, offered, -⟩ := Entry.offered_offers (e := s.entry fd) found s.serverIteration
    line reason
  rw [← same] at offered
  have room : (s.entry fd).accepts s.serverIteration line = true ↔ s.HasRoom fd client line := by
    rw [Entry.accepts, entry_client, found]
    exact admits_idle ok idle takes (by omega) line
  generalize (s.processFrame fd frame).2 = t at same offered
  have stays : t.clients fd ≠ none ↔ s.HasRoom fd client line := by
    rw [← room, ← entry_client, same, ← Option.isSome_iff_ne_none, Entry.offered_client]
  refine ⟨stays, fun connected => ?_, fun gone => ?_⟩
  swap
  · have refused : (s.entry fd).accepts s.serverIteration line = false := by
      simpa using mt room.mp (mt stays.mpr (not_not.mpr gone))
    change (t.entry fd).port.history.head? = _
    rw [same, Entry.offered_of_rejects refused found, List.head?_cons]
  have taken := room.mpr (stays.mp connected)
  obtain ⟨record, found', result⟩ := Entry.offered_of_accepts taken reason
  obtain rfl := Option.some.inj (found.symm.trans found')
  have queued := (queueOutputCommon_fst s.serverIteration client (s.ports fd) line).trans
    (by simpa [Entry.accepts, found] using taken)
  have after := (queueOutputCommon_ok ok queued).stream
  have before : (s.entry fd).stream = _ := stream_eq h (by simp [found])
  rw [same, result] at offered ⊢
  refine after.trans ?_
  rw [before, List.append_nil, offeredBytes, offeredBytes]
  simpa using congrArg (List.flatMap Prod.fst) offered

end Idle

/-- The answers to LIST and WHERE are queued whole, and the client is kept, exactly where
there is room for them, and otherwise it is disconnected as a slow one; the answer to WHERE
always fits the queue. -/
theorem answers_served {s : ChatServer} (h : Reachable s) {fd : Fd} {client : ClientConnection}
    (found : s.clients fd = some client) (active : client.clientState = .active)
    (idle : client.outputQueue = []) (takes : TakesInFull (s.ports fd)) (frame : Bytes) :
    ((tokens frame).headD [] = ascii "LIST" →
      Served s fd (listReply s.rooms) "slow client: LIST response output queue overflow"
        (s.HasRoom fd client (listReply s.rooms)) (s.processFrame fd frame).2) ∧
    (tokens frame = [ascii "WHERE"] →
      let reply := whereReply (Rooms.roomName s.rooms client.currRoom)
      reply.length ≤ maxPendingOutputBytes ∧
        Served s fd reply "slow client: WHERE response output queue overflow"
          (s.HasRoom fd client reply) (s.processFrame fd frame).2) := by
  refine ⟨fun list => ?_, fun words => ⟨?_, ?_⟩⟩
  · exact reply_served h found active idle takes (request_list s client list)
  · exact whereReply_length (homeName_length h client)
  · exact reply_served h found active idle takes (request_where s client words)

/-- Data that arrives in reads that fill the buffer. -/
def fullReads (data : Bytes) : List RecvResult :=
  (List.range ((data.length + maxDataSize - 1) / maxDataSize)).map fun i =>
    .received ((data.drop (i * maxDataSize)).take maxDataSize) (List.length_take_le _ _)

def connects (fd : Fd) (sends : List SendResult) (data : Bytes) : List Input :=
  [.iteration, .event ⟨[.connection fd true true ⟨[], sends, []⟩], fun _ => ⟨[], [], []⟩⟩ ⟨3, readyRead⟩,
    .iteration, .event ⟨[], fun _ => ⟨fullReads data, sends, []⟩⟩ ⟨fd, readyRead⟩]

def member (i : Nat) : List Input :=
  connects (5 + i) [] (ascii "u\nJOIN " ++ [UInt8.ofNat (65 + i)] ++ List.replicate 503 97 ++ [newline])

/-- Before the client 4 asks for the rooms of so many members. -/
def listMet (members : Nat) (interests : List Bool) : ChatServer :=
  ((initial 3).run ((List.range members).flatMap member ++
    connects 4 [.accepted maxBytesWrittenPerPoll] (ascii "ann\n"))).load
      fun _ => ⟨[], [.accepted maxBytesWrittenPerPoll], interests⟩

theorem listMet_ready (members : Nat) (interests : List Bool) :
    Reachable (listMet members interests) ∧ TakesInFull ((listMet members interests).ports 4) := by
  refine ⟨(run_reachable 3 _).perform (a := .load _) trivial, ?_⟩
  change [SendResult.accepted maxBytesWrittenPerPoll] ≠ [] ∧ ∀ result ∈ [_], _
  simp

def ready (client : ClientConnection) : Bool :=
  client.clientState = .active && client.outputQueue = []

/-- The client that asks for the rooms has nothing queued, its socket takes every send,
and it loses its connection. -/
def LosesAsker (s : ChatServer) : Prop :=
  Reachable s ∧ TakesInFull (s.ports 4) ∧ (s.clients 4).any ready = true ∧
    (s.processFrame 4 (ascii "LIST")).2.clients 4 = none

theorem losesAsker_of {members : Nat} {interests : List Bool}
    (gone : (((listMet members interests).clients 4).any ready &&
      (((listMet members interests).processFrame 4 (ascii "LIST")).2.clients 4).isNone) = true) :
    LosesAsker (listMet members interests) := by
  rw [Bool.and_eq_true, Option.isNone_iff_eq_none] at gone
  obtain ⟨reachable, takes⟩ := listMet_ready members interests
  exact ⟨reachable, takes, gone⟩

/-- There are many rooms with long names, or fewer of them and no write interest. -/
theorem list_not_served : LosesAsker (listMet 32 []) ∧ LosesAsker (listMet 17 [false]) :=
  ⟨losesAsker_of (by decide +kernel), losesAsker_of (by decide +kernel)⟩

theorem listMet_served : ∃ client, (listMet 2 []).clients 4 = some client ∧
    Served (listMet 2 []) 4 (listReply (listMet 2 []).rooms)
      "slow client: LIST response output queue overflow"
      ((listMet 2 []).HasRoom 4 client (listReply (listMet 2 []).rooms))
      ((listMet 2 []).processFrame 4 (ascii "LIST")).2 := by
  obtain ⟨reachable, takes⟩ := listMet_ready 2 []
  have settled : ((listMet 2 []).clients 4).any ready = true := by decide +kernel
  obtain ⟨client, found, ready⟩ := Option.any_eq_true .. |>.mp settled
  obtain ⟨active, idle⟩ := Bool.and_eq_true_iff.mp ready
  exact ⟨client, found, (answers_served reachable found (by simpa using active)
    (by simpa using idle) takes (ascii "LIST")).1 (by decide)⟩

end ChatServer
end Partyline
