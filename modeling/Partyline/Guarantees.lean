import Partyline.Invariant

/-! What holds of every reachable state: of the rooms, of the output and the
input of each connection, and of the handles the server keeps across calls. -/
namespace Partyline

open Library

namespace ChatServer

/-- An event on the listener that accepts one connection, whose writes then block. -/
def arrival (fd : Fd) : Input :=
  .event ⟨[.connection fd true true ⟨[], [], []⟩], fun _ => ⟨[], [], []⟩⟩ ⟨3, readyRead⟩

/-- A readable event in which `recv` delivers one chunk. -/
def delivery (fd : Fd) (chunk : Bytes) (fits : chunk.length ≤ maxDataSize) : Input :=
  .event ⟨[], fun _ => ⟨[.received chunk fits], [], []⟩⟩ ⟨fd, readyRead⟩

/-- Two clients log in, one of them moves to a room of its own and then both talk. -/
def evening : List Input :=
  [.iteration, arrival 4, arrival 5, delivery 4 (ascii "ann\n") (by decide),
    delivery 5 (ascii "bob\r\nJOIN den\n") (by decide), .iteration,
    delivery 4 (ascii "anyone\nLIST\n") (by decide), delivery 5 (ascii "WHERE\nso") (by decide)]

structure Consistent (s : ChatServer) : Prop where
  ids : (s.rooms.map ChatRoom.roomIdx).Nodup
  names : (s.rooms.map ChatRoom.roomName).Nodup
  main : ∃ room ∈ s.rooms, room.roomIdx = 0 ∧ room.roomName = mainRoomName
  active : ∀ fd client, s.clients fd = some client → client.clientState = .active →
    ∃ room ∈ s.rooms, room.roomIdx = client.currRoom ∧ room.subscribedClients.count fd = 1 ∧
      ∀ other ∈ s.rooms, fd ∈ other.subscribedClients → other = room
  awaiting : ∀ fd client, s.clients fd = some client → client.clientState = .awaitingUsername →
    ∀ room ∈ s.rooms, fd ∉ room.subscribedClients
  connected : ∀ room ∈ s.rooms, ∀ fd ∈ room.subscribedClients, s.clients fd ≠ none
  inhabited : ∀ room ∈ s.rooms, room.roomName ≠ mainRoomName → room.subscribedClients ≠ []

/-- The rooms and the clients' own account of where they are agree. -/
theorem reachable_consistent {s : ChatServer} (h : Reachable s) : Consistent s := by
  have rooms := (reachable_inv h).rooms
  refine ⟨rooms.ids, rooms.names, rooms.main, ?_, ?_, ?_, ?_⟩
  · intro fd client found active
    have home : s.occupancy fd = some client.currRoom :=
      Entry.occupant_some.mpr ⟨client, found, active, rfl⟩
    obtain ⟨room, mem, id⟩ := rooms.homes fd _ home
    refine ⟨room, mem, id, ?_, fun other there member => ?_⟩
    · refine List.count_eq_one_of_mem (rooms.unique room mem) ?_
      rw [rooms.members room mem, home, id]
    · have also := (rooms.members other there fd).mp member
      refine eq_of_key rooms.ids there mem ?_
      rw [id]
      exact Option.some.inj (also.symm.trans home)
  · intro fd client found awaiting room mem member
    obtain ⟨record, same, active, -⟩ :=
      Entry.occupant_some.mp ((rooms.members room mem fd).mp member)
    rw [entry_client, found] at same
    obtain rfl := Option.some.inj same
    simp [awaiting] at active
  · intro room mem fd member
    obtain ⟨record, found, -⟩ :=
      Entry.occupant_some.mp ((rooms.members room mem fd).mp member)
    simp [← entry_client, found]
  · exact fun room mem named => rooms.occupied room mem named (Set.notMem_empty _)

theorem evening_consistent : Consistent ((initial 3).run evening) ∧
    ((initial 3).run evening).rooms = [⟨0, mainRoomName, [4]⟩, ⟨1, ascii "den", [5]⟩] :=
  ⟨reachable_consistent (run_reachable 3 evening), by decide +kernel⟩

/-- Every call of `queueOutput` is one offer of its whole message. -/
theorem queueOutput_offers {t : ChatServer} {fd : Fd} (connected : t.clients fd ≠ none)
    (data : Bytes) : ∃ outcome, offers ((t.queueOutput fd data).2.ports fd).history =
      offers (t.ports fd).history ++ [(data, outcome)] ∧
        (outcome = .rejected ↔ (t.queueOutput fd data).1 = false) := by
  obtain ⟨record, found⟩ := Option.ne_none_iff_exists'.mp connected
  obtain ⟨-, -, -, outcome, calls, history, silent, rejected⟩ :=
    queueOutputCommon_offered t.serverIteration record (t.ports fd) data
  refine ⟨outcome, ?_, ?_⟩
  · simp only [queueOutput, found, setPort_ports, Function.update_self, history, offers_cons,
      offers_of_silent _ fun effect mem => (silent effect mem).2.1]
    rfl
  · simp only [queueOutput, found]
    exact rejected

/-- What was sent and what waits to be sent are together what was offered, and
nobody who is connected was ever refused a message. -/
theorem reachable_stream {s : ChatServer} (h : Reachable s) {fd : Fd} {client : ClientConnection}
    (found : s.clients fd = some client) :
    sentBytes (s.ports fd).history ++ unsent client.outputQueue =
        offeredBytes (s.ports fd).history ∧
      (∀ offer ∈ offers (s.ports fd).history, offer.2 ≠ .rejected) ∧
      ∀ (t : ChatServer) (data : Bytes), t.clients fd ≠ none →
        ∃ outcome, offers ((t.queueOutput fd data).2.ports fd).history =
          offers (t.ports fd).history ++ [(data, outcome)] ∧
            (outcome = .rejected ↔ (t.queueOutput fd data).1 = false) := by
  have output := ((reachable_inv h).entries fd).output client found
  exact ⟨by simpa using output.stream, output.accepted, fun _ data connected =>
    queueOutput_offers connected data⟩

theorem evening_stream : ∃ client, ((initial 3).run evening).clients 4 = some client ∧
    sentBytes (((initial 3).run evening).ports 4).history ++ unsent client.outputQueue =
      offeredBytes (((initial 3).run evening).ports 4).history := by
  obtain ⟨client, found⟩ : ∃ client, ((initial 3).run evening).clients 4 = some client := by
    rw [← Option.isSome_iff_exists]
    decide +kernel
  exact ⟨client, found, (reachable_stream (run_reachable 3 evening) found).1⟩

/-- The accounts of the output queues, and what the dispatcher knows of them. -/
theorem reachable_output {s : ChatServer} (h : Reachable s) :
    (∀ fd client, s.clients fd = some client →
      client.outputQueueSize = pendingBytes client.outputQueue ∧
      client.outputQueueSize ≤ maxPendingOutputBytes ∧
      client.outputQueueSize ≤ client.peakPendingOutputBytes ∧
      (∀ pending ∈ client.outputQueue, pending.offset < pending.data.length) ∧
      (client.outputQueue ≠ [] ↔ client.writeInterestEnabled = true) ∧
      (s.ports fd).writeInterest = some client.writeInterestEnabled ∧
      ((∀ offer ∈ offers (s.ports fd).history, offer.2 = .immediate) →
        interestCalls (s.ports fd).history = [])) ∧
    (∀ fd, (s.ports fd).writeInterest ≠ none ↔ fd = s.listener ∨ s.clients fd ≠ none) ∧
    ∀ fd, (∃ n, interestCalls (s.ports fd).history = alternating n) ∧
      ∀ effect ∈ (s.ports fd).history, effect.request ≠ some [] := by
  have entries := (reachable_inv h).entries
  refine ⟨fun fd client found => ?_, fun fd => ?_, fun fd => ?_⟩
  · have output := (entries fd).output client found
    exact ⟨output.size, output.bounded, output.peak, output.unfinished,
      ⟨output.armed, output.disarmed⟩, output.registered, fun all => (output.idle all).2⟩
  · simpa [Option.isSome_iff_ne_none] using (entries fd).registered
  · exact ⟨(entries fd).history.calls, (entries fd).history.asked⟩

theorem evening_output : ∃ client, ((initial 3).run evening).clients 4 = some client ∧
    client.outputQueueSize = pendingBytes client.outputQueue := by
  obtain ⟨client, found⟩ : ∃ client, ((initial 3).run evening).clients 4 = some client := by
    rw [← Option.isSome_iff_exists]
    decide +kernel
  exact ⟨client, found, ((reachable_output (run_reachable 3 evening)).1 4 client found).1⟩

/-- The frames taken are the first pieces of the one-shot split of the stream,
however it was cut into chunks; the first is the username. -/
structure Framed (client : ClientConnection) (history : List Effect) : Prop where
  stream : receivedBytes history =
    delimited newline ((takenFrames history).map Taken.raw) ++ client.inputBuffer
  pieces : (takenFrames history).map Taken.raw =
    ((receivedBytes history).splitOn newline).take (takenFrames history).length
  lines : ∀ frame ∈ takenFrames history,
    frame.line = stripCarriageReturn frame.raw ∧ frame.raw.length ≤ maxFrameBytes
  roles : ∀ i frame, (takenFrames history)[i]? = some frame → (frame.username = true ↔ i = 0)
  username : client.username = ((takenFrames history).head?.map Taken.line).getD []

theorem reachable_framed {s : ChatServer} (h : Reachable s) (fd : Fd) :
    (∀ client, s.clients fd = some client → Framed client (s.ports fd).history) ∧
      (.closed "input frame limit exceeded" ∈ (s.ports fd).history →
        Overlong (receivedBytes (s.ports fd).history)) := by
  have entry := (reachable_inv h).entries fd
  refine ⟨fun client found => ?_, entry.history.limit⟩
  have framing := entry.framing client found
  have whole : ∀ raw ∈ (takenFrames (s.ports fd).history).map Taken.raw, newline ∉ raw := by
    intro raw mem
    obtain ⟨frame, taken, rfl⟩ := List.mem_map.mp mem
    exact (framing.whole frame taken).1
  refine ⟨framing.stream, ?_, fun frame mem => ?_, ?_, ?_⟩
  · have pieces := take_splitOn_delimited whole client.inputBuffer
    rw [← entry_port, framing.stream, ← List.length_map Taken.raw]
    exact pieces.symm
  · obtain ⟨-, short, line⟩ := framing.whole frame mem
    exact ⟨line, short⟩
  · intro i frame there
    have login := framing.login
    cases state : client.clientState with
    | awaitingUsername =>
      rw [state, entry_port] at login
      simp [login.1] at there
    | active =>
      rw [state, entry_port] at login
      obtain ⟨raw, rest, taken, others⟩ := login
      rw [taken] at there
      cases i with
      | zero =>
        obtain rfl : ⟨true, raw, client.username⟩ = frame := by simpa using there
        simp
      | succ i => simp [others frame (List.mem_of_getElem? there)]
  · have login := framing.login
    cases state : client.clientState with
    | awaitingUsername =>
      rw [state, entry_port] at login
      simp [login.1, login.2.1]
    | active =>
      rw [state, entry_port] at login
      obtain ⟨raw, rest, taken, -⟩ := login
      simp [taken]

theorem evening_framed : ∃ client, ((initial 3).run evening).clients 5 = some client ∧
    Framed client (((initial 3).run evening).ports 5).history ∧
    (takenFrames (((initial 3).run evening).ports 5).history).map Taken.line =
      [ascii "bob", ascii "JOIN den", ascii "WHERE"] := by
  obtain ⟨client, found⟩ : ∃ client, ((initial 3).run evening).clients 5 = some client := by
    rw [← Option.isSome_iff_exists]
    decide +kernel
  exact ⟨client, found, (reachable_framed (run_reachable 3 evening) 5).1 client found,
    by decide +kernel⟩

/-- No lookup through a handle kept across a call ever fails. -/
theorem reachable_intact {s : ChatServer} (h : Reachable s) : s.dangling = false :=
  (reachable_inv h).intact

theorem evening_intact : ((initial 3).run evening).dangling = false :=
  reachable_intact (run_reachable 3 evening)

end ChatServer
end Partyline
