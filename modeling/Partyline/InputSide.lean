import Partyline.Departures

/-! The input side of the entries: what a step does to what has been received,
and to what is still to be received, for the client it is about and the others. -/
namespace Partyline

open Library

/-- The bytes that the kernel holds, when these are the results still to come. -/
def pending (recvs : List RecvResult) : Bytes :=
  recvs.flatMap fun
    | .received chunk _ => chunk
    | _ => []

def Ended (history : List Effect) : Prop := .closed "peer closed connection" ∈ history

namespace Entry

structure Keeps (e e' : Entry) : Prop where
  input : ∀ record', e'.client = some record' → ∃ record, e.client = some record ∧
    record'.inputBuffer = record.inputBuffer ∧ record'.clientState = record.clientState
  recvs : e'.port.recvs = e.port.recvs
  gone : e.client = none → e' = e
  ended : Ended e'.port.history → Ended e.port.history

namespace Keeps

variable {e e' e'' : Entry} {record : ClientConnection}

theorem refl (e : Entry) : Keeps e e := ⟨fun _ found => ⟨_, found, rfl, rfl⟩, rfl, fun _ => rfl, id⟩

theorem trans (first : Keeps e e') (rest : Keeps e' e'') : Keeps e e'' := by
  refine ⟨fun record'' found'' => ?_, rest.recvs.trans first.recvs, fun gone => ?_,
    fun past => first.ended (rest.ended past)⟩
  · obtain ⟨record', found', buffer', state'⟩ := rest.input record'' found''
    obtain ⟨record, found, buffer, state⟩ := first.input record' found'
    exact ⟨record, found, buffer'.trans buffer, state'.trans state⟩
  · have same := first.gone gone
    rw [rest.gone (same ▸ gone), same]

theorem closed {reason : String} (other : reason ≠ "peer closed connection") (e : Entry) :
    Keeps e (e.closed reason) := by
  cases found : e.client with
  | none =>
    have same : e.closed reason = e := by simp [Entry.closed, found]
    rw [same]
    exact refl e
  | some record =>
    refine ⟨by simp, by simp [Entry.closed, found], fun gone => by simp [found] at gone, ?_⟩
    simp [Entry.closed, found, Ended, Ne.symm other]

theorem output {port : Port} {record' : ClientConnection} {effects : List Effect}
    (found : e.client = some record) (session : record'.session = record.session)
    (recvs : port.recvs = e.port.recvs) (history : port.history = effects ++ e.port.history)
    (silent : ∀ effect ∈ effects, effect.isOutput = true) : Keeps e ⟨some record', port⟩ := by
  simp only [ClientConnection.session, Prod.mk.injEq] at session
  refine ⟨?_, recvs, fun gone => by simp [found] at gone, fun past => ?_⟩
  · rintro _ ⟨⟩
    exact ⟨record, found, session.2.2.1, session.2.2.2⟩
  · rcases List.mem_append.mp (history ▸ past) with new | old
    · simpa using silent _ new
    · exact old

theorem offered {reason : String} (other : reason ≠ "peer closed connection")
    (serverIteration : Nat) (data : Bytes) (e : Entry) :
    Keeps e (e.offered serverIteration data reason) := by
  cases found : e.client with
  | none => exact (Entry.offered_none found serverIteration data reason).symm ▸ refl e
  | some record =>
    obtain ⟨session, recvs, -, outcome, calls, history, output', -⟩ :=
      queueOutputCommon_offered serverIteration record e.port data
    have kept := output found session recvs (List.cons_append ▸ history)
      fun effect mem => by
        rcases List.mem_cons.mp mem with rfl | mem
        · rfl
        · exact (output' effect mem).1
    cases taken : e.accepts serverIteration data with
    | true =>
      obtain ⟨same, found', result⟩ := Entry.offered_of_accepts taken reason
      obtain rfl : record = same := Option.some.inj (found.symm.trans found')
      exact result ▸ kept
    | false =>
      have result := Entry.offered_of_rejects taken found reason
      exact result ▸ kept.trans (closed other _)

theorem told {serverIteration : Nat} {line : Option Bytes} (h : Told serverIteration line e e') :
    Keeps e e' := by
  cases line with
  | none => exact (show e' = e from h) ▸ refl e
  | some data =>
    obtain ⟨reason, other, rfl⟩ := h
    exact offered other serverIteration data e

theorem flushed (serverIteration : Nat) (e : Entry) : Keeps e (e.flushed serverIteration) := by
  cases found : e.client with
  | none =>
    have same : e.flushed serverIteration = e := by simp [Entry.flushed, found]
    rw [same]
    exact refl e
  | some record =>
    obtain ⟨session, recvs, -, calls, history, silent⟩ :=
      flushOutputCommon_output serverIteration record e.port
    have kept := output found session recvs history fun effect mem => (silent effect mem).1
    simpa only [Entry.flushed, found] using kept

end Keeps

end Entry

namespace ChatServer

section Step

variable {s : ChatServer} (h : Inv s)

include h

theorem perform_keeps {a : Action} (enabled : a.enabled s) {c fd : Fd} (acts : a.actor = some c)
    (ne : fd ≠ c) : Entry.Keeps (s.entry fd) ((a.perform s).entry fd) := by
  rcases perform_entry h enabled acts ne with same | told
  · exact same ▸ .refl _
  · exact .told told

variable {fd : Fd} {client : ClientConnection} {raw remaining : Bytes}
  (found : s.clients fd = some client)
  (split : splitFrame client.inputBuffer = some (raw, remaining))
  (short : raw.length ≤ maxFrameBytes) (framesProcessed : Nat)

include found split short

theorem frame_input : ∃ e record, e.client = some record ∧ record.inputBuffer = remaining ∧
    record.clientState = .active ∧ e.port.recvs = (s.ports fd).recvs ∧
    (Ended e.port.history → Ended (s.ports fd).history) ∧
    Entry.Keeps e ((frameStep fd framesProcessed s).server.entry fd) := by
  rcases frameStep_cases found framesProcessed with
    ⟨unsplit, -⟩ | ⟨unsplit, -⟩ | ⟨raw', remaining', split', ⟨long, -⟩ | ⟨-, awaiting, -⟩ |
      ⟨-, active, -⟩⟩
  · simp [split] at unsplit
  · simp [split] at unsplit
  all_goals
    obtain ⟨rfl, rfl⟩ : raw' = raw ∧ remaining' = remaining := by simp_all
  · omega
  · obtain ⟨performs, -⟩ := frameStep_username h.rooms found split' short awaiting framesProcessed
    refine ⟨Entry.loggedIn client remaining' (stripCarriageReturn raw')
      (.username raw' (stripCarriageReturn raw')) (s.entry fd), _, rfl, rfl, rfl, rfl, ?_, ?_⟩
    · simp [Entry.loggedIn, Port.note, Ended]
    · rw [performs.entries, only_self]
      exact .told Entry.notified_told
  · have final := (frameStep_active found split' short active framesProcessed).1
    have kept := eraseFrame_rooms h.rooms found remaining' (.frame raw' (stripCarriageReturn raw'))
    have self := processFrame_self kept (taking_clients s fd client raw' remaining') active
      (stripCarriageReturn raw')
    have erased : (s.taking fd client raw' remaining').entry fd = Entry.erased client remaining'
        (.frame raw' (stripCarriageReturn raw')) (s.entry fd) := by
      rw [(eraseFrame_performs s fd client remaining' _).entries, only_self]
    rw [← final, erased] at self
    generalize taken : Entry.erased client remaining' (.frame raw' (stripCarriageReturn raw'))
      (s.entry fd) = e at self
    have base : ∃ e', (e' = e ∨ ∃ roomId, e' = e.moved roomId) ∧
        Entry.Keeps e' ((frameStep fd framesProcessed s).server.entry fd) := by
      split at self
      · exact ⟨e, .inl rfl, self ▸ .refl _⟩
      · exact ⟨e, .inl rfl, self ▸ .refl _⟩
      · exact ⟨e, .inl rfl, .told self⟩
      · split_ifs at self
        · exact ⟨e, .inl rfl, self ▸ .refl _⟩
        · obtain ⟨roomId, told⟩ := self
          exact ⟨e.moved roomId, .inr ⟨roomId, rfl⟩, .told told⟩
      · exact ⟨e, .inl rfl, self ▸ .closed (by decide) _⟩
    have before : Ended e.port.history → Ended (s.ports fd).history := by
      simp [← taken, Entry.erased, Port.note, Ended]
    obtain ⟨e', same | ⟨roomId, same⟩, kept⟩ := base
    all_goals rw [same] at kept
    · refine ⟨e, { client with inputBuffer := remaining' }, ?_, rfl, active, ?_, before, kept⟩
      · rw [← taken, Entry.erased]
      · rw [← taken]
        rfl
    · refine ⟨e.moved roomId, { client with inputBuffer := remaining', currRoom := roomId }, ?_, rfl,
        active, ?_, before, kept⟩
      · rw [← taken]
        rfl
      · rw [← taken]
        rfl

omit h short in
theorem username_next (awaiting : client.clientState = .awaitingUsername)
    (short : raw.length ≤ maxFrameBytes)
    (connected : (frameStep fd framesProcessed s).server.clients fd ≠ none) :
    frameStep fd framesProcessed s =
      .next framesProcessed (frameStep fd framesProcessed s).server := by
  rcases frameStep_cases found framesProcessed with
    ⟨unsplit, -⟩ | ⟨unsplit, -⟩ | ⟨raw', remaining', split', ⟨long, -⟩ | ⟨-, -, result⟩ |
      ⟨-, active, -⟩⟩
  · simp [split] at unsplit
  · simp [split] at unsplit
  · obtain ⟨rfl, rfl⟩ : raw' = raw ∧ remaining' = remaining := by simp_all
    omega
  · rw [result] at connected ⊢
    split_ifs at connected ⊢ with gone
    · exact (connected gone).elim
    · rfl
  · simp [awaiting] at active

/-- The loop goes on after a frame, unless the client is gone or its chat line
was refused by someone. -/
theorem frame_next (active : client.clientState = .active)
    (connected : (frameStep fd framesProcessed s).server.clients fd ≠ none) :
    frameStep fd framesProcessed s =
        .next (framesProcessed + 1) (frameStep fd framesProcessed s).server ∨
      ∃ words, s.request client (stripCarriageReturn raw) = .chat words ∧
        ∃ other, other ≠ fd ∧ s.occupancy other = some client.currRoom ∧
          (s.entry other).accepts s.serverIteration (chatLine client.username words) = false := by
  obtain ⟨final, goes⟩ := frameStep_active found split short active framesProcessed
  by_cases kept : ((s.taking fd client raw remaining).processFrame fd
      (stripCarriageReturn raw)).1 = true
  · exact .inl (goes.mpr ⟨kept, connected⟩)
  refine .inr ?_
  have rooms := eraseFrame_rooms h.rooms found remaining (.frame raw (stripCarriageReturn raw))
  have found' := taking_clients s fd client raw remaining
  have same : (s.taking fd client raw remaining).request
      { client with inputBuffer := remaining } (stripCarriageReturn raw) =
        s.request client (stripCarriageReturn raw) := rfl
  rw [final] at connected
  have result := processFrame_eq found' (roomName_of_ne_zero rooms active found')
    (stripCarriageReturn raw)
  rw [same] at result
  cases asked : s.request client (stripCarriageReturn raw) with
  | ignored => simp [asked, result] at kept
  | chat words =>
    refine ⟨words, rfl, ?_⟩
    obtain ⟨room, mem, -, round⟩ := frameStep_chat found active h.rooms remaining asked
    obtain ⟨served, rest, -, -, ⟨done, -⟩ | ⟨front, last, -, -, ne, home, refused, -⟩⟩ :=
      broadcastLoop_performs (chatLine client.username words) room.subscribedClients
        (h.rooms.unique room mem) found'
    · exact (kept (round ▸ done)).elim
    · rw [taking_occupancy found] at home
      rw [taking_entry s client raw remaining ne] at refused
      exact ⟨last, ne, home, refused⟩
  | reply line reason =>
    rw [result, asked] at kept connected
    have entry := (deliver_performs found' line reason).entries fd
    rw [only_self] at entry
    rw [← entry_client, entry, ← Option.isSome_iff_ne_none, Entry.offered_client] at connected
    rw [deliver_fst found'] at kept
    exact (kept connected).elim
  | move name => simp [asked, result] at kept
  | quit =>
    rw [result, asked] at connected
    have entry := (depart_performs rooms client.currRoom (quitLine client.username) fd
      "client requested QUIT").1.entries fd
    rw [if_pos rfl] at entry
    rw [← entry_client, entry] at connected
    exact (connected (Entry.closed_client _ _)).elim

end Step

end ChatServer

end Partyline
