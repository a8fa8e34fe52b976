import Partyline.Actions
import Partyline.Framing

/-! The invariant of the server between any two actions, and that every
reachable state satisfies it. -/
namespace Partyline

/-- `listening` says that the descriptor is the listener. -/
structure EntryOk (listening : Prop) (e : Entry) : Prop where
  output : ∀ record, e.client = some record → OutputOk record e.port
  framing : ∀ record, e.client = some record → Framing record e.port.history
  history : HistoryOk e.port.history
  registered : e.port.writeInterest.isSome = true ↔ listening ∨ e.client.isSome = true
  apart : listening → e.client = none

theorem OutputOk.noted {client : ClientConnection} {port : Port} (h : OutputOk client port)
    (username : Bytes) (currRoom : Nat) (inputBuffer : Bytes) (clientState : ClientState)
    {effect : Effect} (silent : effect.sentBytes = [] ∧ effect.offer = none ∧
      effect.interestCall = none) :
    OutputOk { client with username, currRoom, inputBuffer, clientState } (port.note effect) := by
  obtain ⟨sent, offer, call⟩ := silent
  refine ⟨⟨h.size, h.bounded, h.peak, h.unfinished, h.armed, h.registered, ?_, ?_, ?_, ?_⟩,
    h.disarmed⟩
  · simpa only [Port.note, sentBytes_cons, offeredBytes_cons, sent, offer, Option.toList_none,
      List.flatMap_nil, List.append_nil] using h.stream
  · simpa only [Port.note, offers_cons, offer, Option.toList_none, List.append_nil] using h.accepted
  · simpa only [Port.note, interestCalls_cons, call, Option.toList_none, List.append_nil]
      using h.calls
  · simpa only [Port.note, offers_cons, interestCalls_cons, offer, call, Option.toList_none,
      List.append_nil] using h.idle

theorem OutputOk.moved {client : ClientConnection} {port : Port} (h : OutputOk client port)
    (roomId : Nat) : OutputOk { client with currRoom := roomId } port :=
  ⟨⟨h.size, h.bounded, h.peak, h.unfinished, h.armed, h.registered, h.stream, h.accepted,
    h.calls, h.idle⟩, h.disarmed⟩

namespace EntryOk

variable {listening : Prop} {e : Entry} {record : ClientConnection}

theorem not_listening (h : EntryOk listening e) (found : e.client = some record) : ¬listening := by
  intro here
  simp [h.apart here] at found

theorem open_port (h : EntryOk listening e) (found : e.client = some record) :
    e.port.writeInterest.isSome = true :=
  h.registered.mpr (.inr (by simp [found]))

theorem connected (apart : ¬listening) {port : Port} (output : OutputOk record port)
    (framing : Framing record port.history) (history : HistoryOk port.history)
    (registered : port.writeInterest.isSome = true) : EntryOk listening ⟨some record, port⟩ where
  output := by
    rintro _ ⟨⟩
    exact output
  framing := by
    rintro _ ⟨⟩
    exact framing
  history := history
  registered := by simp [registered]
  apart here := (apart here).elim

theorem gone (apart : ¬listening) {port : Port} (history : HistoryOk port.history)
    (removed : port.writeInterest = none) : EntryOk listening ⟨none, port⟩ where
  output := by simp
  framing := by simp
  history := history
  registered := by simp [removed, apart]
  apart := fun _ => rfl

theorem closed (h : EntryOk listening e) {reason : String}
    (fair : reason = "input frame limit exceeded" → Overlong (receivedBytes e.port.history)) :
    EntryOk listening (e.closed reason) := by
  unfold Entry.closed
  split
  · exact h
  · rename_i record found
    exact gone (h.not_listening found) (h.history.closed fair) rfl

theorem offered (h : EntryOk listening e) (serverIteration : Nat) (data : Bytes)
    {reason : String} (other : reason ≠ "input frame limit exceeded") :
    EntryOk listening (e.offered serverIteration data reason) := by
  cases found : e.client with
  | none => rwa [Entry.offered_none found]
  | some record =>
    obtain ⟨session, -, registered, outcome, calls, history, output, -⟩ :=
      queueOutputCommon_offered serverIteration record e.port data
    have alternate := queueOutputCommon_calls (h.output record found) serverIteration data
    have effects : (queueOutputCommon serverIteration record e.port data).2.2.history =
        (.offered data outcome :: calls) ++ e.port.history := history
    have all_output : ∀ effect ∈ .offered data outcome :: calls, effect.isOutput = true := by
      intro effect mem
      rcases List.mem_cons.mp mem with rfl | mem
      · rfl
      · exact (output effect mem).1
    have historyOk : HistoryOk (queueOutputCommon serverIteration record e.port data).2.2.history := by
      rw [effects] at alternate ⊢
      refine h.history.extend _ (fun reason mem => by simpa using all_output _ mem) alternate ?_
      intro effect mem
      rcases List.mem_append.mp mem with new | old
      · rcases List.mem_cons.mp new with rfl | new
        · exact .inr (by simp)
        · exact .inr (output effect new).2.2
      · exact .inl old
    cases taken : e.accepts serverIteration data with
    | true =>
      obtain ⟨same, found', result⟩ := Entry.offered_of_accepts taken reason
      obtain rfl : record = same := Option.some.inj (found.symm.trans found')
      rw [result]
      simp only [Entry.accepts, found, ← queueOutputCommon_fst] at taken
      refine connected (h.not_listening found) (queueOutputCommon_ok (h.output record found) taken)
        ?_ historyOk (registered.trans (h.open_port found))
      rw [effects]
      exact (h.framing record found).output session all_output
    | false =>
      rw [Entry.offered_of_rejects taken found]
      exact gone (h.not_listening found) (historyOk.closed fun same => (other same).elim) rfl

theorem notified (h : EntryOk listening e) (serverIteration roomId : Nat) (excludedFd : Int)
    (message : Bytes) (fd : Fd) :
    EntryOk listening (e.notified serverIteration roomId excludedFd message fd) := by
  unfold Entry.notified
  split_ifs
  · exact h.offered serverIteration message (by decide)
  · exact h

theorem heard (h : EntryOk listening e) (serverIteration roomId : Nat) (sender : Fd)
    (output : Bytes) (fd : Fd) :
    EntryOk listening (e.heard serverIteration roomId sender output fd) := by
  unfold Entry.heard
  split_ifs
  · exact h.offered serverIteration output (by decide)
  · exact h

theorem moved (h : EntryOk listening e) (active : e.occupant ≠ none) (roomId : Nat) :
    EntryOk listening (e.moved roomId) := by
  obtain ⟨old, home⟩ := Option.ne_none_iff_exists'.mp active
  obtain ⟨record, found, active, -⟩ := Entry.occupant_some.mp home
  simp only [Entry.moved, found, Option.map_some]
  exact connected (h.not_listening found) ((h.output record found).moved roomId)
    ((h.framing record found).moved active roomId) h.history (h.open_port found)

theorem answered (h : EntryOk listening e) (results : Results) :
    EntryOk listening (e.answered results) where
  output record found :=
    have old := h.output record found
    ⟨⟨old.size, old.bounded, old.peak, old.unfinished, old.armed, old.registered, old.stream,
      old.accepted, old.calls, old.idle⟩, old.disarmed⟩
  framing := h.framing
  history := h.history
  registered := h.registered
  apart := h.apart

theorem opened (apart : ¬listening) (results : Results) :
    EntryOk listening (Entry.opened results) := by
  refine connected apart ⟨⟨rfl, by simp, le_rfl, by simp, by simp, rfl, rfl, by simp,
    ⟨0, rfl, rfl⟩, by simp⟩, by simp [Disarmed]⟩ ⟨rfl, by simp, rfl, rfl, rfl⟩ HistoryOk.nil rfl

theorem received (h : EntryOk listening e) (chunk : Bytes) :
    EntryOk listening (e.received chunk) := by
  unfold Entry.received
  split
  · exact h
  · rename_i record found
    have kept : EntryOk listening ⟨some { record with
        inputBuffer := record.inputBuffer ++ chunk }, e.port.note (.received chunk)⟩ := by
      refine connected (h.not_listening found)
        ((h.output record found).noted record.username record.currRoom _ record.clientState (by simp))
        ((h.framing record found).received chunk) ?_ (h.open_port found)
      exact h.history.note _ (by simp) rfl (by simp)
    dsimp only
    split_ifs
    · exact kept.closed fun same => absurd same (by decide)
    · exact kept

theorem flushed (h : EntryOk listening e) (serverIteration : Nat)
    (done : e.flushes serverIteration = true) : EntryOk listening (e.flushed serverIteration) := by
  unfold Entry.flushed
  split
  · exact h
  · rename_i record found
    simp only [Entry.flushes, found] at done
    obtain ⟨session, -, registered, calls, history, output⟩ :=
      flushOutputCommon_output serverIteration record e.port
    have alternate := flushOutputCommon_calls (h.output record found) serverIteration
    have asked := flushOutputCommon_asked (h.output record found) serverIteration
    refine connected (h.not_listening found) (flushOutputCommon_ok (h.output record found) done)
      ?_ ?_ (registered.trans (h.open_port found))
    · rw [history]
      exact (h.framing record found).output session fun effect mem => (output effect mem).1
    · rw [history] at alternate asked ⊢
      exact h.history.extend calls (fun reason mem => by simpa using (output _ mem).1) alternate asked

/-- A flush that failed may leave the accounts open, but the connection is closed. -/
theorem flushed_closed (h : EntryOk listening e) (serverIteration : Nat) {reason : String}
    (other : reason ≠ "input frame limit exceeded") :
    EntryOk listening ((e.flushed serverIteration).closed reason) := by
  unfold Entry.flushed
  split
  · exact h.closed fun same => (other same).elim
  · rename_i record found
    obtain ⟨-, -, -, calls, history, output⟩ :=
      flushOutputCommon_output serverIteration record e.port
    have alternate := flushOutputCommon_calls (h.output record found) serverIteration
    have asked := flushOutputCommon_asked (h.output record found) serverIteration
    refine gone (h.not_listening found) (HistoryOk.closed ?_ fun same => (other same).elim) rfl
    rw [history] at alternate asked ⊢
    exact h.history.extend calls (fun reason mem => by simpa using (output _ mem).1) alternate asked

variable {raw remaining : Bytes} (h : EntryOk listening e) (found : e.client = some record)
  (split : splitFrame record.inputBuffer = some (raw, remaining))
  (short : raw.length ≤ maxFrameBytes)

include h found split short

theorem frame (active : record.clientState = .active) : EntryOk listening
    (e.erased record remaining (.frame raw (stripCarriageReturn raw))) := by
  refine connected (h.not_listening found)
    ((h.output record found).noted record.username record.currRoom _ record.clientState (by simp))
    ((h.framing record found).frame split short active) ?_ (h.open_port found)
  exact h.history.note _ (by simp) rfl (by simp)

theorem loggedIn (awaiting : record.clientState = .awaitingUsername) : EntryOk listening
    (e.loggedIn record remaining (stripCarriageReturn raw)
      (.username raw (stripCarriageReturn raw))) := by
  refine connected (h.not_listening found) ((h.output record found).noted _ 0 _ .active (by simp))
    ((h.framing record found).username split short awaiting 0) ?_ (h.open_port found)
  exact h.history.note _ (by simp) rfl (by simp)

end EntryOk

namespace ChatServer

structure Inv (s : ChatServer) : Prop where
  intact : s.dangling = false
  rooms : s.RoomsOk ∅
  entries : ∀ fd, EntryOk (fd = s.listener) (s.entry fd)

theorem Inv.of_performs {s t : ChatServer} {change : Fd → Entry → Entry} (h : Inv s)
    (performs : Performs s t change) (rooms : t.RoomsOk ∅)
    (each : ∀ fd, EntryOk (fd = s.listener) (change fd (s.entry fd))) : Inv t where
  intact := performs.dangling.trans h.intact
  rooms := rooms
  entries fd := by
    rw [performs.entries, performs.listener]
    exact each fd

theorem Inv.only {s : ChatServer} {change : Entry → Entry} (h : Inv s) {fd : Fd}
    (each : EntryOk (fd = s.listener) (change (s.entry fd))) (other : Fd) :
    EntryOk (other = s.listener) (only fd change other (s.entry other)) := by
  by_cases same : other = fd
  · subst same
    simpa using each
  · simpa [same] using h.entries other

variable {s : ChatServer} (h : Inv s) {fd : Fd} {client : ClientConnection}

theorem initial_inv (listener : Fd) : Inv (initial listener) := by
  have nobody : (initial listener).occupancy = fun _ => none := rfl
  refine ⟨rfl, ?_, fun fd => ⟨by simp [entry, initial], by simp [entry, initial], HistoryOk.nil, ?_,
    fun _ => rfl⟩⟩
  · rw [RoomsOk, nobody]
    refine ⟨by simp [initial], by simp [initial], ⟨_, List.mem_singleton.mpr rfl, rfl, rfl⟩, ?_, ?_,
      by simp, ?_⟩
    all_goals
      intro room mem
      obtain rfl := List.mem_singleton.mp mem
      simp
  · by_cases here : fd = listener <;> simp [entry, initial, here]

include h

theorem Inv.disconnect {reason : String} (fair : reason = "input frame limit exceeded" →
      Overlong (receivedBytes (s.ports fd).history)) : Inv (s.disconnect fd reason) :=
  h.of_performs (disconnect_performs s fd reason) (disconnect_rooms h.rooms fd reason)
    (h.only ((h.entries fd).closed fair))

theorem Inv.depart (roomId : Nat) (message : Bytes) {reason : String}
    (other : reason ≠ "input frame limit exceeded") :
    Inv ((s.notifyRoom roomId fd message).disconnect fd reason) := by
  obtain ⟨performs, rooms⟩ := depart_performs h.rooms roomId message fd reason
  refine h.of_performs performs rooms fun target => ?_
  split_ifs
  · exact (h.entries target).closed fun same => (other same).elim
  · exact (h.entries target).notified _ _ _ _ _

theorem Inv.peerGone (connected : s.clients fd ≠ none) {reason : String}
    (other : reason ≠ "input frame limit exceeded") : Inv (s.peerGone fd reason) := by
  obtain ⟨client, found⟩ := Option.ne_none_iff_exists'.mp connected
  simp only [ChatServer.peerGone, found]
  exact h.depart client.currRoom (disconnectedLine client.username) other

theorem Inv.deliver (found : s.clients fd = some client) (data : Bytes) {reason : String}
    (other : reason ≠ "input frame limit exceeded") : Inv (s.deliver fd data reason).2 :=
  h.of_performs (deliver_performs found data reason) (deliver_rooms h.rooms found data reason)
    (h.only ((h.entries fd).offered _ data other))

theorem Inv.broadcast (found : s.clients fd = some client) (active : client.clientState = .active)
    (words : List Bytes) : Inv (s.broadcast fd words).2 := by
  obtain ⟨room, mem, -, same⟩ := broadcast_eq h.rooms found active words
  rw [same]
  obtain ⟨served, -, -, performs, -⟩ := broadcastLoop_performs (chatLine client.username words)
    room.subscribedClients (h.rooms.unique room mem) found
  refine h.of_performs performs (broadcastLoop_rooms _ _ h.rooms found) fun target => ?_
  split_ifs
  · exact (h.entries target).heard _ _ _ _ _
  · exact h.entries target

theorem Inv.moveTo (found : s.clients fd = some client) (active : client.clientState = .active)
    (name : Bytes) : Inv (s.moveTo fd client name) := by
  by_cases same : Rooms.roomName s.rooms client.currRoom = name
  · obtain ⟨performs, rooms, -⟩ := moveTo_same h.rooms found active same
    exact h.of_performs performs rooms h.entries
  · obtain ⟨roomId, -, -, performs, rooms, -⟩ := moveTo_other h.rooms found active same
    refine h.of_performs performs rooms fun target => EntryOk.notified ?_ _ _ _ _ _
    by_cases here : target = fd
    · subst here
      have home : (s.entry target).occupant ≠ none := by
        simp [Entry.occupant, found, active]
      simpa [Entry.notified] using (h.entries target).moved home roomId
    · simpa [here] using (h.entries target).notified _ _ _ _ _

theorem Inv.processFrame (found : s.clients fd = some client)
    (active : client.clientState = .active) (frame : Bytes) : Inv (s.processFrame fd frame).2 := by
  rw [processFrame_eq found (roomName_of_ne_zero h.rooms active found) frame]
  split
  · exact h
  · exact h.broadcast found active _
  · rename_i line reason asked
    refine h.deliver found line ?_
    simp only [request] at asked
    grind
  · exact h.moveTo found active _
  · exact h.depart _ _ (by decide)

theorem Inv.frameStep (found : s.clients fd = some client) (framesProcessed : Nat) :
    Inv (frameStep fd framesProcessed s).server := by
  have framing := (h.entries fd).framing client found
  rcases frameStep_cases found framesProcessed with
    ⟨unsplit, long, result⟩ | ⟨-, -, result⟩ | ⟨raw, remaining, split, ⟨long, result⟩ |
      ⟨short, awaiting, -⟩ | ⟨short, active, result⟩⟩
  · rw [result]
    exact h.disconnect fun _ => framing.overlong (List.prefix_refl _) (splitFrame_none.mp unsplit) long
  · rw [result]
    exact h
  · obtain ⟨buffer, clean⟩ := splitFrame_some split
    rw [result]
    exact h.disconnect fun _ => framing.overlong ⟨_, buffer.symm⟩ clean long
  · obtain ⟨performs, rooms, -⟩ :=
      frameStep_username h.rooms found split short awaiting framesProcessed
    exact h.of_performs performs rooms fun target => EntryOk.notified (h.only
      ((h.entries fd).loggedIn found split short awaiting) target) _ _ _ _ _
  · have kept : Inv (s.eraseFrame fd client remaining (.frame raw (stripCarriageReturn raw))) :=
      h.of_performs (eraseFrame_performs s fd client remaining _)
        (eraseFrame_rooms h.rooms found remaining _)
        (h.only ((h.entries fd).frame found split short active))
    have found' : (s.eraseFrame fd client remaining (.frame raw (stripCarriageReturn raw))).clients
        fd = some { client with inputBuffer := remaining } := Function.update_self _ _ _
    have done := kept.processFrame found' active (stripCarriageReturn raw)
    rw [result]
    split_ifs <;> exact done

theorem Inv.perform {a : Action} (enabled : a.enabled s) : Inv (a.perform s) := by
  cases a with
  | iteration => exact ⟨h.intact, h.rooms, h.entries⟩
  | load results =>
    exact h.of_performs (load_performs s results) (h.rooms.still rfl fun _ => rfl)
      fun fd => (h.entries fd).answered _
  | accept fd results =>
    have apart : fd ≠ s.listener := by
      have closed : s.isOpen fd = false := enabled
      simp only [isOpen, Bool.or_eq_false_iff, beq_eq_false_iff_ne] at closed
      exact closed.1
    exact h.of_performs (acceptClient_performs enabled results)
      (acceptClient_rooms enabled results h.rooms)
      (h.only ((EntryOk.opened apart results).offered _ _ (by decide)))
  | answered fd recvs =>
    exact h.of_performs (setRecvs_performs s fd recvs)
      (h.rooms.still rfl (setRecvs_occupancy s fd recvs)) (h.only ((h.entries fd).answered _))
  | receive fd chunk =>
    obtain ⟨client, found⟩ := Option.ne_none_iff_exists'.mp enabled
    exact h.of_performs (receive_performs found chunk) (receive_rooms h.rooms found chunk)
      (h.only ((h.entries fd).received chunk))
  | frame fd framesProcessed =>
    obtain ⟨client, found⟩ := Option.ne_none_iff_exists'.mp enabled
    exact h.frameStep found framesProcessed
  | peerClosed fd => exact h.peerGone enabled (by decide)
  | recvFailed fd => exact h.peerGone enabled (by decide)
  | write fd =>
    obtain ⟨client, found⟩ := Option.ne_none_iff_exists'.mp enabled
    obtain ⟨performs, rooms⟩ := handleWrite_performs h.rooms found
    refine h.of_performs performs rooms fun target => ?_
    split_ifs with done same
    · exact h.only ((h.entries fd).flushed _ done) target
    · exact (h.entries target).flushed_closed _ (by decide)
    · exact (h.entries target).notified _ _ _ _ _

omit h

theorem reachable_inv {s : ChatServer} (h : Reachable s) : Inv s := by
  refine h.invariant (fun s initial => ?_) fun s a ih enabled => ih.perform enabled
  obtain ⟨listener, rfl⟩ := initial
  exact initial_inv listener

end ChatServer
end Partyline
