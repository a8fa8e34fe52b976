import Partyline.Names
import Partyline.Tokens

/-! What clients choose and others read: usernames, the names of rooms and the
words of chat lines. None of it holds a newline, so a line that is passed on is
still one line. -/
namespace Partyline

/-- One newline, at the end. -/
def OneLine (message : Bytes) : Prop :=
  message.count newline = 1 ∧ message.getLast? = some newline

/-- What can be the name of a room. -/
def RoomNameOk (name : Bytes) : Prop := newline ∉ name ∧ space ∉ name

theorem oneLine_append {text : Bytes} (clean : newline ∉ text) : OneLine (text ++ [newline]) := by
  refine ⟨?_, by simp⟩
  rw [List.count_append, List.count_eq_zero_of_not_mem clean]
  simp

section Lines

variable {username name : Bytes} (clean : newline ∉ username)

include clean

theorem oneLine_leftLine (clean' : newline ∉ name) : OneLine (leftLine username name) := by
  have head : newline ∉ ascii "> server: " := by decide
  have middle : newline ∉ ascii " left room " := by decide
  exact oneLine_append (by simp [head, middle, clean, clean'])

theorem oneLine_joinedLine (clean' : newline ∉ name) : OneLine (joinedLine username name) := by
  have head : newline ∉ ascii "> server: " := by decide
  have middle : newline ∉ ascii " joined room " := by decide
  exact oneLine_append (by simp [head, middle, clean, clean'])

theorem oneLine_quitLine : OneLine (quitLine username) := by
  have head : newline ∉ ascii "> server: " := by decide
  have tail : newline ∉ ascii " has disconnected" := by decide
  exact oneLine_append (by simp [head, tail, clean])

theorem oneLine_disconnectedLine : OneLine (disconnectedLine username) := by
  have head : newline ∉ ascii "> server: " := by decide
  have tail : newline ∉ ascii " disconnected" := by decide
  exact oneLine_append (by simp [head, tail, clean])

theorem oneLine_chatLine {words : List Bytes} (spoken : ∀ word ∈ words, newline ∉ word) :
    OneLine (chatLine username words) := by
  have head : newline ∉ ascii "> " := by decide
  have colon : newline ∉ ascii ": " := by decide
  have blank : newline ≠ space := by decide
  refine oneLine_append ?_
  simp only [List.mem_append, head, clean, colon, or_self, false_or, List.mem_flatMap,
    List.mem_singleton, blank, or_false, not_exists, not_and]
  exact spoken

omit clean in
theorem oneLine_whereReply (clean : newline ∉ name) : OneLine (whereReply name) := by
  have missing : newline ∉ ascii "> server: room not found" := by decide
  have head : newline ∉ ascii "> server: you are in room " := by decide
  unfold whereReply
  split_ifs
  · exact oneLine_append missing
  · exact oneLine_append (by simp [head, clean])

end Lines

theorem newline_not_mem_strip {raw : Bytes} (clean : newline ∉ raw) :
    newline ∉ stripCarriageReturn raw := by
  unfold stripCarriageReturn
  split_ifs
  · exact fun mem => clean ((List.dropLast_sublist raw).subset mem)
  · exact clean

theorem digit_of_mem {n : Nat} {ch : UInt8} (mem : ch ∈ ascii (toString n)) :
    48 ≤ ch.toNat ∧ ch.toNat ≤ 57 := by
  obtain ⟨digit, there, rfl⟩ := List.mem_map.mp mem
  have decimal : digit.isDigit = true :=
    Nat.isDigit_of_mem_toDigits (b := 10) (by decide) (by decide) (by simpa [toString] using there)
  have bounds : 48 ≤ digit.toNat ∧ digit.toNat ≤ 57 := by
    simpa [Char.isDigit, UInt32.le_iff_toNat_le] using decimal
  rw [UInt8.toNat_ofNat']
  omega

theorem newline_not_mem_digits (n : Nat) : newline ∉ ascii (toString n) := by
  intro mem
  have bounds := digit_of_mem mem
  have ten : newline.toNat = 10 := rfl
  omega

theorem listReply_newlines {rooms : List ChatRoom}
    (names : ∀ room ∈ rooms, RoomNameOk room.roomName) :
    (listReply rooms).count newline = rooms.length + 4 := by
  have rows : (rooms.flatMap fun room => ascii "| " ++ ascii (toString room.roomIdx) ++
      ascii "\t| " ++ room.roomName ++ [newline]).count newline = rooms.length := by
    induction rooms with
    | nil => rfl
    | cons room rest ih =>
      have clean := (names room List.mem_cons_self).1
      have row : (ascii "| " ++ ascii (toString room.roomIdx) ++ ascii "\t| " ++ room.roomName ++
          [newline]).count newline = 1 := by
        refine (oneLine_append ?_).1
        have digits := newline_not_mem_digits room.roomIdx
        have bar : newline ∉ ascii "| " := by decide
        have tab : newline ∉ ascii "\t| " := by decide
        simp only [List.mem_append, bar, digits, tab, clean, or_self, not_false_eq_true]
      rw [List.flatMap_cons, List.count_append, row, ih fun other mem => names other
        (List.mem_cons_of_mem _ mem), List.length_cons]
      omega
  have rule : (ascii "+------+----------------+").count newline = 0 := by decide
  have head : (ascii "| ID   | Room           |").count newline = 0 := by decide
  have last : ([newline] : Bytes).count newline = 1 := rfl
  simp only [listReply, List.count_append, rows, rule, head, last]
  omega

namespace Entry

theorem closed_offers (e : Entry) (reason : String) :
    offers (e.closed reason).port.history = offers e.port.history := by
  unfold closed
  split <;> simp

theorem received_offers (e : Entry) (chunk : Bytes) :
    offers (e.received chunk).port.history = offers e.port.history := by
  unfold received
  split
  · rfl
  · dsimp only
    split_ifs
    · rw [closed_offers]
      simp [Port.note]
    · simp [Port.note]

theorem flushed_offers (e : Entry) (serverIteration : Nat) :
    offers (e.flushed serverIteration).port.history = offers e.port.history := by
  cases found : e.client with
  | none => simp [flushed, found]
  | some record =>
    obtain ⟨-, -, -, calls, history, silent⟩ :=
      flushOutputCommon_output serverIteration record e.port
    simp only [flushed, found, history]
    exact offers_of_silent _ fun effect mem => (silent effect mem).2

end Entry

namespace ChatServer

variable {s : ChatServer}

def handled (s : ChatServer) : Action → Option (ClientConnection × Request)
  | .frame c _ => (s.clients c).bind fun client =>
      (splitFrame client.inputBuffer).bind fun frame =>
        if frame.1.length ≤ maxFrameBytes ∧ client.clientState = .active then
          some (client, s.request client (stripCarriageReturn frame.1))
        else none
  | _ => none

/-- What a step offers to a descriptor in answer to that descriptor itself. -/
def ownReply (s : ChatServer) (a : Action) (fd : Fd) : Option Bytes :=
  if a.actor ≠ some fd then none
  else match a, s.handled a with
    | .accept _ _, _ => some prompt
    | _, some (_, .reply line _) => some line
    | _, _ => none

def offersBefore (s : ChatServer) (a : Action) (fd : Fd) : List (Bytes × Offer) :=
  match a with
  | .accept c _ => if fd = c then [] else offers (s.ports fd).history
  | _ => offers (s.ports fd).history

/-- The step takes a frame of that descriptor, and the frame is a LIST. -/
def AsksList (s : ChatServer) (a : Action) (fd : Fd) : Prop :=
  ∃ framesProcessed client raw remaining, a = .frame fd framesProcessed ∧
    s.clients fd = some client ∧ splitFrame client.inputBuffer = some (raw, remaining) ∧
    raw.length ≤ maxFrameBytes ∧ client.clientState = .active ∧
    (tokens (stripCarriageReturn raw)).headD [] = ascii "LIST"

/-- Usernames and room names hold no newline, and a step offers everybody at most
one message: the answer to its own request, or one line. -/
structure Uninjected (s : ChatServer) : Prop where
  usernames : ∀ fd client, s.clients fd = some client → newline ∉ client.username
  roomNames : ∀ room ∈ s.rooms, RoomNameOk room.roomName
  messages : ∀ a, Action.enabled a s → ∀ fd, ∃ new,
    offers ((a.perform s).ports fd).history = s.offersBefore a fd ++ new ∧ new.length ≤ 1 ∧
      (∀ offer ∈ new, match s.ownReply a fd with
        | some reply => offer.1 = reply
        | none => OneLine offer.1) ∧
      ∀ client words, s.handled a = some (client, .chat words) → ∀ offer ∈ new,
        ascii "> " ++ client.username ++ ascii ": " <+: offer.1
  replies : ∀ a, Action.enabled a s → ∀ fd reply, s.ownReply a fd = some reply →
    reply = prompt ∨ OneLine reply ∨
      reply = listReply s.rooms ∧ reply.count newline = s.rooms.length + 4
  listings : ∀ a fd, s.AsksList a fd → ∃ reply, s.ownReply a fd = some reply ∧
    reply.count newline = s.rooms.length + 4

theorem username_clean (h : Inv s) {fd : Fd} {client : ClientConnection}
    (found : s.clients fd = some client) : newline ∉ client.username :=
  username_of (P := (newline ∉ ·)) List.not_mem_nil (fun _ clean _ => newline_not_mem_strip clean)
    h found

theorem mainRoomName_ok : RoomNameOk mainRoomName := ⟨by decide, by decide⟩

theorem word_ok {frame : Bytes} (clean : newline ∉ frame) :
    ∀ word ∈ tokens frame, RoomNameOk word :=
  fun _ mem => ⟨fun bad => clean ((mem_tokens mem).2 bad), (mem_tokens mem).1⟩

theorem reachable_roomNames (h : Reachable s) : ∀ room ∈ s.rooms, RoomNameOk room.roomName :=
  reachable_roomNames_of mainRoomName_ok (fun _ clean _ => word_ok (newline_not_mem_strip clean)) h

section Lines

variable (h : Inv s) {a : Action} (enabled : a.enabled s) {fd : Fd}

/-- The step offers the descriptor nothing, or the line that there is for it. -/
def Tells (s : ChatServer) (a : Action) (fd : Fd) : Prop :=
  ∃ new, offers ((a.perform s).ports fd).history = offers (s.ports fd).history ++ new ∧
    new.length ≤ 1 ∧ ∀ offer ∈ new, s.lineFor a fd = some offer.1

theorem tells_nothing
    (same : offers ((a.perform s).entry fd).port.history = offers (s.entry fd).port.history) :
    s.Tells a fd :=
  ⟨[], by simpa using same, by simp, by simp⟩

theorem tells_line (base : Entry)
    (same : offers base.port.history = offers (s.entry fd).port.history)
    (told : Entry.Told s.serverIteration (s.lineFor a fd) base ((a.perform s).entry fd)) :
    s.Tells a fd := by
  obtain ⟨new, history, short, lines⟩ := told.lines
  rw [same] at history
  exact ⟨new, history, short, lines⟩

include h

theorem chat_tells (spoken : s.chats a) : s.Tells a fd := by
  cases a with
  | iteration | load results | answered c recvs | accept c results | receive c chunk | peerClosed c
  | recvFailed c | write c => exact spoken.elim
  | frame c framesProcessed =>
    obtain ⟨client, raw, remaining, words, found, active, split, short, asked⟩ := spoken
    obtain ⟨room, mem, -, result⟩ := frameStep_chat found active h.rooms remaining asked
    have final : Action.perform (.frame c framesProcessed) s = _ :=
      (frameStep_active found split short active framesProcessed).1
    have taken : offers ((s.taking c client raw remaining).entry fd).port.history =
        offers (s.entry fd).port.history := by
      rw [(eraseFrame_performs s c client remaining _).entries, only]
      split_ifs <;> simp [Entry.erased, Port.note]
    rcases broadcastLoop_entry (taking_clients s c client raw remaining)
      (chatLine client.username words) (h.rooms.unique _ mem) fd with same | ⟨ne, there, told⟩
    · refine tells_nothing ?_
      rw [final, result, same, taken]
    · obtain ⟨new, history, short', lines⟩ := told.lines
      rw [taken, ← result, ← final] at history
      refine ⟨new, history, short', fun offer mem => ?_⟩
      rw [← lines offer mem, lineFor_active found split short active, asked, lineTo, if_pos]
      rw [taking_occupancy found] at there
      exact ⟨ne, there⟩

theorem frame_tells {client : ClientConnection} (found : s.clients fd = some client)
    (framesProcessed : Nat) (spoken : ¬ s.chats (.frame fd framesProcessed)) :
    s.Tells (.frame fd framesProcessed) fd := by
  have unfolded : Action.perform (.frame fd framesProcessed) s =
    (frameStep fd framesProcessed s).server := rfl
  have cut (result : frameStep fd framesProcessed s =
      .returned (s.disconnect fd "input frame limit exceeded")) :
      s.Tells (.frame fd framesProcessed) fd := by
    refine tells_nothing ?_
    rw [unfolded, result, FrameStep.server, (disconnect_performs s fd _).entries, only_self,
      Entry.closed_offers]
  rcases frameStep_cases found framesProcessed with
    ⟨-, -, result⟩ | ⟨-, -, result⟩ | ⟨raw, remaining, split, ⟨-, result⟩ |
      ⟨short, awaiting, -⟩ | ⟨short, active, -⟩⟩
  · exact cut result
  · refine tells_nothing ?_
    rw [unfolded, result]
    rfl
  · exact cut result
  · obtain ⟨performs, -⟩ := frameStep_username h.rooms found split short awaiting framesProcessed
    have listed : (fd : Int) ≠ -1 := by omega
    have told : Entry.Told s.serverIteration _ _ (Entry.notified s.serverIteration 0 (-1)
      (joinedLine (stripCarriageReturn raw) mainRoomName) fd (Entry.loggedIn client remaining
        (stripCarriageReturn raw) (.username raw (stripCarriageReturn raw)) (s.entry fd))) :=
          Entry.notified_told
    refine tells_line (Entry.loggedIn client remaining (stripCarriageReturn raw)
      (.username raw (stripCarriageReturn raw)) (s.entry fd)) ?_ ?_
    · simp [Entry.loggedIn, Port.note]
    · rw [unfolded, performs.entries, only_self]
      simpa only [lineFor, found, Option.bind_some, frameLine, split, Nat.not_lt.mpr short,
        if_false, awaiting, true_or, if_true, listed, ne_eq, not_false_eq_true, true_and,
        Entry.occupant, Entry.loggedIn] using told
  · have kept := eraseFrame_rooms h.rooms found remaining (.frame raw (stripCarriageReturn raw))
    have self := processFrame_self kept (taking_clients s fd client raw remaining) active
      (stripCarriageReturn raw)
    rw [← (frameStep_active found split short active framesProcessed).1, ← unfolded] at self
    have rename : (s.taking fd client raw remaining).request
        { client with inputBuffer := remaining } (stripCarriageReturn raw) =
          s.request client (stripCarriageReturn raw) := rfl
    have erased : offers ((s.taking fd client raw remaining).entry fd).port.history =
        offers (s.entry fd).port.history := by
      rw [(eraseFrame_performs s fd client remaining _).entries, only_self]
      simp [Entry.erased, Port.note]
    have line := lineFor_active found split short active framesProcessed fd
    rw [rename] at self
    cases asked : s.request client (stripCarriageReturn raw) with
    | ignored =>
      rw [asked] at self
      exact tells_nothing ((congrArg (fun e => offers e.port.history) self).trans erased)
    | chat words =>
      exact (spoken ⟨client, raw, remaining, words, found, active, split, short, asked⟩).elim
    | reply text reason =>
      rw [asked] at self
      rw [asked, lineTo, if_pos rfl] at line
      exact tells_line _ erased (line ▸ self)
    | move name =>
      rw [asked] at self
      simp only [asked, lineTo, if_true] at line
      change if Rooms.roomName s.rooms client.currRoom = name then _ else _ at self
      split_ifs at self with same
      · exact tells_nothing ((congrArg (fun e => offers e.port.history) self).trans erased)
      · obtain ⟨roomId, told⟩ := self
        rw [if_neg same] at line
        refine tells_line (((s.taking fd client raw remaining).entry fd).moved roomId)
          erased (line ▸ told)
    | quit =>
      rw [asked] at self
      refine tells_nothing ((congrArg (fun e => offers e.port.history) self).trans ?_)
      rw [Entry.closed_offers, erased]

include enabled

theorem actor_tells (spoken : ¬ s.chats a) (acts : a.actor = some fd)
    (old : ∀ results, a ≠ .accept fd results) : s.Tells a fd := by
  cases a with
  | iteration | load results | answered c recvs => simp [Action.actor] at acts
  | accept c results =>
    obtain rfl := Option.some.inj acts
    exact (old results rfl).elim
  | receive c chunk =>
    obtain rfl := Option.some.inj acts
    obtain ⟨client, found⟩ := Option.ne_none_iff_exists'.mp enabled
    refine tells_nothing ?_
    have same := (receive_performs found chunk).entries c
    rw [only_self] at same
    exact (congrArg (fun e => offers e.port.history) same).trans (Entry.received_offers _ _)
  | peerClosed c | recvFailed c =>
    obtain rfl := Option.some.inj acts
    obtain ⟨client, found⟩ := Option.ne_none_iff_exists'.mp enabled
    have same (reason : String) : (s.peerGone c reason).entry c = (s.entry c).closed reason :=
      ((peerGone_performs h.rooms found reason).1.entries c).trans (if_pos rfl)
    refine tells_nothing ?_
    exact (congrArg (fun e => offers e.port.history) (same _)).trans (Entry.closed_offers _ _)
  | write c =>
    obtain rfl := Option.some.inj acts
    obtain ⟨client, found⟩ := Option.ne_none_iff_exists'.mp enabled
    refine tells_nothing ?_
    have same := (handleWrite_performs h.rooms found).1.entries c
    rw [only_self, if_pos rfl] at same
    refine (congrArg (fun e => offers e.port.history) same).trans ?_
    split_ifs
    · exact Entry.flushed_offers _ _
    · rw [Entry.closed_offers, Entry.flushed_offers]
  | frame c framesProcessed =>
    obtain rfl := Option.some.inj acts
    obtain ⟨client, found⟩ := Option.ne_none_iff_exists'.mp enabled
    exact frame_tells h found framesProcessed spoken

theorem perform_tells (old : ∀ results, a ≠ .accept fd results) : s.Tells a fd := by
  by_cases spoken : s.chats a
  · exact chat_tells h spoken
  cases acts : a.actor with
  | none =>
    refine tells_nothing ?_
    cases a with
    | iteration | load results => rfl
    | answered c recvs =>
      change offers ((s.setRecvs c recvs).entry fd).port.history = _
      rw [(setRecvs_performs s c recvs).entries, only]
      split_ifs <;> rfl
    | accept c results | receive c chunk | frame c framesProcessed | peerClosed c
    | recvFailed c | write c => simp [Action.actor] at acts
  | some c =>
    by_cases same : fd = c
    · exact actor_tells h enabled spoken (same ▸ acts) old
    · exact (perform_told h enabled spoken acts same).lines

end Lines

theorem handled_some {a : Action} {client : ClientConnection} {asked : Request}
    (handles : s.handled a = some (client, asked)) :
    ∃ c framesProcessed raw remaining, a = .frame c framesProcessed ∧
      s.clients c = some client ∧ splitFrame client.inputBuffer = some (raw, remaining) ∧
      raw.length ≤ maxFrameBytes ∧ client.clientState = .active ∧
      s.request client (stripCarriageReturn raw) = asked := by
  cases a with
  | iteration | load results | accept c results | answered c recvs | receive c chunk
  | peerClosed c | recvFailed c | write c => simp [handled] at handles
  | frame c framesProcessed =>
    obtain ⟨record, found, taken⟩ := Option.bind_eq_some_iff.mp handles
    obtain ⟨⟨raw, remaining⟩, split, served⟩ := Option.bind_eq_some_iff.mp taken
    obtain ⟨⟨short, active⟩, same⟩ := Option.ite_none_right_eq_some.mp served
    obtain ⟨rfl, rfl⟩ := Prod.mk.inj (Option.some.inj same)
    exact ⟨c, framesProcessed, raw, remaining, rfl, found, split, short, active, rfl⟩

section Messages

variable (h : Inv s) (names : ∀ room ∈ s.rooms, RoomNameOk room.roomName) {a : Action} {fd : Fd}

omit h in
include names in
theorem roomName_clean (roomId : Nat) : newline ∉ Rooms.roomName s.rooms roomId := by
  unfold Rooms.roomName
  cases found : Rooms.findById s.rooms roomId with
  | none => simp
  | some room => exact (names room (List.mem_of_find?_eq_some found)).1

omit names in
include h in
theorem goneLine_oneLine {c : Fd} {line : Bytes}
    (told : ((s.clients c).bind fun client => s.goneLine c client fd) = some line) :
    OneLine line := by
  obtain ⟨client, found, told⟩ := Option.bind_eq_some_iff.mp told
  obtain ⟨-, same⟩ := Option.ite_none_right_eq_some.mp told
  rw [← Option.some.inj same]
  exact oneLine_disconnectedLine (username_clean h found)

include h names

theorem lineFor_message {line : Bytes} (offered : s.lineFor a fd = some line) :
    s.ownReply a fd = some line ∨ s.ownReply a fd = none ∧ OneLine line := by
  cases a with
  | iteration | load results | accept c results | answered c recvs | receive c chunk =>
    simp [lineFor] at offered
  | peerClosed c | recvFailed c =>
    exact .inr ⟨by simp [ownReply, handled], goneLine_oneLine h offered⟩
  | write c =>
    simp only [lineFor] at offered
    split_ifs at offered
    exact .inr ⟨by simp [ownReply, handled], goneLine_oneLine h offered⟩
  | frame c framesProcessed =>
    obtain ⟨client, found, told⟩ := Option.bind_eq_some_iff.mp offered
    have username := username_clean h found
    unfold frameLine at told
    cases split : splitFrame client.inputBuffer with
    | none => simp [split] at told
    | some frame =>
      obtain ⟨raw, remaining⟩ := frame
      have clean := newline_not_mem_strip (splitFrame_some split).2
      have short : raw.length ≤ maxFrameBytes := by
        by_contra long
        simp [split, Nat.lt_of_not_le long] at told
      simp only [split, Nat.not_lt.mpr short, if_false] at told
      cases state : client.clientState with
      | awaitingUsername =>
        have unhandled : s.handled (.frame c framesProcessed) = none := by
          simp [handled, found, split, state]
        simp only [state] at told
        split_ifs at told
        refine .inr ⟨by simp [ownReply, unhandled], ?_⟩
        rw [← Option.some.inj told]
        exact oneLine_joinedLine clean (by decide)
      | active =>
        have handles : s.handled (.frame c framesProcessed) =
            some (client, s.request client (stripCarriageReturn raw)) := by
          simp [handled, found, split, state, short]
        simp only [state] at told
        unfold ownReply
        rw [handles]
        cases asked : s.request client (stripCarriageReturn raw) with
        | ignored => simp [asked, lineTo] at told
        | chat words =>
          simp only [asked, lineTo] at told
          split_ifs at told
          refine .inr ⟨by simp, ?_⟩
          rw [← Option.some.inj told, request_chat asked]
          exact oneLine_chatLine username fun word mem bad => clean ((mem_tokens mem).2 bad)
        | reply text reason =>
          simp only [asked, lineTo] at told
          split_ifs at told with same
          subst same
          obtain rfl := Option.some.inj told
          exact .inl (by simp [Action.actor])
        | move name =>
          have target := (request_move_of mainRoomName_ok (word_ok clean) asked).1
          refine .inr ⟨by simp, ?_⟩
          simp only [asked, lineTo] at told
          split_ifs at told
          all_goals rw [← Option.some.inj told]
          · exact oneLine_joinedLine username target
          · exact oneLine_leftLine username (roomName_clean names _)
          · exact oneLine_joinedLine username target
        | quit =>
          simp only [asked, lineTo] at told
          split_ifs at told
          refine .inr ⟨by simp, ?_⟩
          rw [← Option.some.inj told]
          exact oneLine_quitLine username

end Messages

theorem ownReply_cases (names : ∀ room ∈ s.rooms, RoomNameOk room.roomName) {a : Action} {fd : Fd}
    {reply : Bytes} (answered : s.ownReply a fd = some reply) :
    reply = prompt ∨ OneLine reply ∨
      reply = listReply s.rooms ∧ reply.count newline = s.rooms.length + 4 := by
  unfold ownReply at answered
  split_ifs at answered
  split at answered
  · exact .inl (Option.some.inj answered).symm
  · rename_i handles
    obtain ⟨c, framesProcessed, raw, remaining, -, -, -, -, -, asked⟩ := handled_some handles
    rw [← Option.some.inj answered]
    rcases request_line asked with listed | located
    · exact .inr (.inr ⟨listed, listed ▸ listReply_newlines names⟩)
    · exact .inr (.inl (located ▸ oneLine_whereReply (roomName_clean names _)))
  · cases answered

theorem ownReply_list {a : Action} {fd : Fd} (asks : s.AsksList a fd) :
    s.ownReply a fd = some (listReply s.rooms) := by
  obtain ⟨framesProcessed, client, raw, remaining, rfl, found, split, short, active, list⟩ := asks
  have handles : s.handled (.frame fd framesProcessed) = some (client, .reply (listReply s.rooms)
      "slow client: LIST response output queue overflow") := by
    simp [handled, found, split, short, active, request_list s client list]
  simp [ownReply, Action.actor, handles]

theorem accept_tells {fd : Fd} {results : Results} (enabled : Action.enabled (.accept fd results) s) :
    ∃ outcome, offers ((Action.perform (.accept fd results) s).ports fd).history =
      [(prompt, outcome)] := by
  have opened := (acceptClient_performs enabled results).entries fd
  rw [only_self] at opened
  obtain ⟨outcome, told, -⟩ := Entry.offered_offers (e := Entry.opened results) rfl
    s.serverIteration prompt "username prompt output queue overflow"
  refine ⟨outcome, ?_⟩
  change offers ((s.acceptClient fd results).entry fd).port.history = _
  rw [opened, told]
  rfl

theorem no_injection (h : Reachable s) : Uninjected s := by
  have inv := reachable_inv h
  have names := reachable_roomNames h
  refine ⟨fun fd client found => username_clean inv found, names, fun a enabled fd => ?_,
    fun a _ fd reply answered => ownReply_cases names answered,
    fun a fd asks => ⟨_, ownReply_list asks, listReply_newlines names⟩⟩
  by_cases accepted : ∃ results, a = .accept fd results
  · obtain ⟨results, rfl⟩ := accepted
    obtain ⟨outcome, told⟩ := accept_tells enabled
    refine ⟨[(prompt, outcome)], by simp [told, offersBefore], by simp, ?_, ?_⟩
    · simp [ownReply, Action.actor]
    · simp [handled]
  · have old : ∀ results, a ≠ .accept fd results := fun results same => accepted ⟨results, same⟩
    obtain ⟨new, history, short, lines⟩ := perform_tells inv enabled old
    have before : s.offersBefore a fd = offers (s.ports fd).history := by
      cases a with
      | accept c results =>
        refine if_neg fun same => ?_
        subst same
        exact old results rfl
      | _ => rfl
    refine ⟨new, by rw [before, history], short, fun offer mem => ?_,
      fun client words handles offer mem => ?_⟩
    · rcases lineFor_message inv names (lines offer mem) with answer | ⟨unasked, line⟩
      · simp [answer]
      · simpa [unasked] using line
    · obtain ⟨c, framesProcessed, raw, remaining, rfl, found, split, short, active, asked⟩ :=
        handled_some handles
      have told := lines offer mem
      rw [lineFor_active found split short active, asked] at told
      obtain ⟨-, same⟩ := Option.ite_none_right_eq_some.mp told
      rw [← Option.some.inj same, chatLine, List.append_assoc (ascii "> " ++ client.username ++ _)]
      exact List.prefix_append _ _

theorem evening_uninjected : Uninjected ((initial 3).run evening) :=
  no_injection (run_reachable 3 evening)

end ChatServer
end Partyline
