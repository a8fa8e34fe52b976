import Partyline.Broadcast

/-! Who leaves a room in a step, and who hears of it. -/
namespace Partyline

def departureLines (username oldName : Bytes) : List Bytes :=
  [leftLine username oldName, quitLine username, disconnectedLine username]

namespace ChatServer

/-- The notice of a peer that is gone, where it goes. -/
def goneLine (s : ChatServer) (c : Fd) (client : ClientConnection) (fd : Fd) : Option Bytes :=
  if fd ≠ c ∧ s.occupancy fd = some client.currRoom then some (disconnectedLine client.username)
  else none

/-- The line that taking the next frame of `c` offers to `fd`. -/
def frameLine (s : ChatServer) (c : Fd) (client : ClientConnection) (fd : Fd) : Option Bytes :=
  match splitFrame client.inputBuffer with
  | none => none
  | some (raw, _) =>
    if maxFrameBytes < raw.length then none
    else match client.clientState with
      | .awaitingUsername =>
        if fd = c ∨ s.occupancy fd = some 0 then
          some (joinedLine (stripCarriageReturn raw) mainRoomName)
        else none
      | .active => s.lineTo c client (s.request client (stripCarriageReturn raw)) fd

def lineFor (s : ChatServer) (a : Action) (fd : Fd) : Option Bytes :=
  match a with
  | .frame c _ => (s.clients c).bind fun client => s.frameLine c client fd
  | .peerClosed c | .recvFailed c => (s.clients c).bind fun client => s.goneLine c client fd
  | .write c =>
    if (s.entry c).flushes s.serverIteration = true then none
    else (s.clients c).bind fun client => s.goneLine c client fd
  | _ => none

/-- The step ends the connection of `fd` for an input limit. -/
def overLimit (s : ChatServer) (a : Action) (fd : Fd) : Prop :=
  match a with
  | .receive c chunk => fd = c ∧ ∃ client, s.clients c = some client ∧
      maxInputBufferBytes < client.inputBuffer.length + chunk.length
  | .frame c _ => fd = c ∧ ∃ client, s.clients c = some client ∧
      maxFrameBytes < ((splitFrame client.inputBuffer).map fun frame => frame.1.length).getD
        client.inputBuffer.length
  | _ => False

/-- The step ends the connection of `fd` with a notice to its room. -/
def takesLeave (s : ChatServer) (a : Action) (fd : Fd) : Prop :=
  match a with
  | .frame c _ => fd = c ∧ ∃ client raw remaining, s.clients c = some client ∧
      client.clientState = .active ∧ splitFrame client.inputBuffer = some (raw, remaining) ∧
      s.request client (stripCarriageReturn raw) = .quit
  | .peerClosed c | .recvFailed c => fd = c
  | .write c => fd = c ∧ (s.entry c).flushes s.serverIteration = false
  | _ => False

/-- The step ends the connection of `fd` without a word: for an input limit, or
for refusing the line it is offered. -/
def lost (s : ChatServer) (a : Action) (fd : Fd) : Prop :=
  s.overLimit a fd ∨
    ∃ line, s.lineFor a fd = some line ∧ (s.entry fd).accepts s.serverIteration line = false

/-- The name of the room that the step has `fd` enter. -/
def enters (s : ChatServer) (a : Action) (fd : Fd) : Option Bytes :=
  match a with
  | .frame c _ =>
    if fd ≠ c then none
    else (s.clients c).bind fun client =>
      match splitFrame client.inputBuffer with
      | none => none
      | some (raw, _) =>
        if maxFrameBytes < raw.length then none
        else match client.clientState with
          | .awaitingUsername => some mainRoomName
          | .active =>
            match s.request client (stripCarriageReturn raw) with
            | .move name =>
              if Rooms.roomName s.rooms client.currRoom = name then none else some name
            | _ => none
  | _ => none

/-- Those who see `fd` go if it is lost: the members of the room it is in, or of
the one it has just entered. -/
def Beside (s : ChatServer) (a : Action) (fd other : Fd) : Prop :=
  match s.enters a fd with
  | none => s.occupancy fd ≠ none ∧ s.occupancy other = s.occupancy fd
  | some name => (s.occupancy other).map (Rooms.roomName s.rooms) = some name

/-- Whoever is lost leaves nobody behind. -/
def LosesNobody (s : ChatServer) (a : Action) : Prop :=
  ∀ fd, s.lost a fd → ∀ other, other ≠ fd → s.Beside a fd other →
    s.lost a other ∨ s.takesLeave a other

def AnnouncedTo (s : ChatServer) (a : Action) (fd other : Fd) (oldName : Bytes) : Prop :=
  ∃ client new, s.clients fd = some client ∧
    offers ((a.perform s).ports other).history = offers (s.ports other).history ++ new ∧
    (new.filter fun offer => offer.1 ∈ departureLines client.username oldName).length = 1

/-- Whoever leaves a room in the step, be it one entered in the same step, is
announced to all that were in it and are still connected. -/
def Announced (s : ChatServer) (a : Action) : Prop :=
  ∀ fd other, other ≠ fd → (a.perform s).clients other ≠ none →
    (∀ room, s.occupancy fd = some room → (a.perform s).occupancy fd ≠ some room →
      s.occupancy other = some room → s.AnnouncedTo a fd other (Rooms.roomName s.rooms room)) ∧
    ∀ name, s.enters a fd = some name → (a.perform s).clients fd = none →
      (s.occupancy other).map (Rooms.roomName s.rooms) = some name →
        s.AnnouncedTo a fd other name

def Action.actor : Action → Option Fd
  | .accept c _ | .receive c _ | .frame c _ | .peerClosed c | .recvFailed c | .write c => some c
  | .iteration | .load _ | .answered _ _ => none

/-- What becomes of the client `c` that an action is about: it is cut off for a
limit; or it leaves and its room is told; or it goes on from `base` with the
line there is for it, and if `base` is elsewhere then its old room is told. -/
inductive Fate (s : ChatServer) (a : Action) (c : Fd) (client : ClientConnection)
    (t : ChatServer) : Prop where
  | cut (past : s.overLimit a c) (gone : t.clients c = none)
  | leaves (leave : s.takesLeave a c) (gone : t.clients c = none)
    (heard : ∀ fd, fd ≠ c → s.occupancy fd = some client.currRoom →
      ∃ line ∈ [quitLine client.username, disconnectedLine client.username],
        s.lineFor a fd = some line)
  | stays (within : ¬ s.overLimit a c) (remains : ¬ s.takesLeave a c) (base : Entry)
    (connected : base.client ≠ none)
    (accepts : ∀ data, s.lineFor a c = some data →
      base.accepts s.serverIteration data = (s.entry c).accepts s.serverIteration data)
    (told : Entry.Told s.serverIteration (s.lineFor a c) base (t.entry c))
    (home : s.enters a c = none ∧ base.occupant = s.occupancy c ∨ s.occupancy c = none ∨
      ∀ fd, fd ≠ c → s.occupancy fd = some client.currRoom → s.lineFor a fd =
        some (leftLine client.username (Rooms.roomName s.rooms client.currRoom)))

def chats (s : ChatServer) (a : Action) : Prop :=
  match a with
  | .frame c _ => ∃ client raw remaining words, s.clients c = some client ∧
      client.clientState = .active ∧ splitFrame client.inputBuffer = some (raw, remaining) ∧
      raw.length ≤ maxFrameBytes ∧ s.request client (stripCarriageReturn raw) = .chat words
  | _ => False

theorem lineFor_active {s : ChatServer} {c : Fd} {client : ClientConnection}
    (found : s.clients c = some client) {raw remaining : Bytes}
    (split : splitFrame client.inputBuffer = some (raw, remaining))
    (short : raw.length ≤ maxFrameBytes) (active : client.clientState = .active)
    (framesProcessed : Nat) (fd : Fd) : s.lineFor (.frame c framesProcessed) fd =
      s.lineTo c client (s.request client (stripCarriageReturn raw)) fd := by
  simp only [lineFor, found, Option.bind_some, frameLine, split, Nat.not_lt.mpr short, if_false,
    active]

section Enters

variable {s : ChatServer} {a : Action} {fd : Fd}

theorem enters_of_ne {c : Fd} (acts : a.actor = some c) (ne : fd ≠ c) : s.enters a fd = none := by
  cases a <;> simp_all [enters, Action.actor]

theorem enters_cases {name : Bytes} (entered : s.enters a fd = some name) :
    ∃ framesProcessed client raw remaining,
      a = .frame fd framesProcessed ∧ s.clients fd = some client ∧
      splitFrame client.inputBuffer = some (raw, remaining) ∧ raw.length ≤ maxFrameBytes ∧
      (client.clientState = .awaitingUsername ∧ name = mainRoomName ∨
        client.clientState = .active ∧ s.request client (stripCarriageReturn raw) = .move name ∧
          Rooms.roomName s.rooms client.currRoom ≠ name) := by
  cases a with
  | frame c framesProcessed =>
    simp only [enters] at entered
    split_ifs at entered with same
    obtain rfl : fd = c := not_not.mp same
    obtain ⟨client, found, entered⟩ := Option.bind_eq_some_iff.mp entered
    cases split : splitFrame client.inputBuffer with
    | none => simp [split] at entered
    | some taken =>
      obtain ⟨raw, remaining⟩ := taken
      simp only [split] at entered
      split_ifs at entered with long
      refine ⟨framesProcessed, client, raw, remaining, rfl, found, split, by omega, ?_⟩
      cases state : client.clientState with
      | awaitingUsername => exact .inl ⟨rfl, by simpa [state, eq_comm] using entered⟩
      | active =>
        simp only [state] at entered
        cases asked : s.request client (stripCarriageReturn raw) with
        | move there =>
          simp only [asked] at entered
          split_ifs at entered with same
          obtain rfl : there = name := Option.some.inj entered
          exact .inr ⟨rfl, rfl, same⟩
        | _ => simp [asked] at entered
  | _ => simp [enters] at entered

theorem connected_of_enters {name : Bytes} (entered : s.enters a fd = some name) :
    ∃ client, s.clients fd = some client := by
  obtain ⟨framesProcessed, client, raw, remaining, -, found, -⟩ := enters_cases entered
  exact ⟨client, found⟩

theorem enters_of_overLimit (past : s.overLimit a fd) : s.enters a fd = none := by
  cases a with
  | frame c framesProcessed =>
    obtain ⟨rfl, client, found, long⟩ := past
    cases split : splitFrame client.inputBuffer with
    | none => simp [enters, found, split]
    | some frame =>
      obtain ⟨raw, remaining⟩ := frame
      rw [split] at long
      simp only [enters, ne_eq, not_true_eq_false, if_false, found, Option.bind_some, split]
      exact if_pos long
  | _ => rfl

theorem enters_of_takesLeave (leave : s.takesLeave a fd) : s.enters a fd = none := by
  cases a with
  | frame c framesProcessed =>
    obtain ⟨rfl, client, raw, remaining, found, active, split, asked⟩ := leave
    simp [enters, found, split, active, asked]
  | _ => rfl

theorem enters_of_chats (spoken : s.chats a) (fd : Fd) : s.enters a fd = none := by
  cases a with
  | frame c framesProcessed =>
    obtain ⟨client, raw, remaining, words, found, active, split, short, asked⟩ := spoken
    simp [enters, found, split, active, asked]
  | _ => rfl

end Enters

section Actors

variable {s : ChatServer} (h : Inv s) {a : Action} (enabled : a.enabled s)

include h enabled

theorem perform_told (spoken : ¬ s.chats a) {c fd : Fd} (acts : a.actor = some c) (ne : fd ≠ c) :
    Entry.Told s.serverIteration (s.lineFor a fd) (s.entry fd) ((a.perform s).entry fd) := by
  have gone (client : ClientConnection) : Entry.Told s.serverIteration
      (s.goneLine c client fd) (s.entry fd) (Entry.notified s.serverIteration client.currRoom c
        (disconnectedLine client.username) fd (s.entry fd)) := by
    have ne' : (fd : Int) ≠ c := by exact_mod_cast ne
    have told : Entry.Told s.serverIteration _ (s.entry fd) (Entry.notified s.serverIteration
      client.currRoom c (disconnectedLine client.username) fd (s.entry fd)) := Entry.notified_told
    simpa only [goneLine, ne, ne', ne_eq, not_false_eq_true, true_and, entry_occupant] using told
  cases a with
  | iteration | load results | answered c recvs => simp [Action.actor] at acts
  | accept c results =>
    obtain rfl := Option.some.inj acts
    exact ((acceptClient_performs enabled results).entries fd).trans (only_of_ne ne _ _)
  | receive c chunk =>
    obtain rfl := Option.some.inj acts
    obtain ⟨client, found⟩ := Option.ne_none_iff_exists'.mp enabled
    exact ((receive_performs found chunk).entries fd).trans (only_of_ne ne _ _)
  | frame c framesProcessed =>
    obtain rfl := Option.some.inj acts
    obtain ⟨client, found⟩ := Option.ne_none_iff_exists'.mp enabled
    change Entry.Told _ _ _ ((frameStep c framesProcessed s).server.entry fd)
    simp only [lineFor, found, Option.bind_some, frameLine]
    rcases frameStep_cases found framesProcessed with
      ⟨unsplit, -, result⟩ | ⟨unsplit, -, result⟩ | ⟨raw, remaining, split, ⟨long, result⟩ |
        ⟨short, awaiting, -⟩ | ⟨short, active, -⟩⟩
    · rw [result, unsplit]
      exact ((disconnect_performs s c _).entries fd).trans (only_of_ne ne _ _)
    · rw [result, unsplit]
      rfl
    · rw [result, split]
      simp only [long, if_true]
      exact ((disconnect_performs s c _).entries fd).trans (only_of_ne ne _ _)
    · obtain ⟨performs, -⟩ :=
        frameStep_username h.rooms found split short awaiting framesProcessed
      have listed : (fd : Int) ≠ -1 := by omega
      have told : Entry.Told s.serverIteration _ (s.entry fd) (Entry.notified s.serverIteration
        0 (-1) (joinedLine (stripCarriageReturn raw) mainRoomName) fd (s.entry fd)) :=
          Entry.notified_told
      rw [performs.entries, only_of_ne ne]
      simpa only [split, Nat.not_lt.mpr short, if_false, awaiting, ne, false_or, listed, ne_eq,
        not_false_eq_true, true_and, entry_occupant] using told
    · have line := lineFor_active found split short active framesProcessed fd
      simp only [lineFor, found, Option.bind_some, frameLine] at line
      rw [line]
      refine frameStep_told found split short active framesProcessed h.rooms ?_ ne
      exact fun words asked => spoken ⟨client, raw, remaining, words, found, active, split, short,
        asked⟩
  | peerClosed c =>
    obtain rfl := Option.some.inj acts
    obtain ⟨client, found⟩ := Option.ne_none_iff_exists'.mp enabled
    have same := (peerGone_performs h.rooms found "peer closed connection").1.entries fd
    rw [if_neg ne] at same
    simp only [lineFor, found, Option.bind_some]
    exact same ▸ gone client
  | recvFailed c =>
    obtain rfl := Option.some.inj acts
    obtain ⟨client, found⟩ := Option.ne_none_iff_exists'.mp enabled
    have same := (peerGone_performs h.rooms found "recv failed").1.entries fd
    rw [if_neg ne] at same
    simp only [lineFor, found, Option.bind_some]
    exact same ▸ gone client
  | write c =>
    obtain rfl := Option.some.inj acts
    obtain ⟨client, found⟩ := Option.ne_none_iff_exists'.mp enabled
    have same := (handleWrite_performs h.rooms found).1.entries fd
    simp only [lineFor, found, Option.bind_some]
    by_cases done : (s.entry c).flushes s.serverIteration = true
    · rw [if_pos done, only_of_ne ne] at same
      rw [if_pos done]
      exact same
    · rw [if_neg done, if_neg ne] at same
      rw [if_neg done]
      exact same ▸ gone client

/-- Nothing happens to the entry of anybody else, or a line is offered to it. -/
theorem perform_entry {c fd : Fd} (acts : a.actor = some c) (ne : fd ≠ c) :
    (a.perform s).entry fd = s.entry fd ∨
      Entry.Told s.serverIteration (s.lineFor a fd) (s.entry fd) ((a.perform s).entry fd) := by
  by_cases spoken : s.chats a
  · cases a with
    | iteration | load results | answered c recvs | accept c results | receive c chunk
    | peerClosed c | recvFailed c | write c => exact spoken.elim
    | frame c framesProcessed =>
      obtain rfl := Option.some.inj acts
      obtain ⟨client, raw, remaining, words, found, active, split, short, asked⟩ := spoken
      obtain ⟨_, mem, -, result⟩ := frameStep_chat found active h.rooms remaining asked
      have final : Action.perform (.frame c framesProcessed) s = _ :=
        (frameStep_active found split short active framesProcessed).1
      rw [final, result, ← taking_entry s client raw remaining ne]
      rcases broadcastLoop_entry (taking_clients s c client raw remaining)
        (chatLine client.username words) (h.rooms.unique _ mem) fd with same | ⟨-, there, told⟩
      · exact .inl same
      · rw [taking_occupancy found] at there
        rw [lineFor_active found split short active, asked, lineTo, if_pos ⟨ne, there⟩]
        exact .inr told
  · exact .inr (perform_told h enabled spoken acts ne)

omit h enabled in
theorem receive_fate {c : Fd} {client : ClientConnection} (found : s.clients c = some client)
    (chunk : Bytes) : Fate s (.receive c chunk) c client (s.receive c chunk).2 := by
  have same := (receive_performs found chunk).entries c
  rw [only_self] at same
  by_cases past : maxInputBufferBytes < client.inputBuffer.length + chunk.length
  · refine .cut ⟨rfl, client, found, past⟩ ?_
    rw [← entry_client, same]
    simp [Entry.received, found, past, Entry.closed]
  · refine .stays ?_ id ((s.entry c).received chunk) ?_ (by simp [lineFor]) same (.inl ⟨rfl, ?_⟩)
    · rintro ⟨-, record, found', past'⟩
      obtain rfl := Option.some.inj (found.symm.trans found')
      exact past past'
    · simp [Entry.received, found, past]
    · simp [Entry.received, found, past, Entry.occupant, occupancy]

omit enabled in
theorem gone_fate {c : Fd} {client : ClientConnection} (found : s.clients c = some client)
    (reason : String) (leave : s.takesLeave a c)
    (lines : ∀ fd, s.lineFor a fd = s.goneLine c client fd) :
    Fate s a c client (s.peerGone c reason) := by
  refine .leaves leave ?_ fun fd ne home => ⟨disconnectedLine client.username, by simp, ?_⟩
  · have same := (peerGone_performs h.rooms found reason).1.entries c
    rw [if_pos rfl] at same
    rw [← entry_client, same, Entry.closed_client]
  · rw [lines]
    exact if_pos ⟨ne, home⟩

omit enabled in
theorem write_fate {c : Fd} {client : ClientConnection} (found : s.clients c = some client) :
    Fate s (.write c) c client (s.handleWrite c) := by
  have same := (handleWrite_performs h.rooms found).1.entries c
  by_cases done : (s.entry c).flushes s.serverIteration = true
  · rw [if_pos done, only_self] at same
    have line : s.lineFor (.write c) c = none := if_pos done
    refine .stays id (by simp [takesLeave, done]) ((s.entry c).flushed s.serverIteration) ?_
      (by simp [line]) ?_ (.inl ⟨rfl, ?_⟩)
    · simp [Entry.flushed, found]
    · rw [line]
      exact same
    · exact Entry.flushed_occupant _ _
  · rw [if_neg done, if_pos rfl] at same
    refine .leaves ⟨rfl, by simpa using done⟩ ?_ fun fd ne home =>
      ⟨disconnectedLine client.username, by simp, ?_⟩
    · rw [← entry_client, same, Entry.closed_client]
    · simp only [lineFor, if_neg done, found, Option.bind_some]
      exact if_pos ⟨ne, home⟩

omit enabled h in
theorem lineFor_frame {c : Fd} {client : ClientConnection} (found : s.clients c = some client)
    (framesProcessed : Nat) :
    s.lineFor (.frame c framesProcessed) c = s.frameLine c client c := by
  simp [lineFor, found]

omit enabled h in
theorem overLimit_frame {c : Fd} {client : ClientConnection} (found : s.clients c = some client)
    (framesProcessed : Nat) : s.overLimit (.frame c framesProcessed) c ↔ maxFrameBytes <
      ((splitFrame client.inputBuffer).map fun frame => frame.1.length).getD
        client.inputBuffer.length := by
  simp [overLimit, found]

omit enabled h in
theorem takesLeave_frame {c : Fd} {client : ClientConnection} (found : s.clients c = some client)
    {raw remaining : Bytes} (split : splitFrame client.inputBuffer = some (raw, remaining))
    (framesProcessed : Nat) :
    s.takesLeave (.frame c framesProcessed) c ↔ client.clientState = .active ∧
      s.request client (stripCarriageReturn raw) = .quit := by
  simp [takesLeave, found, split]

omit enabled in
theorem login_fate {c : Fd} {client : ClientConnection} (found : s.clients c = some client)
    (framesProcessed : Nat) {raw remaining : Bytes}
    (split : splitFrame client.inputBuffer = some (raw, remaining))
    (short : raw.length ≤ maxFrameBytes) (awaiting : client.clientState = .awaitingUsername) :
    Fate s (.frame c framesProcessed) c client (frameStep c framesProcessed s).server := by
  obtain ⟨performs, -⟩ := frameStep_username h.rooms found split short awaiting framesProcessed
  have listed : (c : Int) ≠ -1 := by omega
  have told : Entry.Told s.serverIteration _ _ (Entry.notified s.serverIteration 0 (-1)
    (joinedLine (stripCarriageReturn raw) mainRoomName) c (Entry.loggedIn client remaining
      (stripCarriageReturn raw) (.username raw (stripCarriageReturn raw)) (s.entry c))) :=
        Entry.notified_told
  refine .stays (by simpa [overLimit_frame found, split] using short)
    (by simp [takesLeave_frame found split, awaiting])
    (Entry.loggedIn client remaining (stripCarriageReturn raw)
      (.username raw (stripCarriageReturn raw)) (s.entry c)) (by simp [Entry.loggedIn])
    (fun data _ => ?_) ?_ (.inr (.inl ?_))
  · simp only [Entry.accepts, entry_client, found]
    rfl
  · rw [performs.entries, only_self, lineFor_frame found]
    simpa only [frameLine, split, Nat.not_lt.mpr short, if_false, awaiting, true_or, if_true,
      listed, ne_eq, not_false_eq_true, true_and, Entry.occupant, Entry.loggedIn,
      Option.bind_some] using told
  · simp [occupancy, Entry.occupant, found, awaiting]

omit enabled in
theorem command_fate {c : Fd} {client : ClientConnection} (found : s.clients c = some client)
    (framesProcessed : Nat) (spoken : ¬ s.chats (.frame c framesProcessed)) {raw remaining : Bytes}
    (split : splitFrame client.inputBuffer = some (raw, remaining))
    (short : raw.length ≤ maxFrameBytes) (active : client.clientState = .active) :
    Fate s (.frame c framesProcessed) c client (frameStep c framesProcessed s).server := by
  have quits := takesLeave_frame found split framesProcessed
  have final := (frameStep_active found split short active framesProcessed).1
  have kept := eraseFrame_rooms h.rooms found remaining (.frame raw (stripCarriageReturn raw))
  have self := processFrame_self kept (taking_clients s c client raw remaining) active
    (stripCarriageReturn raw)
  have erased : (s.taking c client raw remaining).entry c =
      Entry.erased client remaining (.frame raw (stripCarriageReturn raw)) (s.entry c) := by
    rw [(eraseFrame_performs s c client remaining _).entries, only_self]
  have asked' : (s.taking c client raw remaining).request { client with inputBuffer := remaining }
      (stripCarriageReturn raw) = s.request client (stripCarriageReturn raw) := rfl
  have accepts (data : Bytes) := Entry.accepts_erased (e := s.entry c) found s.serverIteration data
    remaining (.frame raw (stripCarriageReturn raw))
  have home : (Entry.erased client remaining (.frame raw (stripCarriageReturn raw))
      (s.entry c)).occupant = s.occupancy c := by
    simp [Entry.erased, Entry.occupant, occupancy, found]
  have within : ¬ s.overLimit (.frame c framesProcessed) c := by
    simpa [overLimit_frame found, split] using short
  have lines := lineFor_active found split short active framesProcessed
  have entered : s.enters (.frame c framesProcessed) c =
      match s.request client (stripCarriageReturn raw) with
      | .move name => if Rooms.roomName s.rooms client.currRoom = name then none else some name
      | _ => none := by
    simp only [enters, ne_eq, not_true_eq_false, if_false, found, Option.bind_some, split,
      Nat.not_lt.mpr short, active]
  rw [← final, asked', erased] at self
  cases asked : s.request client (stripCarriageReturn raw) with
  | ignored =>
    rw [asked] at self
    refine .stays within (by simp [quits, asked]) _ (by simp [Entry.erased])
      (fun data _ => accepts data) ?_ (.inl ⟨by simp [entered, asked], home⟩)
    rw [lines, asked]
    exact self
  | chat words =>
    exact (spoken ⟨client, raw, remaining, words, found, active, split, short, asked⟩).elim
  | reply line reason =>
    rw [asked] at self
    refine .stays within (by simp [quits, asked]) _ (by simp [Entry.erased])
      (fun data _ => accepts data) ?_ (.inl ⟨by simp [entered, asked], home⟩)
    rw [lines, asked, lineTo, if_pos rfl]
    exact self
  | move name =>
    rw [asked] at self
    change if Rooms.roomName s.rooms client.currRoom = name then _ else _ at self
    split_ifs at self with same
    · refine .stays within (by simp [quits, asked]) _ (by simp [Entry.erased])
        (fun data _ => accepts data) ?_ (.inl ⟨by simp [entered, asked, same], home⟩)
      rw [lines, asked]
      simp only [lineTo, if_pos same]
      exact self
    · obtain ⟨roomId, told⟩ := self
      refine .stays within (by simp [quits, asked]) _ ?_
        (fun data _ => (Entry.accepts_moved _ _ roomId _).trans (accepts data)) ?_
        (.inr (.inr fun fd ne there => ?_))
      · simp [Entry.moved, Entry.erased]
      · rw [lines, asked]
        simp only [lineTo, if_neg same, if_true]
        exact told
      · rw [lines, asked]
        simp only [lineTo, if_neg same, if_neg ne, if_pos there]
  | quit =>
    rw [asked] at self
    refine .leaves (quits.mpr ⟨active, asked⟩) ?_ fun fd ne there =>
      ⟨quitLine client.username, by simp, ?_⟩
    · rw [← entry_client, self, Entry.closed_client]
    · rw [lines, asked]
      simp only [lineTo, if_pos (And.intro ne there)]

omit enabled in
theorem frame_fate {c : Fd} {client : ClientConnection} (found : s.clients c = some client)
    (framesProcessed : Nat) (spoken : ¬ s.chats (.frame c framesProcessed)) :
    Fate s (.frame c framesProcessed) c client (frameStep c framesProcessed s).server := by
  have limit := overLimit_frame found framesProcessed
  rcases frameStep_cases found framesProcessed with
    ⟨unsplit, long, result⟩ | ⟨unsplit, within, result⟩ | ⟨raw, remaining, split, ⟨long, result⟩ |
      ⟨short, awaiting, -⟩ | ⟨short, active, -⟩⟩
  · rw [result]
    refine .cut (limit.mpr (by simpa [unsplit] using long)) ?_
    rw [FrameStep.server, ← entry_client, (disconnect_performs s c _).entries, only_self,
      Entry.closed_client]
  · rw [result]
    refine .stays (by simpa [limit, unsplit] using within) (by simp [takesLeave, found, unsplit])
      (s.entry c) (by simp [found]) (fun _ _ => rfl) ?_
        (.inl ⟨by simp [enters, found, unsplit], rfl⟩)
    rw [lineFor_frame found, frameLine, unsplit]
    rfl
  · rw [result]
    refine .cut (limit.mpr (by simpa [split] using long)) ?_
    rw [FrameStep.server, ← entry_client, (disconnect_performs s c _).entries, only_self,
      Entry.closed_client]
  · exact login_fate h found framesProcessed split short awaiting
  · exact command_fate h found framesProcessed spoken split short active

theorem actor_fate (spoken : ¬ s.chats a) {c : Fd} (acts : a.actor = some c)
    {client : ClientConnection} (found : s.clients c = some client) :
    Fate s a c client (a.perform s) := by
  cases a with
  | iteration | load results | answered c recvs => simp [Action.actor] at acts
  | accept c results =>
    obtain rfl := Option.some.inj acts
    have closed : s.isOpen c = false := enabled
    simp [isOpen, found] at closed
  | receive c chunk =>
    obtain rfl := Option.some.inj acts
    exact receive_fate found chunk
  | frame c framesProcessed =>
    obtain rfl := Option.some.inj acts
    exact frame_fate h found framesProcessed spoken
  | peerClosed c =>
    obtain rfl := Option.some.inj acts
    exact gone_fate h found _ rfl fun fd => by simp [lineFor, found]
  | recvFailed c =>
    obtain rfl := Option.some.inj acts
    exact gone_fate h found _ rfl fun fd => by simp [lineFor, found]
  | write c =>
    obtain rfl := Option.some.inj acts
    exact write_fate h found

omit enabled in
theorem chat_departs (spoken : s.chats a) {fd : Fd} {room : Nat}
    (home : s.occupancy fd = some room) (away : (a.perform s).occupancy fd ≠ some room) :
    s.lost a fd ∧ ∃ sender, sender ≠ fd ∧ s.occupancy sender = some room ∧
      ¬ s.lost a sender ∧ ¬ s.takesLeave a sender := by
  cases a with
  | iteration | load results | answered c recvs | accept c results | receive c chunk | peerClosed c
  | recvFailed c | write c => exact spoken.elim
  | frame c framesProcessed =>
    obtain ⟨client, raw, remaining, words, found, active, split, short, asked⟩ := spoken
    obtain ⟨_, mem, -, result⟩ := frameStep_chat found active h.rooms remaining asked
    have final : Action.perform (.frame c framesProcessed) s = _ :=
      (frameStep_active found split short active framesProcessed).1
    have line (other : Fd) : s.lineFor (.frame c framesProcessed) other =
        if other ≠ c ∧ s.occupancy other = some client.currRoom then
          some (chatLine client.username words)
        else none := by
      rw [lineFor_active found split short active, asked, lineTo]
    rw [final, result] at away
    rcases broadcastLoop_entry (taking_clients s c client raw remaining)
      (chatLine client.username words) (h.rooms.unique _ mem) fd with same | ⟨ne, there, told⟩
    · rw [← entry_occupant, same, entry_occupant, taking_occupancy found] at away
      exact (away home).elim
    · rw [taking_occupancy found, home] at there
      obtain rfl : room = client.currRoom := Option.some.inj there
      rw [taking_entry s client raw remaining ne] at told
      have out := mt told.occupant fun same => away (same.trans home)
      obtain ⟨data, offered, refused⟩ :=
        (told.client.mp (not_not.mp out)).resolve_left (connected_of_occupancy home)
      obtain rfl := Option.some.inj offered
      refine ⟨.inr ⟨_, (line fd).trans (if_pos ⟨ne, home⟩), refused⟩, c, ne.symm,
        Entry.occupant_some.mpr ⟨client, found, active, rfl⟩, ?_, ?_⟩
      · rintro (past | ⟨data, told, -⟩)
        · simp [overLimit, found, split] at past
          omega
        · simp [line] at told
      · simp [takesLeave, found, split, asked]

section Departs

variable (spoken : ¬ s.chats a) {c : Fd} (acts : a.actor = some c)

include spoken acts

theorem lost_gone {fd : Fd} (connected : s.clients fd ≠ none)
    (ends : s.lost a fd ∨ s.takesLeave a fd) : (a.perform s).clients fd = none := by
  by_cases same : fd = c
  · subst same
    obtain ⟨client, found⟩ := Option.ne_none_iff_exists'.mp connected
    rcases actor_fate h enabled spoken acts found with
      ⟨-, gone⟩ | ⟨-, gone, -⟩ | ⟨within, remains, base, -, accepts, told, -⟩
    · exact gone
    · exact gone
    · rcases ends with (past | ⟨line, offered, refused⟩) | leave
      · exact (within past).elim
      · exact told.client.mpr (.inr ⟨line, offered, (accepts line offered).trans refused⟩)
      · exact (remains leave).elim
  · rcases ends with (past | ⟨line, offered, refused⟩) | leave
    · cases a <;> simp_all [overLimit, Action.actor]
    · exact (perform_told h enabled spoken acts same).client.mpr (.inr ⟨line, offered, refused⟩)
    · cases a <;> simp_all [takesLeave, Action.actor]

theorem departs {fd : Fd} {room : Nat} (home : s.occupancy fd = some room)
    (away : (a.perform s).occupancy fd ≠ some room) :
    s.lost a fd ∧ s.enters a fd = none ∨ fd = c ∧ ∃ client, s.clients fd = some client ∧
      ∀ other, other ≠ fd → s.occupancy other = some room →
        ∃ line ∈ departureLines client.username (Rooms.roomName s.rooms room),
          s.lineFor a other = some line := by
  obtain ⟨client, found, -, rfl⟩ := Entry.occupant_some.mp home
  have left {line : Option Bytes} {base : Entry} (connected : base.client ≠ none)
      (told : Entry.Told s.serverIteration line base ((a.perform s).entry fd))
      (stays : base.occupant = s.occupancy fd) :
      ∃ data, line = some data ∧ base.accepts s.serverIteration data = false := by
    have out := mt told.occupant fun same => away (same.trans (stays.trans home))
    exact (told.client.mp (not_not.mp out)).resolve_left connected
  by_cases same : fd = c
  · subst same
    rcases actor_fate h enabled spoken acts found with ⟨past, -⟩ | ⟨-, -, heard⟩ |
      ⟨-, -, base, connected, accepts, told, ⟨settled, stays⟩ | out | moves⟩
    · exact .inl ⟨.inl past, enters_of_overLimit past⟩
    · refine .inr ⟨rfl, client, found, fun other ne there => ?_⟩
      obtain ⟨line, mem, offered⟩ := heard other ne there
      exact ⟨line, List.mem_cons_of_mem _ mem, offered⟩
    · obtain ⟨data, offered, refused⟩ := left connected told stays
      exact .inl ⟨.inr ⟨data, offered, (accepts data offered).symm.trans refused⟩, settled⟩
    · simp [home] at out
    · exact .inr ⟨rfl, client, found, fun other ne there => ⟨_, by simp [departureLines],
        moves other ne there⟩⟩
  · obtain ⟨data, offered, refused⟩ :=
      left (connected_of_occupancy home) (perform_told h enabled spoken acts same) rfl
    exact .inl ⟨.inr ⟨data, offered, refused⟩, enters_of_ne acts same⟩

/-- Whoever is gone from the room it enters is lost. -/
theorem entered_lost {fd : Fd} {name : Bytes} (entered : s.enters a fd = some name)
    (gone : (a.perform s).clients fd = none) : s.lost a fd := by
  obtain rfl : fd = c := by
    by_contra ne
    simp [enters_of_ne acts ne] at entered
  obtain ⟨client, found⟩ := connected_of_enters entered
  rcases actor_fate h enabled spoken acts found with
    ⟨past, -⟩ | ⟨leave, -⟩ | ⟨-, -, base, connected, accepts, told, -⟩
  · exact .inl past
  · simp [enters_of_takesLeave leave] at entered
  · obtain ⟨data, offered, refused⟩ := (told.client.mp gone).resolve_left connected
    exact .inr ⟨data, offered, (accepts data offered).symm.trans refused⟩

end Departs

end Actors

/-- Nobody leaves unheard but the lost. -/
theorem departure_announced {s : ChatServer} (h : Reachable s) {a : Action}
    (enabled : a.enabled s) (losesNobody : LosesNobody s a) : Announced s a := by
  have inv := reachable_inv h
  intro fd other ne connected
  by_cases spoken : s.chats a
  · refine ⟨fun room home away there => ?_, fun name entered => ?_⟩
    · obtain ⟨lost, sender, ne, there, safe, stays⟩ := chat_departs inv spoken home away
      have beside : s.Beside a fd sender := by
        simp [Beside, enters_of_chats spoken, home, there]
      rcases losesNobody fd lost sender ne beside with lost | leave
      · exact (safe lost).elim
      · exact (stays leave).elim
    · simp [enters_of_chats spoken] at entered
  cases acts : a.actor with
  | none =>
    have settled : s.enters a fd = none ∧ (a.perform s).occupancy fd = s.occupancy fd := by
      cases a with
      | iteration | load results | answered c recvs => exact ⟨rfl, rfl⟩
      | accept c results | receive c chunk | frame c framesProcessed | peerClosed c
      | recvFailed c | write c => simp [Action.actor] at acts
    exact ⟨fun room home away => (away (settled.2.trans home)).elim, fun name entered => by
      simp [settled.1] at entered⟩
  | some c =>
    have remains (before : s.clients other ≠ none) (lost : s.lost a fd)
        (beside : s.Beside a fd other) : False :=
      connected (lost_gone inv enabled spoken acts before (losesNobody fd lost other ne beside))
    refine ⟨fun room home away there => ?_, fun name entered gone there => ?_⟩
    · have before := connected_of_occupancy there
      rcases departs inv enabled spoken acts home away with
        ⟨lost, settled⟩ | ⟨rfl, client, found, told⟩
      · exact (remains before lost (by simp [Beside, settled, home, there])).elim
      · obtain ⟨line, mem, offered⟩ := told other ne there
        obtain ⟨outcome, history, -⟩ := (perform_told inv enabled spoken acts ne).offers before
        rw [offered] at history
        exact ⟨client, [(line, outcome)], found, history, by simp [mem]⟩
    · obtain ⟨room, home, -⟩ := Option.map_eq_some_iff.mp there
      have lost := entered_lost inv enabled spoken acts entered gone
      have beside : s.Beside a fd other := by
        simp only [Beside, entered]
        exact there
      exact (remains (connected_of_occupancy home) lost beside).elim

theorem crowd_departure_announced :
    Announced (crowdHears fun _ => [.accepted 100]) (.peerClosed 6) := by
  have inv := reachable_inv (crowdHears_reachable fun _ => [.accepted 100])
  have found : (crowdHears fun _ => [.accepted 100]).clients 6 = some cat := by decide +kernel
  have room : ⟨0, mainRoomName, [4, 5, 6]⟩ ∈ (crowdHears fun _ => [.accepted 100]).rooms := by
    decide +kernel
  have accepts : ∀ fd ∈ [4, 5, 6], ((crowdHears fun _ => [.accepted 100]).entry fd).accepts
      (crowdHears fun _ => [.accepted 100]).serverIteration (disconnectedLine cat.username) = true := by
    decide +kernel
  have connected : (crowdHears fun _ => [.accepted 100]).clients 6 ≠ none := by simp [found]
  refine departure_announced (crowdHears_reachable _) connected fun fd lost => ?_
  rcases lost with past | ⟨line, told, refused⟩
  · exact past.elim
  · simp only [lineFor, found, Option.bind_some, goneLine] at told
    obtain ⟨⟨-, home⟩, same⟩ := Option.ite_none_right_eq_some.mp told
    rw [← Option.some.inj same, accepts fd ((inv.rooms.members _ room fd).mpr home)] at refused
    cases refused

/-- The first of them is disconnected for a failed send, and nobody is told. -/
theorem crowd_departure_not_announced :
    let s := crowdHears fun fd => if fd = 4 then [.error 32] else [.accepted 100]
    Reachable s ∧ Action.enabled (.frame 6 0) s ∧ ¬ Announced s (.frame 6 0) := by
  have connected : (crowdHears fun fd => if fd = 4 then [.error 32]
      else [.accepted 100]).clients 6 ≠ none := by decide +kernel
  refine ⟨crowdHears_reachable _, connected, fun announced => ?_⟩
  obtain ⟨client, new, -, history, told⟩ := (announced 4 5 (by decide) (by decide +kernel)).1 0
    (by decide +kernel) (by decide +kernel) (by decide +kernel)
  have unheard : offers ((Action.perform (.frame 6 0) (crowdHears fun fd => if fd = 4 then [.error 32]
      else [.accepted 100])).ports 5).history =
        offers ((crowdHears fun fd => if fd = 4 then [.error 32]
          else [.accepted 100]).ports 5).history := by decide +kernel
  obtain rfl : new = [] := by simpa [unheard] using history
  simp at told

end ChatServer
end Partyline
