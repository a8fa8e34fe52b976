import Mathlib.Data.List.GetD
import Partyline.Handshake
import Partyline.Injection
import Partyline.VisibleMessages

/-! From the server to a screen: what a terminal client shows at the other end of a
connection. -/
namespace Partyline

open Library TerminalClient

/-- Whole lines of which none begins like the prompt. -/
def Block (message : Bytes) : Prop :=
  ∃ lines, message = delimited newline lines ∧
    ∀ line ∈ lines, newline ∉ line ∧ ¬ usernamePrompt <+: line

/-- The lines of a message that consists of whole lines. -/
def messageLines (message : Bytes) : List Bytes := (message.splitOn newline).dropLast

namespace Block

variable {message message' : Bytes}

theorem nil : Block [] := ⟨[], rfl, by simp⟩

theorem append (h : Block message) (h' : Block message') : Block (message ++ message') := by
  obtain ⟨lines, rfl, plain⟩ := h
  obtain ⟨lines', rfl, plain'⟩ := h'
  refine ⟨lines ++ lines', (delimited_append _ _ _).symm, fun line mem => ?_⟩
  exact (List.mem_append.mp mem).elim (plain line) (plain' line)

theorem flatMap {α : Type*} {f : α → Bytes} {xs : List α} (each : ∀ x ∈ xs, Block (f x)) :
    Block (xs.flatMap f) := by
  induction xs with
  | nil => exact .nil
  | cons x xs ih =>
    exact (each x List.mem_cons_self).append (ih fun y mem => each y (List.mem_cons_of_mem _ mem))

theorem of_oneLine (one : OneLine message) {ch : UInt8} (first : message.head? = some ch)
    (other : ch ≠ 101) : Block message := by
  obtain ⟨text, rfl⟩ := List.getLast?_eq_some_iff.mp one.2
  have clean : newline ∉ text := by
    have count := one.1
    rw [List.count_append, List.count_singleton_self] at count
    exact List.count_eq_zero.mp (Nat.succ.inj count)
  refine ⟨[text], by simp, fun line mem => ?_⟩
  obtain rfl := List.mem_singleton.mp mem
  refine ⟨clean, ?_⟩
  rintro ⟨rest, rfl⟩
  exact other (Option.some.inj first).symm

theorem eq_messageLines (h : Block message) :
    message = delimited newline (messageLines message) ∧
      ∀ line ∈ messageLines message, newline ∉ line ∧ ¬ usernamePrompt <+: line := by
  obtain ⟨lines, rfl, plain⟩ := h
  have split := splitOn_delimited (fun line mem => (plain line mem).1) ([] : Bytes)
  rw [List.append_nil] at split
  have same : messageLines (delimited newline lines) = lines := by
    rw [messageLines, split]
    exact List.dropLast_concat
  rw [same]
  exact ⟨rfl, plain⟩

theorem flatten_eq {messages : List Bytes} (blocks : ∀ message ∈ messages, Block message) :
    messages.flatten = delimited newline (messages.flatMap messageLines) ∧
      ∀ line ∈ messages.flatMap messageLines, newline ∉ line ∧ ¬ usernamePrompt <+: line := by
  refine ⟨?_, fun line mem => ?_⟩
  · induction messages with
    | nil => rfl
    | cons message messages ih =>
      have here := (blocks message List.mem_cons_self).eq_messageLines.1
      have later := ih fun other mem => blocks other (List.mem_cons_of_mem _ mem)
      rw [List.flatten_cons, List.flatMap_cons, delimited_append, ← later, ← here]
  · obtain ⟨message, there, inside⟩ := List.mem_flatMap.mp mem
    exact (blocks message there).eq_messageLines.2 line inside

end Block

theorem block_whereReply {name : Bytes} (clean : newline ∉ name) : Block (whereReply name) := by
  have first : (whereReply name).head? = some 62 := by
    unfold whereReply
    split_ifs <;> rfl
  exact .of_oneLine (oneLine_whereReply clean) first (by decide)

theorem block_listing {rooms : List (Nat × Bytes)} (clean : ∀ room ∈ rooms, newline ∉ room.2) :
    Block (listing rooms) := by
  have rule : Block (ascii "+------+----------------+" ++ [newline]) :=
    .of_oneLine (oneLine_append (by decide)) rfl (by decide)
  have head : Block (ascii "| ID   | Room           |" ++ [newline]) :=
    .of_oneLine (oneLine_append (by decide)) rfl (by decide)
  rw [listing]
  dsimp only
  rw [List.append_assoc (ascii "+------+----------------+" ++ [newline])]
  refine (((rule.append head).append rule).append (.flatMap fun room mem => ?_)).append rule
  obtain ⟨roomIdx, roomName⟩ := room
  refine .of_oneLine (oneLine_append ?_) rfl (by decide)
  have digits := newline_not_mem_digits roomIdx
  have bar : newline ∉ ascii "| " := by decide
  have tab : newline ∉ ascii "\t| " := by decide
  have named : newline ∉ roomName := clean _ mem
  simp only [List.mem_append, bar, digits, tab, named, or_self, not_false_eq_true]

/-! What clients say holds no newline, and so neither does what they choose. -/

def Wish.Clean : Wish → Prop
  | .chat words => ∀ word ∈ words, newline ∉ word
  | .move room => newline ∉ room
  | .nothing | .list | .whereabouts | .quit => True

theorem newline_not_mem_main : newline ∉ mainRoomName := by decide

theorem wish_clean {line : Bytes} (clean : newline ∉ line) (room : Bytes) :
    (wish room line).Clean := by
  have words : ∀ word ∈ tokens line, newline ∉ word := fun word mem inside =>
    clean ((mem_tokens mem).2 inside)
  unfold wish
  dsimp only
  split_ifs with empty known list join stay leave
  all_goals try exact trivial
  · obtain ⟨-, two⟩ := join
    have second : (tokens line).getD 1 [] ∈ tokens line := by
      rw [List.getD_eq_getElem _ _ (by omega)]
      exact List.getElem_mem _
    exact words _ second
  · exact newline_not_mem_main
  · exact words

namespace Party

variable {C : Type*}

def Event.Clean : Event C → Prop
  | .speaks _ line => newline ∉ line
  | .arrives _ | .departs _ | .expelled _ => True

/-- Names are without newlines, and everything after the first line is whole lines. -/
structure Plain (p : Party C) : Prop where
  names : ∀ c guest, p.guests c = some guest → newline ∉ guest.username ∧ newline ∉ guest.home
  told : ∀ c, ∀ line ∈ (p.told c).tail, Block line

variable {p q : Party C} {e : Event C} {rooms : List (Nat × Bytes)}

theorem Plain.room (plain : p.Plain) {c : C} {name : Bytes} (there : p.room c = some name) :
    newline ∉ name := by
  obtain ⟨guest, found, home⟩ := Option.bind_eq_some_iff.mp there
  have clean := (plain.names c guest found).2
  cases guest with
  | nameless => cases home
  | member username room =>
    obtain rfl := Option.some.inj home
    exact clean

theorem Plain.lists (plain : p.Plain) (lists : p.Lists rooms) :
    ∀ room ∈ rooms, newline ∉ room.2 := by
  intro room mem
  rcases (lists.inUse room.2).mp (List.mem_map_of_mem mem) with main | ⟨c, there⟩
  · exact main ▸ newline_not_mem_main
  · exact plain.room there

variable [DecidableEq C]

theorem Plain.next (plain : p.Plain) (clean : e.Clean) (c : C) (guest : Guest)
    (there : p.next e c = some guest) : newline ∉ guest.username ∧ newline ∉ guest.home := by
  by_cases actor : c = e.actor
  · subst actor
    cases e with
    | arrives c =>
      obtain rfl : Guest.nameless = guest := by simpa [Party.next, Event.actor] using there
      exact ⟨List.not_mem_nil, newline_not_mem_main⟩
    | departs c | expelled c => simp [Party.next, Event.actor] at there
    | speaks c line =>
      simp only [Event.actor] at there
      cases found : p.guests c with
      | none => simp [Party.next, found] at there
      | some before =>
        cases before with
        | nameless =>
          obtain rfl : Guest.member line mainRoomName = guest := by
            simpa [Party.next, found] using there
          exact ⟨clean, newline_not_mem_main⟩
        | member username room =>
          have old := plain.names c _ found
          have wished := wish_clean clean room
          simp only [Party.next, found] at there
          cases asked : wish room line with
          | move new =>
            rw [asked] at wished
            obtain rfl : Guest.member username new = guest := by simpa [asked] using there
            exact ⟨old.1, wished⟩
          | quit => simp [asked] at there
          | nothing | chat words | list | whereabouts =>
            obtain rfl : Guest.member username room = guest := by simpa [asked, found] using there
            exact old
  · rw [next_of_ne p actor] at there
    exact plain.names c guest there

theorem Plain.hears (plain : p.Plain) (clean : e.Clean) (lists : p.Lists rooms) {c : C}
    {line : Bytes} (heard : p.hears rooms e c = some line) (older : e ≠ .arrives c) :
    Block line := by
  cases e with
  | arrives actor =>
    have same : c = actor ∧ prompt = line := by simpa [Party.hears] using heard
    exact absurd (congrArg Event.arrives same.1.symm) older
  | expelled actor => cases heard
  | departs actor =>
    obtain ⟨guest, found, told⟩ := Option.bind_eq_some_iff.mp heard
    obtain ⟨-, same⟩ := Option.ite_none_right_eq_some.mp told
    obtain rfl := Option.some.inj same
    exact .of_oneLine (oneLine_disconnectedLine (plain.names actor guest found).1) rfl (by decide)
  | speaks actor said =>
    rw [Party.hears] at heard
    cases found : p.guests actor with
    | none =>
      rw [found] at heard
      cases heard
    | some guest =>
      have named := plain.names actor guest found
      rw [found] at heard
      cases guest with
      | nameless =>
        obtain ⟨-, told⟩ := Option.ite_none_right_eq_some.mp heard
        obtain rfl := Option.some.inj told
        exact .of_oneLine (oneLine_joinedLine clean newline_not_mem_main) rfl (by decide)
      | member username room =>
        have wished := wish_clean clean room
        have answered : p.answer rooms actor username room c (wish room said) = some line := heard
        generalize wish room said = asked at wished answered
        cases asked with
        | nothing => cases answered
        | chat words =>
          obtain ⟨-, told⟩ := Option.ite_none_right_eq_some.mp answered
          obtain rfl := Option.some.inj told
          exact .of_oneLine (oneLine_chatLine named.1 wished) rfl (by decide)
        | list =>
          obtain ⟨-, told⟩ := Option.ite_none_right_eq_some.mp answered
          obtain rfl := Option.some.inj told
          exact block_listing (plain.lists lists)
        | whereabouts =>
          obtain ⟨-, told⟩ := Option.ite_none_right_eq_some.mp answered
          obtain rfl := Option.some.inj told
          exact block_whereReply named.2
        | quit =>
          obtain ⟨-, told⟩ := Option.ite_none_right_eq_some.mp answered
          obtain rfl := Option.some.inj told
          exact .of_oneLine (oneLine_quitLine named.1) rfl (by decide)
        | move new =>
          have joined : Block (joinedLine username new) :=
            .of_oneLine (oneLine_joinedLine named.1 wished) rfl (by decide)
          have left : Block (leftLine username room) :=
            .of_oneLine (oneLine_leftLine named.1 named.2) rfl (by decide)
          simp only [answer] at answered
          split_ifs at answered
          · exact Option.some.inj answered ▸ joined
          · exact Option.some.inj answered ▸ left
          · exact Option.some.inj answered ▸ joined

theorem plain_step (plain : p.Plain) (clean : e.Clean) (step : p.Step e q) : q.Plain := by
  obtain ⟨rooms, lists, becomes⟩ := step.becomes
  constructor
  · intro c guest there
    cases becomes c with
    | served same told => exact plain.next clean c guest (same ▸ there)
    | dropped line gone => rw [gone] at there; cases there
    | missed chat same told => exact plain.names c guest (same ▸ there)
  · intro c line mem
    by_cases gone : q.guests c = none
    · rw [q.absent c gone] at mem
      cases mem
    · cases becomes c with
      | dropped line gone' => exact absurd gone' gone
      | missed chat same told => exact plain.told c line (told ▸ mem)
      | served same told =>
        rw [told gone] at mem
        cases before : p.told c with
        | nil =>
          rw [before] at mem
          cases heard : p.hears rooms e c <;> simp [heard] at mem
        | cons first later =>
          rw [before, List.cons_append, List.tail_cons] at mem
          rcases List.mem_append.mp mem with old | new
          · exact plain.told c line (by rwa [before])
          · refine plain.hears clean lists (Option.mem_toList.mp new) ?_
            rintro rfl
            rw [p.absent c step.possible] at before
            cases before

theorem plain_runs {events : List (Event C)} (runs : behaviour.Runs events p)
    (clean : ∀ e ∈ events, e.Clean) : p.Plain := by
  refine runs.invariant_of clean (fun p start => ?_) fun p e q plain clean => plain_step plain clean
  obtain rfl : p = empty := start
  exact ⟨fun c guest there => (nomatch there), fun c line mem => (nomatch mem)⟩

end Party

namespace TerminalClient

/-- What `main` does with its messages: it calls `receiveServerData`, or adds one of its own. -/
inductive ScreenEvent where
  | server (result : ServerRecv)
  | own (message : Bytes)

def ScreenEvent.bytes : ScreenEvent → Bytes
  | .server result => result.bytes
  | .own _ => []

def ScreenEvent.message? : ScreenEvent → Option Bytes
  | .server _ => none
  | .own message => some message

def showEvent (s : ServerText) : ScreenEvent → ServerText
  | .server result => (receiveServerData result s).2
  | .own message => { s with messages := addMessage s.messages message }

def screen (events : List ScreenEvent) : ServerText := events.foldl showEvent ⟨[], []⟩

theorem takeLines_eq (received : Bytes) : ∃ lines held,
    received = delimited newline lines ++ held ∧ newline ∉ held ∧
      (∀ line ∈ lines, newline ∉ line) ∧
      ∀ done, takeLines ⟨received, lastMessages done⟩ = ⟨held, lastMessages (done ++ lines)⟩ := by
  induction length : received.length using Nat.strong_induction_on generalizing received with
  | h n ih =>
    by_cases found : newline ∈ received
    · obtain ⟨line, rest, rfl, clean⟩ := List.eq_append_cons_of_mem found
      have shorter : rest.length < n := by
        rw [List.length_append, List.length_cons] at length
        omega
      obtain ⟨lines, held, rfl, empty, whole, shows⟩ := ih rest.length shorter rest rfl
      refine ⟨line :: lines, held, by simp, empty, ?_, fun done => ?_⟩
      · rintro other (_ | ⟨_, mem⟩)
        · exact clean
        · exact whole other mem
      · rw [takeLines_line clean, addMessage_lastMessages, shows, List.append_assoc,
          List.singleton_append]
    · refine ⟨[], received, rfl, found, by simp, fun done => ?_⟩
      rw [takeLines_of_not_mem found, List.append_nil]

/-- What has been received and shown so far: `log` has the lines of the server to the left and
the messages of the client to the right. -/
structure Screened (bytes : Bytes) (own : List Bytes) (log : List (Bytes ⊕ Bytes))
    (s : ServerText) : Prop where
  messages : s.messages = lastMessages (log.map (Sum.elim id id))
  own : log.filterMap Sum.getRight? = own
  received : (bytes = s.received ∧ bytes.length < usernamePrompt.length ∧
      log.filterMap Sum.getLeft? = []) ∨
    (bytes = usernamePrompt ++ delimited newline (log.filterMap Sum.getLeft?) ++ s.received ∧
      newline ∉ s.received ∧ ∀ line ∈ log.filterMap Sum.getLeft?, newline ∉ line)

theorem Screened.message {bytes : Bytes} {own : List Bytes} {log : List (Bytes ⊕ Bytes)}
    {s : ServerText} (h : Screened bytes own log s) (message : Bytes) :
    Screened bytes (own ++ [message]) (log ++ [Sum.inr message])
      { s with messages := addMessage s.messages message } where
  messages := by
    rw [h.messages, addMessage_lastMessages, List.map_append]
    rfl
  own := by
    rw [List.filterMap_append, h.own]
    rfl
  received := by
    have same : (log ++ [Sum.inr message]).filterMap Sum.getLeft? = log.filterMap Sum.getLeft? := by
      simp
    rw [same]
    exact h.received

theorem Screened.lines {bytes received : Bytes} {own done : List Bytes}
    {log : List (Bytes ⊕ Bytes)} {messages : List Bytes}
    (shown : messages = lastMessages (log.map (Sum.elim id id)))
    (owned : log.filterMap Sum.getRight? = own)
    (left : log.filterMap Sum.getLeft? = done) (whole : ∀ line ∈ done, newline ∉ line)
    (comes : bytes = usernamePrompt ++ delimited newline done ++ received) :
    ∃ log, Screened bytes own log (takeLines ⟨received, messages⟩) := by
  obtain ⟨lines, held, rfl, clean, whole', shows⟩ := takeLines_eq received
  refine ⟨log ++ lines.map Sum.inl, ?_, ?_, .inr ?_⟩
  · rw [shown, shows, List.map_append]
    simp [Function.comp_def]
  · rw [List.filterMap_append, owned]
    simp [List.filterMap_map, Function.comp_def]
  · have added : (log ++ lines.map Sum.inl).filterMap Sum.getLeft? = done ++ lines := by
      rw [List.filterMap_append, left]
      simp [List.filterMap_map, Function.comp_def]
    rw [added, shown, shows, comes]
    refine ⟨by simp, clean, fun line mem => ?_⟩
    exact (List.mem_append.mp mem).elim (whole line) (whole' line)

section Stream

variable {lines : List Bytes} (others : ∀ line ∈ lines, newline ∉ line ∧ ¬ usernamePrompt <+: line)

include others

theorem Screened.chunk {bytes : Bytes} {own : List Bytes} {log : List (Bytes ⊕ Bytes)}
    {s : ServerText} (h : Screened bytes own log s) {chunk : Bytes} (nonempty : chunk ≠ [])
    (fits : chunk.length ≤ clientBufferSize)
    (comes : bytes ++ chunk <+: usernamePrompt ++ delimited newline lines) :
    ∃ log, Screened (bytes ++ chunk) own log (receiveServerData (.received chunk nonempty fits) s).2 := by
  obtain ⟨received, messages⟩ := s
  obtain ⟨shown, owned, ⟨rfl, -, empty⟩ | ⟨rfl, clean, whole⟩⟩ := h
  · dsimp only at shown comes empty ⊢
    rw [receiveServerData]
    dsimp only
    by_cases short : (bytes ++ chunk).length < usernamePrompt.length
    · have part : (bytes ++ chunk).take usernamePrompt.length ≠ usernamePrompt := by
        intro same
        have length := congrArg List.length same
        rw [List.length_take] at length
        omega
      have clean : newline ∉ bytes ++ chunk := fun mem =>
        newline_not_mem_prompt ((List.prefix_of_prefix_length_le comes
          (List.prefix_append _ _) short.le).subset mem)
      rw [if_neg part, takeLines_of_not_mem clean]
      exact ⟨log, shown, owned, .inl ⟨rfl, short, empty⟩⟩
    · obtain ⟨rest, split⟩ := List.prefix_of_prefix_length_le
        (List.prefix_append usernamePrompt (delimited newline lines)) comes (Nat.le_of_not_lt short)
      rw [← split, List.take_left, if_pos rfl, List.drop_left]
      exact Screened.lines shown owned empty (by simp) (by simp)
  · dsimp only at shown comes clean ⊢
    rw [receiveServerData]
    dsimp only
    have after : delimited newline (log.filterMap Sum.getLeft?) ++ (received ++ chunk) <+:
        delimited newline lines := by
      rw [List.append_assoc, List.append_assoc] at comes
      exact (List.prefix_append_right_inj _).mp comes
    obtain ⟨future, same⟩ := after
    rw [List.append_assoc] at same
    obtain ⟨left, rfl⟩ := prefix_of_delimited whole (fun line mem => (others line mem).1) same
    rw [delimited_append, List.append_cancel_left_eq] at same
    have later : ∀ line ∈ left, newline ∉ line ∧ ¬ usernamePrompt <+: line :=
      fun line mem => others line (List.mem_append_right _ mem)
    rw [if_neg (take_ne_usernamePrompt later same)]
    exact Screened.lines shown owned rfl whole (by simp)

theorem screened_events {events : List ScreenEvent}
    (comes : events.flatMap ScreenEvent.bytes <+: usernamePrompt ++ delimited newline lines) :
    ∃ log, Screened (events.flatMap ScreenEvent.bytes)
      (events.filterMap ScreenEvent.message?) log (screen events) := by
  induction events using List.reverseRecOn with
  | nil => exact ⟨[], rfl, rfl, .inl ⟨rfl, by decide, rfl⟩⟩
  | append_singleton events event ih =>
    rw [List.flatMap_append, List.flatMap_singleton] at comes ⊢
    obtain ⟨log, screened⟩ := ih ((List.prefix_append _ _).trans comes)
    rw [List.filterMap_append, screen, List.foldl_append]
    change ∃ log, Screened _ _ log (showEvent (screen events) event)
    cases event with
    | own message =>
      refine ⟨log ++ [Sum.inr message], ?_⟩
      rw [ScreenEvent.bytes, List.append_nil]
      exact screened.message message
    | server result =>
      have same : events.filterMap ScreenEvent.message? ++
          [ScreenEvent.server result].filterMap ScreenEvent.message? =
            events.filterMap ScreenEvent.message? := by simp [ScreenEvent.message?]
      rw [same]
      cases result with
      | received chunk some fits => exact screened.chunk others some fits comes
      | closed | eintr | error =>
        simp only [ScreenEvent.bytes, ServerRecv.bytes, List.append_nil]
        exact ⟨log, screened⟩

end Stream

end TerminalClient

namespace ChatServer

theorem partyEvent_clean {s : ChatServer} {a : Action} {e : Party.Event Fd}
    (seen : s.partyEvent a = some e) : e.Clean := by
  cases e with
  | arrives c | departs c | expelled c => exact trivial
  | speaks c line =>
    cases a with
    | iteration | load results | answered c' recvs | accept c' results | peerClosed c'
    | recvFailed c' => cases seen
    | write c' =>
      rw [partyEvent] at seen
      split_ifs at seen
      cases seen
    | receive c' chunk =>
      obtain ⟨client, -, seen⟩ := Option.bind_eq_some_iff.mp seen
      split_ifs at seen
      cases seen
    | frame c' framesProcessed =>
      obtain ⟨client, -, seen⟩ := Option.bind_eq_some_iff.mp seen
      cases split : splitFrame client.inputBuffer with
      | none =>
        rw [split] at seen
        dsimp only at seen
        split_ifs at seen
        cases seen
      | some taken =>
        obtain ⟨raw, remaining⟩ := taken
        rw [split] at seen
        dsimp only at seen
        split_ifs at seen
        · cases seen
        · obtain ⟨-, rfl⟩ := Party.Event.speaks.inj (Option.some.inj seen)
          exact newline_not_mem_strip (splitFrame_some split).2

section Screens

variable {listener : Fd} {actions : List Action} (runs : machine.Runs (initial listener) actions)

include runs

theorem party_plain : (party (machine.after (initial listener) actions)).Plain := by
  refine Party.plain_runs (party_runs listener runs) fun e mem => ?_
  obtain ⟨s, a, seen⟩ := Transition.of_mem_observed mem
  exact partyEvent_clean seen

/-- A connection carries the prompt, and then whole lines that do not look like it. -/
theorem stream_lines {fd : Fd}
    (connected : (machine.after (initial listener) actions).clients fd ≠ none) :
    ((machine.after (initial listener) actions).entry fd).stream = usernamePrompt ++ delimited newline
        (((party (machine.after (initial listener) actions)).told fd).tail.flatMap messageLines) ∧
      ∀ line ∈ ((party (machine.after (initial listener) actions)).told fd).tail.flatMap
        messageLines, newline ∉ line ∧ ¬ usernamePrompt <+: line := by
  obtain ⟨client, found⟩ := Option.ne_none_iff_exists'.mp connected
  obtain ⟨whole, plain⟩ := Block.flatten_eq ((party_plain runs).told fd)
  obtain ⟨later, greeted⟩ := (Party.greets_runs (party_runs listener runs) fd _
    (party_guests found)).1
  obtain ⟨rest, told⟩ : ∃ rest,
      (party (machine.after (initial listener) actions)).told fd = prompt :: rest := by
    rw [← greeted]
    cases guestOf _ client <;> exact ⟨_, rfl⟩
  refine ⟨?_, plain⟩
  rw [stream_told ⟨_, ⟨listener, rfl⟩, runs.steps⟩ connected, ← whole, told]
  rfl

end Screens

/-- However the bytes that have come are cut, a terminal has shown the whole lines among them,
each of which the party has told its user, in their order and with its own messages in between.
When all has come, all has been shown. -/
theorem terminal_shows (listener : Fd) {actions : List Action}
    (runs : machine.Runs (initial listener) actions) {fd : Fd}
    (connected : (machine.after (initial listener) actions).clients fd ≠ none)
    {events : List ScreenEvent} (come : events.flatMap ScreenEvent.bytes <+:
      ((machine.after (initial listener) actions).entry fd).stream) :
    ∃ log, Screened (events.flatMap ScreenEvent.bytes) (events.filterMap ScreenEvent.message?) log
        (screen events) ∧
      log.filterMap Sum.getLeft? <+:
        ((party (machine.after (initial listener) actions)).told fd).tail.flatMap messageLines ∧
      (events.flatMap ScreenEvent.bytes =
          ((machine.after (initial listener) actions).entry fd).stream →
        log.filterMap Sum.getLeft? =
          ((party (machine.after (initial listener) actions)).told fd).tail.flatMap
            messageLines) := by
  obtain ⟨stream, plain⟩ := stream_lines runs connected
  rw [stream] at come ⊢
  have whole' := fun line mem => (plain line mem).1
  obtain ⟨log, screened⟩ := screened_events plain come
  refine ⟨log, screened, ?_⟩
  rcases screened.received with ⟨-, short, empty⟩ | ⟨split, clean, whole⟩
  · rw [empty]
    refine ⟨List.nil_prefix, fun all => ?_⟩
    rw [all, List.length_append] at short
    omega
  · rw [split, List.append_assoc] at come ⊢
    obtain ⟨future, same⟩ := (List.prefix_append_right_inj _).mp come
    rw [List.append_assoc] at same
    refine ⟨prefix_of_delimited whole whole' same, fun all => ?_⟩
    rw [List.append_cancel_left_eq, ← List.append_nil (delimited newline (List.flatMap _ _))] at all
    exact (delimited_inj whole whole' clean List.not_mem_nil all).1

def annScreen : List ScreenEvent := [
  .own (ascii "Connected to localhost:1234"),
  .server (.received (ascii "enter your ") (by decide) (by decide)),
  .server .eintr,
  .server (.received (ascii "username: > server: ann") (by decide) (by decide)),
  .own (ascii "Unknown command; use /help"),
  .server (.received (ascii " joined room main-room\n> server: ") (by decide) (by decide))]

theorem terminal_shows_talk : ∃ log,
    Screened (annScreen.flatMap ScreenEvent.bytes)
      [ascii "Connected to localhost:1234", ascii "Unknown command; use /help"] log
      (screen annScreen) ∧
    log.filterMap Sum.getLeft? <+:
      ((party (machine.after (initial 3) talk)).told 4).tail.flatMap messageLines := by
  have runs : machine.Runs (initial 3) talk := by decide +kernel
  have connected : ((machine.after (initial 3) talk).clients 4).isSome = true := by decide +kernel
  have come : annScreen.flatMap ScreenEvent.bytes <+:
      ((machine.after (initial 3) talk).entry 4).stream := by decide +kernel
  obtain ⟨log, screened, told, -⟩ :=
    terminal_shows 3 runs (Option.isSome_iff_ne_none.mp connected) come
  exact ⟨log, screened, told⟩

end ChatServer
end Partyline
