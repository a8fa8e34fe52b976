import Partyline.Invisible

/-! A run with a connection that sends no line, and the run without it. -/
namespace Partyline

open Library

namespace ChatServer

/-- What `accept` promises: each descriptor it returns is closed at the time. -/
def acceptsClosed : List AcceptResult → ChatServer → Prop
  | [], _ => True
  | .eagain :: _, _ => True
  | .error _ :: _, _ => True
  | .eintr :: rest, s => acceptsClosed rest s
  | .connection fd nonblocking added results :: rest, s =>
    s.isOpen fd = false ∧
      acceptsClosed rest (if nonblocking = false ∨ added = false then s else s.acceptClient fd results)

/-- `t` is `s` without the connection on `g`, which has sent no line. -/
structure Apart (g : Fd) (s t : ChatServer) : Prop where
  same : t.hide g = s.hide g
  absent : t.clients g = none
  nameless : Nameless (s.clients g)

namespace Apart

variable {g fd : Fd} {s t : ChatServer} (h : Apart g s t)

include h

theorem listener : t.listener = s.listener := by
  rw [← hide_listener g t, h.same, hide_listener]

theorem clients (ne : fd ≠ g) : t.clients fd = s.clients fd := by
  rw [← hide_clients ne, h.same, hide_clients ne]

theorem ports (ne : fd ≠ g) : t.ports fd = s.ports fd := by
  rw [← hide_ports ne, h.same, hide_ports ne]

theorem blind {f : ChatServer → ChatServer} (blind : Blind g f) :
    Apart g (f s) (f t) ∧ (f s).clients g = s.clients g := by
  have unnamed : Unnamed (t.clients g) := by simp [Unnamed, h.absent]
  have kept := (blind s h.nameless.unnamed).2
  exact ⟨⟨blind.view_eq h.same unnamed h.nameless.unnamed, (blind t unnamed).2.trans h.absent,
    by simpa only [kept] using h.nameless⟩, kept⟩

theorem reunited (results : Results) : t.acceptClient g results = s.acceptClient g results := by
  have whole (u : ChatServer) (record : ClientConnection) (port : Port) :
      (u.setPort g port).setClient g record = ((u.hide g).setPort g port).setClient g record := by
    simp [hide, setClient, setPort]
  obtain ⟨record, port, opened, accepted⟩ := acceptClient_eq s g results
  obtain ⟨record', port', opened', accepted'⟩ := acceptClient_eq t g results
  obtain ⟨rfl, rfl⟩ : record' = record ∧ port' = port := by simpa using opened'.symm.trans opened
  rw [accepted, accepted', whole, h.same, ← whole]

end Apart

theorem acceptConnections_apart {g : Fd} (accepts : List AcceptResult) {s t : ChatServer}
    (h : Apart g s t) (closed : acceptsClosed accepts s) :
    Apart g (acceptConnections accepts s) (acceptConnections accepts t) ∧
        (acceptConnections accepts s).clients g = s.clients g ∨
      s.clients g = none ∧ acceptConnections accepts t = acceptConnections accepts s := by
  induction accepts generalizing s t with
  | nil => exact .inl ⟨h, rfl⟩
  | cons result rest ih =>
    cases result with
    | eagain => exact .inl ⟨h, rfl⟩
    | error errno => exact .inl ⟨h, rfl⟩
    | eintr => exact ih h closed
    | connection fd nonblocking added results =>
      obtain ⟨free, closed⟩ := closed
      have free' : t.isOpen fd = false := by
        by_cases same : fd = g
        · subst same
          have apart : fd ≠ s.listener := by
            rintro rfl
            simp [isOpen] at free
          simp [isOpen, h.absent, h.listener, apart]
        · rw [← free]
          simp only [isOpen, h.listener, h.clients same]
      simp only [acceptConnections, free, free', Bool.false_eq_true, if_false]
      split_ifs at closed ⊢ with failed
      · exact ih h closed
      · by_cases same : fd = g
        · subst same
          have out : s.clients fd = none := by
            simp only [isOpen, Bool.or_eq_false_iff] at free
            simpa using free.2
          exact .inr ⟨out, by rw [h.reunited]⟩
        · obtain ⟨h', kept⟩ := h.blind (acceptClient_blind same results)
          rcases ih h' closed with ⟨rest, kept'⟩ | ⟨out, equal⟩
          · exact .inl ⟨rest, kept'.trans kept⟩
          · exact .inr ⟨kept ▸ out, equal⟩

/-- Between two events, the results that are left over do not matter. -/
def Asunder (g : Fd) (s t : ChatServer) : Prop :=
  ∀ results, Apart g (s.load results) (t.load results)

theorem load_hide (g : Fd) (s : ChatServer) (results : Fd → Results) :
    (s.load results).hide g = ((s.hide g).load results).hide g := by
  simp only [hide, load, ChatServer.mk.injEq, true_and, and_true, Function.update_idem]
  funext fd
  by_cases same : fd = g
  · simp [same]
  · simp [same]

theorem Apart.asunder {g : Fd} {s t : ChatServer} (h : Apart g s t) : Asunder g s t :=
  fun results => ⟨by rw [load_hide, h.same, ← load_hide], h.absent, h.nameless⟩

theorem serve_blind {g fd : Fd} (ne : fd ≠ g) (reads writes : Prop) [Decidable reads]
    [Decidable writes] : Blind g fun s =>
      let s := if reads then s.handleRead fd else s
      if writes ∧ (s.clients fd).isSome then s.handleWrite fd else s := by
  have reading : Blind g fun s => if reads then s.handleRead fd else s := by
    split_ifs
    · exact handleRead_blind ne
    · exact Blind.id
  have writing : Blind g fun s =>
      if writes ∧ (s.clients fd).isSome then s.handleWrite fd else s := by
    intro s quiet
    simp only [hide_clients ne]
    split_ifs
    · exact handleWrite_blind ne s quiet
    · exact ⟨rfl, rfl⟩
  exact reading.comp writing

def Input.concerns (g : Fd) : Input → Bool
  | .iteration => false
  | .event _ ready => ready.fd == g

def Input.closed (s : ChatServer) : Input → Prop
  | .iteration => True
  | .event env ready => ready.fd = s.listener → ready.flags &&& readyRead ≠ 0 →
      acceptsClosed env.accepts (s.load env.results)

theorem handleEvent_absent {g : Fd} {s : ChatServer} (absent : s.clients g = none)
    (apart : g ≠ s.listener) (env : Environment) (flags : UInt32) :
    s.handleEvent env ⟨g, flags⟩ = s.load env.results := by
  have absent' : (s.load env.results).clients g = none := absent
  have apart' : g ≠ (s.load env.results).listener := apart
  simp [handleEvent, apart', handleRead, absent']

/-- What is not an event of the connection that is left out keeps the two apart,
or has them meet where the descriptor is accepted once more. -/
theorem handle_asunder {g : Fd} {s t : ChatServer} (h : Asunder g s t) {input : Input}
    (other : input.concerns g = true → s.clients g = none) (closed : input.closed s) :
    Asunder g (s.handle input) (t.handle input) ∧
        (s.handle input).clients g = s.clients g ∨
      s.clients g = none ∧ t.handle input = s.handle input := by
  cases input with
  | iteration =>
    have begun : Asunder g s.beginServerIteration t.beginServerIteration := fun results =>
      ⟨congrArg beginServerIteration (h results).same, (h results).absent, (h results).nameless⟩
    exact .inl ⟨begun, rfl⟩
  | event env event =>
    obtain ⟨fd, flags⟩ := event
    have loaded := h env.results
    have listener : (t.load env.results).listener = (s.load env.results).listener := loaded.listener
    by_cases listening : fd = s.listener
    · simp only [handle, handleEvent]
      rw [if_pos (show fd = (t.load env.results).listener from listening.trans listener.symm),
        if_pos (show fd = (s.load env.results).listener from listening)]
      by_cases ready : flags &&& readyRead ≠ 0
      · rw [if_pos ready, if_pos ready]
        rcases acceptConnections_apart env.accepts loaded (closed listening ready) with
          ⟨apart, kept⟩ | ⟨out, same⟩
        · exact .inl ⟨apart.asunder, kept⟩
        · exact .inr ⟨out, same⟩
      · rw [if_neg ready, if_neg ready]
        exact .inl ⟨loaded.asunder, rfl⟩
    · have listening' : fd ≠ t.listener := fun same => listening (same.trans listener)
      by_cases same : fd = g
      · subst same
        have absent := other (by simp [Input.concerns])
        have absent' : t.clients fd = none := loaded.absent
        simp only [handle, handleEvent_absent absent listening,
          handleEvent_absent absent' listening']
        exact .inl ⟨loaded.asunder, rfl⟩
      · obtain ⟨apart, kept⟩ := loaded.blind (serve_blind same
          (flags &&& (readyRead ||| readyError) ≠ 0) (flags &&& readyWrite ≠ 0))
        simp only [handle, handleEvent]
        rw [if_neg (show fd ≠ (t.load env.results).listener from listening'),
          if_neg (show fd ≠ (s.load env.results).listener from listening)]
        exact .inl ⟨apart.asunder, kept⟩

/-- What the events of the connection on `g` are while it is open. -/
def Throughout (p : ChatServer → Environment → UInt32 → Prop) (g : Fd) :
    Bool → ChatServer → List Input → Prop
  | _, _, [] => True
  | connected, s, input :: rest =>
    (∀ env flags, connected = true → input = .event env ⟨g, flags⟩ → p s env flags) ∧
      Throughout p g (connected && ((s.handle input).clients g).isSome) (s.handle input) rest

def without (g : Fd) : Bool → ChatServer → List Input → List Input
  | _, _, [] => []
  | connected, s, input :: rest =>
    let rest' := without g (connected && ((s.handle input).clients g).isSome) (s.handle input) rest
    if connected && input.concerns g then rest' else input :: rest'

def Answered (s : ChatServer) (inputs : List Input) : Prop := Along (fun s input => input.closed s) s inputs

/-- It sends nothing that ends a line. -/
def sendsNoLine (g : Fd) (_ : ChatServer) (env : Environment) (_ : UInt32) : Prop :=
  ∀ chunk fits, .received chunk fits ∈ (env.results g).recvs → newline ∉ chunk

/-- Its peer does not turn out to be gone while there is someone in the main room. -/
def leavesUnheard (g : Fd) (s : ChatServer) (env : Environment) (flags : UInt32) : Prop :=
  loud g s env flags → ∀ fd, s.occupancy fd ≠ some 0

/-- The others cannot tell the two servers apart: the rooms are the same, and so
are the records of all clients and what has been done to their sockets. The same
goes for a client that has `g` later. -/
def SameForOthers (g : Fd) (s t : ChatServer) : Prop :=
  t.rooms = s.rooms ∧ ∀ fd, fd ≠ g ∨ t.clients g ≠ none →
    t.clients fd = s.clients fd ∧ (t.ports fd).history = (s.ports fd).history

theorem Asunder.sameForOthers {g : Fd} {s t : ChatServer} (h : Asunder g s t) :
    SameForOthers g s t := by
  have loaded := h fun _ => ⟨[], [], []⟩
  have rooms := congrArg ChatServer.rooms loaded.same
  refine ⟨rooms, fun fd other => ?_⟩
  have ne : fd ≠ g := other.resolve_right fun connected => connected loaded.absent
  have history := congrArg Port.history (loaded.ports ne)
  exact ⟨loaded.clients ne, history⟩

/-- An event of the connection that is left out. -/
theorem handle_ghost {g : Fd} {s t : ChatServer} (h : Asunder g s t) (reachable : Reachable s)
    (connected : s.clients g ≠ none) {env : Environment} {flags : UInt32}
    (silent : sendsNoLine g s env flags) (unheard : leavesUnheard g s env flags) :
    Asunder g (s.handle (.event env ⟨g, flags⟩)) t := by
  obtain ⟨client, found⟩ := Option.ne_none_iff_exists'.mp connected
  have nameless := (h env.results).nameless
  obtain ⟨unseen, still⟩ := handleEvent_unseen (reachable_inv reachable) found
    (found ▸ nameless) silent unheard
  intro results
  refine ⟨?_, (h results).absent, still⟩
  have again : (s.load env.results).load results = s.load results := rfl
  calc (t.load results).hide g
    _ = (s.load results).hide g := (h results).same
    _ = (((s.load env.results).hide g).load results).hide g := by rw [← load_hide, again]
    _ = (((s.handleEvent env ⟨g, flags⟩).hide g).load results).hide g := by rw [unseen]
    _ = ((s.handleEvent env ⟨g, flags⟩).load results).hide g := (load_hide g _ results).symm

theorem run_without {g : Fd} (inputs : List Input) {connected : Bool} {s t : ChatServer}
    (reachable : Reachable s) (answered : Answered s inputs)
    (silent : Throughout (sendsNoLine g) g connected s inputs)
    (unheard : Throughout (leavesUnheard g) g connected s inputs)
    (h : connected = true ∧ s.clients g ≠ none ∧ Asunder g s t ∨
      connected = false ∧ (s.clients g = none ∧ Asunder g s t ∨ t = s)) :
    SameForOthers g (s.run inputs) (t.run (without g connected s inputs)) := by
  induction inputs generalizing connected s t with
  | nil =>
    rcases h with ⟨-, -, h⟩ | ⟨-, ⟨-, h⟩ | rfl⟩
    · exact h.sameForOthers
    · exact h.sameForOthers
    · exact ⟨rfl, fun _ _ => ⟨rfl, rfl⟩⟩
  | cons input rest ih =>
    have next := reachable.steps (handle_steps s input)
    obtain ⟨closed, answered⟩ := answered
    obtain ⟨silent, later⟩ := silent
    obtain ⟨unheard, later'⟩ := unheard
    rcases h with ⟨rfl, still, h⟩ | ⟨rfl, h⟩
    · rw [Bool.true_and] at later later'
      by_cases concerns : input.concerns g = true
      · have left : without g true s (input :: rest) =
            without g ((s.handle input).clients g).isSome (s.handle input) rest := by
          simp [without, concerns]
        rw [left]
        refine ih next answered later later' ?_
        cases input with
        | iteration => simp [Input.concerns] at concerns
        | event env ready =>
          obtain ⟨fd, flags⟩ := ready
          obtain rfl : fd = g := by simpa [Input.concerns] using concerns
          have apart := handle_ghost h reachable still (silent env flags rfl rfl)
            (unheard env flags rfl rfl)
          cases gone : (s.handle (.event env ⟨fd, flags⟩)).clients fd with
          | none => exact .inr ⟨rfl, .inl ⟨rfl, apart⟩⟩
          | some record => exact .inl ⟨rfl, by simp, apart⟩
      · have kept : without g true s (input :: rest) = input ::
            without g ((s.handle input).clients g).isSome (s.handle input) rest := by
          simp [without, concerns]
        rw [kept]
        rcases handle_asunder h (fun here => (concerns here).elim) closed with
          ⟨apart, same⟩ | ⟨gone, -⟩
        · refine ih next answered later later' (.inl ⟨?_, same ▸ still, apart⟩)
          rw [same]
          exact Option.isSome_iff_ne_none.mpr still
        · exact (still gone).elim
    · have kept : without g false s (input :: rest) = input ::
          without g false (s.handle input) rest := by
        simp [without]
      rw [kept]
      refine ih next answered later later' (.inr ⟨rfl, ?_⟩)
      rcases h with ⟨gone, h⟩ | rfl
      · rcases handle_asunder h (fun _ => gone) closed with ⟨apart, same⟩ | ⟨-, met⟩
        · exact .inl ⟨same.trans gone, apart⟩
        · exact .inr met
      · exact .inr rfl

/-- A connection among those that one event of the listening socket brings. -/
structure Arrival where
  fd : Fd
  results : Results
  earlier : List AcceptResult
  later : List AcceptResult
  answers : Fd → Results
  flags : UInt32
  ready : flags &&& readyRead ≠ 0
  reached : ∀ result ∈ earlier, result ≠ .eagain ∧ ∀ errno, result ≠ .error errno

namespace Arrival

variable (a : Arrival) (s : ChatServer)

def input : Input :=
  .event ⟨a.earlier ++ .connection a.fd true true a.results :: a.later, a.answers⟩
    ⟨s.listener, a.flags⟩

def inputWithout : Input := .event ⟨a.earlier ++ a.later, a.answers⟩ ⟨s.listener, a.flags⟩

def connected : Bool :=
  (((acceptConnections a.earlier (s.load a.answers)).acceptClient a.fd a.results).clients
    a.fd).isSome

end Arrival

theorem acceptConnections_append {earlier : List AcceptResult} (rest : List AcceptResult)
    {s : ChatServer}
    (reached : ∀ result ∈ earlier, result ≠ .eagain ∧ ∀ errno, result ≠ .error errno)
    (closed : acceptsClosed (earlier ++ rest) s) :
    acceptsClosed rest (acceptConnections earlier s) ∧ ∀ rest', acceptConnections
      (earlier ++ rest') s = acceptConnections rest' (acceptConnections earlier s) := by
  induction earlier generalizing s with
  | nil => exact ⟨closed, fun _ => rfl⟩
  | cons result earlier ih =>
    have later := ih (s := s) fun result mem => reached result (List.mem_cons_of_mem _ mem)
    cases result with
    | eagain => exact ((reached _ List.mem_cons_self).1 rfl).elim
    | error errno => exact ((reached _ List.mem_cons_self).2 errno rfl).elim
    | eintr => exact later closed
    | connection fd nonblocking added results =>
      obtain ⟨free, closed⟩ := closed
      simp only [List.cons_append, acceptConnections, free, Bool.false_eq_true, if_false]
      split_ifs at closed ⊢ with failed
      · exact later closed
      · exact ih (fun result mem => reached result (List.mem_cons_of_mem _ mem)) closed

theorem arrival_apart {s : ChatServer} (h : Reachable s) (a : Arrival)
    (closed : (a.input s).closed s) :
    a.connected s = true ∧ (s.handle (a.input s)).clients a.fd ≠ none ∧
        Asunder a.fd (s.handle (a.input s)) (s.handle (a.inputWithout s)) ∨
      a.connected s = false ∧ ((s.handle (a.input s)).clients a.fd = none ∧
          Asunder a.fd (s.handle (a.input s)) (s.handle (a.inputWithout s)) ∨
        s.handle (a.inputWithout s) = s.handle (a.input s)) := by
  obtain ⟨free, goes⟩ := acceptConnections_append _ a.reached (closed rfl a.ready)
  have loaded : Reachable (s.load a.answers) := reachable_perform h (.load a.answers) trivial
  have reachable := loaded.steps (acceptConnections_steps a.earlier (s.load a.answers))
  have handled (accepts : List AcceptResult) :
      s.handle (.event ⟨a.earlier ++ accepts, a.answers⟩ ⟨s.listener, a.flags⟩) =
        acceptConnections accepts (acceptConnections a.earlier (s.load a.answers)) := by
    simp only [handle, handleEvent]
    rw [if_pos (show s.listener = (s.load a.answers).listener from rfl), if_pos a.ready, goes]
  simp only [Arrival.input, Arrival.inputWithout, handled, Arrival.connected]
  generalize acceptConnections a.earlier (s.load a.answers) = u at *
  obtain ⟨free, closed⟩ := free
  have out : u.clients a.fd = none := by
    simp only [isOpen, Bool.or_eq_false_iff] at free
    simpa using free.2
  obtain ⟨unseen, fresh⟩ := acceptClient_unseen a.results u
    ((reachable_inv reachable).aside (out ▸ nameless_none))
  have apart : Apart a.fd (u.acceptClient a.fd a.results) u := ⟨unseen.symm, out, fresh⟩
  have taken : acceptConnections (.connection a.fd true true a.results :: a.later) u =
      acceptConnections a.later (u.acceptClient a.fd a.results) := by
    simp [acceptConnections, free]
  rw [taken]
  cases gone : (u.acceptClient a.fd a.results).clients a.fd with
  | none =>
    refine .inr ⟨rfl, ?_⟩
    rcases acceptConnections_apart a.later apart closed with ⟨rest, kept⟩ | ⟨-, same⟩
    · exact .inl ⟨kept.trans gone, rest.asunder⟩
    · exact .inr same
  | some record =>
    rcases acceptConnections_apart a.later apart closed with ⟨rest, kept⟩ | ⟨empty, -⟩
    · exact .inl ⟨rfl, by rw [kept, gone]; simp, rest.asunder⟩
    · simp [gone] at empty

/-- In a run in which a connection comes in, sends nothing that ends a line, and
is not found gone by its peer while someone is in the main room, the others fare
as in the run without it. -/
theorem nameless_unseen {s : ChatServer} (h : Reachable s) (a : Arrival) (after : List Input)
    (answered : Answered s (a.input s :: after))
    (silent : Throughout (sendsNoLine a.fd) a.fd (a.connected s) (s.handle (a.input s)) after)
    (unheard : Throughout (leavesUnheard a.fd) a.fd (a.connected s) (s.handle (a.input s)) after) :
    SameForOthers a.fd (s.run (a.input s :: after)) (s.run (a.inputWithout s ::
      without a.fd (a.connected s) (s.handle (a.input s)) after)) :=
  run_without after (h.steps (handle_steps s (a.input s))) answered.2 silent unheard
    (arrival_apart h a answered.1)

def fourth : Arrival where
  fd := 7
  results := ⟨[], [.accepted 100], []⟩
  earlier := []
  later := []
  answers _ := ⟨[], [], []⟩
  flags := readyRead
  ready := by decide
  reached := by simp

def fourthSends (chunk : Bytes) (fits : chunk.length ≤ maxDataSize) : Input :=
  .event ⟨[], fun fd => ⟨if fd = 7 then [.received chunk fits] else [], [.accepted 100], []⟩⟩
    ⟨7, readyRead⟩

theorem fourth_answered (chunk : Bytes) (fits : chunk.length ≤ maxDataSize) :
    Answered ((initial 3).run crowd) [fourth.input ((initial 3).run crowd), fourthSends chunk fits] := by
  have free : (((initial 3).run crowd).load fourth.answers).isOpen 7 = false := by decide +kernel
  exact ⟨fun _ _ => ⟨free, trivial⟩, fun _ _ => trivial, trivial⟩

theorem fourth_silent {chunk : Bytes} (fits : chunk.length ≤ maxDataSize) (silent : newline ∉ chunk)
    (connected : Bool) (s : ChatServer) :
    Throughout (sendsNoLine 7) 7 connected s [fourthSends chunk fits] := by
  refine ⟨?_, trivial⟩
  rintro _ _ - ⟨⟩ chunk' fits' mem
  obtain rfl : chunk' = chunk := by simpa using mem
  exact silent

theorem fourth_unseen :
    let s := (initial 3).run crowd
    let words := fourthSends (ascii "let me in") (by decide)
    SameForOthers 7 (s.run [fourth.input s, words]) (s.run (fourth.inputWithout s ::
      without 7 (fourth.connected s) (s.handle (fourth.input s)) [words])) := by
  refine nameless_unseen (run_reachable 3 crowd) fourth _ (fourth_answered _ _)
    (fourth_silent _ (by decide) _ _) ⟨?_, trivial⟩
  rintro env flags - ⟨⟩ ⟨client, -, loud⟩
  rcases loud with ⟨-, gone⟩ | ⟨writes, -⟩
  · change silentRead [.received (ascii "let me in") _] client.inputBuffer.length 0 = .gone at gone
    unfold silentRead silentRead at gone
    have words : ascii "let me in" ≠ [] := by decide
    simp only [if_neg words] at gone
    split_ifs at gone
  · exact (writes (by decide)).elim

/-- It closes without having sent anything, and the others are told so. -/
theorem fourth_seen :
    let s := (initial 3).run crowd
    let close := fourthSends [] (by decide)
    let t := s.run (fourth.inputWithout s ::
      without 7 (fourth.connected s) (s.handle (fourth.input s)) [close])
    Reachable s ∧ Answered s [fourth.input s, close] ∧
      Throughout (sendsNoLine 7) 7 (fourth.connected s) (s.handle (fourth.input s)) [close] ∧
      offers ((s.run [fourth.input s, close]).ports 4).history =
        offers (t.ports 4).history ++ [(disconnectedLine [], .immediate)] ∧
      ¬ SameForOthers 7 (s.run [fourth.input s, close]) t := by
  have told : offers ((((initial 3).run crowd).run [fourth.input ((initial 3).run crowd),
        fourthSends [] (by decide)]).ports 4).history =
      offers ((((initial 3).run crowd).run (fourth.inputWithout ((initial 3).run crowd) ::
        without 7 (fourth.connected ((initial 3).run crowd)) (((initial 3).run crowd).handle
          (fourth.input ((initial 3).run crowd))) [fourthSends [] (by decide)])).ports 4).history ++
            [(disconnectedLine [], .immediate)] := by decide +kernel
  refine ⟨run_reachable 3 crowd, fourth_answered _ _, fourth_silent _ (by decide) _ _, told,
    fun same => ?_⟩
  rw [(same.2 4 (.inl (by decide))).2] at told
  simp at told

end ChatServer
end Partyline
