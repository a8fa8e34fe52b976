import Partyline.Healthy
import Partyline.Ordering

/-! How fast a queue empties. An iteration in which a client's socket takes all that it
is given sends what is left of a whole budget, whatever else the server does in it; two
of them empty any queue. -/
namespace Partyline

open Library

/-- `send` never accepts more than it is given. -/
def Effect.honest : Effect → Prop
  | .send _ data accepted => accepted ≤ data.length
  | _ => True

def Honest (port port' : Port) : Prop :=
  ∀ effect ∈ port'.history, effect ∈ port.history ∨ effect.honest

namespace Honest

variable {port port₁ port₂ : Port}

theorem refl (port : Port) : Honest port port := fun _ => .inl

theorem trans (first : Honest port port₁) (rest : Honest port₁ port₂) : Honest port port₂ :=
  fun effect mem => (rest effect mem).elim (first effect) .inr

theorem cons {effect : Effect} (history : port₁.history = effect :: port.history)
    (honest : effect.honest) : Honest port port₁ := by
  intro other mem
  rw [history] at mem
  rcases List.mem_cons.mp mem with rfl | old
  · exact .inr honest
  · exact .inl old

end Honest

theorem appendOutput_honest (client : ClientConnection) (port : Port) (data : Bytes)
    (offset : Nat) : Honest port (appendOutput client port data offset).2.2 := by
  rcases appendOutput_cases client port data offset with ⟨-, -, result⟩ | ⟨-, result⟩
  · have asked : Honest port (port.setWriteInterest true).2 := .cons rfl trivial
    rw [result]
    dsimp only
    split_ifs <;> exact asked.trans (.cons rfl trivial)
  · rw [result]
    exact .cons rfl trivial

theorem queueOutputCommon_honest (serverIteration : Nat) (client : ClientConnection) (port : Port)
    (data : Bytes) : Honest port (queueOutputCommon serverIteration client port data).2.2 := by
  unfold queueOutputCommon
  split_ifs with overflow
  · exact .cons rfl trivial
  generalize clientWriteBudget serverIteration client = refilled
  dsimp only
  split_ifs with fast
  · obtain ⟨written, rest, le, after, -⟩ :=
      port.send_spec serverIteration (data.take refilled.writeBudgetRemaining)
    have sent : Honest port
        (port.send serverIteration (data.take refilled.writeBudgetRemaining)).2 := by
      rw [after]
      exact .cons rfl le
    generalize port.send serverIteration (data.take refilled.writeBudgetRemaining) = reply
      at sent ⊢
    obtain ⟨result, port₁⟩ := reply
    cases result with
    | accepted count =>
      dsimp only
      split_ifs
      · exact sent.trans (.cons rfl trivial)
      · exact sent.trans (.cons rfl trivial)
      · exact sent.trans (appendOutput_honest _ _ _ _)
    | eagain => exact sent.trans (appendOutput_honest _ _ _ _)
    | eintr | error errno => exact sent.trans (.cons rfl trivial)
  · exact appendOutput_honest _ _ _ _

theorem flushLoop_honest (serverIteration : Nat) (sends : List SendResult)
    (client : ClientConnection) (port : Port) :
    Honest port (flushLoop serverIteration sends client port).2.2 := by
  induction sends generalizing client port with
  | nil =>
    unfold flushLoop
    split
    · exact .refl port
    · split_ifs
      · exact .refl port
      · exact .cons rfl (Nat.zero_le _)
  | cons result rest ih =>
    unfold flushLoop
    split
    · exact .refl port
    · split_ifs
      · exact .refl port
      · dsimp only
        cases result with
        | eintr => exact ih client port
        | eagain | error errno => exact .cons rfl (Nat.zero_le _)
        | accepted count =>
          dsimp only
          split_ifs
          · exact .cons rfl (min_le_right _ _)
          all_goals exact (Honest.cons rfl (min_le_right _ _)).trans (ih _ _)

theorem flushOutputCommon_honest (serverIteration : Nat) (client : ClientConnection)
    (port : Port) : Honest port (flushOutputCommon serverIteration client port).2.2 := by
  have loop := flushLoop_honest serverIteration port.sends
    (clientWriteBudget serverIteration client) port
  unfold flushOutputCommon
  generalize flushLoop serverIteration port.sends (clientWriteBudget serverIteration client) port =
    result at loop
  obtain ⟨done, client₁, port₁⟩ := result
  cases done with
  | false => exact loop
  | true =>
    dsimp only
    split_ifs
    · have asked : Honest port₁ (port₁.setWriteInterest false).2 := .cons rfl trivial
      generalize port₁.setWriteInterest false = call at asked
      obtain ⟨ok, port₂⟩ := call
      cases ok <;> exact loop.trans asked
    · exact loop

/-! A flush that the socket takes in full ends with an empty queue or an empty budget. -/

theorem flushLoop_spent (serverIteration : Nat) {sends : List SendResult}
    {client : ClientConnection} {port : Port}
    (takes : ∀ result ∈ sends, ∃ count, result = .accepted count ∧ maxBytesWrittenPerPoll ≤ count)
    (enough : client.writeBudgetRemaining ≤ sends.length)
    (within : client.writeBudgetRemaining ≤ maxBytesWrittenPerPoll) :
    (flushLoop serverIteration sends client port).1 = false ∨
      (flushLoop serverIteration sends client port).2.1.outputQueue = [] ∨
        (flushLoop serverIteration sends client port).2.1.writeBudgetRemaining = 0 := by
  induction sends generalizing client port with
  | nil =>
    have spent : client.writeBudgetRemaining = 0 := Nat.le_zero.mp enough
    unfold flushLoop
    split
    · rename_i empty
      exact .inr (.inl empty)
    · rw [if_pos spent]
      exact .inr (.inr spent)
  | cons result rest ih =>
    obtain ⟨count, rfl, large⟩ := takes result List.mem_cons_self
    rw [List.length_cons] at enough
    unfold flushLoop
    split
    · rename_i empty
      exact .inr (.inl empty)
    · split_ifs with spent
      · exact .inr (.inr spent)
      · dsimp only
        split_ifs with nothing
        · exact .inl rfl
        all_goals
          refine ih (fun result mem => takes result (List.mem_cons_of_mem _ mem)) ?_ ?_
          all_goals
            dsimp only
            omega

theorem flushOutputCommon_spent {serverIteration : Nat} {client : ClientConnection} {port : Port}
    (willing : Willing maxBytesWrittenPerPoll port)
    (within : budgetLeft serverIteration client ≤ maxBytesWrittenPerPoll) :
    (flushOutputCommon serverIteration client port).1 = false ∨
      (flushOutputCommon serverIteration client port).2.1.outputQueue = [] ∨
        budgetLeft serverIteration (flushOutputCommon serverIteration client port).2.1 = 0 := by
  have stamp := clientWriteBudget_stamp serverIteration client
  have current := (flushLoop_spends serverIteration port.sends stamp port).stamp
  rw [stamp, or_self] at current
  have loop := @flushLoop_spent serverIteration port.sends
    (clientWriteBudget serverIteration client) port willing.sends
    (within.trans willing.enough) within
  unfold flushOutputCommon
  generalize flushLoop serverIteration port.sends (clientWriteBudget serverIteration client) port =
    result at loop current
  obtain ⟨done, client₁, port₁⟩ := result
  dsimp only at loop current
  cases done with
  | false => exact .inl rfl
  | true =>
    have spent : client₁.outputQueue = [] ∨ budgetLeft serverIteration client₁ = 0 := by
      rw [budgetLeft_of_stamp current]
      exact loop.resolve_left (by simp)
    dsimp only
    split_ifs
    · generalize port₁.setWriteInterest false = call
      obtain ⟨ok, port₂⟩ := call
      cases ok with
      | false => exact .inl rfl
      | true =>
        have kept : budgetLeft serverIteration { client₁ with writeInterestEnabled := false } =
            budgetLeft serverIteration client₁ := budgetLeft_congr rfl rfl
        refine .inr ?_
        dsimp only
        rwa [kept]
    · exact .inr spent

namespace Entry

variable {serverIteration : Nat} {e e' : Entry}

theorem closed_honest (e : Entry) (reason : String) : Honest e.port (e.closed reason).port := by
  unfold closed
  split
  · exact .refl _
  · exact .cons rfl trivial

theorem Evolves.honest (h : Evolves serverIteration e e') : Honest e.port e'.port := by
  induction h with
  | refl e => exact .refl e.port
  | trans _ _ ih₁ ih₂ => exact ih₁.trans ih₂
  | answered e results => exact .refl e.port
  | closed e reason => exact e.closed_honest reason
  | offered e data reason =>
    cases found : e.client with
    | none =>
      rw [offered_none found]
      exact .refl e.port
    | some record =>
      have asked := queueOutputCommon_honest serverIteration record e.port data
      simp only [Entry.offered, found]
      generalize queueOutputCommon serverIteration record e.port data = result at asked ⊢
      obtain ⟨queued, record', port⟩ := result
      cases queued with
      | true => exact asked
      | false => exact asked.trans (closed_honest _ reason)
  | moved e roomId => exact .refl e.port
  | noted | erased | loggedIn => exact .cons rfl trivial
  | flushed e =>
    cases found : e.client with
    | none =>
      simp only [Entry.flushed, found]
      exact .refl e.port
    | some record =>
      simp only [Entry.flushed, found]
      exact flushOutputCommon_honest serverIteration record e.port

/-- What was sent in the iteration and what is left of its budget make up the budget. -/
def Balanced (serverIteration : Nat) (e : Entry) : Prop :=
  ∀ record, e.client = some record →
    acceptedIn serverIteration e.port.history + budgetLeft serverIteration record =
      maxBytesWrittenPerPoll

namespace Balanced

theorem spent (h : Balanced serverIteration e) {record record' : ClientConnection} {port : Port}
    (found : e.client = some record) (spends : Spends serverIteration record e.port record' port) :
    Balanced serverIteration ⟨some record', port⟩ := by
  rintro _ ⟨⟩
  exact spends.balance.trans (h record found)

theorem closed (e : Entry) (reason : String) : Balanced serverIteration (e.closed reason) := by
  intro record found
  rw [closed_client] at found
  exact absurd found nofun

theorem evolves (h : Balanced serverIteration e) (evolves : Evolves serverIteration e e') :
    Balanced serverIteration e' := by
  induction evolves with
  | refl => exact h
  | trans _ _ ih₁ ih₂ => exact ih₂ (ih₁ h)
  | answered => exact h
  | closed e reason => exact closed e reason
  | offered e data reason =>
    cases found : e.client with
    | none => rwa [offered_none found]
    | some record =>
      have spent := h.spent found (queueOutputCommon_spends serverIteration record e.port data)
      simp only [Entry.offered, found]
      generalize queueOutputCommon serverIteration record e.port data = result at spent ⊢
      obtain ⟨queued, record', port⟩ := result
      cases queued with
      | true => exact spent
      | false => exact closed _ reason
  | moved e roomId =>
    intro record found
    obtain ⟨old, found', rfl⟩ := Option.map_eq_some_iff.mp found
    have same : budgetLeft serverIteration { old with currRoom := roomId } =
        budgetLeft serverIteration old := budgetLeft_congr rfl rfl
    rw [same]
    exact h old found'
  | noted found => exact h.spent found (.silent [_] rfl (by simp) rfl rfl)
  | erased found => exact h.spent found (.silent [_] rfl (by simp) rfl rfl)
  | loggedIn found => exact h.spent found (.silent [_] rfl (by simp) rfl rfl)
  | flushed e =>
    cases found : e.client with
    | none => simpa [Entry.flushed, found] using h
    | some record =>
      simp only [Entry.flushed, found]
      exact h.spent found (flushOutputCommon_spends serverIteration record e.port)

end Balanced

end Entry

theorem length_unsent (queue : List PendingWrite) : (unsent queue).length = pendingBytes queue := by
  simp [unsent, pendingBytes, List.length_flatMap]

theorem sentBytes_prefix {history history' : List Effect} (grown : history <:+ history') :
    sentBytes history <+: sentBytes history' := by
  obtain ⟨new, rfl⟩ := grown
  exact ⟨sentBytes new, by simp [sentBytes]⟩

theorem acceptedIn_le_sentBytes (iteration : Nat) {history : List Effect}
    (honest : ∀ effect ∈ history, effect.honest) :
    acceptedIn iteration history ≤ (sentBytes history).length := by
  induction history with
  | nil => exact Nat.zero_le _
  | cons effect history ih =>
    have rest := ih fun other mem => honest other (List.mem_cons_of_mem _ mem)
    have own := honest effect List.mem_cons_self
    rw [acceptedIn_cons, sentBytes_cons, List.length_append]
    cases effect with
    | send stamp data accepted =>
      have all : (data.take accepted).length = accepted := List.length_take_of_le own
      simp only [Effect.acceptedIn, Effect.sentBytes, all]
      split_ifs <;> omega
    | _ => simpa using rest

namespace ChatServer

def Action.keeps (fd : Fd) (a : Action) : Prop := ∀ results, a ≠ .accept fd results

/-- What goes on while a connection lasts. -/
abbrev keeping (fd : Fd) : Transition ChatServer Action := machine.restrict (Action.keeps fd)

/-- What goes on in one iteration while a connection lasts. -/
abbrev serving (fd : Fd) : Transition ChatServer Action :=
  machine.restrict fun a => Action.keeps fd a ∧ a ≠ .iteration

section Runs

variable {s t : ChatServer} {fd : Fd}

theorem keeping_grows (h : Reachable s) (path : (keeping fd).Steps s t) :
    (s.ports fd).history <:+ (t.ports fd).history ∧ (s.clients fd = none → t.clients fd = none) := by
  induction path with
  | refl s => exact ⟨List.suffix_refl _, id⟩
  | cons a enabled _ ih =>
    have evolves := perform_evolves (reachable_inv h).rooms enabled.2 enabled.1
    obtain ⟨grown, gone⟩ := ih (reachable_perform h a enabled.2)
    exact ⟨evolves.history.trans grown, fun missing => gone (evolves.gone missing)⟩

theorem serving_evolves (h : Reachable s) (path : (serving fd).Steps s t) :
    Entry.Evolves s.serverIteration (s.entry fd) (t.entry fd) ∧
      t.serverIteration = s.serverIteration := by
  induction path with
  | refl s => exact ⟨.refl _, rfl⟩
  | cons a enabled _ ih =>
    have rooms := (reachable_inv h).rooms
    have first := perform_evolves rooms enabled.2 enabled.1.1
    have same := perform_serverIteration rooms enabled.2 enabled.1.2
    obtain ⟨rest, later⟩ := ih (reachable_perform h a enabled.2)
    exact ⟨first.trans (same ▸ rest), later.trans same⟩

theorem perform_honest (h : Reachable s) {a : Action} (enabled : a.enabled s)
    (honest : ∀ effect ∈ (s.ports fd).history, effect.honest) :
    ∀ effect ∈ ((a.perform s).ports fd).history, effect.honest := by
  intro effect mem
  by_cases own : ∃ results, a = .accept fd results
  · obtain ⟨results, rfl⟩ := own
    have entries := (acceptClient_performs enabled results).entries fd
    rw [only_self] at entries
    have prompted := (@Entry.Evolves.offered s.serverIteration (Entry.opened results) prompt
      "username prompt output queue overflow").honest
    rw [← entries] at prompted
    exact (prompted effect mem).resolve_left List.not_mem_nil
  · have evolves := perform_evolves (reachable_inv h).rooms enabled fun results same =>
      own ⟨results, same⟩
    exact (evolves.honest effect mem).elim (honest effect) id

theorem reachable_honest (h : Reachable s) (fd : Fd) :
    ∀ effect ∈ (s.ports fd).history, effect.honest := by
  refine h.invariant_of (fun _ => id) ?_ fun s a reachable ih enabled =>
    perform_honest reachable enabled ih
  rintro _ ⟨listener, rfl⟩
  exact fun effect mem => absurd mem List.not_mem_nil

/-! One iteration in which the client's socket is found writable and takes all it is given. -/

structure Round (fd : Fd) (s t : ChatServer) : Prop where
  flushed : ∃ u, (serving fd).Steps s.beginServerIteration u ∧ u.clients fd ≠ none ∧
    Willing maxBytesWrittenPerPoll (u.ports fd) ∧ (serving fd).Steps (u.handleWrite fd) t

theorem begun_balanced (h : Reachable s) (fd : Fd) :
    Entry.Balanced (s.serverIteration + 1) (s.entry fd) := by
  intro record found
  obtain ⟨stamp, -⟩ := (reachable_budgeted h fd).left record found
  rw [(reachable_budgeted h fd).past _ (Nat.lt_succ_self _), Nat.zero_add]
  exact budgetLeft_of_old (by omega)

theorem handleWrite_spent (h : Reachable s)
    (balanced : Entry.Balanced s.serverIteration (s.entry fd))
    (willing : Willing maxBytesWrittenPerPoll (s.ports fd)) (there : s.clients fd ≠ none)
    {record : ClientConnection} (stays : (s.handleWrite fd).clients fd = some record) :
    record.outputQueue = [] ∨ acceptedIn s.serverIteration ((s.handleWrite fd).ports fd).history =
      maxBytesWrittenPerPoll := by
  obtain ⟨client, found⟩ := Option.ne_none_iff_exists'.mp there
  have entries := (handleWrite_performs (reachable_inv h).rooms found).1.entries fd
  have survived : (s.entry fd).flushes s.serverIteration = true := by
    by_contra failed
    rw [if_neg failed, if_pos rfl] at entries
    have gone := congrArg Entry.client entries
    rw [Entry.closed_client, entry_client, stays] at gone
    exact absurd gone nofun
  rw [if_pos survived, only_self] at entries
  have after := balanced.evolves (.flushed (s.entry fd))
  rw [← entries] at after
  have balance := after record stays
  have within : budgetLeft s.serverIteration client ≤ maxBytesWrittenPerPoll := by
    have before := balanced client found
    omega
  have spent := @flushOutputCommon_spent s.serverIteration client (s.ports fd) willing within
  simp only [Entry.flushes, Entry.flushed, entry_client, entry_port, found] at survived entries
  have same : record = (flushOutputCommon s.serverIteration client (s.ports fd)).2.1 :=
    Option.some.inj (stays.symm.trans (congrArg Entry.client entries))
  rcases spent.resolve_left (by simp [survived]) with empty | nothing
  · exact .inl (same ▸ empty)
  · rw [← same] at nothing
    exact .inr (by rwa [nothing] at balance)

theorem keeping_of_serving (path : (serving fd).Steps s t) : (keeping fd).Steps s t := by
  induction path with
  | refl s => exact .refl s
  | cons a enabled _ ih => exact .cons a ⟨enabled.1.1, enabled.2⟩ ih

theorem Round.keeps (round : Round fd s t) : (keeping fd).Steps s t := by
  obtain ⟨u, before, there, -, after⟩ := round.flushed
  have begins : (keeping fd).enabled .iteration s := ⟨fun _ => nofun, trivial⟩
  have writes : (keeping fd).enabled (.write fd) u := ⟨fun _ => nofun, there⟩
  exact .cons .iteration begins
    ((keeping_of_serving before).trans (.cons (.write fd) writes (keeping_of_serving after)))

theorem keeping_stream (h : Reachable s) (path : (keeping fd).Steps s t)
    (stays : t.clients fd ≠ none) : s.clients fd ≠ none ∧
      (s.entry fd).stream <+: (t.entry fd).stream ∧
      sentBytes (s.ports fd).history <+: sentBytes (t.ports fd).history := by
  obtain ⟨grown, gone⟩ := keeping_grows h path
  have connected : s.clients fd ≠ none := fun missing => stays (gone missing)
  refine ⟨connected, ?_, sentBytes_prefix grown⟩
  rw [stream_eq h connected, stream_eq (h.steps path.of_restrict) stays]
  exact offeredBytes_prefix grown

theorem sent_prefix_stream (s : ChatServer) (fd : Fd) :
    sentBytes (s.ports fd).history <+: (s.entry fd).stream := by
  rw [Entry.stream]
  split
  · exact List.prefix_rfl
  · exact List.prefix_append _ _

theorem sent_since {iteration : Nat} {history history' : List Effect}
    (grown : history <:+ history') (honest : ∀ effect ∈ history', effect.honest)
    (fresh : acceptedIn iteration history = 0) :
    (sentBytes history).length + acceptedIn iteration history' ≤ (sentBytes history').length := by
  obtain ⟨new, rfl⟩ := grown
  have since := acceptedIn_le_sentBytes iteration fun effect mem =>
    honest effect (List.mem_append_left history mem)
  have total : acceptedIn iteration (new ++ history) = acceptedIn iteration new := by
    rw [← Nat.add_zero (acceptedIn iteration new), ← fresh]
    simp [acceptedIn]
  have sent : sentBytes (new ++ history) = sentBytes history ++ sentBytes new := by
    simp [sentBytes]
  rw [total, sent, List.length_append]
  omega

/-- One round sends a budget's worth of what was queued before it, or all of it. -/
theorem round_sends (h : Reachable s) (round : Round fd s t) (stays : t.clients fd ≠ none) :
    (s.entry fd).stream.take ((sentBytes (s.ports fd).history).length + maxBytesWrittenPerPoll) <+:
      sentBytes (t.ports fd).history := by
  obtain ⟨u, before, there, willing, after⟩ := round.flushed
  have begun : Reachable s.beginServerIteration := reachable_perform h .iteration trivial
  have reachable : Reachable u := begun.steps before.of_restrict
  have flushed : Reachable (u.handleWrite fd) := reachable_perform reachable (.write fd) there
  obtain ⟨evolves, same⟩ := serving_evolves begun before
  obtain ⟨connected, -, later⟩ := keeping_stream flushed (keeping_of_serving after) stays
  refine List.IsPrefix.trans ?_ later
  have through : (keeping fd).Steps s (u.handleWrite fd) :=
    Round.keeps ⟨u, before, there, willing, .refl _⟩
  obtain ⟨-, stream, -⟩ := keeping_stream h through connected
  have balanced : Entry.Balanced u.serverIteration (u.entry fd) := by
    rw [same]
    exact (begun_balanced h fd).evolves evolves
  obtain ⟨record, found⟩ := Option.ne_none_iff_exists'.mp connected
  rcases handleWrite_spent reachable balanced willing there found with empty | spent
  · have all : ((u.handleWrite fd).entry fd).stream =
        sentBytes ((u.handleWrite fd).ports fd).history := by
      simp [Entry.stream, found, empty, unsent]
    exact (List.take_prefix _ _).trans (all ▸ stream)
  · have fresh : acceptedIn u.serverIteration (s.ports fd).history = 0 := by
      rw [same]
      exact (reachable_budgeted h fd).past _ (Nat.lt_succ_self _)
    have much := sent_since (keeping_grows h through).1 (reachable_honest flushed fd) fresh
    rw [spent] at much
    refine List.prefix_of_prefix_length_le ((List.take_prefix _ _).trans stream)
      (sent_prefix_stream _ fd) ?_
    exact (List.length_take_le _ _).trans much

/-- `k` rounds, with anything else before, between and after them. -/
inductive Rounds (fd : Fd) : Nat → ChatServer → ChatServer → Prop where
  | start {s t : ChatServer} (path : (keeping fd).Steps s t) : Rounds fd 0 s t
  | next {k : Nat} {s t u v : ChatServer} (rounds : Rounds fd k s t) (round : Round fd t u)
      (path : (keeping fd).Steps u v) : Rounds fd (k + 1) s v

theorem Rounds.keeps {k : Nat} (rounds : Rounds fd k s t) : (keeping fd).Steps s t := by
  induction rounds with
  | start path => exact path
  | next _ round path ih => exact ih.trans (round.keeps.trans path)

theorem rounds_send (h : Reachable s) {k : Nat} (rounds : Rounds fd k s t)
    (stays : t.clients fd ≠ none) :
    (s.entry fd).stream.take
        ((sentBytes (s.ports fd).history).length + k * maxBytesWrittenPerPoll) <+:
      sentBytes (t.ports fd).history := by
  induction rounds with
  | @start s t path =>
    obtain ⟨-, -, sent⟩ := keeping_stream h path stays
    rw [Nat.zero_mul, Nat.add_zero,
      ← (List.prefix_iff_eq_take.mp (sent_prefix_stream s fd))]
    exact sent
  | @next k s t u v rounds round path ih =>
    have reachable := h.steps rounds.keeps.of_restrict
    obtain ⟨there, -, later⟩ :=
      keeping_stream (reachable.steps round.keeps.of_restrict) path stays
    obtain ⟨connected, -, -⟩ := keeping_stream reachable round.keeps there
    obtain ⟨-, stream, -⟩ := keeping_stream h rounds.keeps connected
    have before := (ih h connected).length_le
    refine List.IsPrefix.trans ?_ ((round_sends reachable round there).trans later)
    refine List.prefix_of_prefix_length_le ((List.take_prefix _ _).trans stream)
      (List.take_prefix _ _) ?_
    have whole := stream.length_le
    rw [List.length_take] at before ⊢
    rw [List.length_take, Nat.add_mul, Nat.one_mul]
    omega

/-- No client that its socket keeps up with waits for its messages: in `k` iterations that
find it writable, the next `k` budgets of what waited have been sent, in order and whatever
else has happened, and two of them send all of it. -/
theorem queue_drains (h : Reachable s) {k : Nat} (rounds : Rounds fd k s t)
    (stays : t.clients fd ≠ none) :
    (s.entry fd).stream.take
        ((sentBytes (s.ports fd).history).length + k * maxBytesWrittenPerPoll) <+:
      sentBytes (t.ports fd).history ∧
    (2 ≤ k → (s.entry fd).stream <+: sentBytes (t.ports fd).history) := by
  have sent := rounds_send h rounds stays
  refine ⟨sent, fun twice => ?_⟩
  obtain ⟨connected, -, -⟩ := keeping_stream h rounds.keeps stays
  obtain ⟨client, found⟩ := Option.ne_none_iff_exists'.mp connected
  have output := ((reachable_inv h).entries fd).output client found
  have waiting : (unsent client.outputQueue).length ≤ maxPendingOutputBytes := by
    rw [length_unsent]
    exact output.size ▸ output.bounded
  have budgets : 2 * maxBytesWrittenPerPoll ≤ k * maxBytesWrittenPerPoll :=
    Nat.mul_le_mul_right _ twice
  have all : (s.entry fd).stream.length ≤
      (sentBytes (s.ports fd).history).length + k * maxBytesWrittenPerPoll := by
    simp only [Entry.stream, entry_client, found, entry_port, List.length_append]
    simp only [maxPendingOutputBytes, maxBytesWrittenPerPoll] at waiting budgets ⊢
    omega
  rwa [List.take_of_length_le all] at sent

end Runs

def waiting : ChatServer := machine.after (initial 3) [.accept 4 ⟨[], [], []⟩]

def takingAll : Results :=
  ⟨[], List.replicate maxBytesWrittenPerPoll (.accepted maxBytesWrittenPerPoll), []⟩

def writable (s : ChatServer) : ChatServer :=
  (s.beginServerIteration.load fun _ => takingAll).handleWrite 4

theorem writable_round {s : ChatServer} (there : s.clients 4 ≠ none)
    (registered : (s.ports 4).writeInterest.isSome = true) : Round 4 s (writable s) := by
  have loads : (serving 4).enabled (.load fun _ => takingAll) s.beginServerIteration :=
    ⟨⟨fun _ => nofun, nofun⟩, trivial⟩
  refine ⟨s.beginServerIteration.load fun _ => takingAll, .cons _ loads (.refl _), there, ?_,
    .refl _⟩
  refine ⟨fun result mem => ?_, ?_, registered⟩
  · exact ⟨maxBytesWrittenPerPoll, List.eq_of_mem_replicate mem, le_rfl⟩
  · exact (List.length_replicate ..).ge

theorem waiting_drains :
    (waiting.entry 4).stream.take
        ((sentBytes (waiting.ports 4).history).length + 2 * maxBytesWrittenPerPoll) <+:
      sentBytes ((writable (writable waiting)).ports 4).history ∧
    (2 ≤ 2 → (waiting.entry 4).stream <+:
      sentBytes ((writable (writable waiting)).ports 4).history) := by
  have runs : machine.Runs (initial 3) [.accept 4 ⟨[], [], []⟩] := by decide +kernel
  have first : Round 4 waiting (writable waiting) :=
    writable_round (by decide +kernel) (by decide +kernel)
  have second : Round 4 (writable waiting) (writable (writable waiting)) :=
    writable_round (by decide +kernel) (by decide +kernel)
  exact queue_drains ⟨initial 3, ⟨3, rfl⟩, runs.steps⟩
    (.next (.next (.start (.refl _)) first (.refl _)) second (.refl _)) (by decide +kernel)

example : sentBytes (waiting.ports 4).history = [] ∧
    sentBytes ((writable waiting).ports 4).history = prompt := by decide +kernel

end ChatServer
end Partyline
