import Partyline.Evolution
import Partyline.Requests

/-! The order of chat lines in the streams of their recipients. A line enters the
stream of everyone who accepts it in the one step that takes it from its sender,
and what is in a stream stays where it is. -/
namespace Partyline

open Library

/-- The bytes sent on a connection, and then those that wait to be sent. -/
def Entry.stream (e : Entry) : Bytes :=
  match e.client with
  | none => sentBytes e.port.history
  | some client => sentBytes e.port.history ++ unsent client.outputQueue

theorem offers_prefix {history history' : List Effect} (grown : history <:+ history') :
    offers history <+: offers history' := by
  obtain ⟨new, rfl⟩ := grown
  exact ⟨offers new, by simp [offers]⟩

theorem offeredBytes_prefix {history history' : List Effect} (grown : history <:+ history') :
    offeredBytes history <+: offeredBytes history' := by
  obtain ⟨new, more⟩ := offers_prefix grown
  exact ⟨new.flatMap Prod.fst, by simp [offeredBytes, ← more]⟩

namespace ChatServer

theorem stream_eq {s : ChatServer} (h : Reachable s) {fd : Fd} (connected : s.clients fd ≠ none) :
    (s.entry fd).stream = offeredBytes (s.ports fd).history := by
  obtain ⟨client, found⟩ := Option.ne_none_iff_exists'.mp connected
  have output := ((reachable_inv h).entries fd).output client found
  simp only [Entry.stream, entry_client, found]
  simpa using output.stream

section Run

variable (listener : Fd) (actions : List Action)

def stateAt (k : Nat) : ChatServer := machine.after (initial listener) (actions.take k)

/-- The `k`-th action takes a chat line, and `fd`, another than its sender, accepts it. -/
def Heard (k : Nat) (line : Bytes) (fd : Fd) : Prop :=
  ∃ sender client framesProcessed raw remaining words outcome,
    actions[k]? = some (.frame sender framesProcessed) ∧ fd ≠ sender ∧
      (stateAt listener actions k).clients sender = some client ∧ client.clientState = .active ∧
      splitFrame client.inputBuffer = some (raw, remaining) ∧
      (stateAt listener actions k).request client (stripCarriageReturn raw) = .chat words ∧
      line = chatLine client.username words ∧ outcome ≠ .rejected ∧
      offers ((stateAt listener actions (k + 1)).ports fd).history =
        offers ((stateAt listener actions k).ports fd).history ++ [(line, outcome)]

/-- The client stays connected from before the `i`-th action until after the `n`-th. -/
def Lives (fd : Fd) (i n : Nat) : Prop :=
  ∀ k, i ≤ k → k ≤ n → (stateAt listener actions k).clients fd ≠ none

/-- In the stream that the client has after `n` actions, the line of the `i`-th comes
before the line of the `j`-th. -/
def Precedes (fd : Fd) (i j : Nat) (first second : Bytes) (n : Nat) : Prop :=
  ∃ between rest,
    ((stateAt listener actions j).entry fd).stream =
        ((stateAt listener actions i).entry fd).stream ++ first ++ between ∧
      ((stateAt listener actions n).entry fd).stream =
        ((stateAt listener actions j).entry fd).stream ++ second ++ rest

end Run

section OneOrder

variable {listener : Fd} {actions : List Action} (runs : machine.Runs (initial listener) actions)
  {fd : Fd} {i j n : Nat} {line first second : Bytes}

include runs

theorem stateAt_reachable (k : Nat) : Reachable (stateAt listener actions k) :=
  ⟨initial listener, ⟨listener, rfl⟩, (runs.take k).steps⟩

theorem stream_grows (lives : Lives listener actions fd i n) (le : i ≤ n) :
    ((stateAt listener actions i).entry fd).stream <+:
      ((stateAt listener actions n).entry fd).stream := by
  induction n with
  | zero =>
    obtain rfl : i = 0 := by omega
    exact List.prefix_refl _
  | succ n ih =>
    by_cases same : i = n + 1
    · subst same
      exact List.prefix_refl _
    have before := ih (fun k ge le => lives k ge (by omega)) (by omega)
    refine before.trans ?_
    cases turn : actions[n]? with
    | none =>
      have still : stateAt listener actions (n + 1) = stateAt listener actions n := by
        simp [stateAt, List.take_add_one, turn]
      simp only [still, List.prefix_refl]
    | some a =>
      have next : stateAt listener actions (n + 1) = a.perform (stateAt listener actions n) :=
        Transition.after_take_succ _ turn
      have enabled : a.enabled (stateAt listener actions n) := runs.enabled turn
      have connected := lives n (by omega) (by omega)
      have old : ∀ results, a ≠ .accept fd results := by
        rintro results rfl
        simp_all [Action.enabled, isOpen]
      have grown := (perform_evolves (reachable_inv (stateAt_reachable runs n)).rooms enabled
        old).history
      rw [stream_eq (stateAt_reachable runs n) connected,
        stream_eq (stateAt_reachable runs (n + 1)) (lives (n + 1) (by omega) le_rfl), next]
      exact offeredBytes_prefix grown

theorem Heard.stream (heard : Heard listener actions i line fd)
    (lives : Lives listener actions fd i (i + 1)) :
    ((stateAt listener actions (i + 1)).entry fd).stream =
      ((stateAt listener actions i).entry fd).stream ++ line := by
  obtain ⟨-, -, -, -, -, -, outcome, -, -, -, -, -, -, -, -, added⟩ := heard
  rw [stream_eq (stateAt_reachable runs i) (lives i le_rfl (by omega)),
    stream_eq (stateAt_reachable runs (i + 1)) (lives (i + 1) (by omega) le_rfl)]
  simp [offeredBytes, added]

theorem rooms_one_order {a b : Fd}
    (firstA : Heard listener actions i first a) (firstB : Heard listener actions i first b)
    (secondB : Heard listener actions j second b)
    {m : Nat} (livesA : Lives listener actions a (min i j) m)
    (livesB : Lives listener actions b (min i j) n) (m_gt : max i j < m) (n_gt : max i j < n) :
    Precedes listener actions a i j first second m →
      Precedes listener actions b i j first second n := by
  rintro ⟨between, rest, there, -⟩
  have some_bytes : first ≠ [] := by
    obtain ⟨-, client, -, -, -, words, -, -, -, -, -, -, -, rfl, -⟩ := firstA
    simp [chatLine, ascii]
  -- in the stream of `a` the second line starts after the first, so it was heard later
  have earlier : i < j := by
    by_contra later
    have shorter := (stream_grows runs (fun k ge le => livesA k (by omega) (by omega))
      (Nat.le_of_not_lt later)).length_le
    have longer : 0 < first.length := List.length_pos_iff.mpr some_bytes
    rw [there] at shorter
    simp only [List.length_append] at shorter
    omega
  obtain ⟨between', grown⟩ := stream_grows (i := i + 1) (n := j) runs
    (fun k ge le => livesB k (by omega) (by omega)) earlier
  obtain ⟨rest', final⟩ := stream_grows (i := j + 1) (n := n) runs
    (fun k ge le => livesB k (by omega) (by omega)) (by omega)
  refine ⟨between', rest', ?_, ?_⟩
  · rw [← grown, firstB.stream runs fun k ge le => livesB k (by omega) (by omega)]
  · rw [← final, secondB.stream runs fun k ge le => livesB k (by omega) (by omega)]

end OneOrder

def talk : List Action :=
  let results : Results := ⟨[], List.replicate 8 (.accepted 100), []⟩
  [.accept 4 results, .accept 5 results, .accept 6 results,
    .receive 4 (ascii "ann\n"), .frame 4 0, .receive 5 (ascii "bob\n"), .frame 5 0,
    .receive 6 (ascii "cat\nhi\nyo\n"), .frame 6 0, .frame 6 0, .frame 6 1]

theorem talk_heard {k : Nat} {fd : Fd} (framesProcessed : Nat) (raw remaining : Bytes)
    {words : List Bytes} (turn : talk[k]? = some (.frame 6 framesProcessed)) (ne : fd ≠ 6)
    (read : ((stateAt 3 talk k).clients 6).map (fun client => (client.clientState,
        splitFrame client.inputBuffer, (stateAt 3 talk k).request client (stripCarriageReturn raw),
        client.username)) = some (.active, some (raw, remaining), .chat words, ascii "cat"))
    (added : offers ((stateAt 3 talk (k + 1)).ports fd).history =
      offers ((stateAt 3 talk k).ports fd).history ++
        [(chatLine (ascii "cat") words, .immediate)]) :
    Heard 3 talk k (chatLine (ascii "cat") words) fd := by
  obtain ⟨client, found, same⟩ := Option.map_eq_some_iff.mp read
  simp only [Prod.mk.injEq] at same
  obtain ⟨active, split, asked, named⟩ := same
  exact ⟨6, client, framesProcessed, raw, remaining, words, .immediate, turn, ne, found, active,
    split, asked, by rw [named], by decide, added⟩

theorem talk_one_order : Precedes 3 talk 5 9 10 (chatLine (ascii "cat") [ascii "hi"])
    (chatLine (ascii "cat") [ascii "yo"]) 11 := by
  have runs : machine.Runs (initial 3) talk := by decide +kernel
  have firstA : Heard 3 talk 9 (chatLine (ascii "cat") [ascii "hi"]) 4 :=
    talk_heard 0 (ascii "hi") (ascii "yo\n") rfl (by decide) (by decide +kernel) (by decide +kernel)
  have firstB : Heard 3 talk 9 (chatLine (ascii "cat") [ascii "hi"]) 5 :=
    talk_heard 0 (ascii "hi") (ascii "yo\n") rfl (by decide) (by decide +kernel) (by decide +kernel)
  have secondB : Heard 3 talk 10 (chatLine (ascii "cat") [ascii "yo"]) 5 :=
    talk_heard 1 (ascii "yo") [] rfl (by decide) (by decide +kernel) (by decide +kernel)
  have lives : ∀ fd ∈ [4, 5], ∀ k ≤ 11, 9 ≤ k → (stateAt 3 talk k).clients fd ≠ none := by
    decide +kernel
  have there : Precedes 3 talk 4 9 10 (chatLine (ascii "cat") [ascii "hi"])
      (chatLine (ascii "cat") [ascii "yo"]) 11 :=
    ⟨[], [], by decide +kernel, by decide +kernel⟩
  exact rooms_one_order runs firstA firstB secondB (fun k ge le => lives 4 (by decide) k le ge)
    (fun k ge le => lives 5 (by decide) k le ge) (by decide) (by decide) there

end ChatServer
end Partyline
