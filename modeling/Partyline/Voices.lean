import Partyline.PartyRefinement
import Partyline.RoomLabel

/-! From a keyboard to the party: what a guest says there is what its user has typed. -/
namespace Partyline

open Library

namespace Party

variable {C : Type*} [DecidableEq C]

def said (c : C) (lines : List Bytes) : Event C → List Bytes
  | .arrives other => if other = c then [] else lines
  | .speaks other line => if other = c then lines ++ [line] else lines
  | .departs _ | .expelled _ => lines

def spoken (c : C) (events : List (Event C)) : List Bytes := events.foldl (said c) []

theorem spoken_append (c : C) (events : List (Event C)) (seen : Option (Event C)) :
    spoken c (events ++ seen.toList) = seen.elim (spoken c events) (said c (spoken c events)) := by
  cases seen <;> simp [spoken]

end Party

namespace TerminalClient

theorem run_sent (reads : List (List Key)) :
    (run reads).sent = (run reads).typed.filterMap TypedLine.frame := by
  refine run_invariant (P := fun c => c.sent = c.typed.filterMap TypedLine.frame) rfl ?_
    (fun c same => same) reads
  intro c key same
  unfold press
  split_ifs
  · obtain ⟨-, -, -, sent, typed⟩ := completeLine_completes key.delivered c
    rw [sent, typed, same, List.filterMap_append]
    cases frame : TypedLine.frame ⟨c.usernameMode, c.room, c.input⟩ <;> simp [frame]
  · exact same
  · exact same
  · exact same

end TerminalClient

namespace ChatServer

open Party (spoken said)

section Step

variable {s : ChatServer} {a : Action} {fd : Fd} (events : List (Party.Event Fd))

theorem spoken_takes (old : ∀ results, a ≠ .accept fd results) :
    spoken fd (events ++ (s.partyEvent a).toList) =
      spoken fd events ++ (s.takes a fd).toList.map Taken.line := by
  rw [Party.spoken_append]
  cases a with
  | iteration | load results | answered c recvs | peerClosed c | recvFailed c =>
    exact (List.append_nil _).symm
  | accept c results =>
    have ne : c ≠ fd := fun same => old results (same ▸ rfl)
    simp [partyEvent, said, takes, ne]
  | write c =>
    rw [partyEvent]
    split_ifs <;> exact (List.append_nil _).symm
  | receive c chunk =>
    rw [partyEvent]
    cases s.clients c with
    | none => exact (List.append_nil _).symm
    | some client =>
      rw [Option.bind_some]
      split_ifs <;> exact (List.append_nil _).symm
  | frame c framesProcessed =>
    rw [partyEvent, takes]
    cases s.clients c with
    | none => simp
    | some client =>
      rw [Option.bind_some, Option.bind_some]
      cases splitFrame client.inputBuffer with
      | none =>
        dsimp only
        split_ifs <;> exact (List.append_nil _).symm
      | some taken =>
        obtain ⟨raw, remaining⟩ := taken
        dsimp only
        by_cases long : maxFrameBytes < raw.length
        · simp [long, said]
        · by_cases same : fd = c
          · simp [long, said, same]
          · simp [long, said, same, Ne.symm same]

variable {events}

theorem spoken_step (h : Inv s) (enabled : a.enabled s)
    (before : ∀ fd, s.clients fd ≠ none →
      spoken fd events = (s.entry fd).frames.map Taken.line)
    (stays : (a.perform s).clients fd ≠ none) :
    spoken fd (events ++ (s.partyEvent a).toList) =
      ((a.perform s).entry fd).frames.map Taken.line := by
  by_cases new : ∃ results, a = .accept fd results
  · obtain ⟨results, rfl⟩ := new
    change spoken fd (events ++ [.arrives fd]) = ((s.acceptClient fd results).entry fd).frames.map _
    rw [(acceptClient_performs enabled results).entries, only_self, Entry.offered_frames]
    simp [spoken, said, Entry.frames, Entry.opened]
  · have old : ∀ results, a ≠ .accept fd results := fun results same => new ⟨results, same⟩
    have there : s.clients fd ≠ none := fun gone =>
      stays ((perform_evolves h.rooms enabled old).gone gone)
    rw [spoken_takes events old, before fd there, perform_frames h.rooms enabled old,
      List.map_append]

end Step

theorem spoken_frames {listener : Fd} {actions : List Action}
    (runs : machine.Runs (initial listener) actions) {fd : Fd}
    (connected : (machine.after (initial listener) actions).clients fd ≠ none) :
    spoken fd (machine.observed partyEvent (initial listener) actions) =
      ((machine.after (initial listener) actions).entry fd).frames.map Taken.line := by
  have all : ∀ fd, (machine.after (initial listener) actions).clients fd ≠ none →
      spoken fd (machine.observed partyEvent (initial listener) actions) =
        ((machine.after (initial listener) actions).entry fd).frames.map Taken.line :=
    Transition.observed_invariant (M := machine)
      (P := fun events s => ∀ fd, s.clients fd ≠ none →
        spoken fd events = (s.entry fd).frames.map Taken.line)
      ⟨listener, rfl⟩ (fun fd there => absurd rfl there)
      (fun events s a reachable enabled before fd stays =>
        spoken_step (reachable_inv reachable) enabled before stays) runs
  exact all fd connected

/-- Frames of a stream that begins as a terminal's does are the terminal's first lines. -/
theorem frames_prefix {s : ChatServer} (h : Reachable s) {fd : Fd} {client : ClientConnection}
    (found : s.clients fd = some client) {sent : List Bytes}
    (printable : ∀ frame ∈ sent, ∀ ch ∈ frame, isPrint ch = true)
    (come : receivedBytes (s.ports fd).history <+: delimited newline sent) :
    (s.entry fd).frames.map Taken.line <+: sent ∧
      (receivedBytes (s.ports fd).history = delimited newline sent → newline ∉ client.inputBuffer →
        (s.entry fd).frames.map Taken.line = sent) := by
  have framing := ((reachable_inv h).entries fd).framing client found
  have clean : ∀ frame ∈ sent, newline ∉ frame := fun frame mem inside =>
    absurd (printable frame mem newline inside) (by decide)
  have whole : ∀ raw ∈ (takenFrames (s.ports fd).history).map Taken.raw, newline ∉ raw := by
    intro raw mem
    obtain ⟨frame, taken, rfl⟩ := List.mem_map.mp mem
    exact (framing.whole frame taken).1
  have raws : (takenFrames (s.ports fd).history).map Taken.raw <+: sent := by
    obtain ⟨future, same⟩ := come
    have stream : receivedBytes (s.ports fd).history = _ := framing.stream
    rw [stream, List.append_assoc] at same
    exact prefix_of_delimited whole clean same
  have lines : (s.entry fd).frames.map Taken.line =
      (takenFrames (s.ports fd).history).map Taken.raw := by
    refine List.map_congr_left fun frame taken => ?_
    obtain ⟨-, -, line⟩ := framing.whole frame taken
    have kept : frame.raw.getLast? ≠ some carriageReturn := fun last =>
      absurd (printable _ (raws.subset (List.mem_map_of_mem taken)) _ (List.mem_of_getLast? last))
        (by decide)
    rw [line, stripCarriageReturn, if_neg kept]
  rw [lines]
  refine ⟨raws, fun all drained => ?_⟩
  have stream : delimited newline ((takenFrames (s.ports fd).history).map Taken.raw) ++
      client.inputBuffer = delimited newline sent ++ [] := by
    rw [List.append_nil, ← all]
    exact framing.stream.symm
  exact (delimited_inj whole clean drained List.not_mem_nil stream).1

/-- However the bytes of a terminal are cut on their way, what its guest has said at the party
are the first of the lines that its user has completed, as they are sent, and all of them once
every byte has come and no whole line is left. -/
theorem party_hears_typed (listener : Fd) {actions : List Action}
    (runs : machine.Runs (initial listener) actions) (reads : List (List Key)) {fd : Fd}
    {client : ClientConnection}
    (found : (machine.after (initial listener) actions).clients fd = some client)
    (come : receivedBytes ((machine.after (initial listener) actions).ports fd).history <+:
      delimited newline (TerminalClient.run reads).sent) :
    spoken fd (machine.observed partyEvent (initial listener) actions) <+:
        (TerminalClient.run reads).typed.filterMap TypedLine.frame ∧
      (receivedBytes ((machine.after (initial listener) actions).ports fd).history =
          delimited newline (TerminalClient.run reads).sent → newline ∉ client.inputBuffer →
        spoken fd (machine.observed partyEvent (initial listener) actions) =
          (TerminalClient.run reads).typed.filterMap TypedLine.frame) := by
  rw [spoken_frames runs (by simp [found]), ← TerminalClient.run_sent]
  exact frames_prefix ⟨_, ⟨listener, rfl⟩, runs.steps⟩ found
    (TerminalClient.run_kept reads).sent come

/-- The third client of `talk` has typed a command that has not come yet. -/
theorem party_hears_typed_talk : machine.Runs (initial 3) talk ∧
    spoken 6 (machine.observed partyEvent (initial 3) talk) <+:
      [ascii "cat", ascii "hi", ascii "yo", ascii "LIST"] := by
  have runs : machine.Runs (initial 3) talk := by decide +kernel
  have there : ((machine.after (initial 3) talk).clients 6).isSome = true := by decide +kernel
  obtain ⟨client, found⟩ := Option.isSome_iff_exists.mp there
  have come : receivedBytes ((machine.after (initial 3) talk).ports 6).history <+:
      delimited newline
        (TerminalClient.run [keys "cat\r", keys "hi\ryo\r", keys "/list\r"]).sent := by
    decide +kernel
  have typed : (TerminalClient.run [keys "cat\r", keys "hi\ryo\r", keys "/list\r"]).typed.filterMap
      TypedLine.frame = [ascii "cat", ascii "hi", ascii "yo", ascii "LIST"] := by decide +kernel
  exact ⟨runs, typed ▸ (party_hears_typed 3 runs _ found come).1⟩

end ChatServer
end Partyline
