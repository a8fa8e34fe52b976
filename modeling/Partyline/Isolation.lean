import Partyline.Recipients
import Partyline.Guarantees

/-! Frames reach only the room they are sent in and the room they lead to. -/
namespace Partyline

namespace ChatServer

/-- A member of the room of a chat line is offered it at most once, the sender never. -/
theorem broadcastLoop_entry {s : ChatServer} {sender : Fd} {source : ClientConnection}
    (found : s.clients sender = some source) (output : Bytes) {recipients : List Fd}
    (distinct : recipients.Nodup) (fd : Fd) :
    (broadcastLoop sender output recipients s).2.entry fd = s.entry fd ∨
      fd ≠ sender ∧ s.occupancy fd = some source.currRoom ∧
        Entry.Told s.serverIteration (some output) (s.entry fd)
          ((broadcastLoop sender output recipients s).2.entry fd) := by
  obtain ⟨served, -, -, performs, -⟩ := broadcastLoop_performs output recipients distinct found
  rw [performs.entries]
  split_ifs with reached
  · unfold Entry.heard
    split_ifs with member
    · exact .inr ⟨member.1, member.2, _, by decide, rfl⟩
    · exact .inl rfl
  · exact .inl rfl

theorem frame_isolation {s : ChatServer} (h : Reachable s) {sender : Fd}
    {client : ClientConnection} (found : s.clients sender = some client)
    (active : client.clientState = .active) {raw remaining : Bytes}
    (split : splitFrame client.inputBuffer = some (raw, remaining))
    (short : raw.length ≤ maxFrameBytes) (framesProcessed : Nat) :
    (∀ fd, fd ≠ sender → s.occupancy fd ≠ some client.currRoom →
      (∀ name, s.request client (stripCarriageReturn raw) = .move name →
        (s.occupancy fd).map (Rooms.roomName s.rooms) ≠ some name) →
      (frameStep sender framesProcessed s).server.clients fd = s.clients fd ∧
        (frameStep sender framesProcessed s).server.ports fd = s.ports fd) ∧
    (∀ fd, fd ≠ sender → ∃ new,
      offers ((frameStep sender framesProcessed s).server.ports fd).history =
        offers (s.ports fd).history ++ new ∧ new.length ≤ 1) ∧
    ∀ words, s.request client (stripCarriageReturn raw) = .chat words →
      offers ((frameStep sender framesProcessed s).server.ports sender).history =
        offers (s.ports sender).history := by
  have inv := reachable_inv h
  by_cases spoken : ∃ words, s.request client (stripCarriageReturn raw) = .chat words
  · obtain ⟨words, asked⟩ := spoken
    obtain ⟨room, mem, -, result⟩ := frameStep_chat found active inv.rooms remaining
      asked
    have found' := taking_clients s sender client raw remaining
    have entry := broadcastLoop_entry found' (chatLine client.username words)
      (inv.rooms.unique room mem)
    rw [(frameStep_active found split short active framesProcessed).1, result]
    refine ⟨fun fd ne away _ => ?_, fun fd ne => ?_, fun _ _ => ?_⟩
    · rcases entry fd with same | ⟨-, home, -⟩
      · rw [taking_entry s client raw remaining ne] at same
        exact entry_eq same
      · exact (away (by rw [← taking_occupancy found, home])).elim
    · rcases entry fd with same | ⟨-, -, told⟩
      · rw [taking_entry s client raw remaining ne] at same
        exact ⟨[], by rw [(entry_eq same).2]; simp, by simp⟩
      · rw [taking_entry s client raw remaining ne] at told
        exact told.atMostOne
    · rcases entry sender with same | ⟨ne, -⟩
      · rw [(entry_eq same).2]
        simp [taking, eraseFrame, note, Port.note]
      · exact (ne rfl).elim
  · have told {fd : Fd} (ne : fd ≠ sender) := frameStep_told found split short active
      framesProcessed inv.rooms (not_exists.mp spoken) ne
    refine ⟨fun fd ne away elsewhere => ?_, fun fd ne => (told ne).atMostOne, fun words asked =>
      (spoken ⟨words, asked⟩).elim⟩
    have nothing : s.lineTo sender client (s.request client (stripCarriageReturn raw)) fd = none := by
      cases asked : s.request client (stripCarriageReturn raw) with
      | ignored => rfl
      | chat words => exact (spoken ⟨words, asked⟩).elim
      | reply line reason => simp [lineTo, ne]
      | move name => simp [lineTo, ne, away, elsewhere name asked]
      | quit => simp [lineTo, away]
    have same := told ne
    rw [nothing] at same
    exact entry_eq same

def eveningEnds : ChatServer := Action.perform (.receive 5 (ascii "\n")) ((initial 3).run evening)

def bob : ClientConnection where
  username := ascii "bob"
  currRoom := 1
  inputBuffer := ascii "so\n"
  outputQueue := [⟨prompt, 0⟩, ⟨joinedLine (ascii "bob") mainRoomName, 0⟩,
    ⟨joinedLine (ascii "bob") (ascii "den"), 0⟩, ⟨whereReply (ascii "den"), 0⟩]
  outputQueueSize := 117
  peakPendingOutputBytes := 117
  clientState := .active
  writeInterestEnabled := true
  writeBudgetIteration := 3
  writeBudgetRemaining := 8192

theorem eveningEnds_reachable : Reachable eveningEnds := by
  have connected : ((initial 3).run evening).clients 5 ≠ none := by decide +kernel
  exact reachable_perform (run_reachable 3 evening) (.receive 5 (ascii "\n")) connected

theorem evening_isolation :
    (frameStep 5 0 eveningEnds).server.clients 4 = eveningEnds.clients 4 ∧
      (frameStep 5 0 eveningEnds).server.ports 4 = eveningEnds.ports 4 := by
  have found : eveningEnds.clients 5 = some bob := by decide +kernel
  have split : splitFrame bob.inputBuffer = some (ascii "so", []) := by decide +kernel
  have away : eveningEnds.occupancy 4 ≠ some bob.currRoom := by decide +kernel
  have asked : eveningEnds.request bob (stripCarriageReturn (ascii "so")) = .chat [ascii "so"] := by
    decide +kernel
  refine (frame_isolation eveningEnds_reachable found rfl split (by decide +kernel) 0).1 4
    (by decide) away fun name moves => ?_
  simp [asked] at moves

end ChatServer
end Partyline
