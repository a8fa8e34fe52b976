import Partyline.Isolation

/-! Whether a chat line reaches everyone in the room. -/
namespace Partyline

namespace ChatServer

/-- Every other member of the room has either taken the line, once, or been
disconnected for refusing it, and the sender's next frame is taken if one is
buffered and the budget allows it. -/
def ReachesAll (s : ChatServer) (sender : Fd) (client : ClientConnection) (output : Bytes)
    (remaining : Bytes) (framesProcessed : Nat) : Prop :=
  let t := (frameStep sender framesProcessed s).server
  (∀ fd, fd ≠ sender → s.occupancy fd = some client.currRoom → ∃ outcome,
    offers (t.ports fd).history = offers (s.ports fd).history ++ [(output, outcome)] ∧
      (outcome ≠ .rejected ∧ t.clients fd ≠ none ∨ outcome = .rejected ∧ t.clients fd = none)) ∧
  (framesProcessed + 1 < maxProcessedFramesPerPoll → newline ∈ remaining →
    frameStep sender framesProcessed s = .next (framesProcessed + 1) t)

/-- The loop reaches every recipient exactly when none before the last refuses
the line, and succeeds exactly when none does. -/
theorem broadcastLoop_reach {s : ChatServer} {sender : Fd} {source : ClientConnection}
    (found : s.clients sender = some source) (output : Bytes) {members : List Fd}
    (distinct : members.Nodup) (homes : ∀ fd ∈ members, s.occupancy fd = some source.currRoom) :
    ∃ served : List Fd, Performs s (broadcastLoop sender output members s).2 (fun fd e =>
        if fd ∈ served then Entry.heard s.serverIteration source.currRoom sender output fd e
        else e) ∧
      ((∀ fd ∈ members.filter (· ≠ sender), fd ∈ served) ↔
        ∀ fd ∈ (members.filter (· ≠ sender)).dropLast,
          (s.entry fd).accepts s.serverIteration output = true) ∧
      ((broadcastLoop sender output members s).1 = true ↔
        ∀ fd ∈ members.filter (· ≠ sender),
          (s.entry fd).accepts s.serverIteration output = true) := by
  obtain ⟨served, rest, parts, performs, outcome⟩ :=
    broadcastLoop_performs output members distinct found
  refine ⟨served, performs, ?_⟩
  rcases outcome with ⟨done, rfl, all⟩ | ⟨front, last, stopped, rfl, ne, -, refused, all⟩
  · rw [List.append_nil] at parts
    have accept : ∀ fd ∈ members.filter (· ≠ sender),
        (s.entry fd).accepts s.serverIteration output = true := by
      intro fd mem
      obtain ⟨member, ne⟩ : fd ∈ members ∧ fd ≠ sender := by simpa using mem
      exact all fd (parts ▸ member) ne (homes fd member)
    refine ⟨iff_of_true (fun fd mem => parts ▸ (List.mem_filter.mp mem).1) fun fd mem =>
      accept fd (List.dropLast_subset _ mem), iff_of_true done accept⟩
  · have cut : members.filter (· ≠ sender) =
        front.filter (· ≠ sender) ++ last :: rest.filter (· ≠ sender) := by
      simp [parts, ne]
    have accept : ∀ fd ∈ front.filter (· ≠ sender),
        (s.entry fd).accepts s.serverIteration output = true := by
      intro fd mem
      obtain ⟨member, ne⟩ : fd ∈ front ∧ fd ≠ sender := by simpa using mem
      exact all fd member ne (homes fd (by simp [parts, member]))
    refine ⟨?_, iff_of_false (by simp [stopped]) fun accepted => ?_⟩
    · rw [cut]
      cases others : rest.filter (· ≠ sender) with
      | nil =>
        refine iff_of_true (fun fd mem => ?_) (by simpa using accept)
        rcases List.mem_append.mp mem with old | new
        · exact List.mem_append_left _ (List.mem_filter.mp old).1
        · simp [List.mem_singleton.mp new]
      | cons next later =>
        refine iff_of_false (fun reached => ?_) fun accepted => ?_
        · have there : next ∈ rest := (List.mem_filter.mp (others ▸ List.mem_cons_self)).1
          have also := reached next (by simp)
          rw [parts, List.nodup_append] at distinct
          exact distinct.2.2 next also next there rfl
        · have taken := accepted last (by simp)
          simp [refused] at taken
    · have taken := accepted last (by rw [cut]; simp)
      simp [refused] at taken

section Round

variable {s : ChatServer} (h : Reachable s) {sender : Fd} {client : ClientConnection}
  (found : s.clients sender = some client) (active : client.clientState = .active)
  {raw remaining : Bytes} (split : splitFrame client.inputBuffer = some (raw, remaining))
  (short : raw.length ≤ maxFrameBytes) (framesProcessed : Nat) {words : List Bytes}
  (asked : s.request client (stripCarriageReturn raw) = .chat words)

include h found active split short asked

/-- Who of the room is told the line of the frame, and whether the sender's next frame
is taken. -/
theorem frame_served : ∃ room ∈ s.rooms, room.roomIdx = client.currRoom ∧ ∃ served : List Fd,
    (∀ fd ∈ room.subscribedClients.filter (· ≠ sender), Entry.Told s.serverIteration
      (if fd ∈ served then some (chatLine client.username words) else none) (s.entry fd)
      ((frameStep sender framesProcessed s).server.entry fd)) ∧
    ((∀ fd ∈ room.subscribedClients.filter (· ≠ sender), fd ∈ served) ↔
      ∀ fd ∈ (room.subscribedClients.filter (· ≠ sender)).dropLast,
        (s.entry fd).accepts s.serverIteration (chatLine client.username words) = true) ∧
    (frameStep sender framesProcessed s = .next (framesProcessed + 1)
        (frameStep sender framesProcessed s).server ↔
      ∀ fd ∈ room.subscribedClients.filter (· ≠ sender),
        (s.entry fd).accepts s.serverIteration (chatLine client.username words) = true) := by
  have inv := reachable_inv h
  obtain ⟨room, mem, id, result⟩ := frameStep_chat found active inv.rooms remaining asked
  have found' := taking_clients s sender client raw remaining
  obtain ⟨final, goes⟩ := frameStep_active found split short active framesProcessed
  have homes : ∀ fd ∈ room.subscribedClients,
      (s.taking sender client raw remaining).occupancy fd = some client.currRoom :=
    fun fd member => by rw [taking_occupancy found, (inv.rooms.members room mem fd).mp member, id]
  obtain ⟨served, performs, reach, success⟩ := broadcastLoop_reach found'
    (chatLine client.username words) (inv.rooms.unique room mem) homes
  have others (fd : Fd) (mem : fd ∈ room.subscribedClients.filter (· ≠ sender)) : fd ≠ sender := by
    simpa using (List.mem_filter.mp mem).2
  have accepts (fd : Fd) (mem : fd ∈ room.subscribedClients.filter (· ≠ sender)) :
      ((s.taking sender client raw remaining).entry fd).accepts
        (s.taking sender client raw remaining).serverIteration (chatLine client.username words) =
          (s.entry fd).accepts s.serverIteration (chatLine client.username words) := by
    rw [taking_entry s client raw remaining (others fd mem)]
    rfl
  rw [result] at final goes
  rw [← final] at performs
  refine ⟨room, mem, id, served, fun fd mem => ?_, ?_, ?_⟩
  · have home := homes fd (List.mem_filter.mp mem).1
    have same := taking_entry s client raw remaining (others fd mem)
    rw [← entry_occupant, same] at home
    rw [performs.entries, same]
    split_ifs
    · exact ⟨_, by decide, if_pos ⟨others fd mem, home⟩⟩
    · rfl
  · exact reach.trans (forall₂_congr fun fd mem => by rw [accepts fd (List.dropLast_subset _ mem)])
  · have stays : (frameStep sender framesProcessed s).server.clients sender ≠ none := by
      have same := performs.entries sender
      simp only [Entry.heard, ne_eq, not_true_eq_false, false_and, if_false, ite_self] at same
      rw [(entry_eq same).1, found']
      simp
    exact ((goes.trans (and_iff_left stays)).trans success).trans
      (forall₂_congr fun fd mem => by rw [accepts fd mem])

omit h found active split short asked in
/-- A member that is told the line takes it, or is disconnected for refusing it. -/
theorem told_reached {t : ChatServer} {fd : Fd} {output : Bytes} (connected : s.clients fd ≠ none)
    (told : Entry.Told s.serverIteration (some output) (s.entry fd) (t.entry fd)) : ∃ outcome,
      offers (t.ports fd).history = offers (s.ports fd).history ++ [(output, outcome)] ∧
        (outcome ≠ .rejected ∧ t.clients fd ≠ none ∨ outcome = .rejected ∧ t.clients fd = none) := by
  obtain ⟨outcome, history, rejected⟩ := told.offers connected
  have gone := told.client
  simp only [entry_client, connected, Option.some.injEq, exists_eq_left', false_or,
    ← rejected _ rfl] at gone
  refine ⟨outcome, by simpa using history, ?_⟩
  by_cases refused : outcome = .rejected
  · exact .inr ⟨refused, gone.mpr refused⟩
  · exact .inl ⟨refused, fun empty => refused (gone.mp empty)⟩

end Round

/-- `broadcast` ends at the first member that refuses the line, and takes the
sender's frame loop with it. So the line reaches all exactly when nobody
refuses it, or only the last recipient does and no frame is waiting. -/
theorem broadcast_reachesAll {s : ChatServer} (h : Reachable s) {sender : Fd}
    {client : ClientConnection} (found : s.clients sender = some client)
    (active : client.clientState = .active) {raw remaining : Bytes}
    (split : splitFrame client.inputBuffer = some (raw, remaining))
    (short : raw.length ≤ maxFrameBytes) (framesProcessed : Nat) {words : List Bytes}
    (asked : s.request client (stripCarriageReturn raw) = .chat words) :
    ReachesAll s sender client (chatLine client.username words) remaining framesProcessed ↔
      ∃ room ∈ s.rooms, room.roomIdx = client.currRoom ∧
        ((∀ fd ∈ room.subscribedClients.filter (· ≠ sender),
            (s.entry fd).accepts s.serverIteration (chatLine client.username words) = true) ∨
          ((∀ fd ∈ (room.subscribedClients.filter (· ≠ sender)).dropLast,
              (s.entry fd).accepts s.serverIteration (chatLine client.username words) = true) ∧
            (maxProcessedFramesPerPoll ≤ framesProcessed + 1 ∨ newline ∉ remaining))) := by
  obtain ⟨room, mem, id, served, told, dropped, continues⟩ :=
    frame_served h found active split short framesProcessed asked
  have inv := reachable_inv h
  have members (fd : Fd) : fd ∈ room.subscribedClients ↔ s.occupancy fd = some client.currRoom :=
    id ▸ inv.rooms.members room mem fd
  have first : (∀ fd, fd ≠ sender → s.occupancy fd = some client.currRoom → ∃ outcome,
      offers ((frameStep sender framesProcessed s).server.ports fd).history =
        offers (s.ports fd).history ++ [(chatLine client.username words, outcome)] ∧
      (outcome ≠ .rejected ∧ (frameStep sender framesProcessed s).server.clients fd ≠ none ∨
        outcome = .rejected ∧ (frameStep sender framesProcessed s).server.clients fd = none)) ↔
      ∀ fd ∈ room.subscribedClients.filter (· ≠ sender), fd ∈ served := by
    constructor
    · intro heard fd member
      by_contra missed
      obtain ⟨listed, ne⟩ : fd ∈ room.subscribedClients ∧ fd ≠ sender := by simpa using member
      obtain ⟨outcome, history, -⟩ := heard fd ne ((members fd).mp listed)
      have same := told fd member
      rw [if_neg missed] at same
      rw [(entry_eq same).2] at history
      simp at history
    · intro reached fd ne home
      have member : fd ∈ room.subscribedClients.filter (· ≠ sender) := by
        simpa [ne] using (members fd).mpr home
      have line := told fd member
      rw [if_pos (reached fd member)] at line
      exact told_reached (connected_of_occupancy home) line
  have only_room : ∀ other ∈ s.rooms, other.roomIdx = client.currRoom → other = room :=
    fun other there same => Library.eq_of_key inv.rooms.ids there mem (same.trans id.symm)
  rw [ReachesAll, first, dropped, continues]
  constructor
  · rintro ⟨all_but_last, budget⟩
    refine ⟨room, mem, id, ?_⟩
    by_cases all : ∀ fd ∈ room.subscribedClients.filter (· ≠ sender),
        (s.entry fd).accepts s.serverIteration (chatLine client.username words) = true
    · exact .inl all
    · refine .inr ⟨all_but_last, ?_⟩
      by_contra waiting
      obtain ⟨left, frame⟩ := not_or.mp waiting
      exact all (budget (by omega) (by simpa using frame))
  · rintro ⟨other, there, same, all | ⟨all_but_last, empty⟩⟩
    · obtain rfl := only_room other there same
      exact ⟨fun fd mem => all fd (List.dropLast_subset _ mem), fun _ _ => all⟩
    · obtain rfl := only_room other there same
      exact ⟨all_but_last, fun left frame => by
        rcases empty with past | clean
        · omega
        · exact (clean frame).elim⟩

theorem ann_fits : (ascii "ann\n").length ≤ maxDataSize := by decide

/-- Three clients have logged in, every send taking all it is given. -/
def crowd : List Input :=
  let answers : Fd → Results := fun _ => ⟨[], List.replicate 4 (.accepted 100), []⟩
  let arrives (fd : Fd) : Input := .event ⟨[.connection fd true true (answers fd)], answers⟩
    ⟨3, readyRead⟩
  let tells (fd : Fd) (chunk : Bytes) (fits : chunk.length ≤ maxDataSize) : Input :=
    .event ⟨[], fun fd => { answers fd with recvs := [.received chunk fits] }⟩ ⟨fd, readyRead⟩
  [.iteration, arrives 4, arrives 5, arrives 6, tells 4 (ascii "ann\n") ann_fits,
    tells 5 (ascii "bob\n") (by decide), tells 6 (ascii "cat\n") (by decide)]

/-- A line of the third has been received, and `answers` is what sends will return. -/
def crowdHears (answers : Fd → List SendResult) : ChatServer :=
  Action.perform (.receive 6 (ascii "hi\n"))
    (Action.perform (.load fun fd => ⟨[], answers fd, []⟩) ((initial 3).run crowd))

def cat : ClientConnection where
  username := ascii "cat"
  currRoom := 0
  inputBuffer := ascii "hi\n"
  outputQueue := []
  outputQueueSize := 0
  peakPendingOutputBytes := 0
  clientState := .active
  writeInterestEnabled := false
  writeBudgetIteration := 2
  writeBudgetRemaining := 8135

theorem crowdHears_reachable (answers : Fd → List SendResult) : Reachable (crowdHears answers) := by
  have connected : ((initial 3).run crowd).clients 6 ≠ none := by decide +kernel
  exact reachable_perform (reachable_perform (run_reachable 3 crowd) (.load _) trivial)
    (.receive 6 (ascii "hi\n")) connected

theorem crowd_reachesAll : ReachesAll (crowdHears fun _ => [.accepted 100]) 6 cat
    (chatLine cat.username [ascii "hi"]) [] 0 := by
  refine (broadcast_reachesAll (crowdHears_reachable _) (by decide +kernel) rfl
    (by decide +kernel : splitFrame cat.inputBuffer = some (ascii "hi", [])) (by decide +kernel) 0
    (by decide +kernel)).mpr ?_
  exact ⟨⟨0, mainRoomName, [4, 5, 6]⟩, by decide +kernel, rfl, .inl (by decide +kernel)⟩

/-- The send to the first of them fails, and the second never hears of the line. -/
theorem crowd_not_reachesAll :
    let s := crowdHears fun fd => if fd = 4 then [.error 32] else [.accepted 100]
    Reachable s ∧ s.clients 6 = some cat ∧ cat.clientState = .active ∧
      splitFrame cat.inputBuffer = some (ascii "hi", []) ∧
      s.request cat (ascii "hi") = .chat [ascii "hi"] ∧
      ¬ ReachesAll s 6 cat (chatLine cat.username [ascii "hi"]) [] 0 := by
  refine ⟨crowdHears_reachable _, by decide +kernel, rfl, by decide +kernel, by decide +kernel, ?_⟩
  rintro ⟨reached, -⟩
  obtain ⟨outcome, history, -⟩ := reached 5 (by decide) (by decide +kernel)
  have unheard : offers ((frameStep 6 0 (crowdHears fun fd => if fd = 4 then [.error 32]
      else [.accepted 100])).server.ports 5).history =
        offers ((crowdHears fun fd => if fd = 4 then [.error 32]
          else [.accepted 100]).ports 5).history := by decide +kernel
  rw [unheard] at history
  simp at history

end ChatServer
end Partyline
