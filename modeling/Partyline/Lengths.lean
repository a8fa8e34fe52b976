import Partyline.Names
import Partyline.Isolation
import Partyline.Tokens

/-! How long the lines of the server are. A username and the name of a room are
taken from a frame each, so every line but the answer to LIST is bounded by the
limit of a frame. -/
namespace Partyline

theorem length_le_of_mem_tokens {frame word : Bytes} (mem : word ∈ tokens frame) :
    word.length ≤ frame.length := by
  induction frame generalizing word with
  | nil => simp [tokens] at mem
  | cons ch rest ih =>
    unfold tokens at mem
    split_ifs at mem with blank
    · rcases List.mem_cons.mp mem with rfl | old
      · exact Nat.zero_le _
      · exact (ih old).trans (Nat.le_succ _)
    · split at mem
      · obtain rfl := List.mem_singleton.mp mem
        simp
      · rename_i first words split
        rcases List.mem_cons.mp mem with rfl | old
        · exact Nat.succ_le_succ (ih (split ▸ List.mem_cons_self))
        · exact (ih (split ▸ List.mem_cons_of_mem _ old)).trans (Nat.le_succ _)

theorem stripCarriageReturn_length (raw : Bytes) :
    (stripCarriageReturn raw).length ≤ raw.length := by
  unfold stripCarriageReturn
  split_ifs
  · simp
  · exact le_rfl

theorem chatText_length (frame : Bytes) :
    ((tokens frame).flatMap fun word => word ++ [space]).length ≤ frame.length + 1 := by
  by_cases empty : frame = []
  · simp [empty, tokens]
  · rw [flatMap_tokens empty]
    unfold spaced
    split_ifs <;> simp

def maxLineBytes : Nat := 2 * maxFrameBytes + 24

section Lines

variable {username : Bytes} (user : username.length ≤ maxFrameBytes)

include user

theorem leftLine_length {name : Bytes} (room : name.length ≤ maxFrameBytes) :
    (leftLine username name).length ≤ maxLineBytes := by
  have texts : (ascii "> server: ").length = 10 ∧ (ascii " left room ").length = 11 := by decide
  simp only [leftLine, List.length_append, List.length_singleton, maxLineBytes]
  omega

theorem joinedLine_length {name : Bytes} (room : name.length ≤ maxFrameBytes) :
    (joinedLine username name).length ≤ maxLineBytes := by
  have texts : (ascii "> server: ").length = 10 ∧ (ascii " joined room ").length = 13 := by decide
  simp only [joinedLine, List.length_append, List.length_singleton, maxLineBytes]
  omega

theorem quitLine_length : (quitLine username).length ≤ maxLineBytes := by
  have texts : (ascii "> server: ").length = 10 ∧ (ascii " has disconnected").length = 17 := by
    decide
  have limit : 4 ≤ maxFrameBytes := by decide
  simp only [quitLine, List.length_append, List.length_singleton, maxLineBytes]
  omega

theorem disconnectedLine_length : (disconnectedLine username).length ≤ maxLineBytes := by
  have texts : (ascii "> server: ").length = 10 ∧ (ascii " disconnected").length = 13 := by decide
  simp only [disconnectedLine, List.length_append, List.length_singleton, maxLineBytes]
  omega

theorem chatLine_length {frame : Bytes} (short : frame.length ≤ maxFrameBytes) :
    (chatLine username (tokens frame)).length ≤ maxLineBytes := by
  have texts : (ascii "> ").length = 2 ∧ (ascii ": ").length = 2 := by decide
  have text := chatText_length frame
  simp only [chatLine, List.length_append, List.length_singleton, maxLineBytes]
  omega

end Lines

theorem whereReply_length {name : Bytes} (room : name.length ≤ maxFrameBytes) :
    (whereReply name).length ≤ maxPendingOutputBytes := by
  have texts : (ascii "> server: room not found").length = 24 ∧
      (ascii "> server: you are in room ").length = 26 := by decide
  have limit : maxFrameBytes + 27 ≤ maxPendingOutputBytes := by decide
  unfold whereReply
  split_ifs <;> simp only [List.length_append, List.length_singleton] <;> omega

namespace ChatServer

variable {s : ChatServer}

theorem username_length (h : Inv s) {fd : Fd} {client : ClientConnection}
    (found : s.clients fd = some client) : client.username.length ≤ maxFrameBytes :=
  username_of (P := (·.length ≤ maxFrameBytes)) (Nat.zero_le _)
    (fun raw _ short => (stripCarriageReturn_length raw).trans short) h found

theorem mainRoomName_length : mainRoomName.length ≤ maxFrameBytes := by decide

theorem word_length {frame : Bytes} (short : frame.length ≤ maxFrameBytes) :
    ∀ word ∈ tokens frame, word.length ≤ maxFrameBytes :=
  fun _ mem => (length_le_of_mem_tokens mem).trans short

theorem roomName_length (h : Reachable s) :
    ∀ room ∈ s.rooms, room.roomName.length ≤ maxFrameBytes :=
  reachable_roomNames_of (P := (·.length ≤ maxFrameBytes)) mainRoomName_length
    (fun raw _ short => word_length ((stripCarriageReturn_length raw).trans short)) h

section Offered

variable (h : Reachable s) {c fd : Fd} {client : ClientConnection} {data : Bytes}
  (found : s.clients c = some client) (ne : fd ≠ c)

include h

theorem homeName_length (client : ClientConnection) :
    (Rooms.roomName s.rooms client.currRoom).length ≤ maxFrameBytes := by
  unfold Rooms.roomName
  split
  · exact Nat.zero_le _
  · rename_i room there
    exact roomName_length h room (List.mem_of_find?_eq_some there)

include found

theorem goneLine_length (line : s.goneLine c client fd = some data) :
    data.length ≤ maxLineBytes := by
  unfold goneLine at line
  split_ifs at line
  exact Option.some.inj line ▸ disconnectedLine_length (username_length (reachable_inv h) found)

include ne

theorem lineTo_length {frame : Bytes} (short : frame.length ≤ maxFrameBytes)
    (line : s.lineTo c client (s.request client frame) fd = some data) :
    data.length ≤ maxLineBytes := by
  have user := username_length (reachable_inv h) found
  cases asked : s.request client frame with
  | ignored => simp [lineTo, asked] at line
  | chat words =>
    obtain rfl := request_chat asked
    simp only [asked, lineTo] at line
    split_ifs at line
    exact Option.some.inj line ▸ chatLine_length user short
  | reply answer reason => simp [lineTo, asked, ne] at line
  | move name =>
    have room := request_move_of (P := (·.length ≤ maxFrameBytes)) mainRoomName_length
      (word_length short) asked
    simp only [asked, lineTo] at line
    split_ifs at line
    · exact Option.some.inj line ▸ leftLine_length user (homeName_length h client)
    · exact Option.some.inj line ▸ joinedLine_length user room
  | quit =>
    simp only [asked, lineTo] at line
    split_ifs at line
    exact Option.some.inj line ▸ quitLine_length user

theorem frameLine_length (line : s.frameLine c client fd = some data) :
    data.length ≤ maxLineBytes := by
  unfold frameLine at line
  split at line
  · cases line
  · rename_i raw remaining split
    by_cases long : maxFrameBytes < raw.length
    · rw [if_pos long] at line
      cases line
    rw [if_neg long] at line
    have short := (stripCarriageReturn_length raw).trans (Nat.not_lt.mp long)
    cases state : client.clientState with
    | awaitingUsername =>
      simp only [state] at line
      split_ifs at line
      exact Option.some.inj line ▸ joinedLine_length short (by decide)
    | active =>
      simp only [state] at line
      exact lineTo_length h found ne short line

omit found in
theorem lineFor_length {a : Action} (acts : a.actor = some c)
    (line : s.lineFor a fd = some data) : data.length ≤ maxLineBytes := by
  cases a with
  | frame c framesProcessed =>
    obtain rfl := Option.some.inj acts
    obtain ⟨client, found, line⟩ := Option.bind_eq_some_iff.mp line
    exact frameLine_length h found ne line
  | peerClosed c | recvFailed c =>
    obtain ⟨client, found, line⟩ := Option.bind_eq_some_iff.mp line
    exact goneLine_length h found line
  | write c =>
    simp only [lineFor] at line
    split_ifs at line
    obtain ⟨client, found, line⟩ := Option.bind_eq_some_iff.mp line
    exact goneLine_length h found line
  | iteration | load results | answered c recvs | accept c results | receive c chunk => cases line

end Offered

theorem perform_offers (h : Reachable s) {a : Action} (enabled : a.enabled s) {c fd : Fd}
    (acts : a.actor = some c) (ne : fd ≠ c) : (a.perform s).entry fd = s.entry fd ∨
      ∃ data reason, data.length ≤ maxLineBytes ∧
        (a.perform s).entry fd = (s.entry fd).offered s.serverIteration data reason := by
  rcases perform_entry (reachable_inv h) enabled acts ne with same | told
  · exact .inl same
  cases line : s.lineFor a fd with
  | none =>
    rw [line] at told
    exact .inl told
  | some data =>
    rw [line] at told
    obtain ⟨reason, -, same⟩ := told
    exact .inr ⟨data, reason, lineFor_length h ne acts line, same⟩

end ChatServer
end Partyline
