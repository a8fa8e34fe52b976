import Partyline.Guarantees
import Partyline.Names
import Partyline.Ordering
import Partyline.Tokens

/-! What clients read of a chat line and of the answer to WHERE, and that LEAVE
is a JOIN of the main room. -/
namespace Partyline

open Library

namespace ChatServer

/-- The text of a chat line is the frame, with a space after it if it has none. -/
theorem chat_text_kept (username : Bytes) {frame : Bytes} (nonempty : frame ≠ [])
    (chat : (tokens frame).headD [] ∉ commands) :
    chatLine username (tokens frame) =
        ascii "> " ++ username ++ ascii ": " ++ spaced frame ++ [newline] ∧
      ∀ (s : ChatServer) (sender : Fd) (source : ClientConnection) (room : ChatRoom),
        s.clients sender = some source → source.username = username →
        Rooms.findById s.rooms source.currRoom = some room →
        s.processFrame sender frame = broadcastLoop sender
          (ascii "> " ++ username ++ ascii ": " ++ spaced frame ++ [newline])
          room.subscribedClients s := by
  have line : chatLine username (tokens frame) =
      ascii "> " ++ username ++ ascii ": " ++ spaced frame ++ [newline] := by
    rw [chatLine, flatMap_tokens nonempty]
  refine ⟨line, fun s sender source room found named there => ?_⟩
  simp only [processFrame, if_neg nonempty, found, if_pos chat, broadcast, there, named, line]

theorem spacedOut_text_kept :
    chatLine (ascii "ann") (tokens (ascii "  so  it goes")) =
        ascii "> ann:   so  it goes " ++ [newline] ∧
      chatLine (ascii "ann") (tokens (ascii "JOINED  ")) = ascii "> ann: JOINED  " ++ [newline] :=
  ⟨(chat_text_kept (ascii "ann") (by decide) (by decide)).1,
    (chat_text_kept (ascii "ann") (by decide) (by decide)).1⟩

/-- The answer to WHERE is one line, and it names the room in the table that has
the client's room id and has the client among its subscribers. -/
def TellsWhere (s : ChatServer) (fd : Fd) : Prop :=
  ∃ client room outcome, s.clients fd = some client ∧ room ∈ s.rooms ∧
    room.roomIdx = client.currRoom ∧ fd ∈ room.subscribedClients ∧
    offers ((s.processFrame fd (ascii "WHERE")).2.ports fd).history =
      offers (s.ports fd).history ++
        [(ascii "> server: you are in room " ++ room.roomName ++ [newline], outcome)]

theorem whereReply_named {name : Bytes} (named : name ≠ []) :
    whereReply name = ascii "> server: you are in room " ++ name ++ [newline] :=
  if_neg named

/-- The two answers differ where one says "you" and the other "room". -/
theorem whereReply_nil (name : Bytes) :
    whereReply [] ≠ ascii "> server: you are in room " ++ name ++ [newline] := by
  intro same
  have eleventh := congrArg (fun answer : Bytes => answer[10]?) same
  rw [List.append_assoc, List.getElem?_append_left (by decide)] at eleventh
  revert eleventh
  decide

section Where

variable {s : ChatServer} (h : Inv s) {fd : Fd} {client : ClientConnection}
  (found : s.clients fd = some client) (active : client.clientState = .active)

include h found active

theorem subscribed : ∃ room ∈ s.rooms, room.roomIdx = client.currRoom ∧
    fd ∈ room.subscribedClients ∧ Rooms.roomName s.rooms client.currRoom = room.roomName := by
  have home : s.occupancy fd = some client.currRoom :=
    Entry.occupant_some.mpr ⟨client, found, active, rfl⟩
  obtain ⟨room, mem, id⟩ := h.rooms.homes fd _ home
  refine ⟨room, mem, id, ?_, ?_⟩
  · rw [h.rooms.members room mem, home, id]
  · rw [← id, h.rooms.roomName mem]

theorem where_offers : ∃ outcome,
    offers ((s.processFrame fd (ascii "WHERE")).2.ports fd).history =
      offers (s.ports fd).history ++
        [(whereReply (Rooms.roomName s.rooms client.currRoom), outcome)] := by
  have told := processFrame_self h.rooms found active (ascii "WHERE")
  rw [request_where s client (by decide)] at told
  obtain ⟨outcome, offered, -⟩ := told.offers (by simp [found])
  exact ⟨outcome, offered⟩

theorem tellsWhere_iff : s.TellsWhere fd ↔ Rooms.roomName s.rooms client.currRoom ≠ [] := by
  obtain ⟨home, mem, id, member, named⟩ := subscribed h found active
  obtain ⟨outcome, offered⟩ := where_offers h found active
  constructor
  · rintro ⟨client', room, outcome', -, -, -, -, answer⟩ unnamed
    rw [offered, List.append_cancel_left_eq, unnamed] at answer
    have same := congrArg Prod.fst (List.singleton_inj.mp answer)
    exact whereReply_nil room.roomName same
  · intro nonempty
    refine ⟨client, home, outcome, found, mem, id, member, ?_⟩
    rw [offered, whereReply_named nonempty, named]

end Where

theorem perform_named {s : ChatServer} (h : Inv s) {a : Action} (enabled : a.enabled s)
    (named : ∀ fd, s.enters a fd ≠ some []) (before : ∀ room ∈ s.rooms, room.roomName ≠ []) :
    ∀ room ∈ (a.perform s).rooms, room.roomName ≠ [] := by
  intro room mem unnamed
  rcases perform_rooms h.rooms enabled mem with ⟨fd, entered⟩ | old
  · exact named fd (unnamed ▸ entered)
  · obtain ⟨room', mem', same⟩ := List.mem_map.mp old
    exact before room' mem' (((Prod.mk.inj same).2).trans unnamed)

/-- The name of no room is empty in a run in which nobody enters a room of that name. -/
theorem runs_named {listener : Fd} {actions : List Action}
    (runs : machine.Runs (initial listener) actions)
    (named : ∀ n a, actions[n]? = some a → ∀ fd, (stateAt listener actions n).enters a fd ≠ some [])
    {n : Nat} (le : n ≤ actions.length) :
    ∀ room ∈ (stateAt listener actions n).rooms, room.roomName ≠ [] := by
  refine runs.along (P := fun _ s => ∀ room ∈ s.rooms, room.roomName ≠ []) ?_
    (fun k a turn enabled before => ?_) le
  · intro room mem
    obtain rfl := List.mem_singleton.mp mem
    decide
  · exact perform_named (reachable_inv (stateAt_reachable runs k)) enabled (named k a turn) before

/-- In every state of a run WHERE tells the truth to those whose room has a name that
is not empty, and to everybody if nobody enters a room without one. -/
theorem where_truthful {listener : Fd} {actions : List Action}
    (runs : machine.Runs (initial listener) actions) {n : Nat} (le : n ≤ actions.length) :
    let s := stateAt listener actions n
    (∀ fd client, s.clients fd = some client → client.clientState = .active →
      (s.TellsWhere fd ↔ Rooms.roomName s.rooms client.currRoom ≠ [])) ∧
    ((∀ k a, actions[k]? = some a → ∀ fd,
        (stateAt listener actions k).enters a fd ≠ some []) →
      ∀ fd client, s.clients fd = some client → client.clientState = .active → s.TellsWhere fd) := by
  have h := reachable_inv (stateAt_reachable runs n)
  refine ⟨fun fd client found active => tellsWhere_iff h found active,
    fun named fd client found active => ?_⟩
  rw [tellsWhere_iff h found active]
  obtain ⟨room, mem, -, -, same⟩ := subscribed h found active
  rw [same]
  exact runs_named runs named le room mem

def settle (frame : Bytes) : List Action :=
  [.accept 4 ⟨[], [], []⟩, .receive 4 (ascii "ann\n" ++ frame ++ [newline]), .frame 4 0, .frame 4 0]

theorem settle_enters {frame : Bytes}
    (named : ∀ n < 4, (stateAt 3 (settle frame) n).enters (.frame 4 0) 4 ≠ some []) {n : Nat}
    {a : Action} (turn : (settle frame)[n]? = some a) (fd : Fd) :
    (stateAt 3 (settle frame) n).enters a fd ≠ some [] := by
  obtain ⟨bound, same⟩ := List.getElem?_eq_some_iff.mp turn
  have mem : a ∈ settle frame := same ▸ List.getElem_mem bound
  simp only [settle, List.mem_cons, List.not_mem_nil, or_false] at mem
  rcases mem with rfl | rfl | rfl | rfl
  · simp [enters]
  · simp [enters]
  all_goals
    by_cases here : fd = 4
    · exact here ▸ named n bound
    · simp [enters, here]

theorem denJoined_truthful : (stateAt 3 (settle (ascii "JOIN den")) 4).TellsWhere 4 := by
  have runs : machine.Runs (initial 3) (settle (ascii "JOIN den")) := by decide +kernel
  have state : ((stateAt 3 (settle (ascii "JOIN den")) 4).clients 4).map
      ClientConnection.clientState = some .active := by decide +kernel
  obtain ⟨client, found, active⟩ := Option.map_eq_some_iff.mp state
  exact (where_truthful runs le_rfl).2 (fun _ _ turn => settle_enters (by decide +kernel) turn)
    4 client found active

theorem unnamedJoined_not_truthful : machine.Runs (initial 3) (settle (ascii "JOIN  ")) ∧
    (∃ client, (stateAt 3 (settle (ascii "JOIN  ")) 4).clients 4 = some client ∧
      client.clientState = .active) ∧
    ¬ (stateAt 3 (settle (ascii "JOIN  ")) 4).TellsWhere 4 := by
  have runs : machine.Runs (initial 3) (settle (ascii "JOIN  ")) := by decide +kernel
  have state : ((stateAt 3 (settle (ascii "JOIN  ")) 4).clients 4).map
      (fun client => (client.clientState, client.currRoom)) = some (.active, 1) := by
    decide +kernel
  have unnamed : Rooms.roomName (stateAt 3 (settle (ascii "JOIN  ")) 4).rooms 1 = [] := by
    decide +kernel
  obtain ⟨client, found, same⟩ := Option.map_eq_some_iff.mp state
  obtain ⟨active, room⟩ := Prod.mk.inj same
  have h := reachable_inv (stateAt_reachable runs 4)
  refine ⟨runs, ⟨client, found, active⟩, fun truthful => ?_⟩
  refine (tellsWhere_iff h found active).mp truthful ?_
  rw [room, unnamed]

/-- LEAVE does what a JOIN of the main room does, whatever the sends return. -/
theorem leave_eq_join {s : ChatServer} (h : Reachable s) {fd : Fd} {client : ClientConnection}
    (found : s.clients fd = some client) (active : client.clientState = .active)
    (away : ∀ room ∈ s.rooms, room.roomName = mainRoomName → fd ∉ room.subscribedClients) :
    s.processFrame fd (ascii "LEAVE") = s.processFrame fd (ascii "JOIN main-room") := by
  have rooms := (reachable_inv h).rooms
  have elsewhere : client.currRoom ≠ 0 := by
    obtain ⟨main, mem, zero, named⟩ := rooms.main
    intro there
    refine away main mem named ((rooms.members main mem fd).mpr ?_)
    rw [zero, ← there]
    exact Entry.occupant_some.mpr ⟨client, found, active, rfl⟩
  have leave : s.request client (ascii "LEAVE") = .move mainRoomName := by
    have words : tokens (ascii "LEAVE") = [ascii "LEAVE"] := by decide
    have command : ascii "LEAVE" ∈ commands := by decide
    have list : ascii "LEAVE" ≠ ascii "LIST" := by decide
    have join : ascii "LEAVE" ≠ ascii "JOIN" := by decide
    have nonempty : ascii "LEAVE" ≠ [] := by decide
    simp [request, words, command, list, join, nonempty, elsewhere]
  have join : s.request client (ascii "JOIN main-room") = .move mainRoomName := by
    have words : tokens (ascii "JOIN main-room") = [ascii "JOIN", mainRoomName] := by decide
    have command : ascii "JOIN" ∈ commands := by decide
    have list : ascii "JOIN" ≠ ascii "LIST" := by decide
    have nonempty : ascii "JOIN main-room" ≠ [] := by decide
    simp [request, words, command, list, nonempty]
  have away' := roomName_of_ne_zero rooms active found
  rw [processFrame_eq found away' (ascii "LEAVE"), leave,
    processFrame_eq found away' (ascii "JOIN main-room"), join]

theorem denJoined_leave_eq_join :
    (stateAt 3 (settle (ascii "JOIN den")) 4).processFrame 4 (ascii "LEAVE") =
      (stateAt 3 (settle (ascii "JOIN den")) 4).processFrame 4 (ascii "JOIN main-room") := by
  have runs : machine.Runs (initial 3) (settle (ascii "JOIN den")) := by decide +kernel
  have state : ((stateAt 3 (settle (ascii "JOIN den")) 4).clients 4).map
      ClientConnection.clientState = some .active := by decide +kernel
  obtain ⟨client, found, active⟩ := Option.map_eq_some_iff.mp state
  exact leave_eq_join (stateAt_reachable runs 4) found active (by decide +kernel)

end ChatServer
end Partyline
