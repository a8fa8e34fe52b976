import Partyline.Commands
import Partyline.Healthy
import Partyline.Library.Allotment

/-! The ids of the rooms. `joinRoom` computes them in a signed `int`, one above the
highest id in the table, and nothing makes them small again as long as each new
room is made while one made before it is still there. -/
namespace Partyline

open Library

def maxInt : Nat := 2147483647

namespace Rooms

/-- The values `candidate.roomIdx + 1` that `joinRoom` computes: none where it finds a room. -/
def candidateIds (rooms : List ChatRoom) (name : Bytes) : List Nat :=
  if rooms.any fun candidate => candidate.roomName == name then []
  else rooms.map fun candidate => candidate.roomIdx + 1

theorem nextId_eq {rooms : List ChatRoom} {name : Bytes}
    (missing : ∀ room ∈ rooms, room.roomName ≠ name) :
    nextId rooms = (candidateIds rooms name).foldl max 0 := by
  have empty : rooms.any (fun candidate => candidate.roomName == name) = false := by
    simpa using missing
  rw [candidateIds, empty, nextId, if_neg Bool.false_ne_true, List.foldl_map]

theorem mem_candidateIds {rooms : List ChatRoom} {name : Bytes} {value : Nat} :
    value ∈ candidateIds rooms name ↔
      name ∉ (labels rooms).map Prod.snd ∧ ∃ label ∈ labels rooms, label.1 + 1 = value := by
  unfold candidateIds
  split_ifs with there
  · obtain ⟨room, mem, same⟩ := List.any_eq_true.mp there
    refine iff_of_false List.not_mem_nil fun missing => missing.1 ?_
    exact List.mem_map.mpr ⟨_, List.mem_map_of_mem mem, by simpa using same⟩
  · have missing : name ∉ (labels rooms).map Prod.snd := by
      simpa [labels] using there
    rw [and_iff_right missing]
    simp [labels]

theorem exists_nextId {rooms : List ChatRoom} (nonempty : rooms ≠ []) :
    ∃ room ∈ rooms, nextId rooms = room.roomIdx + 1 := by
  have highest (rooms : List ChatRoom) (next : Nat) :
      rooms.foldl (fun next candidate => max next (candidate.roomIdx + 1)) next = next ∨
        ∃ room ∈ rooms, rooms.foldl (fun next candidate => max next (candidate.roomIdx + 1)) next =
          room.roomIdx + 1 := by
    induction rooms generalizing next with
    | nil => exact .inl rfl
    | cons room rooms ih =>
      rw [List.foldl_cons]
      rcases ih (max next (room.roomIdx + 1)) with same | ⟨other, mem, same⟩
      · rw [same]
        by_cases higher : next ≤ room.roomIdx + 1
        · exact .inr ⟨room, List.mem_cons_self, Nat.max_eq_right higher⟩
        · exact .inl (Nat.max_eq_left (by omega))
      · exact .inr ⟨other, List.mem_cons_of_mem _ mem, same⟩
  rcases highest rooms 0 with zero | found
  · obtain ⟨room, mem⟩ := List.exists_mem_of_ne_nil rooms nonempty
    have above := lt_nextId mem
    rw [nextId, zero] at above
    omega
  · exact found

theorem mem_labels_findOrCreate {rooms : List ChatRoom} {name : Bytes} {label : Nat × Bytes}
    (mem : label ∈ labels (findOrCreate rooms name).1) : label ∈ labels rooms ∨
      name ∉ (labels rooms).map Prod.snd ∧ label = (nextId rooms, name) := by
  unfold findOrCreate at mem
  split at mem
  · exact .inl mem
  · rename_i absent
    have missing : ∀ room ∈ rooms, room.roomName ≠ name := by
      simpa using List.findIdx?_eq_none_iff.mp absent
    rw [labels, List.map_append, List.mem_append] at mem
    rcases mem with old | new
    · exact .inl old
    · refine .inr ⟨?_, by simpa using new⟩
      simpa [labels] using missing

end Rooms

namespace ChatServer

open Rooms (labels)

/-- The part of a move that comes before `joinRoom`. -/
def leaving (s : ChatServer) (sender : Fd) (source : ClientConnection) (name : Bytes) :
    ChatServer :=
  let oldRoom := source.currRoom
  let oldName := Rooms.roomName s.rooms oldRoom
  if oldName ≠ name then s.notifyRoom oldRoom sender (leftLine source.username oldName) else s

theorem moveTo_eq (s : ChatServer) (sender : Fd) (source : ClientConnection) (name : Bytes) :
    s.moveTo sender source name =
      let oldName := Rooms.roomName s.rooms source.currRoom
      let t := (s.leaving sender source name).joinRoom sender name
      let t := if oldName ≠ name then t.announceJoin sender name else t
      { t with rooms := Rooms.deleteEmptyRoom t.rooms source.currRoom } := rfl

def joinCall (s : ChatServer) (a : Action) : Option (List ChatRoom × Bytes) :=
  match a with
  | .frame c _ => (s.clients c).bind fun client =>
    match splitFrame client.inputBuffer with
    | none => none
    | some (raw, remaining) =>
      if maxFrameBytes < raw.length then none
      else match client.clientState with
        | .awaitingUsername => some (s.rooms, mainRoomName)
        | .active =>
          let t := s.taking c client raw remaining
          let source := { client with inputBuffer := remaining }
          match s.request client (stripCarriageReturn raw) with
          | .move name => some ((t.leaving c source name).rooms, name)
          | _ => none
  | _ => none

def candidateIds (s : ChatServer) (a : Action) : List Nat :=
  match s.joinCall a with
  | none => []
  | some (rooms, name) => Rooms.candidateIds rooms name

/-- In the step somebody enters a room of a name that no room has. -/
def Makes (s : ChatServer) (a : Action) (name : Bytes) : Prop :=
  (∃ fd, s.enters a fd = some name) ∧ name ∉ (labels s.rooms).map Prod.snd

theorem joinRoom_labels (s : ChatServer) (client : Fd) (name : Bytes) :
    labels (s.joinRoom client name).rooms ⊆ labels (Rooms.findOrCreate s.rooms name).1 ∨
      (s.joinRoom client name).rooms = s.rooms := by
  unfold joinRoom
  dsimp only
  cases s.clients client with
  | none => exact .inr rfl
  | some record =>
    dsimp only
    cases Rooms.deref _ _ with
    | none => exact .inr rfl
    | some target =>
      refine .inl ?_
      change labels (Rooms.subscribe _ _ _) ⊆ _
      rw [Rooms.labels_subscribe, Rooms.labels_removeFromRooms]
      exact List.Subset.refl _

section Leaving

variable {s : ChatServer} (h : s.RoomsOk ∅) {sender : Fd} {source : ClientConnection}
  (found : s.clients sender = some source) (active : source.clientState = .active) (name : Bytes)

include h found active

/-- Nobody whom the notice finds too slow is the last in the room: the client that
leaves is still there. So the notice deletes no room. -/
theorem leaving_labels (label : Nat × Bytes) :
    label ∈ labels (s.leaving sender source name).rooms ↔ label ∈ labels s.rooms := by
  unfold leaving
  dsimp only
  split_ifs
  swap
  · rfl
  have told := notifyRoom_performs source.currRoom sender
    (leftLine source.username (Rooms.roomName s.rooms source.currRoom)) h
  obtain ⟨kept, fewer⟩ := notifyRoom_rooms source.currRoom sender
    (leftLine source.username (Rooms.roomName s.rooms source.currRoom)) h
  generalize s.notifyRoom source.currRoom sender
    (leftLine source.username (Rooms.roomName s.rooms source.currRoom)) = t at told kept fewer ⊢
  refine ⟨fun mem => fewer mem, fun mem => ?_⟩
  obtain ⟨room, there, rfl⟩ := List.mem_map.mp mem
  have stands : ∃ other ∈ t.rooms, other.roomIdx = room.roomIdx := by
    have home : s.occupancy sender = some source.currRoom :=
      Entry.occupant_some.mpr ⟨source, found, active, rfl⟩
    by_cases here : room.roomIdx = source.currRoom
    · have spared : t.occupancy sender = some source.currRoom := by
        rw [occupancy, told.entries, Entry.notified, if_neg (fun sent => sent.1 rfl)]
        exact home
      rw [here]
      exact kept.homes sender _ spared
    by_cases main : room.roomName = mainRoomName
    · obtain ⟨old, mem, zero, named⟩ := h.main
      obtain ⟨still, mem', zero', -⟩ := kept.main
      have same := eq_of_key h.names there mem (main.trans named.symm)
      exact ⟨still, mem', by rw [zero', same, zero]⟩
    · obtain ⟨fd, member⟩ := List.exists_mem_of_ne_nil _
        (h.occupied room there main (Set.notMem_empty _))
      have lives := (h.members room there fd).mp member
      refine kept.homes fd _ ?_
      rw [occupancy, told.entries, Entry.notified, if_neg]
      · exact lives
      · rintro ⟨-, same⟩
        exact here (Option.some.inj (lives.symm.trans same))
  obtain ⟨other, mem', id⟩ := stands
  have old := fewer (List.mem_map_of_mem (f := fun room => (room.roomIdx, room.roomName)) mem')
  obtain ⟨room', there', same⟩ := List.mem_map.mp old
  obtain ⟨id', name'⟩ := Prod.mk.inj same
  obtain rfl : room' = room := eq_of_key h.ids there' there (id'.trans id)
  rw [id', name']
  exact List.mem_map_of_mem mem'

/-- The rooms after a move are old ones, or the next one if its name is new. -/
theorem moveTo_allots {label : Nat × Bytes}
    (mem : label ∈ labels (s.moveTo sender source name).rooms) : label ∈ labels s.rooms ∨
      label.2 = name ∧ name ∉ (labels s.rooms).map Prod.snd ∧
        (∀ old ∈ labels s.rooms, old.1 < label.1) ∧ ∃ old ∈ labels s.rooms, label.1 = old.1 + 1 := by
  have table := leaving_labels h found active name
  rw [moveTo_eq] at mem
  generalize s.leaving sender source name = t at mem table
  have joined : label ∈ labels (t.joinRoom sender name).rooms := by
    have mem := Rooms.labels_deleteEmptyRoom _ _ mem
    split_ifs at mem
    · unfold announceJoin at mem
      split at mem
      · exact mem
      · exact notifyRoom_labels _ _ _ _ mem
    · exact mem
  have made : label ∈ labels t.rooms ∨
      name ∉ (labels t.rooms).map Prod.snd ∧ label = (Rooms.nextId t.rooms, name) := by
    rcases joinRoom_labels t sender name with fewer | same
    · exact Rooms.mem_labels_findOrCreate (fewer joined)
    · rw [same] at joined
      exact .inl joined
  rcases made with old | ⟨missing, rfl⟩
  · exact .inl ((table _).mp old)
  · refine .inr ⟨rfl, ?_, fun old mem => ?_, ?_⟩
    · rintro there
      obtain ⟨old, mem, same⟩ := List.mem_map.mp there
      exact missing (List.mem_map.mpr ⟨old, (table old).mpr mem, same⟩)
    · obtain ⟨room, there, rfl⟩ := List.mem_map.mp ((table old).mpr mem)
      exact Rooms.lt_nextId there
    · obtain ⟨main, there, -⟩ := h.main
      have standing := (table _).mpr (List.mem_map_of_mem there)
      have nonempty : t.rooms ≠ [] := by
        rintro empty
        simp [empty, labels] at standing
      obtain ⟨room, mem, next⟩ := Rooms.exists_nextId nonempty
      exact ⟨_, (table _).mp (List.mem_map_of_mem mem), next⟩

end Leaving

theorem perform_allots {s : ChatServer} (h : Inv s) {a : Action} (enabled : a.enabled s) :
    Allots (s.Makes a) (labels s.rooms) (labels (a.perform s).rooms) := by
  refine ⟨fun name makes old mem same => makes.2 (List.mem_map.mpr ⟨old, mem, same⟩),
    fun label mem => ?_⟩
  cases acts : a.actor with
  | none =>
    cases a with
    | iteration | load results | answered c recvs => exact .inl mem
    | accept c results | receive c chunk | frame c framesProcessed | peerClosed c
    | recvFailed c | write c => simp [Action.actor] at acts
  | some c =>
    rcases perform_renames h.rooms enabled acts with fewer | ⟨-, name, entered, -⟩
    · exact .inl (fewer mem)
    obtain ⟨framesProcessed, client, raw, remaining, rfl, found, split, short, state⟩ :=
      enters_cases entered
    rcases state with ⟨awaiting, -⟩ | ⟨active, asked, -⟩
    · have fewer := (frameStep_username h.rooms found split short awaiting framesProcessed).2.2
      exact .inl (fewer mem)
    · have kept := eraseFrame_rooms h.rooms found remaining (.frame raw (stripCarriageReturn raw))
      have found' := taking_clients s c client raw remaining
      have asked' : (s.taking c client raw remaining).request
          { client with inputBuffer := remaining } (stripCarriageReturn raw) = .move name := asked
      have final : Action.perform (.frame c framesProcessed) s =
          (s.taking c client raw remaining).moveTo c { client with inputBuffer := remaining }
            name := by
        rw [Action.perform, (frameStep_active found split short active framesProcessed).1,
          processFrame_eq found' (roomName_of_ne_zero kept active found'), asked']
      rw [final] at mem
      rcases moveTo_allots kept found' active name mem with old | ⟨rfl, missing, next⟩
      · exact .inl old
      · exact .inr ⟨⟨⟨c, entered⟩, missing⟩, next⟩

section Call

variable {s : ChatServer} (h : Inv s) {a : Action} {name : Bytes}

theorem joinCall_of_enters {fd : Fd} (entered : s.enters a fd = some name) :
    ∃ rooms, s.joinCall a = some (rooms, name) := by
  obtain ⟨framesProcessed, client, raw, remaining, rfl, found, split, short, state⟩ :=
    enters_cases entered
  simp only [joinCall, found, Option.bind_some, split, Nat.not_lt.mpr short, if_false]
  rcases state with ⟨awaiting, rfl⟩ | ⟨active, asked, -⟩
  · exact ⟨s.rooms, by simp only [awaiting]⟩
  · simp only [active, asked]
    exact ⟨_, rfl⟩

include h

/-- `joinRoom` sees the rooms that there were before the step, and makes one only for
somebody who enters it. -/
theorem joinCall_table {rooms : List ChatRoom} (call : s.joinCall a = some (rooms, name)) :
    (∀ label, label ∈ labels rooms ↔ label ∈ labels s.rooms) ∧
      (name ∉ (labels s.rooms).map Prod.snd → s.Makes a name) := by
  cases a with
  | frame c framesProcessed =>
    obtain ⟨client, found, call⟩ := Option.bind_eq_some_iff.mp call
    cases split : splitFrame client.inputBuffer with
    | none => simp [split] at call
    | some taken =>
      obtain ⟨raw, remaining⟩ := taken
      simp only [split] at call
      split_ifs at call with long
      cases state : client.clientState with
      | awaitingUsername =>
        obtain ⟨rfl, rfl⟩ : s.rooms = rooms ∧ mainRoomName = name := by
          simpa [state] using call
        refine ⟨fun _ => Iff.rfl, fun missing => ⟨⟨c, ?_⟩, missing⟩⟩
        simp [enters, found, split, long, state]
      | active =>
        simp only [state] at call
        split at call
        · rename_i there asked
          obtain ⟨rfl, rfl⟩ := Prod.mk.inj (Option.some.inj call)
          have kept := eraseFrame_rooms h.rooms found remaining
            (.frame raw (stripCarriageReturn raw))
          have table := leaving_labels kept (taking_clients s c client raw remaining) state there
          refine ⟨table, fun missing => ⟨⟨c, ?_⟩, missing⟩⟩
          have home : s.occupancy c = some client.currRoom :=
            Entry.occupant_some.mpr ⟨client, found, state, rfl⟩
          obtain ⟨room, mem, id⟩ := h.rooms.homes c _ home
          have differ : Rooms.roomName s.rooms client.currRoom ≠ there := by
            rintro rfl
            rw [← id, h.rooms.roomName mem] at missing
            exact missing (List.mem_map_of_mem (List.mem_map_of_mem mem))
          simp [enters, found, split, long, state, asked, differ]
        · cases call
  | _ => cases call

theorem mem_candidateIds_of_makes (makes : s.Makes a name) {label : Nat × Bytes}
    (mem : label ∈ labels s.rooms) : label.1 + 1 ∈ s.candidateIds a := by
  obtain ⟨⟨fd, entered⟩, missing⟩ := makes
  obtain ⟨rooms, call⟩ := joinCall_of_enters entered
  obtain ⟨table, -⟩ := joinCall_table h call
  have missing' : name ∉ (labels rooms).map Prod.snd := by
    rintro there
    obtain ⟨old, mem, same⟩ := List.mem_map.mp there
    exact missing (List.mem_map.mpr ⟨old, (table old).mp mem, same⟩)
  simp only [candidateIds, call]
  exact Rooms.mem_candidateIds.mpr ⟨missing', label, (table label).mpr mem, rfl⟩

/-- All values are in range, or a room is made while one stands that has the highest id. -/
theorem candidateIds_le_iff : (∀ value ∈ s.candidateIds a, value ≤ maxInt) ↔
    ((∃ name, s.Makes a name) → ∀ label ∈ labels s.rooms, label.1 < maxInt) := by
  constructor
  · rintro all ⟨name, makes⟩ label mem
    exact all _ (mem_candidateIds_of_makes h makes mem)
  · intro below value computed
    unfold candidateIds at computed
    split at computed
    · cases computed
    · rename_i rooms name call
      obtain ⟨table, makes⟩ := joinCall_table h call
      obtain ⟨missing, label, mem, rfl⟩ := Rooms.mem_candidateIds.mp computed
      refine below ⟨name, makes ?_⟩ label ((table label).mp mem)
      rintro there
      obtain ⟨old, mem, same⟩ := List.mem_map.mp there
      exact missing (List.mem_map.mpr ⟨old, (table old).mpr mem, same⟩)

end Call

section Run

variable (listener : Fd) (actions : List Action)

/-- Before the `n`-th action the room of that name is there, the last of `k` that were
made one after another, each while the one before it was there; the first one was made
while the main room was. -/
def RoomStack (n k : Nat) (name : Bytes) : Prop :=
  Stacked mainRoomName
    (fun n name => ∃ a, actions[n]? = some a ∧ (stateAt listener actions n).Makes a name)
    (fun n => labels (stateAt listener actions n).rooms) n k name

variable {listener actions} (runs : machine.Runs (initial listener) actions)

include runs

theorem ids_lt_iff (n bound : Nat) :
    (∀ label ∈ labels (stateAt listener actions n).rooms, label.1 < bound) ↔
      ∀ k name, RoomStack listener actions n k name → k < bound := by
  have start : labels (stateAt listener actions 0).rooms = [(0, mainRoomName)] := rfl
  have unique (n : Nat) : ((labels (stateAt listener actions n).rooms).map Prod.snd).Nodup := by
    have names := (reachable_inv (stateAt_reachable runs n)).rooms.names
    simpa [labels, Function.comp_def] using names
  refine ids_lt_iff_stacks_lt start (fun n => ?_) unique
  cases turn : actions[n]? with
  | none =>
    have still : stateAt listener actions (n + 1) = stateAt listener actions n := by
      simp [stateAt, List.take_add_one, turn]
    rw [still]
    exact ⟨by simp, fun label mem => .inl mem⟩
  | some a =>
    have next : stateAt listener actions (n + 1) = a.perform (stateAt listener actions n) :=
      Transition.after_take_succ _ turn
    rw [next]
    simpa using perform_allots (reachable_inv (stateAt_reachable runs n)) (runs.enabled turn)

/-- A new room has the highest of the values computed, and in every run these are in range as long
as no room is made upon a stack of `maxInt` rooms. -/
theorem room_ids_in_range :
    (∀ rooms name, (∀ room ∈ rooms, room.roomName ≠ name) →
      Rooms.nextId rooms = (Rooms.candidateIds rooms name).foldl max 0) ∧
    ((∀ n a, actions[n]? = some a →
      ∀ value ∈ (stateAt listener actions n).candidateIds a, value ≤ maxInt) ↔
    ∀ n a, actions[n]? = some a → (∃ name, (stateAt listener actions n).Makes a name) →
      ∀ k name, RoomStack listener actions n k name → k < maxInt) := by
  refine ⟨fun _ _ => Rooms.nextId_eq, ?_⟩
  refine forall_congr' fun n => forall_congr' fun a => imp_congr_right fun turn => ?_
  rw [candidateIds_le_iff (reachable_inv (stateAt_reachable runs n)), ids_lt_iff runs]

end Run

theorem room_ids_small : machine.Runs (initial 3) (settle (ascii "JOIN den")) ∧
    ∀ n a, (settle (ascii "JOIN den"))[n]? = some a →
      ∀ value ∈ (stateAt 3 (settle (ascii "JOIN den")) n).candidateIds a, value ≤ maxInt := by
  have runs : machine.Runs (initial 3) (settle (ascii "JOIN den")) := by decide +kernel
  refine ⟨runs, (room_ids_in_range runs).2.mpr fun n a turn _ k name stack => ?_⟩
  obtain ⟨bound, -⟩ := List.getElem?_eq_some_iff.mp turn
  have short : (settle (ascii "JOIN den")).length = 4 := rfl
  have steps : k ≤ n := Stacked.le stack
  unfold maxInt
  omega

/-! A client that goes back and forth between two rooms, each made anew while the
other still stands. -/

def stop (n : Nat) : Bytes := if n % 2 = 0 then ascii "a" else ascii "b"

def hop (n : Nat) : List Action :=
  [.iteration,
    .load fun _ => ⟨[], List.replicate maxBytesWrittenPerPoll (.accepted maxBytesWrittenPerPoll), []⟩,
    .receive 4 (ascii "JOIN " ++ stop n ++ [newline]), .frame 4 0]

def wander : Nat → List Action
  | 0 => [.accept 4 ⟨[], List.replicate 3 (.accepted 100), []⟩,
      .receive 4 (ascii "u\nJOIN a\n"), .frame 4 0, .frame 4 0]
  | n + 1 => wander n ++ hop (n + 1)

structure Wandering (n : Nat) (s : ChatServer) : Prop where
  rooms : s.rooms = [⟨0, mainRoomName, []⟩, ⟨n + 1, stop n, [4]⟩]
  record : ∃ client, s.clients 4 = some client ∧
    client.session = (ascii "u", n + 1, [], .active) ∧ client.outputQueue = []

theorem stop_cases (n : Nat) :
    stop n = ascii "a" ∧ stop (n + 1) = ascii "b" ∨ stop n = ascii "b" ∧ stop (n + 1) = ascii "a" := by
  unfold stop
  rcases Nat.mod_two_eq_zero_or_one n with even | odd
  · have next : ¬ (n + 1) % 2 = 0 := by omega
    exact .inl ⟨if_pos even, if_neg next⟩
  · have this : ¬ n % 2 = 0 := by omega
    have next : (n + 1) % 2 = 0 := by omega
    exact .inr ⟨if_neg this, if_pos next⟩

theorem deliver_taken {s : ChatServer} {fd : Fd} {record : ClientConnection}
    (found : s.clients fd = some record) {data : Bytes}
    (taken : (s.entry fd).accepts s.serverIteration data = true) (reason : String) :
    (s.deliver fd data reason).2.rooms = s.rooms := by
  simp only [Entry.accepts, entry_client, entry_port, found, ← queueOutputCommon_fst] at taken
  simp only [deliver, queueOutput, found]
  generalize queueOutputCommon s.serverIteration record (s.ports fd) data = result at taken ⊢
  obtain ⟨_, record', port⟩ := result
  obtain rfl := taken
  rfl

section Hop

variable {s : ChatServer} {n : Nat} {source : ClientConnection}
  (rooms : s.rooms = [⟨0, mainRoomName, []⟩, ⟨n + 1, stop n, [4]⟩])
  (found : s.clients 4 = some source)

include rooms found

theorem hop_joinRoom : s.joinRoom 4 (stop (n + 1)) =
    { s with rooms := [⟨0, mainRoomName, []⟩, ⟨n + 1, stop n, []⟩, ⟨n + 2, stop (n + 1), [4]⟩] }.setClient
      4 { source with currRoom := n + 2 } := by
  have differ : stop n ≠ stop (n + 1) ∧ mainRoomName ≠ stop (n + 1) := by
    rcases stop_cases n with ⟨here, next⟩ | ⟨here, next⟩ <;> rw [here, next] <;> decide
  simp [joinRoom, Rooms.findOrCreate, rooms, found, Rooms.nextId, Rooms.removeFromRooms,
    Rooms.deref, Rooms.subscribe, differ, List.findIdx?_cons, Option.filter]

/-- The move to the next stop: a room with the next id is made, the old one goes. -/
theorem hop_moveTo (session : source.session = (ascii "u", n + 1, [], .active))
    (healthy : (s.entry 4).Healthy s.serverIteration maxBytesWrittenPerPoll 0 true) :
    Wandering (n + 1) (s.moveTo 4 source (stop (n + 1))) := by
  obtain ⟨username, room, buffer, active⟩ : source.username = ascii "u" ∧
      source.currRoom = n + 1 ∧ source.inputBuffer = [] ∧ source.clientState = .active := by
    simpa [ClientConnection.session] using session
  have differ : stop n ≠ stop (n + 1) ∧ stop n ≠ mainRoomName ∧
      (joinedLine (ascii "u") (stop (n + 1))).length = 26 := by
    rcases stop_cases n with ⟨here, next⟩ | ⟨here, next⟩ <;> rw [here, next] <;> decide
  have named : Rooms.roomName s.rooms (n + 1) = stop n := by
    simp [rooms, Rooms.roomName, Rooms.findById]
  have stays : s.leaving 4 source (stop (n + 1)) = s := by
    simp [leaving, room, notifyRoom, Rooms.findById, rooms, notifyClient]
  rw [moveTo_eq, room, named, stays, hop_joinRoom rooms found]
  let v := { s with rooms := [⟨0, mainRoomName, []⟩, ⟨n + 1, stop n, []⟩,
    ⟨n + 2, stop (n + 1), [4]⟩] }.setClient 4 { source with currRoom := n + 2 }
  let line := joinedLine (ascii "u") (stop (n + 1))
  have found' : v.clients 4 = some { source with currRoom := n + 2 } := by simp [v]
  have home : v.occupancy 4 = some (n + 2) :=
    Entry.occupant_some.mpr ⟨_, found', active, rfl⟩
  have healthy' : (v.entry 4).Healthy v.serverIteration maxBytesWrittenPerPoll 0 true := by
    obtain ⟨client, same, healthy⟩ := healthy
    rw [entry_client, found] at same
    obtain rfl := Option.some.inj same
    refine ⟨_, found', healthy.size, healthy.queue, ?_, healthy.within, healthy.willing,
      healthy.armed, healthy.interest⟩
    rw [← healthy.left]
    exact budgetLeft_congr rfl rfl
  have told : v.announceJoin 4 (stop (n + 1)) =
      (v.deliver 4 line "slow client: room notification output queue overflow").2 := by
    have here : Rooms.findById v.rooms (n + 2) = some ⟨n + 2, stop (n + 1), [4]⟩ := by
      simp [v, Rooms.findById]
    simp only [announceJoin, found', notifyRoom, here, List.foldl_cons, List.foldl_nil,
      notifyClient_eq, username]
    exact if_pos ⟨by decide, home⟩
  have taken : (v.entry 4).accepts v.serverIteration line = true := by
    refine (healthy'.accepts line).mpr ⟨?_, .inr (.inr rfl)⟩
    rw [differ.2.2]
    decide
  have table : (v.announceJoin 4 (stop (n + 1))).rooms = v.rooms := by
    rw [told, deliver_taken found' taken]
  have entry : (v.announceJoin 4 (stop (n + 1))).entry 4 = (v.entry 4).offered v.serverIteration
      line "slow client: room notification output queue overflow" := by
    rw [told, (deliver_performs found' _ _).entries, only_self]
  dsimp only
  rw [if_pos differ.1]
  change Wandering (n + 1) { v.announceJoin 4 (stop (n + 1)) with
    rooms := Rooms.deleteEmptyRoom (v.announceJoin 4 (stop (n + 1))).rooms (n + 1) }
  refine ⟨?_, ?_⟩
  · dsimp only
    rw [table]
    simp [v, Rooms.deleteEmptyRoom, Rooms.findById, differ]
  · obtain ⟨client, same, after⟩ := healthy'.offered taken
      "slow client: room notification output queue overflow"
    obtain ⟨record, found'', result⟩ := Entry.offered_of_accepts taken
      "slow client: room notification output queue overflow"
    have empty : client.outputQueue = [] := after.queue.mpr (by
      rw [differ.2.2]
      decide)
    have kept := (queueOutputCommon_offered v.serverIteration record (v.entry 4).port line).session
    rw [result] at same
    obtain rfl := Option.some.inj same
    obtain rfl := Option.some.inj (found'.symm.trans found'')
    have stored := congrArg Entry.client (entry.trans result)
    exact ⟨_, stored, kept.trans (by simp [ClientConnection.session, username, buffer, active]),
      empty⟩

end Hop

theorem hop_request (s : ChatServer) (client : ClientConnection) (n : Nat) :
    let frame := ascii "JOIN " ++ stop n
    splitFrame (frame ++ [newline]) = some (frame, []) ∧ stripCarriageReturn frame = frame ∧
      frame.length ≤ maxFrameBytes ∧ s.request client frame = .move (stop n) := by
  rcases stop_cases n with ⟨here, -⟩ | ⟨here, -⟩
  · have words : tokens (ascii "JOIN " ++ ascii "a") = [ascii "JOIN", ascii "a"] := by decide
    rw [here]
    refine ⟨by decide, by decide, by decide, ?_⟩
    simp +decide [request, words]
  · have words : tokens (ascii "JOIN " ++ ascii "b") = [ascii "JOIN", ascii "b"] := by decide
    rw [here]
    refine ⟨by decide, by decide, by decide, ?_⟩
    simp +decide [request, words]

theorem wandering_hop {s : ChatServer} (h : Reachable s) {n : Nat} (here : Wandering n s) :
    machine.Runs s (hop (n + 1)) ∧ (machine.after s ((hop (n + 1)).take 3)).rooms = s.rooms ∧
      Wandering (n + 1) (machine.after s (hop (n + 1))) := by
  obtain ⟨client, found, session, empty⟩ := here.record
  obtain ⟨username, room, buffer, active⟩ : client.username = ascii "u" ∧
      client.currRoom = n + 1 ∧ client.inputBuffer = [] ∧ client.clientState = .active := by
    simpa [ClientConnection.session] using session
  obtain ⟨split, clean, short, -⟩ := hop_request s client (n + 1)
  let frame := ascii "JOIN " ++ stop (n + 1)
  let u := s.beginServerIteration.load fun _ =>
    ⟨[], List.replicate maxBytesWrittenPerPoll (.accepted maxBytesWrittenPerPoll), []⟩
  let record := { client with inputBuffer := frame ++ [newline] }
  let t := (u.setClient 4 record).note 4 (.received (frame ++ [newline]))
  have found' : t.clients 4 = some record := by simp [t, note]
  have received : Action.perform (.receive 4 (frame ++ [newline])) u = t := by
    have fits : ¬ (frame ++ [newline]).length > maxInputBufferBytes := by
      have : maxFrameBytes < maxInputBufferBytes := by decide
      rw [List.length_append, List.length_singleton]
      change frame.length ≤ _ at short
      omega
    have found : u.clients 4 = some client := found
    simp only [Action.perform, receive, found, buffer, List.nil_append]
    rw [if_neg fits]
  have runs : machine.Runs s (hop (n + 1)) := by
    refine ⟨trivial, trivial, ?_, ?_, trivial⟩
    · change u.clients 4 ≠ none
      simp [u, load, beginServerIteration, found]
    · change (Action.perform (.receive 4 (frame ++ [newline])) u).clients 4 ≠ none
      rw [received, found']
      simp
  have before : machine.after s ((hop (n + 1)).take 3) = t := received
  refine ⟨runs, by rw [before]; rfl, ?_⟩
  have met : Reachable t := by
    have path := (runs.take 3).steps
    rw [← received]
    exact h.steps path
  have asked : (t.taking 4 record frame []).request { record with inputBuffer := [] } frame =
      .move (stop (n + 1)) := (hop_request _ _ _).2.2.2
  have taken := taking_clients t 4 record frame []
  have kept : (t.taking 4 record frame []).RoomsOk ∅ :=
    eraseFrame_rooms (reachable_inv met).rooms found' [] _
  have final : machine.after s (hop (n + 1)) = (t.taking 4 record frame []).moveTo 4
      { record with inputBuffer := [] } (stop (n + 1)) := by
    change Action.perform (.frame 4 0) (Action.perform (.receive 4 (frame ++ [newline])) u) = _
    rw [received, Action.perform, (frameStep_active found' split short active 0).1, clean,
      processFrame_eq taken (roomName_of_ne_zero kept active taken), asked]
  rw [final]
  refine hop_moveTo here.rooms taken ?_ ?_
  · simp [ClientConnection.session, record, username, room, active]
  have ok := (reachable_inv h).entries 4
  have stamp := ((reachable_budgeted h 4).left client found).1
  have output := ok.output client found
  refine ⟨_, taken, ?_, ?_, ?_, Nat.le_refl _, ?_, ?_, fun _ => rfl⟩
  · exact output.size.trans (by rw [empty]; rfl)
  · simp [record, empty]
  · refine budgetLeft_of_old ?_
    change client.writeBudgetIteration ≠ s.serverIteration + 1
    omega
  · refine ⟨fun result mem => ?_, ?_, ?_⟩
    · change result ∈ List.replicate _ _ at mem
      exact ⟨_, (List.mem_replicate.mp mem).2, Nat.le_refl _⟩
    · change _ ≤ (List.replicate _ _).length
      rw [List.length_replicate]
    · exact ok.registered.mpr (.inr (by simp [found]))
  · exact iff_of_false (fun armed => output.disarmed armed empty) (by simp)

theorem wander_runs (n : Nat) :
    machine.Runs (initial 3) (wander n) ∧ Wandering n (machine.after (initial 3) (wander n)) := by
  induction n with
  | zero => exact ⟨by decide +kernel, by decide +kernel, _, rfl, by decide +kernel, by decide +kernel⟩
  | succ n ih =>
    have met := (Transition.Reachable.of_init (M := machine) ⟨3, rfl⟩).steps ih.1.steps
    obtain ⟨runs, -, next⟩ := wandering_hop met ih.2
    refine ⟨ih.1.append runs, ?_⟩
    rw [wander, Transition.after_append]
    exact next

theorem wander_computes (n : Nat) : ∃ i a, (wander (n + 1))[i]? = some a ∧
    n + 2 ∈ (stateAt 3 (wander (n + 1)) i).candidateIds a := by
  obtain ⟨-, here⟩ := wander_runs n
  obtain ⟨runs, there⟩ := wander_runs (n + 1)
  have met := stateAt_reachable (wander_runs n).1 (wander n).length
  have turn : (wander (n + 1))[(wander n).length + 3]? = some (.frame 4 0) := by
    rw [wander, List.getElem?_append_right (by omega), Nat.add_sub_cancel_left]
    rfl
  have state : stateAt 3 (wander (n + 1)) ((wander n).length + 3) =
      machine.after (machine.after (initial 3) (wander n)) ((hop (n + 1)).take 3) := by
    rw [stateAt, wander, List.take_length_add_append, Transition.after_append]
  rw [stateAt, List.take_length] at met
  have old : labels (stateAt 3 (wander (n + 1)) ((wander n).length + 3)).rooms =
      [(0, mainRoomName), (n + 1, stop n)] := by
    rw [state, (wandering_hop met here).2.1, here.rooms]
    rfl
  refine ⟨_, _, turn, ?_⟩
  have inv := reachable_inv (stateAt_reachable runs ((wander n).length + 3))
  have new : (n + 2, stop (n + 1)) ∈ labels
      (Action.perform (.frame 4 0) (stateAt 3 (wander (n + 1)) ((wander n).length + 3))).rooms := by
    have all : (wander (n + 1)).length = (wander n).length + 3 + 1 := by
      rw [wander, List.length_append]
      rfl
    have final : stateAt 3 (wander (n + 1)) ((wander n).length + 3 + 1) =
        Action.perform (.frame 4 0) (stateAt 3 (wander (n + 1)) ((wander n).length + 3)) :=
      Transition.after_take_succ _ turn
    rw [← final, stateAt, ← all, List.take_length, there.rooms]
    exact List.mem_cons_of_mem _ List.mem_cons_self
  rcases (perform_allots inv (runs.enabled turn)).2 _ new with same | ⟨makes, -, label, mem, next⟩
  · simp [old] at same
  · have computed := mem_candidateIds_of_makes inv makes mem
    rw [← next] at computed
    exact computed

/-- The walk with one more room than there are ids. -/
theorem room_ids_leave_range : machine.Runs (initial 3) (wander maxInt) ∧
    ∃ n a, (wander maxInt)[n]? = some a ∧
      maxInt + 1 ∈ (stateAt 3 (wander maxInt) n).candidateIds a := by
  obtain ⟨n, last⟩ : ∃ n, maxInt = n + 1 := ⟨2147483646, rfl⟩
  rw [last]
  exact ⟨(wander_runs _).1, wander_computes _⟩

end ChatServer
end Partyline
