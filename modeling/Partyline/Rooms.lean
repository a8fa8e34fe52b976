import Partyline.ServerCommon
import Partyline.Library.Keyed
import Mathlib.Data.Set.Insert

/-! The room table of `ChatServer` and the operations that touch nothing else.
The abstract meaning of a table is an occupancy: which room id each descriptor
is in, if any. `Represents` ties the two together. A `roomIdx` is an `int` in the source and a
`Nat` here: what is proved about rooms concerns runs whose ids stay in the range of an `int`,
and `room_ids_in_range` says which runs these are. -/
namespace Partyline

open Library

structure ChatRoom where
  roomIdx : Nat
  roomName : Bytes
  subscribedClients : List Fd
deriving DecidableEq

def mainRoomName : Bytes := ascii "main-room"

namespace Rooms

def findById (rooms : List ChatRoom) (roomId : Nat) : Option ChatRoom :=
  rooms.find? fun candidate => candidate.roomIdx == roomId

def removeFromRooms (rooms : List ChatRoom) (fd : Fd) : List ChatRoom :=
  rooms.map fun room =>
    { room with subscribedClients := room.subscribedClients.filter (· ≠ fd) }

def deleteEmptyRoom (rooms : List ChatRoom) (roomId : Nat) : List ChatRoom :=
  match findById rooms roomId with
  | some room =>
    if room.roomName ≠ mainRoomName ∧ room.subscribedClients = [] then
      rooms.eraseP fun candidate => candidate.roomIdx == roomId
    else rooms
  | none => rooms

def roomName (rooms : List ChatRoom) (roomId : Nat) : Bytes :=
  match findById rooms roomId with
  | none => []
  | some room => room.roomName

/-- The loop `nextId = max(nextId, candidate.roomIdx + 1)` of `joinRoom`. -/
def nextId (rooms : List ChatRoom) : Nat :=
  rooms.foldl (fun next candidate => max next (candidate.roomIdx + 1)) 0

/-- A room iterator: the position it points to, and the id of the room that was
there when it was taken. -/
structure Iterator where
  position : Nat
  roomIdx : Nat

/-- The first half of `joinRoom`: the room of that name, made if it is missing. -/
def findOrCreate (rooms : List ChatRoom) (name : Bytes) : List ChatRoom × Iterator :=
  match rooms.findIdx? fun candidate => candidate.roomName == name with
  | some position => (rooms, ⟨position, (rooms[position]?.map (·.roomIdx)).getD 0⟩)
  | none =>
    (rooms ++ [⟨nextId rooms, name, []⟩], ⟨rooms.length, nextId rooms⟩)

/-- Reading through an iterator: nothing, unless its room is still at its position. -/
def deref (rooms : List ChatRoom) (room : Iterator) : Option ChatRoom :=
  rooms[room.position]?.filter fun candidate => candidate.roomIdx == room.roomIdx

/-- `room->subscribedClients.push_back(fd)`. -/
def subscribe (rooms : List ChatRoom) (room : Iterator) (fd : Fd) : List ChatRoom :=
  rooms.modify room.position fun target =>
    { target with subscribedClients := target.subscribedClients ++ [fd] }

def labels (rooms : List ChatRoom) : List (Nat × Bytes) :=
  rooms.map fun room => (room.roomIdx, room.roomName)

@[simp] theorem labels_removeFromRooms (rooms : List ChatRoom) (fd : Fd) :
    labels (removeFromRooms rooms fd) = labels rooms := by
  rw [labels, removeFromRooms, List.map_map]
  rfl

theorem labels_deleteEmptyRoom (rooms : List ChatRoom) (roomId : Nat) :
    labels (deleteEmptyRoom rooms roomId) ⊆ labels rooms := by
  unfold deleteEmptyRoom
  split
  · split_ifs
    · exact (List.eraseP_sublist.map _).subset
    · exact List.Subset.refl _
  · exact List.Subset.refl _

theorem labels_subscribe (rooms : List ChatRoom) (room : Iterator) (fd : Fd) :
    labels (subscribe rooms room fd) = labels rooms := by
  unfold labels subscribe
  refine map_modify (fun target => ?_) room.position
  rfl

theorem labels_findOrCreate (rooms : List ChatRoom) (name : Bytes) :
    labels (findOrCreate rooms name).1 ⊆
      ((findOrCreate rooms name).2.roomIdx, name) :: labels rooms := by
  unfold findOrCreate
  split
  · exact List.subset_cons_self _ _
  · simp [labels]

/-- The rooms of the table are those of an occupancy. Only a room whose id is
`spare` may be empty without being the main room. -/
structure Represents (spare : Set Nat) (rooms : List ChatRoom) (occupancy : Fd → Option Nat) :
    Prop where
  ids : (rooms.map ChatRoom.roomIdx).Nodup
  names : (rooms.map ChatRoom.roomName).Nodup
  main : ∃ room ∈ rooms, room.roomIdx = 0 ∧ room.roomName = mainRoomName
  unique : ∀ room ∈ rooms, room.subscribedClients.Nodup
  members : ∀ room ∈ rooms, ∀ fd, fd ∈ room.subscribedClients ↔ occupancy fd = some room.roomIdx
  homes : ∀ fd roomId, occupancy fd = some roomId → ∃ room ∈ rooms, room.roomIdx = roomId
  occupied : ∀ room ∈ rooms, room.roomName ≠ mainRoomName → room.roomIdx ∉ spare →
    room.subscribedClients ≠ []

section Represents

variable {spare : Set Nat} {rooms : List ChatRoom} {occupancy : Fd → Option Nat}

theorem Represents.mono {spare' : Set Nat} (h : Represents spare rooms occupancy)
    (le : spare ⊆ spare') : Represents spare' rooms occupancy :=
  { h with occupied := fun room mem name fresh => h.occupied room mem name fun old => fresh (le old) }

theorem Represents.findById (h : Represents spare rooms occupancy) {roomId : Nat}
    {room : ChatRoom} : findById rooms roomId = some room ↔ room ∈ rooms ∧ room.roomIdx = roomId :=
  find?_key h.ids

theorem Represents.roomName (h : Represents spare rooms occupancy) {room : ChatRoom}
    (mem : room ∈ rooms) : roomName rooms room.roomIdx = room.roomName := by
  simp only [Rooms.roomName, h.findById.mpr ⟨mem, rfl⟩]

theorem Represents.remove (h : Represents spare rooms occupancy) (fd : Fd) :
    Represents (spare ∪ {roomId | occupancy fd = some roomId}) (removeFromRooms rooms fd)
      (Function.update occupancy fd none) := by
  refine ⟨?_, ?_, ?_, ?_, ?_, ?_, ?_⟩
  · rw [removeFromRooms, List.map_map]
    exact h.ids
  · rw [removeFromRooms, List.map_map]
    exact h.names
  · obtain ⟨room, mem, id, name⟩ := h.main
    exact ⟨_, List.mem_map_of_mem mem, id, name⟩
  · simp only [removeFromRooms, List.mem_map, forall_exists_index, and_imp, forall_apply_eq_imp_iff₂]
    exact fun room mem => (h.unique room mem).filter _
  · simp only [removeFromRooms, List.mem_map, forall_exists_index, and_imp, forall_apply_eq_imp_iff₂]
    intro room mem other
    have members := h.members room mem other
    by_cases same : other = fd <;> simp [same, members]
  · intro other roomId home
    by_cases same : other = fd
    · simp [same] at home
    · rw [Function.update_of_ne same] at home
      obtain ⟨room, mem, id⟩ := h.homes other roomId home
      exact ⟨_, List.mem_map_of_mem mem, id⟩
  · simp only [removeFromRooms, List.mem_map, forall_exists_index, and_imp, forall_apply_eq_imp_iff₂]
    intro room mem name fresh empty
    obtain ⟨fresh, stays⟩ := not_or.mp fresh
    refine h.occupied room mem name fresh ?_
    rw [List.eq_nil_iff_forall_not_mem] at empty ⊢
    intro other there
    have other_ne : other ≠ fd := by
      rintro rfl
      exact stays ((h.members room mem other).mp there)
    exact empty other (by simp [there, other_ne])

theorem Represents.deleteEmptyRoom (h : Represents spare rooms occupancy) (roomId : Nat) :
    Represents (spare \ {roomId}) (deleteEmptyRoom rooms roomId) occupancy := by
  have kept (settled : ∀ room ∈ rooms, room.roomIdx = roomId → room.roomName ≠ mainRoomName →
      room.subscribedClients ≠ []) : Represents (spare \ {roomId}) rooms occupancy := by
    refine { h with occupied := fun room mem name fresh => ?_ }
    by_cases here : room.roomIdx = roomId
    · exact settled room mem here name
    · exact h.occupied room mem name fun old => fresh ⟨old, here⟩
  unfold Rooms.deleteEmptyRoom
  cases found : Rooms.findById rooms roomId with
  | none =>
    exact kept fun room mem here => (find?_key_eq_none.mp found room mem here).elim
  | some empty =>
    dsimp only
    obtain ⟨mem, rfl⟩ := h.findById.mp found
    split_ifs with leaves
    · refine ⟨nodup_eraseP h.ids _, nodup_eraseP h.names _, ?_, ?_, ?_, ?_, ?_⟩
      · obtain ⟨room, there, id, name⟩ := h.main
        refine ⟨room, (mem_eraseP_key h.ids).mpr ⟨there, fun same => leaves.1 ?_⟩, id, name⟩
        rw [← eq_of_key h.ids there mem same, name]
      · exact fun room there => h.unique room (List.mem_of_mem_eraseP there)
      · exact fun room there => h.members room (List.mem_of_mem_eraseP there)
      · intro fd id home
        obtain ⟨room, there, rfl⟩ := h.homes fd id home
        refine ⟨room, (mem_eraseP_key h.ids).mpr ⟨there, fun same => ?_⟩, rfl⟩
        have member := (h.members empty mem fd).mpr (same ▸ home)
        rw [leaves.2] at member
        exact List.not_mem_nil member
      · intro room there name fresh
        obtain ⟨there, other⟩ := (mem_eraseP_key h.ids).mp there
        exact h.occupied room there name fun old => fresh ⟨old, other⟩
    · refine kept fun room there same name nothing => leaves ?_
      obtain rfl := eq_of_key h.ids there mem same
      exact ⟨name, nothing⟩

theorem Represents.absent (h : Represents spare rooms occupancy) {fd : Fd}
    (out : occupancy fd = none) :
    Rooms.deleteEmptyRoom (removeFromRooms rooms fd) 0 = rooms := by
  have removed : removeFromRooms rooms fd = rooms := by
    refine (List.map_congr_left fun room mem => ?_).trans (List.map_id rooms)
    have others : room.subscribedClients.filter (· ≠ fd) = room.subscribedClients := by
      refine List.filter_eq_self.mpr fun other there => ?_
      have home := (h.members room mem other).mp there
      have ne : other ≠ fd := by
        rintro rfl
        simp [out] at home
      simpa using ne
    rw [others]
    rfl
  obtain ⟨main, mem, id, name⟩ := h.main
  simp [removed, Rooms.deleteEmptyRoom, h.findById.mpr ⟨mem, id⟩, name]

theorem Represents.disconnect (h : Represents spare rooms occupancy) {fd : Fd} {oldRoom : Nat}
    (home : ∀ roomId, occupancy fd = some roomId → roomId = oldRoom) :
    Represents spare (Rooms.deleteEmptyRoom (removeFromRooms rooms fd) oldRoom)
      (Function.update occupancy fd none) := by
  refine ((h.remove fd).deleteEmptyRoom oldRoom).mono ?_
  rintro roomId ⟨old | left, other⟩
  · exact old
  · exact (other (home roomId left)).elim

theorem le_foldl_nextId (rooms : List ChatRoom) (next : Nat) :
    next ≤ rooms.foldl (fun next candidate => max next (candidate.roomIdx + 1)) next ∧
      ∀ room ∈ rooms, room.roomIdx <
        rooms.foldl (fun next candidate => max next (candidate.roomIdx + 1)) next := by
  induction rooms generalizing next with
  | nil => simp
  | cons room rooms ih =>
    obtain ⟨start, rest⟩ := ih (max next (room.roomIdx + 1))
    rw [List.foldl_cons]
    refine ⟨by omega, fun other mem => ?_⟩
    rcases List.mem_cons.mp mem with rfl | mem
    · omega
    · exact rest other mem

theorem lt_nextId {room : ChatRoom} (mem : room ∈ rooms) : room.roomIdx < nextId rooms :=
  (le_foldl_nextId rooms 0).2 room mem

theorem Represents.findOrCreate (h : Represents spare rooms occupancy) (name : Bytes) :
    ∃ target, (Rooms.findOrCreate rooms name).1[(Rooms.findOrCreate rooms name).2.position]? =
        some target ∧
      target.roomIdx = (Rooms.findOrCreate rooms name).2.roomIdx ∧ target.roomName = name ∧
      (∀ room ∈ rooms, room.roomName = name ↔ room.roomIdx = target.roomIdx) ∧
      Represents (spare ∪ {target.roomIdx}) (Rooms.findOrCreate rooms name).1 occupancy := by
  unfold Rooms.findOrCreate
  split
  · rename_i position found
    obtain ⟨bound, here, -⟩ := List.findIdx?_eq_some_iff_getElem.mp found
    have there : rooms[position]? = some rooms[position] := List.getElem?_eq_getElem bound
    have mem : rooms[position] ∈ rooms := List.getElem_mem bound
    have named : rooms[position].roomName = name := by simpa using here
    refine ⟨rooms[position], there, by simp [there], named, fun room other => ⟨fun same => ?_,
      fun same => ?_⟩, h.mono Set.subset_union_left⟩
    · rw [eq_of_key h.names other mem (same.trans named.symm)]
    · rw [eq_of_key h.ids other mem same, named]
  · rename_i missing
    have missing : ∀ room ∈ rooms, room.roomName ≠ name := by
      simpa using List.findIdx?_eq_none_iff.mp missing
    refine ⟨⟨nextId rooms, name, []⟩, by simp, rfl, rfl, fun room mem => ?_, ?_⟩
    · have older := lt_nextId mem
      simp only [missing room mem, false_iff]
      omega
    refine ⟨?_, ?_, ?_, ?_, ?_, ?_, ?_⟩
    · rw [List.map_append, List.nodup_append]
      refine ⟨h.ids, by simp, ?_⟩
      rintro _ old id new rfl
      obtain ⟨room, mem, same⟩ := List.mem_map.mp old
      have older := lt_nextId mem
      simp only [List.map_cons, List.map_nil, List.mem_singleton] at new
      omega
    · rw [List.map_append, List.nodup_append]
      refine ⟨h.names, by simp, ?_⟩
      rintro _ old other new rfl
      obtain ⟨room, mem, same⟩ := List.mem_map.mp old
      exact missing room mem (same.trans (List.mem_singleton.mp new))
    · obtain ⟨room, mem, main⟩ := h.main
      exact ⟨room, List.mem_append_left _ mem, main⟩
    · intro room mem
      rcases List.mem_append.mp mem with old | new
      · exact h.unique room old
      · obtain rfl := List.mem_singleton.mp new
        exact List.nodup_nil
    · intro room mem fd
      rcases List.mem_append.mp mem with old | new
      · exact h.members room old fd
      · obtain rfl := List.mem_singleton.mp new
        simp only [List.not_mem_nil, false_iff]
        intro home
        obtain ⟨room, old, id⟩ := h.homes fd _ home
        exact (lt_nextId old).ne id
    · intro fd roomId home
      obtain ⟨room, mem, id⟩ := h.homes fd roomId home
      exact ⟨room, List.mem_append_left _ mem, id⟩
    · intro room mem other fresh
      simp only [Set.mem_union, Set.mem_singleton_iff, not_or] at fresh
      rcases List.mem_append.mp mem with old | new
      · exact h.occupied room old other fresh.1
      · obtain rfl := List.mem_singleton.mp new
        exact (fresh.2 rfl).elim

theorem Represents.subscribe (h : Represents spare rooms occupancy) {room : Iterator}
    {target : ChatRoom} (found : rooms[room.position]? = some target) {fd : Fd}
    (out : occupancy fd = none) :
    Represents (spare \ {target.roomIdx}) (Rooms.subscribe rooms room fd)
      (Function.update occupancy fd (some target.roomIdx)) := by
  have moved : Rooms.subscribe rooms room fd = rooms.map fun old =>
      { old with subscribedClients :=
          if old.roomIdx = target.roomIdx then old.subscribedClients ++ [fd]
          else old.subscribedClients } := by
    rw [Rooms.subscribe, modify_key h.ids found]
    refine List.map_congr_left fun old _ => ?_
    split_ifs <;> rfl
  have ids : (Rooms.subscribe rooms room fd).map ChatRoom.roomIdx =
      rooms.map ChatRoom.roomIdx := by
    rw [moved, List.map_map]
    rfl
  have names : (Rooms.subscribe rooms room fd).map ChatRoom.roomName =
      rooms.map ChatRoom.roomName := by
    rw [moved, List.map_map]
    rfl
  have mem_iff : ∀ other, other ∈ Rooms.subscribe rooms room fd ↔ ∃ old ∈ rooms,
      { old with subscribedClients :=
          if old.roomIdx = target.roomIdx then old.subscribedClients ++ [fd]
          else old.subscribedClients } = other := by
    intro other
    rw [moved, List.mem_map]
  refine ⟨ids ▸ h.ids, names ▸ h.names, ?_, ?_, ?_, ?_, ?_⟩
  · obtain ⟨main, mem, id, name⟩ := h.main
    exact ⟨_, (mem_iff _).mpr ⟨main, mem, rfl⟩, id, name⟩
  · intro other there
    obtain ⟨old, mem, rfl⟩ := (mem_iff other).mp there
    have unique := h.unique old mem
    dsimp only
    split_ifs
    · have absent : fd ∉ old.subscribedClients := by simp [h.members old mem, out]
      simpa [List.nodup_append, unique] using fun other there => ne_of_mem_of_not_mem there absent
    · exact unique
  · intro other there member
    obtain ⟨old, mem, rfl⟩ := (mem_iff other).mp there
    have members := h.members old mem member
    by_cases same : member = fd
    · subst same
      rw [out] at members
      dsimp only
      split_ifs with here
      · simp [here]
      · simp [members, Ne.symm here]
    · dsimp only
      split_ifs <;> simp [members, same]
  · intro member roomId home
    by_cases same : member = fd
    · subst same
      refine ⟨_, (mem_iff _).mpr ⟨target, List.mem_of_getElem? found, rfl⟩, ?_⟩
      simpa using home
    · rw [Function.update_of_ne same] at home
      obtain ⟨old, mem, id⟩ := h.homes member roomId home
      exact ⟨_, (mem_iff _).mpr ⟨old, mem, rfl⟩, id⟩
  · intro other there name fresh
    obtain ⟨old, mem, rfl⟩ := (mem_iff other).mp there
    dsimp only at name fresh ⊢
    split_ifs with here
    · simp
    · exact h.occupied old mem name fun spared => fresh ⟨spared, here⟩

/-- What `joinRoom` does to the rooms: its iterator is good when it is read, and
the table afterwards is that of the occupancy with the client moved. -/
theorem Represents.join (h : Represents spare rooms occupancy) (name : Bytes) (fd : Fd) :
    ∃ target, deref (removeFromRooms (Rooms.findOrCreate rooms name).1 fd)
        (Rooms.findOrCreate rooms name).2 = some target ∧
      target.roomName = name ∧
      (∀ room ∈ rooms, room.roomName = name ↔ room.roomIdx = target.roomIdx) ∧
      Represents (spare ∪ {roomId | occupancy fd = some roomId})
        (Rooms.subscribe (removeFromRooms (Rooms.findOrCreate rooms name).1 fd)
          (Rooms.findOrCreate rooms name).2 fd)
        (Function.update occupancy fd (some target.roomIdx)) := by
  obtain ⟨target, found, id, named, names, created⟩ := h.findOrCreate name
  have found' : (removeFromRooms (Rooms.findOrCreate rooms name).1 fd)[
      (Rooms.findOrCreate rooms name).2.position]? = some
        { target with subscribedClients := target.subscribedClients.filter (· ≠ fd) } := by
    simp [removeFromRooms, found]
  refine ⟨{ target with subscribedClients := target.subscribedClients.filter (· ≠ fd) },
    by rw [deref, found']; simp [id], named, names, ?_⟩
  have subscribed := (created.remove fd).subscribe found' (Function.update_self fd none occupancy)
  rw [Function.update_idem] at subscribed
  refine subscribed.mono ?_
  rintro roomId ⟨(old | new) | left, other⟩
  · exact .inl old
  · exact (other new).elim
  · exact .inr left

end Represents
end Rooms
end Partyline
