import Partyline.Entries

/-! What the operations that address a room do, entry by entry: the notices, a
chat line, a move to another room, the end of a connection. -/
namespace Partyline

namespace ChatServer

open Rooms (labels)

theorem disconnect_labels (s : ChatServer) (fd : Fd) (reason : String) :
    labels (s.disconnect fd reason).rooms ⊆ labels s.rooms := by
  unfold disconnect
  split
  · exact List.Subset.refl _
  · exact List.Subset.trans (Rooms.labels_deleteEmptyRoom _ _) (by simp)

theorem deliver_labels (s : ChatServer) (fd : Fd) (data : Bytes) (reason : String) :
    labels (s.deliver fd data reason).2.rooms ⊆ labels s.rooms := by
  simp only [deliver, queueOutput]
  cases s.clients fd with
  | none => exact disconnect_labels s.dangle fd reason
  | some record =>
    dsimp only
    generalize queueOutputCommon s.serverIteration record (s.ports fd) data = result
    obtain ⟨queued, record', port⟩ := result
    cases queued with
    | true => exact List.Subset.refl _
    | false => exact disconnect_labels ((s.setClient fd record').setPort fd port) fd reason

theorem notifyClient_eq (roomId : Nat) (excludedFd : Int) (message : Bytes) (s : ChatServer)
    (fd : Fd) : notifyClient roomId excludedFd message s fd =
      if (fd : Int) ≠ excludedFd ∧ s.occupancy fd = some roomId then
        (s.deliver fd message "slow client: room notification output queue overflow").2
      else s := by
  unfold notifyClient
  by_cases excluded : (fd : Int) = excludedFd
  · simp [excluded]
  · cases found : s.clients fd with
    | none => simp [excluded, occupancy, Entry.occupant, found]
    | some client =>
      by_cases member : client.clientState = .active ∧ client.currRoom = roomId
      · have home : s.occupancy fd = some roomId := Entry.occupant_some.mpr ⟨client, found, member⟩
        simp only [excluded, if_false, member, ne_eq, not_true_eq_false, or_self, not_false_eq_true,
          home, and_self, if_true, deliver]
        generalize s.queueOutput fd message = result
        obtain ⟨queued, t⟩ := result
        cases queued <;> rfl
      · have away : s.occupancy fd ≠ some roomId := by
          intro home
          obtain ⟨record, same, there⟩ := Entry.occupant_some.mp home
          rw [entry_client, found] at same
          obtain rfl := Option.some.inj same
          exact member there
        rw [if_neg excluded, if_neg (by simp [away])]
        dsimp only
        rw [if_pos (not_and_or.mp member)]

theorem notifyClient_performs (roomId : Nat) (excludedFd : Int) (message : Bytes)
    (s : ChatServer) (fd : Fd) :
    Performs s (notifyClient roomId excludedFd message s fd)
      (only fd (Entry.notified s.serverIteration roomId excludedFd message fd)) := by
  rw [notifyClient_eq]
  split_ifs with told
  · obtain ⟨record, found, -⟩ := Entry.occupant_some.mp told.2
    refine (deliver_performs found message _).congr_only ?_ fun _ ne => only_of_ne ne _ _
    rw [only_self]
    exact (if_pos told).symm
  · exact (Performs.refl s).congr_only (if_neg told).symm fun _ _ => rfl

theorem notifyClient_rooms {spare : Set Nat} {s : ChatServer} (h : s.RoomsOk spare) (roomId : Nat)
    (excludedFd : Int) (message : Bytes) (fd : Fd) :
    (notifyClient roomId excludedFd message s fd).RoomsOk spare ∧
      labels (notifyClient roomId excludedFd message s fd).rooms ⊆ labels s.rooms := by
  rw [notifyClient_eq]
  split_ifs with told
  · obtain ⟨record, found, -⟩ := Entry.occupant_some.mp told.2
    exact ⟨deliver_rooms h found message _, deliver_labels s fd message _⟩
  · exact ⟨h, List.Subset.refl _⟩

section NotifyRoom

variable (roomId : Nat) (excludedFd : Int) (message : Bytes)

theorem foldl_notifyClient_performs (recipients : List Fd) (distinct : recipients.Nodup)
    (s : ChatServer) :
    Performs s (recipients.foldl (notifyClient roomId excludedFd message) s) fun fd e =>
      if fd ∈ recipients then Entry.notified s.serverIteration roomId excludedFd message fd e
      else e := by
  induction recipients generalizing s with
  | nil => exact (Performs.refl s).congr fun fd => by simp
  | cons first rest ih =>
    rw [List.nodup_cons] at distinct
    have head := notifyClient_performs roomId excludedFd message s first
    refine (head.trans (ih distinct.2 _)).congr fun fd => ?_
    rw [head.serverIteration]
    by_cases same : fd = first
    · subst same
      simp [distinct.1]
    · simp [same]

theorem foldl_notifyClient_rooms {spare : Set Nat} (recipients : List Fd) {s : ChatServer}
    (h : s.RoomsOk spare) :
    (recipients.foldl (notifyClient roomId excludedFd message) s).RoomsOk spare ∧
      labels (recipients.foldl (notifyClient roomId excludedFd message) s).rooms ⊆
        labels s.rooms := by
  induction recipients generalizing s with
  | nil => exact ⟨h, List.Subset.refl _⟩
  | cons first rest ih =>
    obtain ⟨kept, fewer⟩ := notifyClient_rooms h roomId excludedFd message first
    obtain ⟨kept', fewer'⟩ := ih kept
    exact ⟨kept', List.Subset.trans fewer' fewer⟩

variable {spare : Set Nat} {s : ChatServer} (h : s.RoomsOk spare)

include h

theorem notifyRoom_performs :
    Performs s (s.notifyRoom roomId excludedFd message)
      (Entry.notified s.serverIteration roomId excludedFd message) := by
  unfold notifyRoom
  cases found : Rooms.findById s.rooms roomId with
  | none =>
    refine (Performs.refl s).congr fun fd => ?_
    rw [Entry.notified, if_neg]
    rintro ⟨-, home⟩
    obtain ⟨room, mem, id⟩ := h.homes fd roomId home
    exact Library.find?_key_eq_none.mp found room mem id
  | some room =>
    obtain ⟨mem, id⟩ := h.findById.mp found
    refine (foldl_notifyClient_performs roomId excludedFd message _ (h.unique room mem) s).congr
      fun fd => ?_
    split_ifs with member
    · rfl
    · rw [Entry.notified, if_neg]
      rintro ⟨-, home⟩
      exact member ((h.members room mem fd).mpr (id ▸ home))

theorem notifyRoom_rooms : (s.notifyRoom roomId excludedFd message).RoomsOk spare ∧
    labels (s.notifyRoom roomId excludedFd message).rooms ⊆ labels s.rooms := by
  unfold notifyRoom
  cases Rooms.findById s.rooms roomId with
  | none => exact ⟨h, List.Subset.refl _⟩
  | some room => exact foldl_notifyClient_rooms roomId excludedFd message _ h

end NotifyRoom

section Broadcast

variable {sender : Fd} {source : ClientConnection} (output : Bytes)

theorem broadcastLoop_cons {s : ChatServer} (found : s.clients sender = some source) (fd : Fd)
    (rest : List Fd) : broadcastLoop sender output (fd :: rest) s =
      if fd ≠ sender ∧ s.occupancy fd = some source.currRoom then
        match s.deliver fd output "slow client: chat message output queue overflow" with
        | (true, s) => broadcastLoop sender output rest s
        | (false, s) => (false, s)
      else broadcastLoop sender output rest s := by
  simp only [broadcastLoop, found]
  by_cases same : fd = sender
  · simp [same]
  · cases entry : s.clients fd with
    | none => simp [same, occupancy, Entry.occupant, entry]
    | some client =>
      by_cases member : client.clientState = .active ∧ client.currRoom = source.currRoom
      · have home : s.occupancy fd = some source.currRoom :=
          Entry.occupant_some.mpr ⟨client, entry, member⟩
        simp only [same, if_false, member, ne_eq, not_true_eq_false, or_self, not_false_eq_true,
          home, and_self, if_true, deliver]
        generalize s.queueOutput fd output = result
        obtain ⟨queued, t⟩ := result
        cases queued <;> rfl
      · have away : s.occupancy fd ≠ some source.currRoom := by
          intro home
          obtain ⟨record, same, there⟩ := Entry.occupant_some.mp home
          rw [entry_client, entry] at same
          obtain rfl := Option.some.inj same
          exact member there
        rw [if_neg same, if_neg (by simp [away])]
        dsimp only
        rw [if_pos (not_and_or.mp member)]

/-- How the loop over the recipients ends: all have taken the line, or the last one served
is the first that has not. -/
def LoopEnds (s : ChatServer) (sender : Fd) (source : ClientConnection) (output : Bytes)
    (result : Bool) (served rest : List Fd) : Prop :=
  (result = true ∧ rest = [] ∧
      ∀ fd ∈ served, fd ≠ sender → s.occupancy fd = some source.currRoom →
        (s.entry fd).accepts s.serverIteration output = true) ∨
    ∃ front last, result = false ∧
      served = front ++ [last] ∧ last ≠ sender ∧ s.occupancy last = some source.currRoom ∧
      (s.entry last).accepts s.serverIteration output = false ∧
      ∀ fd ∈ front, fd ≠ sender → s.occupancy fd = some source.currRoom →
        (s.entry fd).accepts s.serverIteration output = true

theorem LoopEnds.cons {t : ChatServer} {result : Bool} {served rest : List Fd}
    (ends : LoopEnds t sender source output result served rest) {first : Fd}
    (taken : first ≠ sender → s.occupancy first = some source.currRoom →
      (s.entry first).accepts s.serverIteration output = true)
    (same : ∀ fd ∈ served, t.occupancy fd = s.occupancy fd ∧
      (t.entry fd).accepts t.serverIteration output =
        (s.entry fd).accepts s.serverIteration output) :
    LoopEnds s sender source output result (first :: served) rest := by
  rcases ends with ⟨done, empty, all⟩ | ⟨front, last, stopped, rfl, ne, home, refused, all⟩
  · refine .inl ⟨done, empty, fun fd mem ne home => ?_⟩
    rcases List.mem_cons.mp mem with rfl | mem
    · exact taken ne home
    · rw [← (same fd mem).2]
      exact all fd mem ne ((same fd mem).1.trans home)
  · refine .inr ⟨first :: front, last, stopped, rfl, ne, ?_, ?_, fun fd mem ne home => ?_⟩
    · rw [← (same last (by simp)).1, home]
    · rw [← (same last (by simp)).2, refused]
    · rcases List.mem_cons.mp mem with rfl | mem
      · exact taken ne home
      · rw [← (same fd (by simp [mem])).2]
        exact all fd mem ne ((same fd (by simp [mem])).1.trans home)

/-- Either all recipients take the line and the loop succeeds, or it ends at the
first one that does not, and nobody after it is reached. -/
theorem broadcastLoop_performs (recipients : List Fd) (distinct : recipients.Nodup)
    {s : ChatServer} (found : s.clients sender = some source) :
    ∃ served rest, recipients = served ++ rest ∧
      Performs s (broadcastLoop sender output recipients s).2 (fun fd e =>
        if fd ∈ served then Entry.heard s.serverIteration source.currRoom sender output fd e
        else e) ∧
      LoopEnds s sender source output (broadcastLoop sender output recipients s).1 served rest := by
  induction recipients generalizing s with
  | nil =>
    have result : broadcastLoop sender output [] s = (true, s) := by simp only [broadcastLoop, found]
    rw [result]
    exact ⟨[], [], rfl, (Performs.refl s).congr fun fd => by simp, .inl ⟨rfl, rfl, by simp⟩⟩
  | cons first others ih =>
    rw [List.nodup_cons] at distinct
    rw [broadcastLoop_cons output found]
    by_cases addressed : first ≠ sender ∧ s.occupancy first = some source.currRoom
    · obtain ⟨client, entry, -⟩ := Entry.occupant_some.mp addressed.2
      have taken := deliver_fst entry output "slow client: chat message output queue overflow"
      have told := deliver_performs entry output "slow client: chat message output queue overflow"
      rw [if_pos addressed]
      generalize s.deliver first output _ = result at taken told ⊢
      obtain ⟨queued, t⟩ := result
      cases queued with
      | false =>
        refine ⟨[first], others, rfl, told.congr fun fd => ?_,
          .inr ⟨[], first, rfl, rfl, addressed.1, addressed.2, taken.symm, by simp⟩⟩
        by_cases same : fd = first
        · subst same
          rw [only_self, if_pos (by simp)]
          exact (if_pos addressed).symm
        · simp [same]
      | true =>
        have kept : ∀ fd, fd ≠ first → t.entry fd = s.entry fd := fun fd other => by
          simp [told.entries, other]
        have found' : t.clients sender = some source := by
          rw [← found]
          exact (entry_eq (kept sender (Ne.symm addressed.1))).1
        obtain ⟨served, rest, split, performs, ends⟩ := ih distinct.2 found'
        have unseen : first ∉ served := fun mem => distinct.1 (by simp [split, mem])
        refine ⟨first :: served, rest, by rw [split]; rfl, (told.trans performs).congr fun fd => ?_,
          ends.cons output (fun _ _ => taken.symm) fun fd mem => ?_⟩
        · rw [told.serverIteration]
          by_cases same : fd = first
          · subst same
            rw [if_neg unseen, only_self, if_pos (by simp)]
            exact (if_pos addressed).symm
          · simp [same]
        · rw [occupancy, occupancy, kept fd (ne_of_mem_of_not_mem mem unseen), told.serverIteration]
          exact ⟨rfl, rfl⟩
    · rw [if_neg addressed]
      obtain ⟨served, rest, split, performs, ends⟩ := ih distinct.2 found
      have unseen : first ∉ served := fun mem => distinct.1 (by simp [split, mem])
      refine ⟨first :: served, rest, by rw [split]; rfl, performs.congr fun fd => ?_,
        ends.cons output (fun ne home => (addressed ⟨ne, home⟩).elim) fun fd mem => ⟨rfl, rfl⟩⟩
      by_cases same : fd = first
      · subst same
        rw [if_neg unseen, if_pos (by simp)]
        exact (if_neg addressed).symm
      · simp [same]

theorem broadcastLoop_rooms {spare : Set Nat} (recipients : List Fd) {s : ChatServer}
    (h : s.RoomsOk spare) (found : s.clients sender = some source) :
    (broadcastLoop sender output recipients s).2.RoomsOk spare := by
  induction recipients generalizing s with
  | nil => simpa only [broadcastLoop, found] using h
  | cons first others ih =>
    rw [broadcastLoop_cons output found]
    split_ifs with addressed
    · obtain ⟨client, entry, -⟩ := Entry.occupant_some.mp addressed.2
      have told := deliver_performs entry output "slow client: chat message output queue overflow"
      have kept := deliver_rooms h entry output "slow client: chat message output queue overflow"
      generalize s.deliver first output _ = result at told kept ⊢
      obtain ⟨queued, t⟩ := result
      cases queued with
      | false => exact kept
      | true =>
        refine ih kept ?_
        rw [← found]
        exact (entry_eq (by simp [told.entries, Ne.symm addressed.1])).1
    · exact ih h found

end Broadcast

/-- `joinRoom` for a client in the room `occupancy client` of a table that
represents `occupancy`, which need not be the clients' own. -/
theorem joinRoom_performs {s : ChatServer} {client : Fd} {record : ClientConnection}
    (found : s.clients client = some record) {spare : Set Nat} {occupancy : Fd → Option Nat}
    (h : Rooms.Represents spare s.rooms occupancy) (name : Bytes) :
    ∃ roomId, (∀ room ∈ s.rooms, room.roomName = name ↔ room.roomIdx = roomId) ∧
      Performs s (s.joinRoom client name) (only client (Entry.moved roomId)) ∧
      Rooms.Represents (spare ∪ {old | occupancy client = some old}) (s.joinRoom client name).rooms
        (Function.update occupancy client (some roomId)) ∧
      labels (s.joinRoom client name).rooms ⊆ (roomId, name) :: labels s.rooms := by
  obtain ⟨target, read, -, names, joined⟩ := h.join name client
  have made := Rooms.labels_findOrCreate s.rooms name
  have id : (Rooms.findOrCreate s.rooms name).2.roomIdx = target.roomIdx := by
    obtain ⟨-, same⟩ := Option.filter_eq_some_iff.mp read
    simpa using (beq_iff_eq.mp same).symm
  have result : ∃ rooms, rooms = Rooms.subscribe (Rooms.removeFromRooms
      (Rooms.findOrCreate s.rooms name).1 client) (Rooms.findOrCreate s.rooms name).2 client ∧
      s.joinRoom client name =
        { s with rooms }.setClient client { record with currRoom := target.roomIdx } :=
    ⟨_, rfl, by simp only [joinRoom, found, read]⟩
  obtain ⟨rooms, subscribed, result⟩ := result
  have fewer : labels rooms ⊆ (target.roomIdx, name) :: labels s.rooms := by
    rw [subscribed, Rooms.labels_subscribe, Rooms.labels_removeFromRooms, ← id]
    exact made
  rw [← subscribed] at joined
  rw [result]
  refine ⟨target.roomIdx, names, ⟨fun fd => ?_, rfl, rfl, rfl⟩, joined, fewer⟩
  by_cases same : fd = client
  · subst same
    simp [entry, Entry.moved, found]
  · simp [entry, same]

end ChatServer
end Partyline
