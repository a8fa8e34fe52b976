import Mathlib.Data.List.AList
import Mathlib.Data.List.Perm.Subperm
import Partyline.Invariant
import Partyline.Library.Calls
import Partyline.Library.Indexing
import Partyline.Library.Keyed

/-! The two implementations of `ReadinessDispatcher`. Each refines the map from
the watched descriptors to their write interest, which is what the server uses
them for; so they are interchangeable. -/
namespace Partyline

open Library

/-- What `errno` is after a call that returned false. -/
inductive Errno where
  | enoent
  | eexist
deriving DecidableEq

inductive Operation where
  | add (fd : Fd)
  | remove (fd : Fd)
  | setWriteInterest (fd : Fd) (enabled : Bool)
deriving DecidableEq

abbrev Registry := Fd → Option Bool

namespace Registry

def apply (registry : Registry) : Operation → Except Errno Registry
  | .add fd =>
    if registry fd = none then .ok (Function.update registry fd (some false)) else .error .eexist
  | .remove fd =>
    if registry fd = none then .error .enoent else .ok (Function.update registry fd none)
  | .setWriteInterest fd enabled =>
    if registry fd = none then .error .enoent
    else .ok (Function.update registry fd (some enabled))

/-- The server adds only descriptors that are not watched. -/
def Fresh (registry : Registry) : Operation → Prop
  | .add fd => registry fd = none
  | .remove _ | .setWriteInterest _ _ => True

instance (registry : Registry) : (op : Operation) → Decidable (registry.Fresh op)
  | .add fd => inferInstanceAs (Decidable (registry fd = none))
  | .remove _ | .setWriteInterest _ _ => .isTrue trivial

end Registry

def pollin : UInt16 := 0x001
def pollout : UInt16 := 0x004
def pollerr : UInt16 := 0x008
def pollhup : UInt16 := 0x010
def pollnval : UInt16 := 0x020

def epollin : UInt32 := 0x001
def epollout : UInt32 := 0x004
def epollerr : UInt32 := 0x008
def epollhup : UInt32 := 0x010
def epollrdhup : UInt32 := 0x2000

/-- What the kernel finds true of an open descriptor. -/
structure Conditions where
  readable : Bool
  writable : Bool
  error : Bool
  hangup : Bool
  readHangup : Bool

def Conditions.pollMask (c : Conditions) : UInt16 :=
  (if c.readable then pollin else 0) ||| (if c.writable then pollout else 0) |||
    (if c.error then pollerr else 0) ||| (if c.hangup then pollhup else 0)

def Conditions.epollMask (c : Conditions) : UInt32 :=
  (if c.readable then epollin else 0) ||| (if c.writable then epollout else 0) |||
    (if c.error then epollerr else 0) ||| (if c.hangup then epollhup else 0) |||
    (if c.readHangup then epollrdhup else 0)

abbrev Snapshot := Fd → Option Conditions

structure PollFd where
  fd : Fd
  events : UInt16
  revents : UInt16
deriving DecidableEq

/-- The kernel's answer for one entry: what was asked for, and errors in any case. -/
def Snapshot.revents (snapshot : Snapshot) (descriptor : PollFd) : UInt16 :=
  match snapshot descriptor.fd with
  | none => pollnval
  | some c => c.pollMask &&& (descriptor.events ||| pollerr ||| pollhup)

structure PollDispatcher where
  descriptors : List PollFd
  indexes : AList fun _ : Fd => Nat
  lastMaxEvents : Nat

namespace PollDispatcher

def initial : PollDispatcher := ⟨[], ∅, 0⟩

def add (d : PollDispatcher) (fd : Fd) : Except Errno PollDispatcher :=
  .ok { d with
    indexes := d.indexes.insert fd d.descriptors.length
    descriptors := d.descriptors ++ [⟨fd, pollin, 0⟩] }

def remove (d : PollDispatcher) (fd : Fd) : Except Errno PollDispatcher :=
  match d.indexes.lookup fd with
  | none => .error .enoent
  | some index =>
    match d.descriptors.getLast? with
    -- `back()` of an empty vector, of which there is no index
    | none => .error .enoent
    | some back =>
      let descriptors := (d.descriptors.set index back).dropLast
      let indexes := d.indexes.erase fd
      .ok { d with
        descriptors
        indexes := if index < descriptors.length then indexes.insert back.fd index else indexes }

def setWriteInterest (d : PollDispatcher) (fd : Fd) (enabled : Bool) :
    Except Errno PollDispatcher :=
  match d.indexes.lookup fd with
  | none => .error .enoent
  | some index =>
    .ok { d with
      descriptors := d.descriptors.modify index fun descriptor =>
        { descriptor with events :=
            if enabled then descriptor.events ||| pollout else descriptor.events &&& ~~~pollout } }

def apply (d : PollDispatcher) : Operation → Except Errno PollDispatcher
  | .add fd => d.add fd
  | .remove fd => d.remove fd
  | .setWriteInterest fd enabled => d.setWriteInterest fd enabled

def readyFlags (revents : UInt16) : UInt32 :=
  (if revents &&& pollin ≠ 0 then readyRead else 0) |||
    (if revents &&& pollout ≠ 0 then readyWrite else 0) |||
    (if revents &&& (pollerr ||| pollhup ||| pollnval) ≠ 0 then readyError else 0)

/-- `returned` is the snapshot `poll` returns on; without one it has failed. -/
def wait (d : PollDispatcher) (returned : Option Snapshot) :
    Int × List ReadyEvent × PollDispatcher :=
  let d := { d with lastMaxEvents := d.descriptors.length }
  match returned with
  | none => (-1, [], d)
  | some snapshot =>
    let descriptors := d.descriptors.map fun descriptor =>
      { descriptor with revents := snapshot.revents descriptor }
    let count := descriptors.countP fun descriptor => descriptor.revents ≠ 0
    if count = 0 then (count, [], { d with descriptors })
    else
      let events := descriptors.filterMap fun descriptor =>
        if descriptor.revents = 0 then none
        else some ⟨descriptor.fd, readyFlags descriptor.revents⟩
      (count, events, { d with descriptors })

def registered (d : PollDispatcher) : Registry := fun fd =>
  (d.descriptors.find? fun descriptor => descriptor.fd == fd).map fun descriptor =>
    descriptor.events &&& pollout ≠ 0

/-- The table of indexes and the list are inverse to each other. -/
structure Inverse (d : PollDispatcher) : Prop where
  indexes : ∀ i descriptor, d.descriptors[i]? = some descriptor →
    d.indexes.lookup descriptor.fd = some i
  size : d.indexes.entries.length = d.descriptors.length
  distinct : (d.descriptors.map PollFd.fd).Nodup

end PollDispatcher

def maxEvents : Nat := 4096

/-- The kernel's side of an epoll descriptor is the part of the state that counts:
the events asked for on each descriptor added. -/
structure EpollDispatcher where
  interests : Fd → Option UInt32

inductive EpollCtl where
  | add (events : UInt32)
  | mod (events : UInt32)
  | del

/-- `epoll_ctl` on a valid epoll descriptor and an open `fd`. -/
def epollCtl (interests : Fd → Option UInt32) (fd : Fd) :
    EpollCtl → Except Errno (Fd → Option UInt32)
  | .add events =>
    if interests fd = none then .ok (Function.update interests fd (some events))
    else .error .eexist
  | .mod events =>
    if interests fd = none then .error .enoent
    else .ok (Function.update interests fd (some events))
  | .del =>
    if interests fd = none then .error .enoent else .ok (Function.update interests fd none)

namespace EpollDispatcher

def initial : EpollDispatcher := ⟨fun _ => none⟩

def add (d : EpollDispatcher) (fd : Fd) : Except Errno EpollDispatcher :=
  (epollCtl d.interests fd (.add (epollin ||| epollrdhup))).map EpollDispatcher.mk

def remove (d : EpollDispatcher) (fd : Fd) : Except Errno EpollDispatcher :=
  (epollCtl d.interests fd .del).map EpollDispatcher.mk

def setWriteInterest (d : EpollDispatcher) (fd : Fd) (enabled : Bool) :
    Except Errno EpollDispatcher :=
  (epollCtl d.interests fd
    (.mod (epollin ||| epollrdhup ||| if enabled then epollout else 0))).map EpollDispatcher.mk

def apply (d : EpollDispatcher) : Operation → Except Errno EpollDispatcher
  | .add fd => d.add fd
  | .remove fd => d.remove fd
  | .setWriteInterest fd enabled => d.setWriteInterest fd enabled

def readyFlags (events : UInt32) : UInt32 :=
  (if events &&& epollin ≠ 0 then readyRead else 0) |||
    (if events &&& epollout ≠ 0 then readyWrite else 0) |||
    (if events &&& (epollerr ||| epollhup ||| epollrdhup) ≠ 0 then readyError else 0)

/-- `returned` is what `epoll_wait` fills its buffer with; without it the call has failed. -/
def wait (_ : EpollDispatcher) (returned : Option (List (Fd × UInt32))) : Int × List ReadyEvent :=
  match returned with
  | none => (-1, [])
  | some batch =>
    if batch.length = 0 then (0, [])
    else (batch.length, batch.map fun (fd, events) => ⟨fd, readyFlags events⟩)

def registered (d : EpollDispatcher) : Registry := fun fd =>
  (d.interests fd).map fun events => events &&& epollout ≠ 0

/-- The events the kernel has for a descriptor: those asked for, and errors in any case. -/
def reported (d : EpollDispatcher) (snapshot : Snapshot) (fd : Fd) : UInt32 :=
  match d.interests fd, snapshot fd with
  | some events, some c => c.epollMask &&& (events ||| epollerr ||| epollhup)
  | _, _ => 0

/-- What `epoll_wait` may return: the ready descriptors in an order of its own, and
no more than fit into the buffer. -/
structure Returns (d : EpollDispatcher) (snapshot : Snapshot) (batch : List (Fd × UInt32)) :
    Prop where
  distinct : (batch.map Prod.fst).Nodup
  ready : ∀ fd events, (fd, events) ∈ batch → events = d.reported snapshot fd ∧ events ≠ 0
  fits : batch.length ≤ maxEvents
  all : batch.length < maxEvents → ∀ fd, d.reported snapshot fd ≠ 0 → fd ∈ batch.map Prod.fst

end EpollDispatcher

def pollEvents (enabled : Bool) : UInt16 := pollin ||| if enabled then pollout else 0

def epollEvents (enabled : Bool) : UInt32 :=
  epollin ||| epollrdhup ||| if enabled then epollout else 0

namespace PollDispatcher

structure Holds (d : PollDispatcher) (registry : Registry) : Prop where
  positions : Indexes (fun fd => d.indexes.lookup fd) (d.descriptors.map PollFd.fd)
  events : ∀ descriptor ∈ d.descriptors, ∃ enabled,
    registry descriptor.fd = some enabled ∧ descriptor.events = pollEvents enabled
  watched : ∀ fd, registry fd ≠ none → fd ∈ d.descriptors.map PollFd.fd

variable {d : PollDispatcher} {registry : Registry}

theorem Holds.missing (h : d.Holds registry) {fd : Fd} :
    d.indexes.lookup fd = none ↔ registry fd = none := by
  have mem : fd ∈ d.descriptors.map PollFd.fd ↔ d.indexes.lookup fd ≠ none := by
    rw [h.positions.mem_iff, Option.ne_none_iff_exists']
  constructor
  · intro absent
    by_contra there
    exact mem.mp (h.watched fd there) absent
  · intro absent
    by_contra there
    obtain ⟨descriptor, listed, rfl⟩ := List.mem_map.mp (mem.mpr there)
    obtain ⟨enabled, watched, -⟩ := h.events descriptor listed
    simp [absent] at watched

theorem lookup_insert (indexes : AList fun _ : Fd => Nat) (fd : Fd) (i : Nat) :
    (fun other => (indexes.insert fd i).lookup other) =
      Function.update (fun other => indexes.lookup other) fd (some i) := by
  funext other
  by_cases same : other = fd
  · subst same
    simp
  · rw [AList.lookup_insert_ne same, Function.update_of_ne same]

theorem lookup_erase (indexes : AList fun _ : Fd => Nat) (fd : Fd) :
    (fun other => (indexes.erase fd).lookup other) =
      Function.update (fun other => indexes.lookup other) fd none := by
  funext other
  by_cases same : other = fd
  · subst same
    simp
  · rw [AList.lookup_erase_ne same, Function.update_of_ne same]

theorem Holds.add (h : d.Holds registry) {fd : Fd} (fresh : registry fd = none) :
    ∃ d', d.add fd = .ok d' ∧ d'.Holds (Function.update registry fd (some false)) := by
  refine ⟨_, rfl, ?_, ?_, ?_⟩
  · have pushed := h.positions.push (h.missing.mpr fresh)
    rw [← lookup_insert, List.length_map] at pushed
    simpa using pushed
  · intro descriptor mem
    rcases List.mem_append.mp mem with old | new
    · obtain ⟨enabled, watched, events⟩ := h.events descriptor old
      have ne : descriptor.fd ≠ fd := by
        rintro rfl
        simp [fresh] at watched
      exact ⟨enabled, by rw [Function.update_of_ne ne, watched], events⟩
    · obtain rfl := List.mem_singleton.mp new
      exact ⟨false, Function.update_self _ _ _, rfl⟩
  · intro other watched
    rw [List.map_append, List.mem_append]
    by_cases same : other = fd
    · exact .inr (by simp [same])
    · rw [Function.update_of_ne same] at watched
      exact .inl (h.watched other watched)

theorem Holds.remove (h : d.Holds registry) {fd : Fd} (watched : registry fd ≠ none) :
    ∃ d', d.remove fd = .ok d' ∧ d'.Holds (Function.update registry fd none) := by
  obtain ⟨index, found⟩ := Option.ne_none_iff_exists'.mp (mt h.missing.mp watched)
  have there : fd ∈ d.descriptors.map PollFd.fd := h.positions.mem_iff.mpr ⟨index, found⟩
  obtain ⟨front, back, split⟩ : ∃ front back, d.descriptors = front ++ [back] := by
    rcases List.eq_nil_or_concat d.descriptors with empty | ⟨front, back, split⟩
    · simp [empty] at there
    · exact ⟨front, back, by simpa using split⟩
  have positions := h.positions
  rw [split, List.map_append, List.map_singleton] at positions
  have removed := positions.swapRemove found
  have mem {other : Fd} := positions.mem_swapRemove found (b := other)
  let descriptors := ((front ++ [back]).set index back).dropLast
  let indexes := d.indexes.erase fd
  have result : d.remove fd = .ok { d with
      descriptors
      indexes := if index < descriptors.length then indexes.insert back.fd index else indexes } := by
    simp only [PollDispatcher.remove, found, split, List.getLast?_concat]
    rfl
  have fds : descriptors.map PollFd.fd =
      ((front.map PollFd.fd ++ [back.fd]).set index back.fd).dropLast := by
    simp [descriptors]
  have length : descriptors.length = (front.map PollFd.fd).length := by simp [descriptors]
  refine ⟨_, result, ?_, fun descriptor listed => ?_, fun other still => ?_⟩
  · rw [← fds, ← length] at removed
    convert removed using 1
    dsimp only
    split_ifs
    · rw [lookup_insert, lookup_erase]
    · exact lookup_erase _ _
  · have ne : descriptor.fd ≠ fd := (mem.mp (fds ▸ List.mem_map_of_mem listed)).2
    have old : descriptor ∈ d.descriptors := by
      rw [split]
      rcases List.mem_or_eq_of_mem_set ((List.dropLast_sublist _).subset listed) with old | rfl
      · exact old
      · simp
    obtain ⟨enabled, was, events⟩ := h.events descriptor old
    exact ⟨enabled, by rw [Function.update_of_ne ne, was], events⟩
  · have ne : other ≠ fd := by
      rintro rfl
      simp at still
    rw [Function.update_of_ne ne] at still
    have old := h.watched other still
    rw [split, List.map_append, List.map_singleton] at old
    exact fds ▸ mem.mpr ⟨old, ne⟩

theorem Holds.setWriteInterest (h : d.Holds registry) {fd : Fd} (watched : registry fd ≠ none)
    (enabled : Bool) : ∃ d', d.setWriteInterest fd enabled = .ok d' ∧
      d'.Holds (Function.update registry fd (some enabled)) := by
  obtain ⟨index, found⟩ := Option.ne_none_iff_exists'.mp (mt h.missing.mp watched)
  let change (descriptor : PollFd) : PollFd := { descriptor with events :=
    if enabled then descriptor.events ||| pollout else descriptor.events &&& ~~~pollout }
  have result : d.setWriteInterest fd enabled =
      .ok { d with descriptors := d.descriptors.modify index change } := by
    simp only [PollDispatcher.setWriteInterest, found]
    rfl
  have fds : (d.descriptors.modify index change).map PollFd.fd = d.descriptors.map PollFd.fd := by
    refine map_modify (fun descriptor => ?_) index
    rfl
  have here := (h.positions fd index).mp found
  rw [List.getElem?_map] at here
  obtain ⟨target, at_index, rfl⟩ := Option.map_eq_some_iff.mp here
  have moved := modify_key h.positions.nodup at_index change
  refine ⟨_, result, ?_, fun descriptor listed => ?_, fun other still => ?_⟩
  · rw [fds]
    exact h.positions
  · rw [moved] at listed
    obtain ⟨old, mem, rfl⟩ := List.mem_map.mp listed
    obtain ⟨was, known, events⟩ := h.events old mem
    by_cases same : old.fd = target.fd
    · rw [if_pos same]
      refine ⟨enabled, by simp [change, same], ?_⟩
      simp only [change, events]
      cases enabled <;> cases was <;> rfl
    · rw [if_neg same]
      exact ⟨was, by rw [Function.update_of_ne same, known], events⟩
  · rw [fds]
    by_cases same : other = target.fd
    · rw [same]
      exact List.mem_map_of_mem (List.mem_of_getElem? at_index)
    · rw [Function.update_of_ne same] at still
      exact h.watched other still

theorem refines : Refines apply Registry.apply Registry.Fresh Holds := by
  intro d registry op h fresh
  cases op with
  | add fd =>
    obtain ⟨d', added, holds⟩ := h.add fresh
    exact .inl ⟨d', _, added, if_pos fresh, holds⟩
  | remove fd =>
    by_cases missing : registry fd = none
    · refine .inr ⟨.enoent, ?_, if_pos missing⟩
      simp only [apply, PollDispatcher.remove, h.missing.mpr missing]
    · obtain ⟨d', removed, holds⟩ := h.remove missing
      exact .inl ⟨d', _, removed, if_neg missing, holds⟩
  | setWriteInterest fd enabled =>
    by_cases missing : registry fd = none
    · refine .inr ⟨.enoent, ?_, if_pos missing⟩
      simp only [apply, PollDispatcher.setWriteInterest, h.missing.mpr missing]
    · obtain ⟨d', set, holds⟩ := h.setWriteInterest missing enabled
      exact .inl ⟨d', _, set, if_neg missing, holds⟩

end PollDispatcher

namespace EpollDispatcher

def Holds (d : EpollDispatcher) (registry : Registry) : Prop :=
  ∀ fd, d.interests fd = (registry fd).map epollEvents

theorem Holds.update {d : EpollDispatcher} {registry : Registry} (h : d.Holds registry) (fd : Fd)
    (interest : Option Bool) :
    Holds ⟨Function.update d.interests fd (interest.map epollEvents)⟩
      (Function.update registry fd interest) := by
  intro other
  by_cases same : other = fd
  · subst same
    simp
  · simp [same, h other]

theorem refines : Refines apply Registry.apply Registry.Fresh Holds := by
  intro d registry op h fresh
  have missing (fd : Fd) : d.interests fd = none ↔ registry fd = none := by simp [h fd]
  cases op with
  | add fd =>
    have fresh : registry fd = none := fresh
    refine .inl ⟨_, _, ?_, if_pos fresh, h.update fd (some false)⟩
    simp only [apply, add, epollCtl, (missing fd).mpr fresh]
    rfl
  | remove fd =>
    by_cases absent : registry fd = none
    · refine .inr ⟨.enoent, ?_, if_pos absent⟩
      simp only [apply, remove, epollCtl, (missing fd).mpr absent]
      rfl
    · refine .inl ⟨_, _, ?_, if_neg absent, h.update fd none⟩
      simp only [apply, remove, epollCtl, if_neg (mt (missing fd).mp absent)]
      rfl
  | setWriteInterest fd enabled =>
    by_cases absent : registry fd = none
    · refine .inr ⟨.enoent, ?_, if_pos absent⟩
      simp only [apply, setWriteInterest, epollCtl, (missing fd).mpr absent]
      rfl
    · refine .inl ⟨_, _, ?_, if_neg absent, h.update fd (some enabled)⟩
      simp only [apply, setWriteInterest, epollCtl, if_neg (mt (missing fd).mp absent)]
      rfl

end EpollDispatcher

namespace PollDispatcher

variable {d : PollDispatcher} {registry : Registry}

theorem holds_initial : initial.Holds fun _ => none :=
  ⟨fun fd i => by simp [initial], by simp [initial], by simp⟩

theorem Holds.inverse (h : d.Holds registry) : d.Inverse where
  indexes i descriptor at_i := (h.positions descriptor.fd i).mpr (by simp [at_i])
  size := by
    have same : d.indexes.keys.Perm (d.descriptors.map PollFd.fd) := by
      rw [List.perm_ext_iff_of_nodup d.indexes.keys_nodup h.positions.nodup]
      intro fd
      rw [h.positions.mem_iff, ← Option.isSome_iff_exists, AList.lookup_isSome, AList.mem_keys]
    have lengths := same.length_eq
    rw [List.length_map] at lengths
    rw [← lengths, AList.keys, List.keys, List.length_map]
  distinct := h.positions.nodup

theorem pollEvents_pollout (enabled : Bool) :
    decide (pollEvents enabled &&& pollout ≠ 0) = enabled := by
  cases enabled <;> rfl

theorem Holds.registered (h : d.Holds registry) : d.registered = registry := by
  funext fd
  cases known : registry fd with
  | none =>
    have missing : d.descriptors.find? (fun descriptor => descriptor.fd == fd) = none := by
      refine find?_key_eq_none.mpr fun descriptor mem same => ?_
      obtain ⟨enabled, watched, -⟩ := h.events descriptor mem
      rw [same, known] at watched
      cases watched
    simp [PollDispatcher.registered, missing]
  | some enabled =>
    obtain ⟨descriptor, mem, rfl⟩ := List.mem_map.mp (h.watched fd (by simp [known]))
    have found := (find?_key h.positions.nodup).mpr ⟨mem, rfl⟩
    obtain ⟨was, watched, events⟩ := h.events descriptor mem
    obtain rfl : enabled = was := Option.some.inj (known.symm.trans watched)
    simp only [PollDispatcher.registered, found, Option.map_some, events, pollEvents_pollout]

end PollDispatcher

namespace EpollDispatcher

theorem holds_initial : initial.Holds fun _ => none := fun _ => rfl

theorem epollEvents_epollout (enabled : Bool) :
    decide (epollEvents enabled &&& epollout ≠ 0) = enabled := by
  cases enabled <;> rfl

theorem Holds.registered {d : EpollDispatcher} {registry : Registry} (h : d.Holds registry) :
    d.registered = registry := by
  funext fd
  rw [EpollDispatcher.registered, h fd]
  cases registry fd with
  | none => rfl
  | some enabled => simp only [Option.map_some, epollEvents_epollout]

end EpollDispatcher

/-- Every watched descriptor is open, and a peer that has shut down leaves its
socket readable. -/
structure Snapshot.Faithful (snapshot : Snapshot) (registry : Registry) : Prop where
  alive : ∀ fd, registry fd ≠ none → snapshot fd ≠ none
  readable : ∀ fd c, snapshot fd = some c → c.readHangup = true → c.readable = true

/-- The two results of `wait` tell of the same descriptors, each once, and the
server handles what they tell alike. -/
structure WaitsAgree (polled epolled : Int × List ReadyEvent) : Prop where
  count : polled.1 = epolled.1
  distinct : (polled.2.map ReadyEvent.fd).Nodup ∧ (epolled.2.map ReadyEvent.fd).Nodup
  same : (polled.2.map ReadyEvent.fd).Perm (epolled.2.map ReadyEvent.fd)
  handled : ∀ event ∈ polled.2, ∀ event' ∈ epolled.2, event'.fd = event.fd →
    ∀ (s : ChatServer) (env : Environment), s.handleEvent env event' = s.handleEvent env event

theorem handleEvent_congr {event event' : ReadyEvent} (same : event'.fd = event.fd)
    (reads : event'.flags &&& readyRead = 0 ↔ event.flags &&& readyRead = 0)
    (wakes : event'.flags &&& (readyRead ||| readyError) = 0 ↔
      event.flags &&& (readyRead ||| readyError) = 0)
    (writes : event'.flags &&& readyWrite = 0 ↔ event.flags &&& readyWrite = 0)
    (s : ChatServer) (env : Environment) : s.handleEvent env event' = s.handleEvent env event := by
  simp only [ChatServer.handleEvent, same, ne_eq, reads, wakes, writes]

theorem masks_agree (c : Conditions) (enabled : Bool)
    (readable : c.readHangup = true → c.readable = true) :
    let polled := c.pollMask &&& (pollEvents enabled ||| pollerr ||| pollhup)
    let epolled := c.epollMask &&& (epollEvents enabled ||| epollerr ||| epollhup)
    let flags := PollDispatcher.readyFlags polled
    let flags' := EpollDispatcher.readyFlags epolled
    (polled = 0 ↔ epolled = 0) ∧ (flags' &&& readyRead = 0 ↔ flags &&& readyRead = 0) ∧
      (flags' &&& (readyRead ||| readyError) = 0 ↔ flags &&& (readyRead ||| readyError) = 0) ∧
      (flags' &&& readyWrite = 0 ↔ flags &&& readyWrite = 0) := by
  rcases c with ⟨_ | _, _ | _, _ | _, _ | _, _ | _⟩ <;> cases enabled <;> revert readable <;> decide

namespace PollDispatcher

theorem wait_eq (d : PollDispatcher) (snapshot : Snapshot) :
    let ready := d.descriptors.filter fun descriptor => snapshot.revents descriptor ≠ 0
    (d.wait (some snapshot)).1 = ready.length ∧
      (d.wait (some snapshot)).2.1 = ready.map fun descriptor =>
        ⟨descriptor.fd, readyFlags (snapshot.revents descriptor)⟩ := by
  intro ready
  have count : (d.descriptors.map fun descriptor =>
      { descriptor with revents := snapshot.revents descriptor }).countP
        (fun descriptor => descriptor.revents ≠ 0) = ready.length := by
    rw [List.countP_map, List.countP_eq_length_filter]
    rfl
  have events (descriptors : List PollFd) : (descriptors.map fun descriptor =>
      { descriptor with revents := snapshot.revents descriptor }).filterMap (fun descriptor =>
        if descriptor.revents = 0 then none
        else some (⟨descriptor.fd, readyFlags descriptor.revents⟩ : ReadyEvent)) =
      (descriptors.filter fun descriptor => snapshot.revents descriptor ≠ 0).map fun descriptor =>
        ⟨descriptor.fd, readyFlags (snapshot.revents descriptor)⟩ := by
    induction descriptors with
    | nil => rfl
    | cons descriptor rest ih =>
      by_cases quiet : snapshot.revents descriptor = 0 <;> simp_all
  simp only [wait, count, events]
  by_cases isEmpty : ready.length = 0
  · have empty : ready = [] := List.length_eq_zero_iff.mp isEmpty
    rw [if_pos isEmpty]
    exact ⟨rfl, by simp [empty]⟩
  · rw [if_neg isEmpty]
    exact ⟨rfl, rfl⟩

end PollDispatcher

theorem EpollDispatcher.wait_eq (d : EpollDispatcher) (batch : List (Fd × UInt32)) :
    d.wait (some batch) =
      ((batch.length : Int), batch.map fun (fd, events) => ⟨fd, readyFlags events⟩) := by
  unfold wait
  dsimp only
  split_ifs with empty
  · rw [List.length_eq_zero_iff.mp empty]
    rfl
  · rfl

section Wait

variable {d : PollDispatcher} {d' : EpollDispatcher} {registry : Registry} {snapshot : Snapshot}
  (h : d.Holds registry) (h' : d'.Holds registry) (faithful : snapshot.Faithful registry)

include h h' faithful

theorem masks_of_watched {descriptor : PollFd} (mem : descriptor ∈ d.descriptors) :
    ∃ (c : Conditions) (enabled : Bool), (c.readHangup = true → c.readable = true) ∧
      snapshot.revents descriptor = c.pollMask &&& (pollEvents enabled ||| pollerr ||| pollhup) ∧
      d'.reported snapshot descriptor.fd =
        c.epollMask &&& (epollEvents enabled ||| epollerr ||| epollhup) := by
  obtain ⟨enabled, watched, events⟩ := h.events descriptor mem
  obtain ⟨c, known⟩ := Option.ne_none_iff_exists'.mp
    (faithful.alive descriptor.fd (by simp [watched]))
  refine ⟨c, enabled, faithful.readable _ c known, ?_, ?_⟩
  · simp only [Snapshot.revents, known, events]
  · simp only [EpollDispatcher.reported, h' descriptor.fd, watched, Option.map_some, known]

theorem ready_iff {fd : Fd} :
    fd ∈ (d.descriptors.filter fun descriptor => snapshot.revents descriptor ≠ 0).map PollFd.fd ↔
      d'.reported snapshot fd ≠ 0 := by
  constructor
  · intro mem
    obtain ⟨descriptor, listed, rfl⟩ := List.mem_map.mp mem
    obtain ⟨listed, ready⟩ := List.mem_filter.mp listed
    obtain ⟨c, enabled, readable, polled, epolled⟩ := masks_of_watched h h' faithful listed
    have ready : snapshot.revents descriptor ≠ 0 := by simpa using ready
    rw [polled, ne_eq, (masks_agree c enabled readable).1] at ready
    rwa [epolled]
  · intro ready
    have watched : registry fd ≠ none := by
      intro absent
      simp [EpollDispatcher.reported, h' fd, absent] at ready
    obtain ⟨descriptor, listed, rfl⟩ := List.mem_map.mp (h.watched fd watched)
    obtain ⟨c, enabled, readable, polled, epolled⟩ := masks_of_watched h h' faithful listed
    refine List.mem_map_of_mem (List.mem_filter.mpr ⟨listed, ?_⟩)
    rw [epolled, ne_eq, ← (masks_agree c enabled readable).1, ← polled] at ready
    simpa using ready

theorem waits_agree (few : (d.wait (some snapshot)).1 ≤ maxEvents) {batch : List (Fd × UInt32)}
    (returns : d'.Returns snapshot batch) :
    WaitsAgree ((d.wait (some snapshot)).1, (d.wait (some snapshot)).2.1)
      (d'.wait (some batch)) := by
  obtain ⟨count, events⟩ := d.wait_eq snapshot
  rw [count] at few
  rw [count, events, d'.wait_eq]
  let ready := d.descriptors.filter fun descriptor => snapshot.revents descriptor ≠ 0
  have distinct : (ready.map PollFd.fd).Nodup :=
    h.positions.nodup.sublist (List.filter_sublist.map PollFd.fd)
  have sub : batch.map Prod.fst ⊆ ready.map PollFd.fd := by
    intro fd mem
    obtain ⟨⟨fd, events⟩, listed, rfl⟩ := List.mem_map.mp mem
    obtain ⟨same, nonzero⟩ := returns.ready fd events listed
    exact (ready_iff h h' faithful).mpr (same ▸ nonzero)
  have perm : (ready.map PollFd.fd).Perm (batch.map Prod.fst) := by
    by_cases room : batch.length < maxEvents
    · refine (List.perm_ext_iff_of_nodup distinct returns.distinct).mpr fun fd => ⟨fun mem => ?_,
        fun mem => sub mem⟩
      exact returns.all room fd ((ready_iff h h' faithful).mp mem)
    · refine ((List.subperm_of_subset returns.distinct sub).perm_of_length_le ?_).symm
      have fits : ready.length ≤ maxEvents := by exact_mod_cast few
      rw [List.length_map, List.length_map]
      omega
  refine ⟨?_, ⟨?_, ?_⟩, ?_, ?_⟩
  · have lengths := perm.length_eq
    rw [List.length_map, List.length_map] at lengths
    exact congrArg Int.ofNat lengths
  · rw [List.map_map]
    exact distinct
  · rw [List.map_map]
    exact returns.distinct
  · rw [List.map_map, List.map_map]
    exact perm
  · intro event polled event' epolled same s env
    obtain ⟨descriptor, listed, rfl⟩ := List.mem_map.mp polled
    obtain ⟨⟨fd, mask⟩, reported, rfl⟩ := List.mem_map.mp epolled
    obtain rfl : fd = descriptor.fd := same
    obtain ⟨rfl, -⟩ := returns.ready _ mask reported
    obtain ⟨c, enabled, readable, asked, asked'⟩ :=
      masks_of_watched h h' faithful (List.mem_filter.mp listed).1
    obtain ⟨-, reads, wakes, writes⟩ := masks_agree c enabled readable
    rw [asked, asked']
    apply handleEvent_congr
    · rfl
    · exact reads
    · exact wakes
    · exact writes

end Wait

namespace ChatServer

def registry (s : ChatServer) : Registry := fun fd => (s.ports fd).writeInterest

theorem accept_fresh {s : ChatServer} (h : Reachable s) {fd : Fd} {results : Results}
    (enabled : Action.enabled (.accept fd results) s) : s.registry.Fresh (.add fd) := by
  have closed : s.isOpen fd = false := enabled
  have registered := ((reachable_inv h).entries fd).registered
  have missing : ¬ (s.ports fd).writeInterest.isSome = true := by
    intro watched
    have alive := registered.mp watched
    simp [isOpen] at closed
    exact alive.elim closed.1 fun client => by simp [closed.2] at client
  exact Option.not_isSome_iff_eq_none.mp missing

theorem setWriteInterest_registry (s : ChatServer) (fd : Fd) (enabled : Bool)
    (granted : (s.ports fd).interests.headD true = true) :
    Registry.apply s.registry (.setWriteInterest fd enabled) =
      if ((s.ports fd).setWriteInterest enabled).1 = true then
        .ok (s.setPort fd ((s.ports fd).setWriteInterest enabled).2).registry
      else .error .enoent := by
  cases watched : (s.ports fd).writeInterest with
  | none => simp [Registry.apply, registry, Port.setWriteInterest, watched]
  | some was =>
    have same : (s.setPort fd ((s.ports fd).setWriteInterest enabled).2).registry =
        Function.update s.registry fd (some enabled) := by
      funext other
      by_cases here : other = fd
      · subst here
        simp only [registry, setPort_ports, Function.update_self, Port.setWriteInterest, watched,
          granted, Option.isSome_some, Bool.and_self, if_true]
      · simp [registry, here]
    rw [same]
    simp only [Registry.apply, registry, Port.setWriteInterest, watched, granted,
      Option.isSome_some, Bool.and_self, if_true, reduceCtorEq, if_false]

/-- The server's side of the contract: it adds only descriptors that are not watched, and when it
sets a write interest it makes a call of the registry, unless the kernel refuses that. -/
structure CallsRegistry (s : ChatServer) : Prop where
  fresh : ∀ fd results, Action.enabled (.accept fd results) s → s.registry.Fresh (.add fd)
  writeInterest : ∀ fd enabled, (s.ports fd).interests.headD true = true →
    Registry.apply s.registry (.setWriteInterest fd enabled) =
      if ((s.ports fd).setWriteInterest enabled).1 = true then
        .ok (s.setPort fd ((s.ports fd).setWriteInterest enabled).2).registry
      else .error .enoent

theorem reachable_callsRegistry {s : ChatServer} (h : Reachable s) : s.CallsRegistry :=
  ⟨fun _ _ enabled => accept_fresh h enabled, fun fd enabled granted =>
    setWriteInterest_registry s fd enabled granted⟩

end ChatServer

theorem dispatchers_agree {ops : List Operation}
    (fresh : Allowed Registry.apply Registry.Fresh (fun _ => none) ops) :
    let polled := calls PollDispatcher.apply .initial ops
    let epolled := calls EpollDispatcher.apply .initial ops
    polled.1.Inverse ∧ polled.2 = epolled.2 ∧ polled.1.registered = epolled.1.registered ∧
      (∀ s : ChatServer, s.Reachable → s.CallsRegistry) ∧
      ∀ snapshot : Snapshot, snapshot.Faithful polled.1.registered →
        (polled.1.wait (some snapshot)).1 ≤ maxEvents →
          ∀ batch, epolled.1.Returns snapshot batch →
            WaitsAgree ((polled.1.wait (some snapshot)).1, (polled.1.wait (some snapshot)).2.1)
              (epolled.1.wait (some batch)) := by
  intro polled epolled
  obtain ⟨holds, results⟩ := PollDispatcher.refines.calls PollDispatcher.holds_initial fresh
  obtain ⟨holds', results'⟩ := EpollDispatcher.refines.calls EpollDispatcher.holds_initial fresh
  refine ⟨holds.inverse, results.trans results'.symm, holds.registered.trans holds'.registered.symm,
    fun _ => ChatServer.reachable_callsRegistry, fun snapshot faithful few batch returns => ?_⟩
  rw [holds.registered] at faithful
  exact waits_agree holds holds' faithful few returns

/-- Three descriptors come and one goes, so that another takes its place. -/
def arrivals : List Operation :=
  [.add 3, .add 4, .remove 9, .setWriteInterest 4 true, .add 5, .remove 3, .setWriteInterest 3 true]

/-- The peer of 4 has shut down, and 5 has an error. -/
def shutdownSeen : Snapshot := fun fd =>
  if fd = 4 then some ⟨true, true, false, false, true⟩
  else if fd = 5 then some ⟨false, true, true, false, false⟩
  else none

theorem arrivals_agree :
    let polled := calls PollDispatcher.apply .initial arrivals
    let epolled := calls EpollDispatcher.apply .initial arrivals
    polled.2 = [none, none, some .enoent, none, none, none, some .enoent] ∧
      polled.1.Inverse ∧ polled.2 = epolled.2 ∧
      WaitsAgree ((polled.1.wait (some shutdownSeen)).1, (polled.1.wait (some shutdownSeen)).2.1)
        (epolled.1.wait (some [(4, epollin ||| epollout ||| epollrdhup), (5, epollerr)])) := by
  intro polled epolled
  have fresh : Allowed Registry.apply Registry.Fresh (fun _ => none) arrivals := by
    decide
  obtain ⟨inverse, same, -, -, waits⟩ := dispatchers_agree fresh
  have watched : polled.1.descriptors = [⟨5, pollin, 0⟩, ⟨4, pollin ||| pollout, 0⟩] := by decide
  have elsewhere (fd : Fd) (h4 : fd ≠ 4) (h5 : fd ≠ 5) : shutdownSeen fd = none := by
    simp [shutdownSeen, h4, h5]
  refine ⟨by decide, inverse, same, waits shutdownSeen ⟨fun fd there => ?_, fun fd c known => ?_⟩
    (by decide) _ ⟨by decide, ?_, by decide, fun _ fd there => ?_⟩⟩
  · by_cases h4 : fd = 4
    · simp [shutdownSeen, h4]
    by_cases h5 : fd = 5
    · simp [shutdownSeen, h5]
    have missing : polled.1.registered fd = none := by
      rw [PollDispatcher.registered, watched, Option.map_eq_none_iff, find?_key_eq_none]
      simp [Ne.symm h4, Ne.symm h5]
    exact (there missing).elim
  · unfold shutdownSeen at known
    split_ifs at known
    all_goals rw [← Option.some.inj known]
    · exact fun _ => rfl
    · exact fun bad => bad
  · intro fd events mem
    rcases List.mem_cons.mp mem with first | mem
    · obtain ⟨rfl, rfl⟩ := Prod.mk.inj first
      decide
    · obtain ⟨rfl, rfl⟩ := Prod.mk.inj (List.mem_singleton.mp mem)
      decide
  · by_contra missing
    have h4 : fd ≠ 4 := by
      rintro rfl
      simp at missing
    have h5 : fd ≠ 5 := by
      rintro rfl
      simp at missing
    refine there ?_
    unfold EpollDispatcher.reported
    rw [elsewhere fd h4 h5]
    cases epolled.1.interests fd <;> rfl

end Partyline
