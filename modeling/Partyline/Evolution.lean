import Partyline.Invariant

/-! What one action can make of an entry, as a sequence of the changes that the
handlers are built from. What each of these changes keeps, every run keeps. -/
namespace Partyline

namespace Entry

/-- The changes of an entry between the accept that opened it and the next one. -/
inductive Evolves (serverIteration : Nat) : Entry → Entry → Prop where
  | refl (e : Entry) : Evolves serverIteration e e
  | trans {e e' e'' : Entry} : Evolves serverIteration e e' → Evolves serverIteration e' e'' →
      Evolves serverIteration e e''
  | answered (e : Entry) (results : Results) : Evolves serverIteration e (e.answered results)
  | closed (e : Entry) (reason : String) : Evolves serverIteration e (e.closed reason)
  | offered (e : Entry) (data : Bytes) (reason : String) :
      Evolves serverIteration e (e.offered serverIteration data reason)
  | moved (e : Entry) (roomId : Nat) : Evolves serverIteration e (e.moved roomId)
  | noted {e : Entry} {record : ClientConnection} (found : e.client = some record) (chunk : Bytes) :
      Evolves serverIteration e
        ⟨some { record with inputBuffer := record.inputBuffer ++ chunk }, e.port.note (.received chunk)⟩
  | flushed (e : Entry) : Evolves serverIteration e (e.flushed serverIteration)
  | erased {e : Entry} {record : ClientConnection} {raw remaining : Bytes}
      (found : e.client = some record) (state : record.clientState = .active)
      (split : splitFrame record.inputBuffer = some (raw, remaining)) :
      Evolves serverIteration e
        (e.erased record remaining (.frame raw (stripCarriageReturn raw)))
  | loggedIn {e : Entry} {record : ClientConnection} {raw remaining : Bytes}
      (found : e.client = some record) (state : record.clientState = .awaitingUsername)
      (split : splitFrame record.inputBuffer = some (raw, remaining)) :
      Evolves serverIteration e (e.loggedIn record remaining (stripCarriageReturn raw)
        (.username raw (stripCarriageReturn raw)))

namespace Evolves

variable {serverIteration : Nat} {e e' : Entry}

theorem notified (e : Entry) (roomId : Nat) (excludedFd : Int) (message : Bytes) (fd : Fd) :
    Evolves serverIteration e (e.notified serverIteration roomId excludedFd message fd) := by
  unfold Entry.notified
  split_ifs
  · exact .offered e _ _
  · exact .refl e

theorem heard (e : Entry) (roomId : Nat) (sender : Fd) (output : Bytes) (fd : Fd) :
    Evolves serverIteration e (e.heard serverIteration roomId sender output fd) := by
  unfold Entry.heard
  split_ifs
  · exact .offered e _ _
  · exact .refl e

theorem received (e : Entry) (chunk : Bytes) : Evolves serverIteration e (e.received chunk) := by
  unfold Entry.received
  split
  · exact .refl e
  · rename_i record found
    dsimp only
    split_ifs
    · exact (Evolves.noted found chunk).trans (.closed _ _)
    · exact .noted found chunk

theorem only {change : Entry → Entry} {fd other : Fd} {e : Entry}
    (h : other = fd → Evolves serverIteration e (change e)) :
    Evolves serverIteration e (ChatServer.only fd change other e) := by
  unfold ChatServer.only
  split_ifs with same
  · exact h same
  · exact .refl e

theorem relocated (e : Entry) (sender : Fd) (source : ClientConnection) (oldName name : Bytes)
    (roomId : Nat) (fd : Fd) : Evolves serverIteration e
      (e.relocated serverIteration sender source oldName name roomId fd) := by
  have told : Evolves serverIteration e (e.notified serverIteration source.currRoom sender
    (leftLine source.username oldName) fd) := notified _ _ _ _ _
  have moves : Evolves serverIteration _ (ChatServer.only sender (Entry.moved roomId) fd
    (e.notified serverIteration source.currRoom sender (leftLine source.username oldName) fd)) :=
      only fun _ => .moved _ _
  exact (told.trans moves).trans (notified _ _ _ _ _)

theorem gone (h : Evolves serverIteration e e') (missing : e.client = none) :
    e'.client = none := by
  induction h with
  | refl => exact missing
  | trans _ _ ih₁ ih₂ => exact ih₂ (ih₁ missing)
  | answered => exact missing
  | closed => simp
  | offered => simp [Entry.offered, missing]
  | moved => simp [Entry.moved, missing]
  | noted found => simp [missing] at found
  | flushed => simp [Entry.flushed, missing]
  | erased found => simp [missing] at found
  | loggedIn found => simp [missing] at found

theorem history (h : Evolves serverIteration e e') : e.port.history <:+ e'.port.history := by
  induction h with
  | refl => exact List.suffix_refl _
  | trans _ _ ih₁ ih₂ => exact ih₁.trans ih₂
  | answered => exact List.suffix_refl _
  | closed e reason =>
    unfold Entry.closed
    split
    · exact List.suffix_refl _
    · exact List.suffix_cons _ _
  | offered e data reason =>
    cases found : e.client with
    | none => simp [found]
    | some record =>
      obtain ⟨-, -, -, outcome, calls, history, -⟩ :=
        queueOutputCommon_offered serverIteration record e.port data
      have grown : e.port.history <:+
          (queueOutputCommon serverIteration record e.port data).2.2.history :=
        ⟨.offered data outcome :: calls, history.symm⟩
      cases taken : e.accepts serverIteration data with
      | true =>
        obtain ⟨same, found', result⟩ := Entry.offered_of_accepts taken reason
        obtain rfl : record = same := Option.some.inj (found.symm.trans found')
        rw [result]
        exact grown
      | false =>
        rw [Entry.offered_of_rejects taken found]
        exact grown.trans (List.suffix_cons _ _)
  | moved => exact List.suffix_refl _
  | noted => exact List.suffix_cons _ _
  | flushed e =>
    cases found : e.client with
    | none => simp [Entry.flushed, found]
    | some record =>
      obtain ⟨-, -, -, calls, history, -⟩ :=
        flushOutputCommon_output serverIteration record e.port
      simp only [Entry.flushed, found]
      exact ⟨calls, history.symm⟩
  | erased => exact List.suffix_cons _ _
  | loggedIn => exact List.suffix_cons _ _

end Evolves

end Entry

namespace ChatServer

open Entry (Evolves)

variable {s : ChatServer} (h : s.RoomsOk ∅) {fd : Fd} {client : ClientConnection}
  (found : s.clients fd = some client)

theorem disconnect_evolves (s : ChatServer) (fd : Fd) (reason : String) (other : Fd) :
    Evolves s.serverIteration (s.entry other) ((s.disconnect fd reason).entry other) := by
  rw [(disconnect_performs s fd reason).entries]
  exact .only fun _ => .closed _ _

include h

theorem depart_evolves (roomId : Nat) (message : Bytes) (reason : String) (other : Fd) :
    Evolves s.serverIteration (s.entry other)
      (((s.notifyRoom roomId fd message).disconnect fd reason).entry other) := by
  rw [(depart_performs h roomId message fd reason).1.entries]
  split_ifs
  · exact .closed _ _
  · exact .notified _ _ _ _ _

include found

theorem processFrame_evolves (active : client.clientState = .active) (frame : Bytes) (other : Fd) :
    Evolves s.serverIteration (s.entry other) ((s.processFrame fd frame).2.entry other) := by
  rw [processFrame_eq found (roomName_of_ne_zero h active found) frame]
  cases s.request client frame with
  | ignored => exact .refl _
  | chat words =>
    obtain ⟨room, mem, -, same⟩ := broadcast_eq h found active words
    obtain ⟨served, -, -, performs, -⟩ := broadcastLoop_performs (chatLine client.username words)
      room.subscribedClients (h.unique room mem) found
    dsimp only
    rw [same, performs.entries]
    split_ifs
    · exact .heard _ _ _ _ _
    · exact .refl _
  | reply line reason =>
    dsimp only
    rw [(deliver_performs found line reason).entries]
    exact .only fun _ => .offered _ _ _
  | move name =>
    dsimp only
    by_cases same : Rooms.roomName s.rooms client.currRoom = name
    · rw [(moveTo_same h found active same).1.entries]
      exact .refl _
    · obtain ⟨roomId, -, -, performs, -⟩ := moveTo_other h found active same
      rw [performs.entries]
      exact .relocated _ _ _ _ _ _ _
  | quit => exact depart_evolves h _ _ _ _

theorem frameStep_evolves (framesProcessed : Nat) (other : Fd) :
    Evolves s.serverIteration (s.entry other)
      ((frameStep fd framesProcessed s).server.entry other) := by
  rcases frameStep_cases found framesProcessed with
    ⟨-, -, result⟩ | ⟨-, -, result⟩ | ⟨raw, remaining, split, ⟨-, result⟩ |
      ⟨short, awaiting, -⟩ | ⟨-, active, result⟩⟩
  · rw [result]
    exact disconnect_evolves s fd _ other
  · rw [result]
    exact .refl _
  · rw [result]
    exact disconnect_evolves s fd _ other
  · obtain ⟨performs, -⟩ := frameStep_username h found split short awaiting framesProcessed
    rw [performs.entries]
    refine .trans (.only fun same => ?_) (.notified _ _ _ _ _)
    exact .loggedIn (same ▸ found) awaiting split
  · let t := s.eraseFrame fd client remaining (.frame raw (stripCarriageReturn raw))
    have kept : t.RoomsOk ∅ := eraseFrame_rooms h found remaining _
    have found' : t.clients fd = some { client with inputBuffer := remaining } :=
      Function.update_self _ _ _
    have erased : Evolves s.serverIteration (s.entry other) (t.entry other) := by
      rw [(eraseFrame_performs s fd client remaining _).entries]
      exact .only fun same => .erased (same ▸ found) active split
    have evolves := erased.trans
      (processFrame_evolves kept found' active (stripCarriageReturn raw) other)
    rw [result]
    split_ifs <;> exact evolves

omit found in
theorem perform_evolves {a : Action} (enabled : a.enabled s)
    (old : ∀ results, a ≠ .accept fd results) :
    Evolves s.serverIteration (s.entry fd) ((a.perform s).entry fd) := by
  cases a with
  | iteration => exact .refl _
  | load results => exact .answered _ _
  | accept c results =>
    have ne : fd ≠ c := fun same => old results (same ▸ rfl)
    change Evolves _ _ ((s.acceptClient c results).entry fd)
    rw [(acceptClient_performs enabled results).entries, only_of_ne ne]
    exact .refl _
  | answered c recvs =>
    change Evolves _ _ ((s.setRecvs c recvs).entry fd)
    rw [(setRecvs_performs s c recvs).entries]
    exact .only fun _ => .answered _ _
  | receive c chunk =>
    obtain ⟨client, found⟩ := Option.ne_none_iff_exists'.mp enabled
    change Evolves _ _ ((s.receive c chunk).2.entry fd)
    rw [(receive_performs found chunk).entries]
    exact .only fun _ => .received _ _
  | frame c framesProcessed =>
    obtain ⟨client, found⟩ := Option.ne_none_iff_exists'.mp enabled
    exact frameStep_evolves h found framesProcessed fd
  | peerClosed c | recvFailed c =>
    obtain ⟨client, found⟩ := Option.ne_none_iff_exists'.mp enabled
    change Evolves _ _ ((s.peerGone c _).entry fd)
    rw [(peerGone_performs h found _).1.entries]
    split_ifs
    · exact .closed _ _
    · exact .notified _ _ _ _ _
  | write c =>
    obtain ⟨client, found⟩ := Option.ne_none_iff_exists'.mp enabled
    change Evolves _ _ ((s.handleWrite c).entry fd)
    rw [(handleWrite_performs h found).1.entries]
    split_ifs
    · exact .only fun _ => .flushed _
    · exact .trans (.flushed _) (.closed _ _)
    · exact .notified _ _ _ _ _

theorem processFrame_serverIteration (active : client.clientState = .active) (frame : Bytes) :
    (s.processFrame fd frame).2.serverIteration = s.serverIteration := by
  rw [processFrame_eq found (roomName_of_ne_zero h active found) frame]
  cases s.request client frame with
  | ignored => rfl
  | chat words =>
    obtain ⟨room, mem, -, same⟩ := broadcast_eq h found active words
    obtain ⟨served, -, -, performs, -⟩ := broadcastLoop_performs (chatLine client.username words)
      room.subscribedClients (h.unique room mem) found
    dsimp only
    rw [same]
    exact performs.serverIteration
  | reply line reason => exact (deliver_performs found line reason).serverIteration
  | move name =>
    by_cases same : Rooms.roomName s.rooms client.currRoom = name
    · exact (moveTo_same h found active same).1.serverIteration
    · obtain ⟨roomId, -, -, performs, -⟩ := moveTo_other h found active same
      exact performs.serverIteration
  | quit => exact (depart_performs h _ _ _ _).1.serverIteration

theorem frameStep_serverIteration (framesProcessed : Nat) :
    (frameStep fd framesProcessed s).server.serverIteration = s.serverIteration := by
  rcases frameStep_cases found framesProcessed with
    ⟨-, -, result⟩ | ⟨-, -, result⟩ | ⟨raw, remaining, split, ⟨-, result⟩ |
      ⟨short, awaiting, -⟩ | ⟨-, active, result⟩⟩
  · rw [result]
    exact (disconnect_performs s fd _).serverIteration
  · rw [result]
    rfl
  · rw [result]
    exact (disconnect_performs s fd _).serverIteration
  · exact (frameStep_username h found split short awaiting framesProcessed).1.serverIteration
  · have kept := eraseFrame_rooms h found remaining (.frame raw (stripCarriageReturn raw))
    have found' : (s.eraseFrame fd client remaining (.frame raw (stripCarriageReturn raw))).clients
        fd = some { client with inputBuffer := remaining } := Function.update_self _ _ _
    have processed := processFrame_serverIteration kept found' active (stripCarriageReturn raw)
    rw [result]
    split_ifs <;> exact processed

omit found in
theorem perform_serverIteration {a : Action} (enabled : a.enabled s) (within : a ≠ .iteration) :
    (a.perform s).serverIteration = s.serverIteration := by
  cases a with
  | iteration => exact (within rfl).elim
  | load results => rfl
  | accept c results => exact (acceptClient_performs enabled results).serverIteration
  | answered c recvs => rfl
  | receive c chunk =>
    obtain ⟨client, found⟩ := Option.ne_none_iff_exists'.mp enabled
    exact (receive_performs found chunk).serverIteration
  | frame c framesProcessed =>
    obtain ⟨client, found⟩ := Option.ne_none_iff_exists'.mp enabled
    exact frameStep_serverIteration h found framesProcessed
  | peerClosed c | recvFailed c =>
    obtain ⟨client, found⟩ := Option.ne_none_iff_exists'.mp enabled
    exact (peerGone_performs h found _).1.serverIteration
  | write c =>
    obtain ⟨client, found⟩ := Option.ne_none_iff_exists'.mp enabled
    exact (handleWrite_performs h found).1.serverIteration

end ChatServer
end Partyline
