import Partyline.InputSide

/-! Whether reading leaves complete frames behind. A socket is read again only
when the kernel has more for it, so a frame that stays in the input buffer while
the kernel holds nothing waits for the peer to send, and is lost if the peer
closes instead. -/
namespace Partyline

open Library

/-- In what order `recv` answers: it reports the end of the stream only when
nothing is left before it. -/
def orderly : List RecvResult → Prop
  | [] => True
  | .received chunk _ :: rest => (chunk = [] → pending rest = []) ∧ orderly rest
  | _ :: rest => orderly rest

/-- Of one descriptor: with nothing in the kernel there is no complete frame in
the buffer, and if the peer has closed, then all complete frames have been taken. -/
structure ReadOk (e : Entry) : Prop where
  drained : ∀ record, e.client = some record → pending e.port.recvs = [] →
    newline ∉ record.inputBuffer
  ended : Ended e.port.history → e.client = none ∧
    (receivedBytes e.port.history).count newline = (takenFrames e.port.history).length

namespace ReadOk

variable {e e' : Entry}

theorem keeps (h : ReadOk e) (kept : Entry.Keeps e e') : ReadOk e' := by
  refine ⟨fun record' found' noInput => ?_, fun past => ?_⟩
  · obtain ⟨record, found, buffer, -⟩ := kept.input record' found'
    rw [buffer]
    exact h.drained record found (kept.recvs ▸ noInput)
  · obtain ⟨gone, whole⟩ := h.ended (kept.ended past)
    rw [kept.gone gone]
    exact ⟨gone, whole⟩

theorem of_open (open' : ¬ Ended e.port.history) (drained : ∀ record, e.client = some record →
    pending e.port.recvs = [] → newline ∉ record.inputBuffer) : ReadOk e :=
  ⟨drained, fun past => (open' past).elim⟩

theorem not_ended (h : ReadOk e) {record : ClientConnection} (found : e.client = some record) :
    ¬ Ended e.port.history := by
  intro past
  simp [(h.ended past).1] at found

end ReadOk

namespace ChatServer

/-- The client stays connected when its frame is taken. -/
def remains (s : ChatServer) (fd : Fd) (client : ClientConnection) (raw : Bytes) : Bool :=
  let asked := s.request client (stripCarriageReturn raw)
  asked ≠ .quit &&
    ((s.lineTo fd client asked fd).all fun line => (s.entry fd).accepts s.serverIteration line)

def refused (s : ChatServer) (fd : Fd) (client : ClientConnection) (raw : Bytes) : Bool :=
  match s.request client (stripCarriageReturn raw) with
  | .chat words => (Rooms.findById s.rooms client.currRoom).any fun room =>
      room.subscribedClients.any fun other => other ≠ fd &&
        !(s.entry other).accepts s.serverIteration (chatLine client.username words)
  | _ => false

/-- Taking the next frame ends the frame loop with another frame in the buffer and
nothing in the kernel. -/
def strands (s : ChatServer) (fd : Fd) (framesProcessed : Nat) : Bool :=
  match s.clients fd with
  | none => false
  | some client =>
    match splitFrame client.inputBuffer with
    | none => false
    | some (raw, remaining) =>
      client.clientState = .active && raw.length ≤ maxFrameBytes && newline ∈ remaining &&
        pending (s.ports fd).recvs = [] && s.remains fd client raw &&
        (maxProcessedFramesPerPoll ≤ framesProcessed + 1 || s.refused fd client raw)

/-- No frame that `drainFrames` takes strands another. -/
def drainsClean (fd : Fd) : Nat → Nat → ChatServer → Bool
  | 0, _, _ => true
  | turns + 1, framesProcessed, s =>
    maxProcessedFramesPerPoll ≤ framesProcessed || !s.strands fd framesProcessed &&
      match frameStep fd framesProcessed s with
      | .next framesProcessed s => drainsClean fd turns framesProcessed s
      | _ => true

def readsClean (fd : Fd) : List RecvResult → Nat → Nat → ChatServer → Bool
  | recvs, bytesRead, framesProcessed, s =>
    if bytesRead < maxBytesReadPerPoll ∧ framesProcessed < maxProcessedFramesPerPoll then
      match recvs with
      | .received chunk _ :: rest =>
        if chunk = [] then true
        else match (s.setRecvs fd rest).receive fd chunk with
          | (false, _) => true
          | (true, s) => drainsClean fd (maxProcessedFramesPerPoll + 1) framesProcessed s &&
            match drainFrames fd (maxProcessedFramesPerPoll + 1) framesProcessed s with
            | .returned _ => true
            | .drained framesProcessed s =>
              readsClean fd rest (bytesRead + chunk.length) framesProcessed s
      | _ => true
    else true

section Drain

variable {s : ChatServer} (h : Inv s) {fd : Fd} {client : ClientConnection} {raw remaining : Bytes}
  (found : s.clients fd = some client)
  (split : splitFrame client.inputBuffer = some (raw, remaining))
  (short : raw.length ≤ maxFrameBytes) (active : client.clientState = .active)
  (framesProcessed : Nat)

include h found split short active

theorem remains_of_connected (connected : (frameStep fd framesProcessed s).server.clients fd ≠ none) :
    s.remains fd client raw = true := by
  have line : s.lineFor (.frame fd framesProcessed) fd =
      s.lineTo fd client (s.request client (stripCarriageReturn raw)) fd := by
    simp only [lineFor, found, Option.bind_some, frameLine, split, Nat.not_lt.mpr short, if_false,
      active]
  by_cases spoken : s.chats (.frame fd framesProcessed)
  · obtain ⟨_, _, _, words, found', -, split', -, asked⟩ := spoken
    obtain rfl := Option.some.inj (found.symm.trans found')
    obtain ⟨rfl, -⟩ := Prod.mk.inj (Option.some.inj (split.symm.trans split'))
    simp [remains, asked, lineTo]
  · have before : s.clients fd ≠ none := by simp [found]
    have safe := mt (lost_gone (a := .frame fd framesProcessed) h before spoken rfl before)
      connected
    obtain ⟨kept, stays⟩ := not_or.mp safe
    have goes : s.request client (stripCarriageReturn raw) ≠ .quit := fun asked =>
      stays ⟨rfl, client, raw, remaining, found, active, split, asked⟩
    have takes : ∀ data, s.lineTo fd client (s.request client (stripCarriageReturn raw)) fd =
        some data → (s.entry fd).accepts s.serverIteration data = true := by
      intro data told
      by_contra refused
      exact kept (.inr ⟨data, line.trans told, by simpa using refused⟩)
    cases told : s.lineTo fd client (s.request client (stripCarriageReturn raw)) fd with
    | none => simp [remains, goes, told]
    | some data => simp [remains, goes, told, takes data told]

/-- Unless the frame strands another, nothing waits behind it when the loop ends there. -/
theorem clean_of_not_strands (connected : (frameStep fd framesProcessed s).server.clients fd ≠ none)
    (clean : s.strands fd framesProcessed = false) (empty : pending (s.ports fd).recvs = [])
    (ends : maxProcessedFramesPerPoll ≤ framesProcessed + 1 ∨
      frameStep fd framesProcessed s ≠
        .next (framesProcessed + 1) (frameStep fd framesProcessed s).server) :
    newline ∉ remaining := by
  intro waiting
  have stays := remains_of_connected h found split short active framesProcessed connected
  have stops : maxProcessedFramesPerPoll ≤ framesProcessed + 1 ∨ s.refused fd client raw = true := by
    refine ends.imp_right fun stopped => ?_
    obtain ⟨words, asked, other, ne, home, refused⟩ :=
      (frame_next h found split short framesProcessed active connected).resolve_left stopped
    obtain ⟨room, mem, id⟩ := h.rooms.homes other _ home
    have member := (h.rooms.members room mem other).mpr (id ▸ home)
    have listed := h.rooms.findById.mpr ⟨mem, id⟩
    simp only [ChatServer.refused, asked, listed, Option.any_some, List.any_eq_true]
    exact ⟨other, member, by simp [ne, refused]⟩
  have stranded : s.strands fd framesProcessed = true := by
    simp only [strands, found, split]
    simpa [active, short, waiting, empty, stays] using stops
  simp [stranded] at clean

end Drain

theorem disconnect_reads {s : ChatServer} {fd : Fd}
    (others : ∀ other, other ≠ fd → ReadOk (s.entry other)) (open' : ¬ Ended (s.ports fd).history)
    {reason : String} (reason_ne : reason ≠ "peer closed connection") (other : Fd) :
    ReadOk ((s.disconnect fd reason).entry other) := by
  rw [(disconnect_performs s fd reason).entries]
  by_cases same : other = fd
  · subst same
    have closed := Entry.Keeps.closed reason_ne (s.entry other)
    rw [only_self]
    exact .of_open (fun past => open' (closed.ended past)) (by simp)
  · rw [only_of_ne same]
    exact others other same

theorem reads_of_drained {s : ChatServer} {fd : Fd} {client : ClientConnection}
    (found : s.clients fd = some client) (others : ∀ other, other ≠ fd → ReadOk (s.entry other))
    (open' : ¬ Ended (s.ports fd).history)
    (drained : pending (s.ports fd).recvs = [] → newline ∉ client.inputBuffer) (other : Fd) :
    ReadOk (s.entry other) := by
  by_cases same : other = fd
  · subst same
    refine .of_open open' fun record found' noInput => ?_
    obtain rfl := Option.some.inj (found.symm.trans found')
    exact drained noInput
  · exact others other same

/-- What taking a frame that is not too long leaves of the reads. -/
structure TakesFrame (s : ChatServer) (fd : Fd) (client : ClientConnection) (remaining : Bytes)
    (framesProcessed : Nat) (t : ChatServer) : Prop where
  inv : Inv t
  others : ∀ other, other ≠ fd → ReadOk (t.entry other)
  opened : ¬ Ended (t.ports fd).history
  recvs : (t.ports fd).recvs = (s.ports fd).recvs
  input : ∀ record, t.clients fd = some record →
    record.inputBuffer = remaining ∧ record.clientState = .active
  last : maxProcessedFramesPerPoll ≤ framesProcessed + 1 ∨
      frameStep fd framesProcessed s ≠ .next (framesProcessed + 1) t →
    client.clientState = .active → t.clients fd ≠ none → pending (s.ports fd).recvs = [] →
    newline ∉ remaining

theorem frameStep_takes {s : ChatServer} (h : Inv s) {fd : Fd} {client : ClientConnection}
    {raw remaining : Bytes} (found : s.clients fd = some client)
    (split : splitFrame client.inputBuffer = some (raw, remaining))
    (le : raw.length ≤ maxFrameBytes) (framesProcessed : Nat)
    (others : ∀ other, other ≠ fd → ReadOk (s.entry other)) (open' : ¬ Ended (s.ports fd).history)
    (unstranded : s.strands fd framesProcessed = false) :
    TakesFrame s fd client remaining framesProcessed (frameStep fd framesProcessed s).server := by
  have connected : s.clients fd ≠ none := by simp [found]
  obtain ⟨e, record, base, buffer, state, recvs, before, kept⟩ :=
    frame_input h found split le framesProcessed
  refine ⟨h.frameStep found framesProcessed, fun other ne => ?_, fun past => ?_, ?_, ?_, ?_⟩
  · exact (others other ne).keeps
      (perform_keeps (a := .frame fd framesProcessed) h connected rfl ne)
  · exact open' (before (kept.ended past))
  · exact kept.recvs.trans recvs
  · intro record' found'
    obtain ⟨same, found'', buffer', state'⟩ := kept.input record' found'
    obtain rfl := Option.some.inj (base.symm.trans found'')
    exact ⟨buffer'.trans buffer, state'.trans state⟩
  · intro ends active still empty
    exact clean_of_not_strands h found split le active framesProcessed still unstranded empty ends

/-- The frame loop leaves no complete frame behind with nothing in the kernel. The
turns are enough: each counts a frame, but for one that takes the username. -/
theorem drainFrames_reads {fd : Fd} (turns framesProcessed : Nat) {s : ChatServer} (h : Inv s)
    {client : ClientConnection} (found : s.clients fd = some client)
    (enough : maxProcessedFramesPerPoll + (if client.clientState = .awaitingUsername then 1 else 0) ≤
      framesProcessed + turns)
    (others : ∀ other, other ≠ fd → ReadOk (s.entry other)) (open' : ¬ Ended (s.ports fd).history)
    (spent : maxProcessedFramesPerPoll ≤ framesProcessed → pending (s.ports fd).recvs = [] →
      newline ∉ client.inputBuffer)
    (clean : drainsClean fd turns framesProcessed s = true) :
    match drainFrames fd turns framesProcessed s with
    | .returned t => ∀ other, ReadOk (t.entry other)
    | .drained _ t => Inv t ∧ t.clients fd ≠ none ∧ (t.ports fd).recvs = (s.ports fd).recvs ∧
        ∀ other, ReadOk (t.entry other) := by
  induction turns generalizing framesProcessed s client with
  | zero => exact ⟨h, by simp [found], rfl, reads_of_drained found others open' (spent (by omega))⟩
  | succ turns ih =>
    have connected : s.clients fd ≠ none := by simp [found]
    have stays (drained : pending (s.ports fd).recvs = [] → newline ∉ client.inputBuffer) :
        Inv s ∧ s.clients fd ≠ none ∧ (s.ports fd).recvs = (s.ports fd).recvs ∧
          ∀ other, ReadOk (s.entry other) :=
      ⟨h, connected, rfl, reads_of_drained found others open' drained⟩
    by_cases past : maxProcessedFramesPerPoll ≤ framesProcessed
    · rw [drainFrames, if_neg (Nat.not_lt.mpr past)]
      exact stays (spent past)
    have budget : framesProcessed < maxProcessedFramesPerPoll := by omega
    simp only [drainsClean, past, decide_false, Bool.false_or, Bool.and_eq_true,
      Bool.not_eq_true'] at clean
    obtain ⟨unstranded, later⟩ := clean
    rw [drainFrames, if_pos budget]
    have cut : ∀ other, ReadOk ((s.disconnect fd "input frame limit exceeded").entry other) :=
      disconnect_reads others open' (by decide)
    rcases frameStep_cases found framesProcessed with
      ⟨unsplit, -, result⟩ | ⟨unsplit, -, result⟩ | ⟨raw, remaining, split, ⟨-, result⟩ | short⟩
    · rw [result]
      exact cut
    · rw [result]
      exact stays fun _ => splitFrame_none.mp unsplit
    · rw [result]
      exact cut
    have le : raw.length ≤ maxFrameBytes := short.elim And.left And.left
    have takes := frameStep_takes h found split le framesProcessed others open' unstranded
    cases step : frameStep fd framesProcessed s with
    | exhausted t =>
      rcases short with ⟨-, -, result⟩ | ⟨-, -, result⟩
      all_goals
        rw [result] at step
        split_ifs at step
    | returned t =>
      rw [step] at takes
      intro other
      by_cases same : other = fd
      · subst same
        refine .of_open takes.opened fun record' found' noInput => ?_
        rw [(takes.input record' found').1]
        have still : t.clients other ≠ none := by
          rw [← entry_client, found']
          simp
        refine takes.last (.inr (by simp [step])) ?_ still (takes.recvs ▸ noInput)
        by_contra awaiting
        have goes := username_next found split framesProcessed
          (by cases state : client.clientState <;> simp_all) le (step ▸ still)
        simp [step] at goes
      · exact takes.others other same
    | next taken t =>
      rw [step] at takes
      have still := frameStep_next connected step
      obtain ⟨record', found'⟩ := Option.ne_none_iff_exists'.mp still
      obtain ⟨rest, logged⟩ := takes.input record' found'
      rw [step] at later
      have counted := frameStep_counted found step
      have enough' : maxProcessedFramesPerPoll +
          (if record'.clientState = .awaitingUsername then 1 else 0) ≤ taken + turns := by
        rw [logged]
        rcases counted with ⟨awaiting, rfl⟩ | ⟨active, rfl⟩
        · simp only [awaiting, if_true, reduceCtorEq, if_false] at enough ⊢
          omega
        · simp only [active, reduceCtorEq, if_false] at enough ⊢
          omega
      have spent' : maxProcessedFramesPerPoll ≤ taken → pending (t.ports fd).recvs = [] →
          newline ∉ record'.inputBuffer := by
        intro full empty
        rw [rest]
        rcases counted with ⟨-, rfl⟩ | ⟨active, rfl⟩
        · exact (past full).elim
        · exact takes.last (.inl full) active still (takes.recvs ▸ empty)
      have rest := ih taken takes.inv found' enough' takes.others takes.opened spent' later
      rw [takes.recvs] at rest
      exact rest

theorem peerGone_reads {s : ChatServer} (h : Inv s) {fd : Fd} {client : ClientConnection}
    (found : s.clients fd = some client) (reason : String)
    (others : ∀ other, other ≠ fd → ReadOk (s.entry other))
    (self : ReadOk ((s.entry fd).closed reason)) (other : Fd) :
    ReadOk ((s.peerGone fd reason).entry other) := by
  rw [(peerGone_performs h.rooms found reason).1.entries]
  by_cases same : other = fd
  · subst same
    rwa [if_pos rfl]
  · rw [if_neg same]
    exact (others other same).keeps (.told Entry.notified_told)

/-- When the peer has closed, what has been received is what has been taken. -/
theorem ended_reads {s : ChatServer} (h : Inv s) {fd : Fd} {client : ClientConnection}
    (found : s.clients fd = some client) (clean : newline ∉ client.inputBuffer) :
    ReadOk ((s.entry fd).closed "peer closed connection") := by
  refine ⟨by simp, fun _ => ⟨Entry.closed_client _ _, ?_⟩⟩
  have framing := (h.entries fd).framing client found
  have whole : ∀ piece ∈ (takenFrames (s.ports fd).history).map Taken.raw, newline ∉ piece := by
    intro piece mem
    obtain ⟨frame, taken, rfl⟩ := List.mem_map.mp mem
    exact (framing.whole frame taken).1
  have stream : receivedBytes (s.ports fd).history = _ := framing.stream
  simp only [Entry.closed, entry_client, entry_port, found, receivedBytes_cons, takenFrames_cons,
    Effect.receivedBytes, Effect.taken, Option.toList_none, List.append_nil, stream,
    List.count_append, count_delimited whole, List.count_eq_zero_of_not_mem clean,
    List.length_map, Nat.add_zero]

theorem receive_reads {s : ChatServer} {fd : Fd} {client : ClientConnection}
    (found : s.clients fd = some client) (others : ∀ other, other ≠ fd → ReadOk (s.entry other))
    (open' : ¬ Ended (s.ports fd).history) (chunk : Bytes) :
    match s.receive fd chunk with
    | (false, t) => ∀ other, ReadOk (t.entry other)
    | (true, t) => t.clients fd =
          some { client with inputBuffer := client.inputBuffer ++ chunk } ∧
        (t.ports fd).recvs = (s.ports fd).recvs ∧ ¬ Ended (t.ports fd).history ∧
        ∀ other, other ≠ fd → ReadOk (t.entry other) := by
  let t := (s.setClient fd { client with inputBuffer := client.inputBuffer ++ chunk }).note fd
    (.received chunk)
  have others' : ∀ other, other ≠ fd → ReadOk (t.entry other) := by
    intro other ne
    have same : t.entry other = s.entry other := by simp [t, entry, note, ne]
    exact same ▸ others other ne
  have open'' : ¬ Ended (t.ports fd).history := by
    simpa [t, note, Port.note, Ended] using open'
  simp only [receive, found]
  split_ifs
  · exact disconnect_reads others' open'' (by decide)
  · exact ⟨Function.update_self _ _ _, by simp [note, Port.note], open'', others'⟩

theorem readLoop_reads {fd : Fd} (recvs : List RecvResult) (bytesRead framesProcessed : Nat)
    {s : ChatServer} (h : Inv s) (connected : s.clients fd ≠ none)
    (next : (s.ports fd).recvs = recvs) (inOrder : orderly recvs)
    (reads : ∀ other, ReadOk (s.entry other))
    (clean : readsClean fd recvs bytesRead framesProcessed s = true) (other : Fd) :
    ReadOk ((readLoop fd recvs bytesRead framesProcessed s).entry other) := by
  induction recvs generalizing bytesRead framesProcessed s with
  | nil =>
    unfold readLoop
    split_ifs <;> exact reads other
  | cons result rest ih =>
    unfold readsClean at clean
    unfold readLoop
    split_ifs at clean ⊢ with budget
    swap
    · exact reads other
    obtain ⟨client, found⟩ := Option.ne_none_iff_exists'.mp connected
    have answered : Inv (s.setRecvs fd rest) := h.perform (a := .answered fd rest) trivial
    have found' : (s.setRecvs fd rest).clients fd = some client := found
    have others (c : Fd) (ne : c ≠ fd) : ReadOk ((s.setRecvs fd rest).entry c) := by
      rw [(setRecvs_performs s fd rest).entries, only_of_ne ne]
      exact reads c
    have open' : ¬ Ended ((s.setRecvs fd rest).ports fd).history := by
      have before := (reads fd).not_ended found
      simpa [setRecvs] using before
    have left : ((s.setRecvs fd rest).ports fd).recvs = rest := by simp [setRecvs]
    have waits (same : pending (result :: rest) = pending rest) :
        ReadOk ((s.setRecvs fd rest).entry other) := by
      refine reads_of_drained found' others open' (fun empty => ?_) other
      refine (reads fd).drained client found ?_
      rw [entry_port, next, same, ← left]
      exact empty
    cases result with
    | eagain => exact waits rfl
    | eintr => exact waits rfl
    | error errno =>
      refine peerGone_reads answered found' _ others ?_ other
      have closed : Entry.Keeps _ (((s.setRecvs fd rest).entry fd).closed "recv failed") :=
        .closed (by decide) _
      exact .of_open (fun past => open' (closed.ended past)) (by simp)
    | received chunk fits =>
      obtain ⟨last, inOrder⟩ := inOrder
      dsimp only at clean ⊢
      split_ifs at clean ⊢ with ended
      · have empty : pending (.received chunk fits :: rest) = [] := by
          have tail := last ended
          simp only [pending] at tail
          simp [pending, ended, tail]
        have drained := (reads fd).drained client found (by rw [entry_port, next, empty])
        exact peerGone_reads answered found' _ others (ended_reads answered found' drained) other
      · have received : Inv ((s.setRecvs fd rest).receive fd chunk).2 :=
          answered.perform (a := .receive fd chunk) (by simp [Action.enabled, found'])
        have stored := receive_reads found' others open' chunk
        cases result : (s.setRecvs fd rest).receive fd chunk with
        | mk kept t =>
          rw [result] at received stored clean
          cases kept with
          | false => exact stored other
          | true =>
            obtain ⟨here, recvs, open'', others'⟩ := stored
            rw [Bool.and_eq_true] at clean
            have drained := drainFrames_reads (maxProcessedFramesPerPoll + 1) framesProcessed
              received here (by split_ifs <;> omega) others' open'' (fun full => by omega) clean.1
            dsimp only
            cases ends : drainFrames fd (maxProcessedFramesPerPoll + 1) framesProcessed t with
            | returned u =>
              rw [ends] at drained
              exact drained other
            | drained taken u =>
              rw [ends] at drained clean
              obtain ⟨inv, still, same, reads'⟩ := drained
              exact ih _ taken inv still (same.trans (recvs.trans left)) inOrder reads' clean.2

theorem load_reads {s : ChatServer} {env : Environment} (reads : ∀ fd, ReadOk (s.entry fd))
    (kernel : ∀ fd, s.clients fd ≠ none →
      pending (s.ports fd).recvs <+: pending (env.results fd).recvs) (fd : Fd) :
    ReadOk ((s.load env.results).entry fd) := by
  refine ⟨fun record found empty => ?_, (reads fd).ended⟩
  have connected : s.clients fd ≠ none := Option.ne_none_iff_exists'.mpr ⟨record, found⟩
  have before : pending (env.results fd).recvs = [] := empty
  exact (reads fd).drained record found (List.prefix_nil.mp (before ▸ kernel fd connected))

theorem handleRead_reads {s : ChatServer} (h : Inv s) (reads : ∀ fd, ReadOk (s.entry fd)) {fd : Fd}
    (inOrder : s.clients fd ≠ none → orderly (s.ports fd).recvs)
    (clean : s.clients fd ≠ none → readsClean fd (s.ports fd).recvs 0 0 s = true) (other : Fd) :
    ReadOk ((s.handleRead fd).entry other) := by
  unfold handleRead
  cases found : s.clients fd with
  | none => exact reads other
  | some client =>
    have connected : s.clients fd ≠ none := by simp [found]
    exact readLoop_reads _ 0 0 h connected rfl (inOrder connected) reads (clean connected) other

theorem handleWrite_reads {s : ChatServer} (h : Inv s) {fd : Fd} {client : ClientConnection}
    (found : s.clients fd = some client) (reads : ∀ fd, ReadOk (s.entry fd)) (other : Fd) :
    ReadOk ((s.handleWrite fd).entry other) := by
  by_cases same : other = fd
  · subst same
    rw [(handleWrite_performs h.rooms found).1.entries, if_pos rfl, only_self]
    have flushed := Entry.Keeps.flushed s.serverIteration (s.entry other)
    split_ifs
    · exact (reads other).keeps flushed
    · exact (reads other).keeps (flushed.trans (.closed (by decide) _))
  · have connected : s.clients fd ≠ none := by simp [found]
    exact (reads other).keeps (perform_keeps (a := .write fd) h connected rfl same)

theorem acceptConnections_reads (accepts : List AcceptResult) {s : ChatServer}
    (reads : ∀ fd, ReadOk (s.entry fd)) (fd : Fd) :
    ReadOk ((acceptConnections accepts s).entry fd) := by
  induction accepts generalizing s with
  | nil => exact reads fd
  | cons result rest ih =>
    cases result with
    | eagain => exact reads fd
    | error errno => exact reads fd
    | eintr => exact ih reads
    | connection c nonblocking added results =>
      simp only [acceptConnections]
      split_ifs with taken failed
      · exact reads fd
      · exact ih reads
      · refine ih fun other => ?_
        rw [(acceptClient_performs (by simpa using taken) results).entries]
        by_cases same : other = c
        · subst same
          have fresh : ReadOk (Entry.opened results) :=
            .of_open (by simp [Entry.opened, Ended]) (by simp [Entry.opened])
          rw [only_self]
          exact fresh.keeps (.offered (by decide) _ _ _)
        · rw [only_of_ne same]
          exact reads other

/-- What the kernel holds for a client it holds until the client is read. -/
def KernelHolds (s : ChatServer) (env : Environment) : Prop :=
  ∀ fd, s.clients fd ≠ none → orderly (env.results fd).recvs ∧
    pending (s.ports fd).recvs <+: pending (env.results fd).recvs

def Input.kernelHolds (s : ChatServer) : Input → Prop
  | .iteration => True
  | .event env _ => KernelHolds s env

def Input.readsClean (s : ChatServer) : Input → Prop
  | .iteration => True
  | .event env ready => ready.fd ≠ s.listener →
      ready.flags &&& (readyRead ||| readyError) ≠ 0 → s.clients ready.fd ≠ none →
        ChatServer.readsClean ready.fd (env.results ready.fd).recvs 0 0 (s.load env.results) = true

theorem handle_reads {s : ChatServer} (h : Reachable s) {input : Input}
    (reads : ∀ fd, ReadOk (s.entry fd)) (kernel : input.kernelHolds s)
    (clean : input.readsClean s) (fd : Fd) : ReadOk ((s.handle input).entry fd) := by
  cases input with
  | iteration => exact reads fd
  | event env ready =>
    have loaded : Reachable (s.load env.results) := reachable_perform h (.load env.results) trivial
    have reads' := load_reads reads fun c connected => (kernel c connected).2
    simp only [handle, handleEvent]
    split_ifs with listening accepting readable writable writable
    · exact acceptConnections_reads _ reads' fd
    · exact reads' fd
    · have read := handleRead_reads (reachable_inv loaded) reads'
        (fun connected => (kernel ready.fd connected).1) (clean listening readable)
      have path := handleRead_steps (s.load env.results) ready.fd
      obtain ⟨client, found⟩ := Option.isSome_iff_exists.mp writable.2
      exact handleWrite_reads (reachable_inv (loaded.steps path)) found read fd
    · exact handleRead_reads (reachable_inv loaded) reads'
        (fun connected => (kernel ready.fd connected).1) (clean listening readable) fd
    · obtain ⟨client, found⟩ := Option.isSome_iff_exists.mp writable.2
      exact handleWrite_reads (reachable_inv loaded) found reads' fd
    · exact reads' fd

/-- In a run none of whose frames strands another, no complete frame waits while
the kernel holds nothing, and none is lost to the end of the stream; nor in the
states that `handleRead` returns. -/
theorem reads_whole (listener : Fd) (inputs : List Input)
    (kernel : Along (fun s input => input.kernelHolds s) (initial listener) inputs)
    (clean : Along (fun s input => input.readsClean s) (initial listener) inputs) :
    let s := (initial listener).run inputs
    (∀ fd, ReadOk (s.entry fd)) ∧
      ∀ env fd, KernelHolds s env →
        (s.clients fd ≠ none → readsClean fd (env.results fd).recvs 0 0 (s.load env.results) = true) →
        ∀ other, ReadOk (((s.load env.results).handleRead fd).entry other) := by
  have start : Reachable (initial listener) ∧ ∀ fd, ReadOk ((initial listener).entry fd) := by
    refine ⟨Transition.Reachable.of_init (M := machine) ⟨listener, rfl⟩, fun fd => ?_⟩
    exact .of_open (by simp [entry, initial, Ended]) (by simp [entry, initial])
  obtain ⟨reachable, reads⟩ := (kernel.and clean).run
    (P := fun s => Reachable s ∧ ∀ fd, ReadOk (s.entry fd))
    (fun s input before both => ⟨before.1.steps (handle_steps s input),
      handle_reads before.1 before.2 both.1 both.2⟩) start
  refine ⟨reads, fun env fd holds unstranded other => ?_⟩
  have loaded := reachable_inv (reachable_perform reachable (.load env.results) trivial)
  exact handleRead_reads loaded (load_reads reads fun c connected => (holds c connected).2)
    (fun connected => (holds fd connected).1) unstranded other

/-- A client is accepted, and every send takes all it is given. -/
def oneArrives : Input :=
  let results : Results := ⟨[], List.replicate 4 (.accepted 100), []⟩
  .event ⟨[.connection 4 true true results], fun _ => results⟩ ⟨3, readyRead⟩

def holding (chunk : Bytes) (fits : chunk.length ≤ maxDataSize) : Environment :=
  ⟨[], fun _ => ⟨[.received chunk fits], List.replicate 4 (.accepted 100), []⟩⟩

theorem oneArrives_kernelHolds : oneArrives.kernelHolds (initial 3) :=
  fun _ connected => (connected rfl).elim

theorem oneArrives_readsClean : oneArrives.readsClean (initial 3) :=
  fun _ _ connected => (connected rfl).elim

theorem oneArrives_recvs (fd : Fd) : (((initial 3).run [oneArrives]).ports fd).recvs = [] := by
  let results : Results := ⟨[], List.replicate 4 (.accepted 100), []⟩
  have accepted : (initial 3).run [oneArrives] =
      ((initial 3).load fun _ => results).acceptClient 4 results := by rfl
  have closed : ((initial 3).load fun _ => results).isOpen 4 = false := rfl
  rw [accepted, ← entry_port, (acceptClient_performs closed results).entries]
  by_cases same : fd = 4
  · subst same
    rw [only_self]
    exact (Entry.Keeps.offered (by decide) _ _ _).recvs
  · rw [only_of_ne same]
    rfl

theorem holding_kernelHolds {chunk : Bytes} (fits : chunk.length ≤ maxDataSize) (nonempty : chunk ≠ []) :
    KernelHolds ((initial 3).run [oneArrives]) (holding chunk fits) := by
  intro fd _
  refine ⟨⟨fun ended => (nonempty ended).elim, trivial⟩, ?_⟩
  rw [oneArrives_recvs]
  exact List.nil_prefix

theorem oneArrives_reads_whole : ReadOk (((((initial 3).run [oneArrives]).load
    (holding (ascii "ann\nhi\n") (by decide)).results).handleRead 4).entry 4) := by
  have clean : readsClean 4 ((holding (ascii "ann\nhi\n") (by decide)).results 4).recvs 0 0
      (((initial 3).run [oneArrives]).load (holding (ascii "ann\nhi\n") (by decide)).results) =
        true := by decide +kernel
  exact (reads_whole 3 [oneArrives] ⟨oneArrives_kernelHolds, trivial⟩
    ⟨oneArrives_readsClean, trivial⟩).2 (holding _ _) 4 (holding_kernelHolds _ (by decide))
    (fun _ => clean) 4

theorem not_reads_of_left {s : ChatServer} {fd : Fd}
    (left : (s.clients fd).map (·.inputBuffer) = some [newline])
    (nothing : pending (s.ports fd).recvs = []) : ¬ ReadOk (s.entry fd) := by
  intro reads
  obtain ⟨record, found, buffer⟩ := Option.map_eq_some_iff.mp left
  have clean := reads.drained record found nothing
  simp [buffer] at clean

/-- A username, and then one empty line more than a call takes. -/
def flood : Bytes := ascii "u\n" ++ List.replicate 33 newline

theorem flood_fits : flood.length ≤ maxDataSize := by decide +kernel

def flooded : ChatServer :=
  (((initial 3).run [oneArrives]).load (holding flood flood_fits).results).handleRead 4

/-- The last line waits in the buffer, and the kernel holds nothing. -/
theorem flooded_not_reads_whole :
    KernelHolds ((initial 3).run [oneArrives]) (holding flood flood_fits) ∧
      ¬ ReadOk (flooded.entry 4) := by
  have left : (flooded.clients 4).map (·.inputBuffer) = some [newline] := by decide +kernel
  have nothing : pending (flooded.ports 4).recvs = [] := by decide +kernel
  exact ⟨holding_kernelHolds flood_fits (by decide +kernel), not_reads_of_left left nothing⟩

end ChatServer
end Partyline
