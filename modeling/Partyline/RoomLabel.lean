import Partyline.Client
import Partyline.Injection
import Partyline.Places

/-! The room that the terminal client shows and the room that the server has its
connection in. The two read the same lines, each with a parser of its own. -/
namespace Partyline

open Library

namespace TypedLine

/-- The server moves the client where the client says, when a line is: a `/join`
with one word and nothing else; no raw JOIN, unless of the room one is in; no
raw LEAVE, unless one is in the main room. -/
def Clear (l : TypedLine) : Prop :=
  let words := tokens l.line
  l.username = true ∨
    (ascii "/join " <+: l.line → l.line.drop 6 ≠ [] ∧ space ∉ l.line.drop 6) ∧
    (words.headD [] = ascii "JOIN" ∧ words.length = 2 → words.getD 1 [] = l.room) ∧
    (words.headD [] = ascii "LEAVE" → l.room = mainRoomName)

instance (l : TypedLine) : Decidable l.Clear := by
  unfold Clear
  infer_instance

/-- The room the server has the client in after the line, if it had it in the one shown. -/
def place (l : TypedLine) : Bytes :=
  l.frame.elim l.room (placeAfter l.room)

variable {l : TypedLine}

theorem clear_of_slash (command : l.line.head? = some slash) (other : ¬ ascii "/join " <+: l.line) :
    l.Clear := by
  obtain ⟨rest, line⟩ : ∃ rest, l.line = slash :: rest := by
    cases line : l.line with
    | nil => simp [line] at command
    | cons ch rest =>
      obtain rfl : ch = slash := by simpa [line] using command
      exact ⟨rest, rfl⟩
  have head := tokens_head (by decide : slash ≠ space) rest
  refine .inr ⟨fun join => (other join).elim, fun join => ?_, fun leave => ?_⟩
  · rw [line] at join
    rw [join.1] at head
    exact absurd head (by decide)
  · rw [line] at leave
    rw [leave] at head
    exact absurd head (by decide)

/-- A word that starts with a slash, but not a `/join` with something after it. -/
theorem label_of_slash (typed : l.username = false) (command : l.line.head? = some slash)
    (other : ¬ ascii "/join " <+: l.line) : l.label = l.place := by
  have kept {frame : Bytes} (known : frame ∈ [ascii "QUIT", ascii "LIST", ascii "WHERE"]) :
      placeAfter l.room frame = l.room := by
    simp only [List.mem_cons, List.not_mem_nil, or_false] at known
    rcases known with rfl | rfl | rfl <;> simp +decide [placeAfter]
  by_cases leave : l.line = ascii "/leave"
  · have left : placeAfter l.room (ascii "LEAVE") = mainRoomName := by simp +decide [placeAfter]
    have frame : l.frame = some (ascii "LEAVE") := by simp +decide [TypedLine.frame, typed, leave]
    rw [place, frame, Option.elim_some, left]
    simp [label, leave]
  · have shown : l.label = l.room := by simp [label, typed, leave, other]
    rw [shown, place, TypedLine.frame]
    simp only [typed, leave, other, command, Bool.false_eq_true, if_false, if_true]
    split_ifs
    · exact (kept (by decide : ascii "QUIT" ∈ _)).symm
    · exact (kept (by decide : ascii "LIST" ∈ _)).symm
    · exact (kept (by decide : ascii "WHERE" ∈ _)).symm
    · rfl

theorem distinct_of (known : Bytes → Prop) [DecidablePred known] (here : known l.line)
    (others : ∀ word ∈ [ascii "/leave", ascii "/quit", ascii "/list", ascii "/where"],
      ¬ known word) : l.line ≠ ascii "/leave" ∧ l.line ≠ ascii "/quit" ∧ l.line ≠ ascii "/list" ∧
        l.line ≠ ascii "/where" := by
  have differs {word : Bytes} (mem : ¬ known word) : l.line ≠ word := by
    rintro rfl
    exact mem here
  exact ⟨differs (others _ (by simp)), differs (others _ (by simp)), differs (others _ (by simp)),
    differs (others _ (by simp))⟩

theorem clear_join {name : Bytes} (typed : l.username = false)
    (line : l.line = ascii "/join " ++ name) (nonempty : l.room ≠ []) (whole : space ∉ l.room) :
    l.Clear ↔ l.label = l.place := by
  have command : ascii "/join " <+: l.line := line ▸ List.prefix_append _ _
  have dropped : l.line.drop 6 = name := by rw [line]; rfl
  have distinct := distinct_of (fun word => ascii "/join " <+: word) command (by decide)
  have shown : l.label = name := by simp [label, typed, distinct, command, dropped]
  have sent : l.frame = some (ascii "JOIN " ++ name) := by
    simp [TypedLine.frame, typed, distinct, command, dropped]
  have words : tokens (ascii "JOIN " ++ name) = ascii "JOIN" :: tokens name :=
    tokens_concat (by decide : space ∉ ascii "JOIN") name
  have heads : (tokens l.line).headD [] = ascii "/join" := by
    rw [line]
    have cut : tokens (ascii "/join " ++ name) = ascii "/join" :: tokens name :=
      tokens_concat (by decide : space ∉ ascii "/join") name
    rw [cut]
    rfl
  have clear : l.Clear ↔ name ≠ [] ∧ space ∉ name := by
    have join : ascii "/join" ≠ ascii "JOIN" := by decide
    have leave : ascii "/join" ≠ ascii "LEAVE" := by decide
    simp only [Clear, typed, command, dropped, heads, join, leave]
    simp
  have place : l.place = if (tokens name).length = 1 then (tokens name).getD 0 [] else l.room := by
    have other : ascii "JOIN" ≠ ascii "LEAVE" := by decide
    simp [TypedLine.place, sent, placeAfter, words, other]
  rw [clear, shown, place]
  constructor
  · rintro ⟨nonempty, whole⟩
    simp [tokens_word whole nonempty]
  · intro same
    split_ifs at same with one
    · obtain ⟨word, only⟩ := List.length_eq_one_iff.mp one
      obtain rfl : name = word := by simpa [only] using same
      refine ⟨?_, (mem_tokens (only ▸ List.mem_singleton_self name)).1⟩
      rintro rfl
      cases one
    · subst same
      simp [tokens_word whole nonempty] at one

theorem clear_raw (typed : l.username = false) (raw : l.line.head? ≠ some slash) :
    l.Clear ↔ l.label = l.place := by
  have other : ¬ ascii "/join " <+: l.line := by
    rintro ⟨rest, same⟩
    exact raw (same ▸ rfl)
  have distinct := distinct_of (fun word => word.head? ≠ some slash) raw (by decide)
  have shown : l.label = l.room := by simp [label, typed, distinct, other]
  have sent : l.frame = some l.line := by simp [TypedLine.frame, typed, distinct, other, raw]
  rw [shown, place, sent, Option.elim_some, placeAfter]
  have apart : (tokens l.line).headD [] = ascii "JOIN" → (tokens l.line).headD [] ≠ ascii "LEAVE" := by
    intro join
    rw [join]
    decide
  have clear : l.Clear ↔
      ((tokens l.line).headD [] = ascii "JOIN" ∧ (tokens l.line).length = 2 →
        (tokens l.line).getD 1 [] = l.room) ∧
      ((tokens l.line).headD [] = ascii "LEAVE" → l.room = mainRoomName) := by
    simp [Clear, typed, other]
  rw [clear]
  split_ifs with join leave
  · exact ⟨fun h => (h.1 join).symm,
      fun same => ⟨fun _ => same.symm, fun leave => (apart join.1 leave).elim⟩⟩
  · exact ⟨fun h => h.2 leave, fun same => ⟨fun joins => (join joins).elim, fun _ => same⟩⟩
  · exact ⟨fun _ => rfl,
      fun _ => ⟨fun joins => (join joins).elim, fun leaves => (leave leaves).elim⟩⟩

theorem clear_iff (typed : l.username = false) (nonempty : l.room ≠ []) (whole : space ∉ l.room) :
    l.Clear ↔ l.label = l.place := by
  by_cases command : l.line.head? = some slash
  · by_cases join : ascii "/join " <+: l.line
    · obtain ⟨name, line⟩ := join
      exact clear_join typed line.symm nonempty whole
    · exact iff_of_true (clear_of_slash command join) (label_of_slash typed command join)
  · exact clear_raw typed command

/-- Who only enters clear lines is never shown a name that no room can have. -/
theorem Clear.label (h : l.Clear) (nonempty : l.room ≠ []) (whole : space ∉ l.room) :
    l.label ≠ [] ∧ space ∉ l.label := by
  unfold TypedLine.label
  split_ifs with main join
  · decide
  · have typed : ¬ l.username = true := fun username => main (.inl username)
    exact ((h.resolve_left typed).1 join)
  · exact ⟨nonempty, whole⟩

end TypedLine

namespace TerminalClient

/-- What every key keeps of the client. As long as all lines have been clear, its
label is the room that its lines have taken it to; after the first that is not
clear it is another. -/
structure Kept (c : TerminalClient) : Prop where
  input : ∀ ch ∈ c.input, isPrint ch = true
  sent : ∀ frame ∈ c.sent, ∀ ch ∈ frame, isPrint ch = true
  username : c.usernameMode = true ↔ c.typed = []
  named : c.sent = [] ↔ c.typed = []
  clear : c.typed ≠ [] → (∀ l ∈ c.typed, l.Clear) →
    c.room = placeOf c.sent ∧ c.room ≠ [] ∧ space ∉ c.room
  unclear : ∀ before l, c.typed = before ++ [l] → (∀ l ∈ before, l.Clear) → ¬ l.Clear →
    c.room ≠ placeOf c.sent

theorem kept_initial : Kept initial :=
  ⟨by simp [initial], by simp [initial], by simp [initial], by simp [initial], by simp [initial],
    by simp [initial]⟩

theorem frame_isPrint {l : TypedLine} (line : ∀ ch ∈ l.line, isPrint ch = true) {frame : Bytes}
    (sent : l.frame = some frame) : ∀ ch ∈ frame, isPrint ch = true := by
  have words : ∀ word ∈ [ascii "QUIT", ascii "LEAVE", ascii "LIST", ascii "WHERE", ascii "JOIN "],
      ∀ ch ∈ word, isPrint ch = true := by decide +kernel
  unfold TypedLine.frame at sent
  split_ifs at sent <;> obtain rfl := Option.some.inj sent
  · exact line
  · exact words _ (by simp)
  · exact words _ (by simp)
  · exact words _ (by simp)
  · exact words _ (by simp)
  · intro ch mem
    rcases List.mem_append.mp mem with command | name
    · exact words _ (by simp) ch command
    · exact line ch (List.mem_of_mem_drop name)
  · exact line

theorem Kept.line {c : TerminalClient} (h : Kept c) (logged : c.usernameMode = false)
    (clear : ∀ l ∈ c.typed, l.Clear) :
    let l : TypedLine := ⟨false, c.room, c.input⟩
    placeOf (c.sent ++ l.frame.toList) = l.place ∧ c.room ≠ [] ∧ space ∉ c.room := by
  intro l
  have typed : c.typed ≠ [] := fun empty => by simp [h.username.mpr empty] at logged
  obtain ⟨same, nonempty, whole⟩ := h.clear typed clear
  have sent : c.sent ≠ [] := mt h.named.mp typed
  refine ⟨?_, nonempty, whole⟩
  cases frame : l.frame with
  | none => rw [Option.toList_none, List.append_nil, ← same, TypedLine.place, frame, Option.elim_none]
  | some frame' =>
    rw [Option.toList_some, placeOf_concat sent, ← same, TypedLine.place, frame, Option.elim_some]

theorem Kept.completeLine {c : TerminalClient} (h : Kept c) (delivered : Bool) :
    Kept (c.completeLine delivered) := by
  have completes := completeLine_completes delivered c
  generalize c.completeLine delivered = c' at completes
  obtain ⟨input, usernameMode, room, sent, typed⟩ := completes
  refine ⟨by simp [input], ?_, by simp [usernameMode, typed], ?_, ?_, ?_⟩
  · intro frame mem
    rw [sent] at mem
    rcases List.mem_append.mp mem with old | new
    · exact h.sent frame old
    · exact frame_isPrint h.input (by simpa using new)
  · have nonempty : c.sent ++ (TypedLine.frame ⟨c.usernameMode, c.room, c.input⟩).toList ≠ [] := by
      cases mode : c.usernameMode with
      | true => simp [TypedLine.frame]
      | false =>
        have typed : c.typed ≠ [] := fun empty => by simp [h.username.mpr empty] at mode
        exact List.append_ne_nil_of_left_ne_nil (mt h.named.mp typed) _
    simp [sent, typed, nonempty]
  · intro _ clear
    rw [typed] at clear
    rw [room, sent]
    cases mode : c.usernameMode with
    | true =>
      have first : c.sent = [] := h.named.mpr (h.username.mp mode)
      simp +decide [first, TypedLine.label, TypedLine.frame]
    | false =>
      obtain ⟨place, nonempty, whole⟩ := h.line mode fun l mem => clear l (List.mem_append_left _ mem)
      have last : TypedLine.Clear ⟨false, c.room, c.input⟩ :=
        mode ▸ clear _ (List.mem_append_right _ (List.mem_singleton_self _))
      exact ⟨((TypedLine.clear_iff rfl nonempty whole).mp last).trans place.symm,
        last.label nonempty whole⟩
  · intro before l last clear unclear
    rw [typed] at last
    obtain ⟨rfl, only⟩ := List.append_inj' last rfl
    obtain rfl := List.singleton_inj.mp only
    rw [room, sent]
    cases mode : c.usernameMode with
    | true => exact (unclear (.inl mode)).elim
    | false =>
      obtain ⟨place, nonempty, whole⟩ := h.line mode clear
      rw [place]
      rw [mode] at unclear
      exact mt (TypedLine.clear_iff rfl nonempty whole).mpr unclear

theorem Kept.press {c : TerminalClient} (h : Kept c) (key : Key) : Kept (c.press key) := by
  unfold TerminalClient.press
  split_ifs with ends erases prints
  · exact h.completeLine key.delivered
  · exact ⟨fun ch mem => h.input ch ((List.dropLast_sublist c.input).subset mem), h.sent, h.username, h.named,
      h.clear, h.unclear⟩
  · refine ⟨fun ch mem => ?_, h.sent, h.username, h.named, h.clear, h.unclear⟩
    rcases List.mem_append.mp mem with old | new
    · exact h.input ch old
    · rw [List.mem_singleton.mp new]
      exact prints
  · exact h

theorem run_kept (reads : List (List Key)) : Kept (run reads) :=
  run_invariant kept_initial (fun _ key h => h.press key)
    (fun _ h => ⟨h.input, h.sent, h.username, h.named, h.clear, h.unclear⟩) reads

end TerminalClient

namespace ChatServer

/-- The server has taken every line that the client has sent, and has not
disconnected it. -/
structure Processed (s : ChatServer) (fd : Fd) (client : ClientConnection) (c : TerminalClient) :
    Prop where
  connected : s.clients fd = some client
  received : receivedBytes (s.ports fd).history = delimited newline c.sent
  drained : newline ∉ client.inputBuffer

variable {s : ChatServer} {fd : Fd} {client : ClientConnection} {c : TerminalClient}

/-- The frames taken are the lines sent. -/
theorem Processed.lines (processed : Processed s fd client c) (h : Reachable s)
    (printable : ∀ frame ∈ c.sent, ∀ ch ∈ frame, isPrint ch = true) :
    (takenFrames (s.ports fd).history).map Taken.line = c.sent := by
  have framing := ((reachable_inv h).entries fd).framing client processed.connected
  have clean : ∀ frame ∈ c.sent, newline ∉ frame := fun frame sent mem =>
    absurd (printable frame sent newline mem) (by decide)
  have whole : ∀ raw ∈ (takenFrames (s.ports fd).history).map Taken.raw, newline ∉ raw := by
    intro raw mem
    obtain ⟨frame, taken, rfl⟩ := List.mem_map.mp mem
    exact (framing.whole frame taken).1
  have stream : delimited newline c.sent ++ [] =
      delimited newline ((takenFrames (s.ports fd).history).map Taken.raw) ++ client.inputBuffer := by
    rw [List.append_nil, ← processed.received]
    exact framing.stream
  have raws : c.sent = (takenFrames (s.ports fd).history).map Taken.raw :=
    (delimited_inj clean whole (by simp) processed.drained stream).1
  rw [raws]
  refine List.map_congr_left fun frame taken => ?_
  obtain ⟨-, -, line⟩ := framing.whole frame taken
  have kept : frame.raw.getLast? ≠ some carriageReturn := by
    intro last
    have sent : frame.raw ∈ c.sent := raws ▸ List.mem_map_of_mem taken
    exact absurd (printable _ sent _ (List.mem_of_getLast? last)) (by decide)
  rw [line, stripCarriageReturn, if_neg kept]

theorem Processed.room (processed : Processed s fd client c) (h : Reachable s)
    (printable : ∀ frame ∈ c.sent, ∀ ch ∈ frame, isPrint ch = true) (nonempty : c.sent ≠ []) :
    Rooms.roomName s.rooms client.currRoom = placeOf c.sent := by
  have lines := processed.lines h printable
  have active : client.clientState = .active := by
    have login := (((reachable_inv h).entries fd).framing client processed.connected).login
    cases state : client.clientState with
    | active => rfl
    | awaitingUsername =>
      rw [state] at login
      have empty : takenFrames (s.ports fd).history = [] := login.1
      rw [empty] at lines
      exact (nonempty lines.symm).elim
  rw [← lines]
  exact reachable_place h (homeName_active processed.connected active)

/-- The client shows the room it is in as long as all lines have been clear, and
another one after the first that is not. -/
theorem room_label (h : Reachable s) (reads : List (List Key))
    (completed : (TerminalClient.run reads).typed ≠ [])
    (processed : Processed s fd client (TerminalClient.run reads)) :
    ((∀ l ∈ (TerminalClient.run reads).typed, l.Clear) →
      (TerminalClient.run reads).room = Rooms.roomName s.rooms client.currRoom) ∧
    ∀ before l, (TerminalClient.run reads).typed = before ++ [l] → (∀ l ∈ before, l.Clear) →
      ¬ l.Clear → (TerminalClient.run reads).room ≠ Rooms.roomName s.rooms client.currRoom := by
  have kept := TerminalClient.run_kept reads
  rw [processed.room h kept.sent (mt kept.named.mp completed)]
  exact ⟨fun clear => (kept.clear completed clear).1, kept.unclear⟩

def keys (line : String) : List Key :=
  (ascii line).map fun ch => ⟨ch, true⟩

def visit (sent : Bytes) (fits : sent.length ≤ maxDataSize) : ChatServer :=
  (initial 3).run [.iteration, arrival 4, delivery 4 sent fits]

theorem processed_visit {sent : Bytes} {fits : sent.length ≤ maxDataSize} {c : TerminalClient}
    {name : Bytes} (received : receivedBytes ((visit sent fits).ports 4).history =
      delimited newline c.sent)
    (there : ((visit sent fits).clients 4).map (fun client =>
      (client.inputBuffer, Rooms.roomName (visit sent fits).rooms client.currRoom)) =
        some ([], name)) :
    ∃ client, Processed (visit sent fits) 4 client c ∧
      Rooms.roomName (visit sent fits).rooms client.currRoom = name := by
  obtain ⟨client, found, same⟩ := Option.map_eq_some_iff.mp there
  obtain ⟨empty, named⟩ := Prod.mk.inj same
  exact ⟨client, ⟨found, received, by simp [empty]⟩, named⟩

theorem oneWord_agrees :
    let c := TerminalClient.run [keys "ann\r", keys "/join red\r"]
    let s := visit (ascii "ann\nJOIN red\n") (by decide)
    ∃ client, Processed s 4 client c ∧ c.room = Rooms.roomName s.rooms client.currRoom ∧
      c.room = ascii "red" := by
  intro c s
  obtain ⟨client, processed, -⟩ : ∃ client, Processed s 4 client c ∧
      Rooms.roomName s.rooms client.currRoom = ascii "red" :=
    processed_visit (by decide +kernel) (by decide +kernel)
  have completed : c.typed ≠ [] := by decide +kernel
  have clear : ∀ l ∈ c.typed, l.Clear := by decide +kernel
  have shown : c.room = ascii "red" := by decide +kernel
  exact ⟨client, processed,
    (room_label (run_reachable 3 _) [keys "ann\r", keys "/join red\r"] completed processed).1 clear,
    shown⟩

theorem twoWords_disagree :
    let c := TerminalClient.run [keys "ann\r", keys "/join red team\r"]
    let s := visit (ascii "ann\nJOIN red team\n") (by decide)
    Reachable s ∧ ∃ client, Processed s 4 client c ∧ c.room = ascii "red team" ∧
      Rooms.roomName s.rooms client.currRoom = mainRoomName ∧
      c.room ≠ Rooms.roomName s.rooms client.currRoom := by
  intro c s
  obtain ⟨client, processed, named⟩ : ∃ client, Processed s 4 client c ∧
      Rooms.roomName s.rooms client.currRoom = mainRoomName :=
    processed_visit (by decide +kernel) (by decide +kernel)
  have shown : c.room = ascii "red team" := by decide +kernel
  refine ⟨run_reachable 3 _, client, processed, shown, named, ?_⟩
  rw [shown, named]
  decide

end ChatServer

end Partyline
