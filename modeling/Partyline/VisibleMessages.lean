import Mathlib.Data.List.DropRight
import Partyline.Library.Delimited
import Partyline.ServerCommon

/-! `receiveServerData` of the terminal clients: the messages that a client shows of what
the server sends. -/
namespace Partyline.TerminalClient

open Library

def clientBufferSize : Nat := 4096

def maxVisibleMessages : Nat := 24

def usernamePrompt : Bytes := ascii "enter your username: "

/-- What a `recv` of the client returns. A chunk is not empty: zero bytes are the end of
the stream. -/
inductive ServerRecv where
  | received (chunk : Bytes) (nonempty : chunk ≠ []) (fits : chunk.length ≤ clientBufferSize)
  | closed
  | eintr
  | error

/-- The locals of `main` that `receiveServerData` is given. -/
structure ServerText where
  received : Bytes
  messages : List Bytes
deriving DecidableEq

/-- The loop of `addMessage`. -/
def popMessages : List Bytes → List Bytes
  | [] => []
  | message :: messages =>
    if maxVisibleMessages < (message :: messages).length then popMessages messages
    else message :: messages

def addMessage (messages : List Bytes) (message : Bytes) : List Bytes :=
  popMessages (if message = [] then messages else messages ++ [message])

def takeLines (s : ServerText) : ServerText :=
  if found : newline ∈ s.received then
    let line := s.received.takeWhile (· ≠ newline)
    takeLines ⟨s.received.drop (line.length + 1), addMessage s.messages line⟩
  else s
termination_by s.received.length
decreasing_by
  have positive := List.length_pos_of_mem found
  rw [List.length_drop]
  omega

/-- False: the client stops. -/
def receiveServerData (result : ServerRecv) (s : ServerText) : Bool × ServerText :=
  match result with
  | .received chunk _ _ =>
    let received := s.received ++ chunk
    let received := if received.take usernamePrompt.length = usernamePrompt then
      received.drop usernamePrompt.length else received
    (true, takeLines ⟨received, s.messages⟩)
  | .eintr => (true, s)
  | .closed | .error => (false, s)

/-- The calls that `main` makes, as long as they return true. -/
def receiveAll : List ServerRecv → ServerText → ServerText
  | [], s => s
  | result :: results, s =>
    if (receiveServerData result s).1 then receiveAll results (receiveServerData result s).2
    else (receiveServerData result s).2

def ServerRecv.bytes : ServerRecv → Bytes
  | .received chunk _ _ => chunk
  | _ => []

def ServerRecv.Continues : ServerRecv → Prop
  | .received _ _ _ | .eintr => True
  | .closed | .error => False

/-- The last messages that are not empty, as many as are shown. -/
def lastMessages (lines : List Bytes) : List Bytes :=
  (lines.filter (· ≠ [])).rtake maxVisibleMessages

theorem popMessages_eq (messages : List Bytes) :
    popMessages messages = messages.rtake maxVisibleMessages := by
  induction messages with
  | nil => rfl
  | cons message messages ih =>
    rw [popMessages, List.rtake]
    split_ifs with more
    · have less : (message :: messages).length - maxVisibleMessages =
          messages.length - maxVisibleMessages + 1 := by
        rw [List.length_cons] at more ⊢
        omega
      rw [ih, less, List.drop_succ_cons, List.rtake]
    · rw [Nat.sub_eq_zero_of_le (Nat.le_of_not_lt more), List.drop_zero]

theorem rtake_rtake {α : Type*} (xs : List α) {m n : Nat} (less : m ≤ n) :
    (xs.rtake n).rtake m = xs.rtake m := by
  rw [List.rtake, List.rtake, List.rtake, List.drop_drop, List.length_drop]
  congr 1
  omega

/-- A message more: an empty one is not shown, and the oldest one makes room for any other. -/
theorem addMessage_lastMessages (done : List Bytes) (line : Bytes) :
    addMessage (lastMessages done) line = lastMessages (done ++ [line]) := by
  rw [addMessage, popMessages_eq, lastMessages, lastMessages]
  split_ifs with empty
  · rw [rtake_rtake _ (Nat.le_refl _), empty]
    simp
  · have kept : (done ++ [line]).filter (· ≠ []) = done.filter (· ≠ []) ++ [line] := by
      simp [empty]
    have room : maxVisibleMessages = 23 + 1 := rfl
    rw [kept, room, List.rtake_concat_succ, List.rtake_concat_succ, rtake_rtake _ (by decide)]

theorem takeLines_of_not_mem {s : ServerText} (clean : newline ∉ s.received) : takeLines s = s := by
  rw [takeLines, dif_neg clean]

theorem takeLines_line {line rest : Bytes} (clean : newline ∉ line) (messages : List Bytes) :
    takeLines ⟨line ++ newline :: rest, messages⟩ =
      takeLines ⟨rest, addMessage messages line⟩ := by
  have found : newline ∈ line ++ newline :: rest := by
    simp
  have first : (line ++ newline :: rest).takeWhile (· ≠ newline) = line := by
    rw [List.takeWhile_append_of_pos]
    · simp
    · intro ch mem
      have other : ch ≠ newline := by
        rintro rfl
        exact clean mem
      simpa using other
  have after : (line ++ newline :: rest).drop (line.length + 1) = rest := by
    rw [← List.drop_drop, List.drop_left, List.drop_one, List.tail_cons]
  rw [takeLines, dif_pos found]
  dsimp only
  rw [first, after]

/-- The lines of the stream that have been shown, and the start of the next one that is
held back. -/
structure Shows (lines : List Bytes) (future : Bytes) (s : ServerText) : Prop where
  clean : newline ∉ s.received
  shown : ∃ done left, lines = done ++ left ∧ s.received ++ future = delimited newline left ∧
    s.messages = lastMessages done

theorem Shows.takeLines (done : List Bytes) {left : List Bytes} {future received : Bytes}
    (whole : ∀ line ∈ left, newline ∉ line)
    (comes : received ++ future = delimited newline left) :
    Shows (done ++ left) future (takeLines ⟨received, lastMessages done⟩) := by
  induction left generalizing done received with
  | nil =>
    have empty : received = [] := (List.append_eq_nil_iff.mp comes).1
    rw [empty, takeLines_of_not_mem List.not_mem_nil]
    exact ⟨List.not_mem_nil, done, [], rfl, by simpa [empty] using comes, rfl⟩
  | cons line left ih =>
    have line_clean := whole line List.mem_cons_self
    rw [delimited_cons] at comes
    by_cases found : newline ∈ received
    · -- The first line is there with its newline, and the loop takes it.
      obtain ⟨rest, rfl⟩ : ∃ rest, received = line ++ newline :: rest := by
        rcases List.append_eq_append_iff.mp comes with ⟨more, split, -⟩ | ⟨more, split, rest⟩
        · rw [split] at line_clean
          exact absurd (List.mem_append_left _ found) line_clean
        · cases more with
          | nil =>
            rw [split, List.append_nil] at found
            exact absurd found line_clean
          | cons ch more =>
            obtain ⟨rfl, -⟩ := List.cons.inj rest
            exact ⟨more, split⟩
      rw [List.append_assoc, List.append_cancel_left_eq, List.cons_append] at comes
      rw [takeLines_line line_clean, addMessage_lastMessages]
      have rest := ih (done ++ [line])
        (fun other mem => whole other (List.mem_cons_of_mem _ mem)) (List.cons.inj comes).2
      rwa [List.append_assoc, List.singleton_append] at rest
    · rw [takeLines_of_not_mem found]
      exact ⟨found, done, line :: left, rfl, by rw [comes, delimited_cons], rfl⟩

theorem newline_not_mem_prompt : newline ∉ usernamePrompt := by decide

theorem take_ne_usernamePrompt {left : List Bytes} {received future : Bytes}
    (others : ∀ line ∈ left, newline ∉ line ∧ ¬ usernamePrompt <+: line)
    (comes : received ++ future = delimited newline left) :
    received.take usernamePrompt.length ≠ usernamePrompt := by
  intro same
  have front : usernamePrompt <+: received := by
    rw [← same]
    exact List.take_prefix _ _
  have whole : usernamePrompt <+: delimited newline left := by
    rw [← comes]
    exact front.trans (List.prefix_append _ _)
  cases left with
  | nil => exact absurd (List.prefix_nil.mp whole) (by decide)
  | cons line left =>
    have closed : line ++ [newline] <+: delimited newline (line :: left) := by
      rw [delimited_cons]
      exact ⟨delimited newline left, by simp⟩
    rcases List.prefix_or_prefix_of_prefix whole closed with inside | longer
    · rcases List.prefix_concat_iff.mp inside with equal | within
      · exact newline_not_mem_prompt (by rw [equal]; simp)
      · exact (others line List.mem_cons_self).2 within
    · exact newline_not_mem_prompt (longer.subset (by simp))

/-- Before the prompt has come whole, its start is held back. After that, lines are shown. -/
def Follows (lines : List Bytes) (future : Bytes) (s : ServerText) : Prop :=
  (s.received.length < usernamePrompt.length ∧
    s.received ++ future = usernamePrompt ++ delimited newline lines ∧ s.messages = []) ∨
  Shows lines future s

section Run

variable {lines : List Bytes} (others : ∀ line ∈ lines, newline ∉ line ∧ ¬ usernamePrompt <+: line)

include others

theorem Follows.received {chunk future : Bytes} {s : ServerText}
    (follows : Follows lines (chunk ++ future) s) (nonempty : chunk ≠ [])
    (fits : chunk.length ≤ clientBufferSize) :
    Follows lines future (receiveServerData (.received chunk nonempty fits) s).2 := by
  obtain ⟨received, messages⟩ := s
  have whole : ∀ line ∈ lines, newline ∉ line := fun line mem => (others line mem).1
  rw [receiveServerData]
  dsimp only
  rcases follows with ⟨-, comes, empty⟩ | ⟨-, done, left, rfl, comes, shown⟩
  · dsimp only at comes empty
    rw [← List.append_assoc] at comes
    rw [empty]
    by_cases short : (received ++ chunk).length < usernamePrompt.length
    · have part : (received ++ chunk).take usernamePrompt.length ≠ usernamePrompt := by
        intro same
        have length := congrArg List.length same
        rw [List.length_take] at length
        omega
      have clean : newline ∉ received ++ chunk := by
        intro mem
        have front : received ++ chunk <+: usernamePrompt ++ delimited newline lines := by
          rw [← comes]
          exact List.prefix_append _ _
        have inside := List.prefix_of_prefix_length_le front (List.prefix_append _ _) short.le
        exact newline_not_mem_prompt (inside.subset mem)
      rw [if_neg part, takeLines_of_not_mem clean]
      exact .inl ⟨short, comes, rfl⟩
    · have front : received ++ chunk <+: usernamePrompt ++ delimited newline lines := by
        rw [← comes]
        exact List.prefix_append _ _
      obtain ⟨rest, split⟩ := List.prefix_of_prefix_length_le
        (List.prefix_append usernamePrompt (delimited newline lines)) front (Nat.le_of_not_lt short)
      rw [← split, List.append_assoc, List.append_cancel_left_eq] at comes
      rw [← split, List.take_left, if_pos rfl, List.drop_left]
      exact .inr (Shows.takeLines [] whole comes)
  · dsimp only at comes shown
    rw [← List.append_assoc] at comes
    have later : ∀ line ∈ left, newline ∉ line ∧ ¬ usernamePrompt <+: line :=
      fun line mem => others line (List.mem_append_right _ mem)
    rw [if_neg (take_ne_usernamePrompt later comes), shown]
    exact .inr (Shows.takeLines _ (fun line mem => (later line mem).1) comes)

/-- However the stream is cut, and however often a call is interrupted. -/
theorem Follows.receiveAll {results : List ServerRecv} {s : ServerText}
    (continues : ∀ result ∈ results, result.Continues)
    (follows : Follows lines (results.flatMap ServerRecv.bytes) s) :
    Follows lines [] (receiveAll results s) := by
  induction results generalizing s with
  | nil => exact follows
  | cons result results ih =>
    have rest : ∀ other ∈ results, other.Continues :=
      fun other mem => continues other (List.mem_cons_of_mem _ mem)
    have here := continues result List.mem_cons_self
    rw [List.flatMap_cons] at follows
    cases result with
    | received chunk nonempty fits => exact ih rest (follows.received others nonempty fits)
    | eintr => exact ih rest follows
    | closed => exact here.elim
    | error => exact here.elim

theorem receiveServerData_chunks {results : List ServerRecv}
    (continues : ∀ result ∈ results, result.Continues)
    (stream : results.flatMap ServerRecv.bytes = usernamePrompt ++ delimited newline lines) :
    receiveAll results ⟨[], []⟩ = ⟨[], lastMessages lines⟩ := by
  have start : Follows lines (results.flatMap ServerRecv.bytes) ⟨[], []⟩ :=
    .inl ⟨by decide, by rw [stream]; rfl, rfl⟩
  rcases start.receiveAll others continues with ⟨short, comes, -⟩ | ⟨clean, done, left, rfl, comes,
    shown⟩
  · have length := congrArg List.length comes
    rw [List.append_nil, List.length_append] at length
    omega
  · generalize receiveAll results ⟨[], []⟩ = s at clean comes shown ⊢
    obtain ⟨received, messages⟩ := s
    dsimp only at clean comes shown
    rw [List.append_nil] at comes
    cases left with
    | nil => rw [comes, shown, List.append_nil]; rfl
    | cons line left =>
      rw [comes, delimited_cons] at clean
      exact absurd (List.mem_append_right _ List.mem_cons_self) clean

end Run

/-- Cut in the prompt and in a line. -/
theorem receiveServerData_chunks_four :
    receiveAll [.received (ascii "enter your ") (by decide) (by decide),
      .received (ascii "username: hel") (by decide) (by decide), .eintr,
      .received (ascii "lo\n\nbye\n") (by decide) (by decide)] ⟨[], []⟩ =
    ⟨[], lastMessages [ascii "hello", [], ascii "bye"]⟩ := by
  apply receiveServerData_chunks
  · have clean : [ascii "hello", [], ascii "bye"].all
        (fun line => decide (newline ∉ line ∧ ¬ usernamePrompt <+: line)) = true := by
      decide
    exact fun line mem => of_decide_eq_true (List.all_eq_true.mp clean line mem)
  · intro result mem
    simp only [List.mem_cons, List.not_mem_nil, or_false] at mem
    rcases mem with rfl | rfl | rfl | rfl <;> exact trivial
  · decide

end Partyline.TerminalClient
