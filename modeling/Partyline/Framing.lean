import Partyline.ChatServer
import Partyline.OutputStream
import Partyline.Library.Delimited

/-! The accounts of one connection's input, and what a history says of both
sides when the connection is gone. -/
namespace Partyline

open Library

theorem splitFrame_none {buffer : Bytes} : splitFrame buffer = none ↔ newline ∉ buffer := by
  induction buffer with
  | nil => simp [splitFrame]
  | cons ch rest ih =>
    by_cases here : ch = newline
    · simp [splitFrame, here]
    · simp [splitFrame, here, ih, Ne.symm here]

theorem splitFrame_some {buffer raw remaining : Bytes}
    (h : splitFrame buffer = some (raw, remaining)) :
    buffer = raw ++ newline :: remaining ∧ newline ∉ raw := by
  induction buffer generalizing raw with
  | nil => simp [splitFrame] at h
  | cons ch rest ih =>
    by_cases here : ch = newline
    · obtain ⟨rfl, rfl⟩ : [] = raw ∧ rest = remaining := by simpa [splitFrame, here] using h
      simp [here]
    · simp only [splitFrame, here, if_false, Option.map_eq_some_iff, Prod.exists,
        Prod.mk.injEq] at h
      obtain ⟨tail, _, split, rfl, rfl⟩ := h
      obtain ⟨rfl, clean⟩ := ih split
      exact ⟨rfl, by simpa [Ne.symm here] using clean⟩

theorem splitFrame_append {raw : Bytes} (clean : newline ∉ raw) (remaining : Bytes) :
    splitFrame (raw ++ newline :: remaining) = some (raw, remaining) := by
  induction raw with
  | nil => simp [splitFrame]
  | cons ch raw ih =>
    obtain ⟨other, clean⟩ : newline ≠ ch ∧ newline ∉ raw := by simpa using clean
    simp [splitFrame, Ne.symm other, ih clean]

structure Framing (client : ClientConnection) (history : List Effect) : Prop where
  stream : receivedBytes history =
    delimited newline ((takenFrames history).map Taken.raw) ++ client.inputBuffer
  whole : ∀ frame ∈ takenFrames history, newline ∉ frame.raw ∧
    frame.raw.length ≤ maxFrameBytes ∧ frame.line = stripCarriageReturn frame.raw
  login : match client.clientState with
    | .awaitingUsername =>
      takenFrames history = [] ∧ client.username = [] ∧ client.currRoom = 0
    | .active => ∃ raw rest, takenFrames history = ⟨true, raw, client.username⟩ :: rest ∧
      ∀ frame ∈ rest, frame.username = false

theorem Framing.received {client : ClientConnection} {history : List Effect}
    (h : Framing client history) (chunk : Bytes) :
    Framing { client with inputBuffer := client.inputBuffer ++ chunk }
      (.received chunk :: history) := by
  refine ⟨?_, by simpa using h.whole, by simpa using h.login⟩
  simp [h.stream]

theorem Framing.erased {client : ClientConnection} {history : List Effect}
    (h : Framing client history) {raw remaining : Bytes}
    (split : splitFrame client.inputBuffer = some (raw, remaining))
    (short : raw.length ≤ maxFrameBytes) (effect : Effect) {username : Bool}
    (taken : effect.taken = some ⟨username, raw, stripCarriageReturn raw⟩)
    (silent : effect.receivedBytes = []) :
    receivedBytes (effect :: history) =
        delimited newline ((takenFrames (effect :: history)).map Taken.raw) ++ remaining ∧
      ∀ frame ∈ takenFrames (effect :: history), newline ∉ frame.raw ∧
        frame.raw.length ≤ maxFrameBytes ∧ frame.line = stripCarriageReturn frame.raw := by
  obtain ⟨buffer, clean⟩ := splitFrame_some split
  simp only [receivedBytes_cons, takenFrames_cons, taken, silent, Option.toList_some]
  refine ⟨by simp [h.stream, buffer], fun frame mem => ?_⟩
  rcases List.mem_append.mp mem with old | new
  · exact h.whole frame old
  · obtain rfl := List.mem_singleton.mp new
    exact ⟨clean, short, rfl⟩

theorem Framing.frame {client : ClientConnection} {history : List Effect}
    (h : Framing client history) {raw remaining : Bytes}
    (split : splitFrame client.inputBuffer = some (raw, remaining))
    (short : raw.length ≤ maxFrameBytes) (active : client.clientState = .active) :
    Framing { client with inputBuffer := remaining }
      (.frame raw (stripCarriageReturn raw) :: history) := by
  obtain ⟨stream, whole⟩ := h.erased split short
    (.frame raw (stripCarriageReturn raw)) rfl rfl
  refine ⟨stream, whole, ?_⟩
  have login := h.login
  simp only [active, takenFrames_cons, Effect.taken, Option.toList_some] at login ⊢
  obtain ⟨first, rest, taken, others⟩ := login
  refine ⟨first, rest ++ [⟨false, raw, stripCarriageReturn raw⟩], by simp [taken], ?_⟩
  intro frame mem
  rcases List.mem_append.mp mem with old | new
  · exact others frame old
  · rw [List.mem_singleton.mp new]

theorem Framing.username {client : ClientConnection} {history : List Effect}
    (h : Framing client history) {raw remaining : Bytes}
    (split : splitFrame client.inputBuffer = some (raw, remaining))
    (short : raw.length ≤ maxFrameBytes) (awaiting : client.clientState = .awaitingUsername)
    (roomId : Nat) :
    Framing { client with
        inputBuffer := remaining, username := stripCarriageReturn raw, clientState := .active
        currRoom := roomId }
      (.username raw (stripCarriageReturn raw) :: history) := by
  obtain ⟨stream, whole⟩ := h.erased split short
    (.username raw (stripCarriageReturn raw)) rfl rfl
  refine ⟨stream, whole, raw, [], ?_, by simp⟩
  have login := h.login
  simp only [awaiting] at login
  simp [login.1]

theorem Framing.output {client client' : ClientConnection} {history effects : List Effect}
    (h : Framing client history) (session : client'.session = client.session)
    (output : ∀ effect ∈ effects, effect.isOutput = true) :
    Framing client' (effects ++ history) := by
  obtain ⟨received, taken⟩ := input_readings_of_output history output
  obtain ⟨username, room, buffer, state⟩ : client'.username = client.username ∧
      client'.currRoom = client.currRoom ∧ client'.inputBuffer = client.inputBuffer ∧
      client'.clientState = client.clientState := by simpa [ClientConnection.session] using session
  refine ⟨?_, ?_, ?_⟩
  · rw [received, taken, buffer, h.stream]
  · rw [taken]
    exact h.whole
  · rw [taken, username, room, state]
    exact h.login

theorem Framing.moved {client : ClientConnection} {history : List Effect}
    (h : Framing client history) (active : client.clientState = .active) (roomId : Nat) :
    Framing { client with currRoom := roomId } history := by
  refine ⟨h.stream, h.whole, ?_⟩
  have login := h.login
  simp only [active] at login ⊢
  exact login

/-- A run of bytes too long to be a frame. -/
def Overlong (stream : Bytes) : Prop :=
  ∃ part, part <:+: stream ∧ newline ∉ part ∧ maxFrameBytes < part.length

theorem Overlong.append {stream : Bytes} (h : Overlong stream) (more : Bytes) :
    Overlong (stream ++ more) := by
  obtain ⟨part, within, clean, long⟩ := h
  exact ⟨part, within.trans (List.prefix_append stream more).isInfix, clean, long⟩

theorem Framing.overlong {client : ClientConnection} {history : List Effect}
    (h : Framing client history) {part : Bytes} (within : part <+: client.inputBuffer)
    (clean : newline ∉ part) (long : maxFrameBytes < part.length) :
    Overlong (receivedBytes history) := by
  refine ⟨part, ?_, clean, long⟩
  rw [h.stream]
  exact within.isInfix.trans (List.suffix_append _ _).isInfix

structure HistoryOk (history : List Effect) : Prop where
  calls : ∃ n, interestCalls history = alternating n
  asked : ∀ effect ∈ history, effect.request ≠ some []
  limit : .closed "input frame limit exceeded" ∈ history → Overlong (receivedBytes history)

theorem HistoryOk.nil : HistoryOk [] := ⟨⟨0, rfl⟩, by simp, by simp⟩

/-- Effects that are no closing keep the second half. -/
theorem HistoryOk.extend {history : List Effect} (effects : List Effect) (h : HistoryOk history)
    (still : ∀ reason, Effect.closed reason ∉ effects)
    (calls : ∃ n, interestCalls (effects ++ history) = alternating n)
    (asked : ∀ effect ∈ effects ++ history, effect ∈ history ∨ effect.request ≠ some []) :
    HistoryOk (effects ++ history) := by
  refine ⟨calls, fun effect mem => (asked effect mem).elim (h.asked effect) id, fun mem => ?_⟩
  rcases List.mem_append.mp mem with new | old
  · exact (still _ new).elim
  · have long := h.limit old
    clear still calls asked mem
    induction effects with
    | nil => exact long
    | cons effect effects ih =>
      rw [List.cons_append, receivedBytes_cons]
      exact ih.append _

theorem HistoryOk.note {history : List Effect} (h : HistoryOk history) (effect : Effect)
    (still : ∀ reason, effect ≠ .closed reason) (call : effect.interestCall = none)
    (asked : effect.request ≠ some []) : HistoryOk (effect :: history) := by
  refine h.extend [effect] (by simpa [eq_comm] using still) ?_ fun other mem => ?_
  · simpa only [List.cons_append, List.nil_append, interestCalls_cons, call, Option.toList_none,
      List.append_nil] using h.calls
  · exact (List.mem_cons.mp mem).elim (fun same => .inr (same ▸ asked)) .inl

theorem HistoryOk.closed {history : List Effect} (h : HistoryOk history) {reason : String}
    (fair : reason = "input frame limit exceeded" → Overlong (receivedBytes history)) :
    HistoryOk (.closed reason :: history) := by
  refine ⟨by simpa using h.calls, by simpa using h.asked, fun mem => ?_⟩
  rcases List.mem_cons.mp mem with here | old
  · simpa using fair (by simpa using here.symm)
  · simpa using h.limit old

end Partyline
