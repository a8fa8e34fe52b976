import Partyline.ChatServer
import Partyline.Worker

/-! The direct phases of a worker against a server that answers every WHERE frame
once, in order, after any time. What else the server sends to a client is no answer. -/
namespace Partyline.Bench

open Library

def takeLine : List Octet → Option (List Octet × List Octet)
  | [] => none
  | octet :: rest =>
    if octet.ch = newline then some ([], rest)
    else (takeLine rest).map fun taken => (octet :: taken.1, taken.2)

def whereText : Bytes := ascii "WHERE"

/-- What the server sends for a line of a client that is in the main room. -/
def reply (line : List Octet) : List Octet :=
  if text line = whereText then mark (lineRequest line) (whereReply mainRoomName) else []

namespace BenchClient

def answer (client : BenchClient) : BenchClient :=
  match takeLine client.uplink with
  | none => client
  | some (line, rest) =>
    { client with uplink := rest, incoming := client.incoming ++ reply line }

end BenchClient

inductive DirectEvent where
  | worker (event : WorkerEvent)
  | answer (index : Nat)
  | notice (index : Nat) (line : Bytes)

namespace Worker

structure Connected (w : Worker) : Prop where
  idle : w.point = .idle
  blank : w.state = emptyState
  clients : ∀ index, w.clients index = newClient

def performDirect (clock : Nat → Int) (event : DirectEvent) (w : Worker) : Worker :=
  match event with
  | .worker event => w.perform clock event
  | .answer index =>
    { w with clients := Function.update w.clients index (w.clients index).answer }
  | .notice index line => w.perform clock (.arrive index (mark none (line ++ [newline])))

def directEnabled (event : DirectEvent) (w : Worker) : Prop :=
  match event with
  | .worker (.command phase) => w.enabled (.command phase) ∧ phase.workload = .direct
  | .worker (.proceed sends) => w.enabled (.proceed sends)
  | .worker (.serve readyNs event) => w.enabled (.serve readyNs event)
  | .worker (.arrive _ _) => False
  | .answer _ => True
  | .notice _ line => newline ∉ line ∧ ¬ whereResponse <:+: line

instance : (event : DirectEvent) → (w : Worker) → Decidable (w.directEnabled event)
  | .worker (.command phase), w =>
    inferInstanceAs (Decidable (w.enabled (.command phase) ∧ phase.workload = .direct))
  | .worker (.proceed sends), w => inferInstanceAs (Decidable (w.enabled (.proceed sends)))
  | .worker (.serve readyNs event), w =>
    inferInstanceAs (Decidable (w.enabled (.serve readyNs event)))
  | .worker (.arrive _ _), _ => .isFalse id
  | .answer _, _ => .isTrue trivial
  | .notice _ line, _ =>
    inferInstanceAs (Decidable (newline ∉ line ∧ ¬ whereResponse <:+: line))

def direct (clock : Nat → Int) : Transition Worker DirectEvent where
  init := Connected
  enabled event w := w.directEnabled event
  perform := performDirect clock

instance (clock : Nat → Int) (event : DirectEvent) (w : Worker) :
    Decidable ((direct clock).enabled event w) :=
  inferInstanceAs (Decidable (w.directEnabled event))

end Worker

@[simp] theorem text_mark (request : Option Request) (bytes : Bytes) :
    text (mark request bytes) = bytes := by
  simp [text, mark, Function.comp_def]

section Lines

variable {xs ys line rest : List Octet}

theorem completeLines_append (xs ys : List Octet) : completeLines (xs ++ ys) =
    ((completeLines xs).1 ++ (completeLines ((completeLines xs).2 ++ ys)).1,
      (completeLines ((completeLines xs).2 ++ ys)).2) := by
  induction xs with
  | nil => rfl
  | cons octet xs ih =>
    rw [List.cons_append]
    by_cases ends : octet.ch = newline
    · simp only [completeLines, if_pos ends, ih, List.cons_append]
    · simp only [completeLines, if_neg ends, ih]
      generalize completeLines xs = split
      obtain ⟨lines, tail⟩ := split
      cases lines with
      | nil => simp only [List.nil_append, List.cons_append, completeLines, if_neg ends]
      | cons line lines => rfl

theorem completeLines_whole (whole : (completeLines xs).2 = []) (ys : List Octet) :
    completeLines (xs ++ ys) =
      ((completeLines xs).1 ++ (completeLines ys).1, (completeLines ys).2) := by
  rw [completeLines_append, whole, List.nil_append]

theorem whole_of_append (whole : (completeLines (xs ++ ys)).2 = []) :
    (completeLines ys).2 = [] := by
  induction xs with
  | nil => exact whole
  | cons octet xs ih =>
    apply ih
    rw [List.cons_append, completeLines] at whole
    by_cases ends : octet.ch = newline
    · rwa [if_pos ends] at whole
    · rw [if_neg ends] at whole
      generalize completeLines (xs ++ ys) = split at whole ⊢
      obtain ⟨lines, tail⟩ := split
      cases lines with
      | nil => simp at whole
      | cons line lines => exact whole

theorem completeLines_clean (clean : newline ∉ text xs) : completeLines xs = ([], xs) := by
  induction xs with
  | nil => rfl
  | cons octet xs ih =>
    obtain ⟨other, clean⟩ : newline ≠ octet.ch ∧ newline ∉ text xs := by simpa [text] using clean
    rw [completeLines, if_neg (Ne.symm other), ih clean]

theorem completeLines_line (clean : newline ∉ text xs) {octet : Octet} (ends : octet.ch = newline) :
    completeLines (xs ++ [octet]) = ([xs], []) := by
  induction xs with
  | nil => simp [completeLines, ends]
  | cons first xs ih =>
    obtain ⟨other, clean⟩ : newline ≠ first.ch ∧ newline ∉ text xs := by simpa [text] using clean
    rw [List.cons_append, completeLines, if_neg (Ne.symm other), ih clean]

theorem newline_not_mem_tail (xs : List Octet) : newline ∉ text (completeLines xs).2 := by
  induction xs with
  | nil => simp [completeLines, text]
  | cons octet xs ih =>
    rw [completeLines]
    by_cases ends : octet.ch = newline
    · rwa [if_pos ends]
    · rw [if_neg ends]
      generalize completeLines xs = split at ih ⊢
      obtain ⟨lines, tail⟩ := split
      cases lines with
      | nil => simpa [text] using And.intro (Ne.symm ends) (by simpa [text] using ih)
      | cons line lines => exact ih

theorem completeLines_mark (request : Option Request) {bytes : Bytes} (clean : newline ∉ bytes) :
    completeLines (mark request (bytes ++ [newline])) = ([mark request bytes], []) := by
  have clean' : newline ∉ text (mark request bytes) := by rwa [text_mark]
  rw [mark, List.map_append]
  exact completeLines_line clean' rfl

theorem takeLine_append (taken : takeLine xs = some (line, rest)) (ys : List Octet) :
    completeLines (xs ++ ys) =
      (line :: (completeLines (rest ++ ys)).1, (completeLines (rest ++ ys)).2) := by
  induction xs generalizing line with
  | nil => cases taken
  | cons octet xs ih =>
    rw [takeLine] at taken
    rw [List.cons_append, completeLines]
    by_cases ends : octet.ch = newline
    · rw [if_pos ends] at taken ⊢
      cases taken
      rfl
    · rw [if_neg ends] at taken ⊢
      obtain ⟨taken', found, same⟩ := Option.map_eq_some_iff.mp taken
      cases same
      rw [ih found]

end Lines

theorem lineRequest_mark (request : Option Request) {bytes : Bytes} (nonempty : bytes ≠ []) :
    lineRequest (mark request bytes) = request := by
  simp [lineRequest, mark, List.getLast?_map, List.getLast?_eq_getLast_of_ne_nil nonempty]

end Partyline.Bench
