import Partyline.ServerCommon

/-! Readings of a port's history, oldest first. A history starts at the accept
that made the connection. -/
namespace Partyline

@[simp] def Effect.sentBytes : Effect → Bytes
  | .send _ data accepted => data.take accepted
  | _ => []

@[simp] def Effect.offer : Effect → Option (Bytes × Offer)
  | .offered message outcome => some (message, outcome)
  | _ => none

@[simp] def Effect.interestCall : Effect → Option Bool
  | .interest enabled _ => some enabled
  | _ => none

@[simp] def Effect.receivedBytes : Effect → Bytes
  | .received chunk => chunk
  | _ => []

/-- A frame taken from the input: its bytes, and the line that became the
username or went to `processFrame`. -/
structure Taken where
  username : Bool
  raw : Bytes
  line : Bytes
deriving DecidableEq

@[simp] def Effect.taken : Effect → Option Taken
  | .username raw line => some ⟨true, raw, line⟩
  | .frame raw line => some ⟨false, raw, line⟩
  | _ => none

@[simp] def Effect.request : Effect → Option Bytes
  | .send _ data _ => some data
  | _ => none

@[simp] def Effect.isOutput : Effect → Bool
  | .offered _ _ | .send _ _ _ | .interest _ _ => true
  | _ => false

/-- The bytes `send` accepted on the socket since its accept. -/
def sentBytes (history : List Effect) : Bytes :=
  history.reverse.flatMap Effect.sentBytes

/-- The calls of `queueOutput` since the accept, with their outcomes. -/
def offers (history : List Effect) : List (Bytes × Offer) :=
  history.reverse.filterMap Effect.offer

def offeredBytes (history : List Effect) : Bytes :=
  (offers history).flatMap Prod.fst

/-- The arguments of the `setWriteInterest` calls since the accept. -/
def interestCalls (history : List Effect) : List Bool :=
  history.reverse.filterMap Effect.interestCall

def receivedBytes (history : List Effect) : Bytes :=
  history.reverse.flatMap Effect.receivedBytes

def takenFrames (history : List Effect) : List Taken :=
  history.reverse.filterMap Effect.taken

section Readings

variable (history : List Effect) (effect : Effect)

@[simp] theorem sentBytes_nil : sentBytes [] = [] := rfl

@[simp] theorem sentBytes_cons :
    sentBytes (effect :: history) = sentBytes history ++ effect.sentBytes := by
  simp [sentBytes]

@[simp] theorem offers_nil : offers [] = [] := rfl

@[simp] theorem offers_cons :
    offers (effect :: history) = offers history ++ effect.offer.toList := by
  simp only [offers, List.reverse_cons, List.filterMap_append, List.filterMap_cons]
  cases effect.offer <;> rfl

@[simp] theorem offeredBytes_nil : offeredBytes [] = [] := rfl

@[simp] theorem offeredBytes_cons :
    offeredBytes (effect :: history) =
      offeredBytes history ++ effect.offer.toList.flatMap Prod.fst := by
  simp [offeredBytes]

@[simp] theorem interestCalls_nil : interestCalls [] = [] := rfl

@[simp] theorem interestCalls_cons :
    interestCalls (effect :: history) = interestCalls history ++ effect.interestCall.toList := by
  simp only [interestCalls, List.reverse_cons, List.filterMap_append, List.filterMap_cons]
  cases effect.interestCall <;> rfl

@[simp] theorem receivedBytes_nil : receivedBytes [] = [] := rfl

@[simp] theorem receivedBytes_cons :
    receivedBytes (effect :: history) = receivedBytes history ++ effect.receivedBytes := by
  simp [receivedBytes]

@[simp] theorem takenFrames_nil : takenFrames [] = [] := rfl

@[simp] theorem takenFrames_cons :
    takenFrames (effect :: history) = takenFrames history ++ effect.taken.toList := by
  simp only [takenFrames, List.reverse_cons, List.filterMap_append, List.filterMap_cons]
  cases effect.taken <;> rfl

end Readings

theorem input_readings_of_output {effects : List Effect} (history : List Effect)
    (output : ∀ effect ∈ effects, effect.isOutput = true) :
    receivedBytes (effects ++ history) = receivedBytes history ∧
      takenFrames (effects ++ history) = takenFrames history := by
  induction effects with
  | nil => simp
  | cons effect effects ih =>
    obtain ⟨ih₁, ih₂⟩ := ih fun e mem => output e (by simp [mem])
    have head := output effect (by simp)
    cases effect <;> simp_all

theorem offers_of_silent {effects : List Effect} (history : List Effect)
    (silent : ∀ effect ∈ effects, effect.offer = none) :
    offers (effects ++ history) = offers history := by
  induction effects with
  | nil => simp
  | cons effect effects ih =>
    rw [List.cons_append, offers_cons, ih fun e mem => silent e (by simp [mem]),
      silent effect (by simp)]
    simp

end Partyline
