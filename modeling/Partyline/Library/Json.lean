import Mathlib.Algebra.Ring.Nat
import Mathlib.Data.List.Basic

/-! JSON objects of strings and natural numbers, as they are written without white space and
without escapes. -/
namespace Partyline.Library.Json

inductive Value where
  | string (s : List Char)
  | number (n : Nat)
deriving DecidableEq

abbrev Field := List Char × Value

def quote : Char := Char.ofNat 34
def backslash : Char := Char.ofNat 92
def openBrace : Char := Char.ofNat 123
def closeBrace : Char := Char.ofNat 125

def plain (ch : Char) : Bool := ch ≠ quote && ch ≠ backslash && 32 ≤ ch.toNat

def Value.Plain : Value → Prop
  | .string s => ∀ ch ∈ s, plain ch = true
  | .number _ => True

def writeString (s : List Char) : List Char := quote :: (s ++ [quote])

def writeValue : Value → List Char
  | .string s => writeString s
  | .number n => Nat.toDigits 10 n

def writeField (field : Field) : List Char :=
  writeString field.1 ++ ':' :: writeValue field.2

def writeFields : List Field → List Char
  | [] => [closeBrace]
  | [field] => writeField field ++ [closeBrace]
  | field :: rest => writeField field ++ ',' :: writeFields rest

def writeObject (fields : List Field) : List Char := openBrace :: writeFields fields

/-- What follows an opening quote, up to the closing one. -/
def readString : List Char → Option (List Char × List Char)
  | [] => none
  | ch :: rest =>
    if ch = quote then some ([], rest)
    else if plain ch then (readString rest).map fun (s, rest) => (ch :: s, rest)
    else none

def readValue : List Char → Option (Value × List Char)
  | [] => none
  | ch :: rest =>
    if ch = quote then (readString rest).map fun (s, rest) => (.string s, rest)
    else
      let digits := (ch :: rest).takeWhile Char.isDigit
      let n := Nat.ofDigitChars 10 digits 0
      -- there are no leading zeros
      if digits = Nat.toDigits 10 n then some (.number n, (ch :: rest).dropWhile Char.isDigit)
      else none

def readField : List Char → Option (Field × List Char)
  | [] => none
  | ch :: rest =>
    if ch = quote then do
      let (key, rest) ← readString rest
      if rest.head? = some ':' then do
        let (value, rest) ← readValue rest.tail
        return ((key, value), rest)
      else none
    else none

def readFields : Nat → List Char → Option (List Field)
  | 0, _ => none
  | fuel + 1, text => do
    let (field, rest) ← readField text
    if rest = [closeBrace] then return [field]
    else if rest.head? = some ',' then return field :: (← readFields fuel rest.tail)
    else none

def readObject (text : List Char) : Option (List Field) :=
  if text.head? = some openBrace then
    if text.tail = [closeBrace] then some [] else readFields text.length text.tail
  else none

theorem readString_append {s : List Char} (clean : ∀ ch ∈ s, plain ch = true)
    (rest : List Char) : readString (s ++ quote :: rest) = some (s, rest) := by
  induction s with
  | nil => rw [List.nil_append, readString, if_pos rfl]
  | cons ch s ih =>
    have here := clean ch List.mem_cons_self
    have other : ch ≠ quote := by
      rintro rfl
      exact absurd here (by decide)
    rw [List.cons_append, readString, if_neg other, if_pos here,
      ih fun ch mem => clean ch (List.mem_cons_of_mem _ mem), Option.map_some]

theorem readValue_append {value : Value} (clean : value.Plain) {ch : Char}
    (ends : ch.isDigit = false) (rest : List Char) :
    readValue (writeValue value ++ ch :: rest) = some (value, ch :: rest) := by
  cases value with
  | string s =>
    rw [writeValue, writeString, List.cons_append, readValue, if_pos rfl, List.append_assoc,
      List.singleton_append, readString_append clean, Option.map_some]
  | number n =>
    have digits : ∀ d ∈ Nat.toDigits 10 n, d.isDigit = true := fun d mem =>
      Nat.isDigit_of_mem_toDigits (by decide) (by decide) mem
    have front : (Nat.toDigits 10 n ++ ch :: rest).takeWhile Char.isDigit = Nat.toDigits 10 n := by
      rw [List.takeWhile_append_of_pos digits, List.takeWhile_cons_of_neg (by simp [ends]),
        List.append_nil]
    have back : (Nat.toDigits 10 n ++ ch :: rest).dropWhile Char.isDigit = ch :: rest := by
      rw [List.dropWhile_append_of_pos digits, List.dropWhile_cons_of_neg (by simp [ends])]
    rw [writeValue]
    cases written : Nat.toDigits 10 n with
    | nil => exact absurd written (by simp)
    | cons d more =>
      rw [written] at digits front back
      have other : d ≠ quote := by
        rintro rfl
        exact absurd (digits quote List.mem_cons_self) (by decide)
      rw [List.cons_append] at front back ⊢
      rw [readValue, if_neg other]
      dsimp only
      rw [front, back, ← written, Nat.ofDigitChars_ten_toDigits, if_pos rfl]

theorem readField_append {field : Field} (clean : ∀ ch ∈ field.1, plain ch = true)
    (clean' : field.2.Plain) {ch : Char} (ends : ch.isDigit = false) (rest : List Char) :
    readField (writeField field ++ ch :: rest) = some (field, ch :: rest) := by
  obtain ⟨key, value⟩ := field
  have text : writeField (key, value) ++ ch :: rest =
      quote :: (key ++ quote :: ':' :: (writeValue value ++ ch :: rest)) := by
    simp [writeField, writeString]
  rw [text, readField, if_pos rfl, readString_append clean]
  simp [readValue_append clean' ends]

variable {fields : List Field}

theorem length_le_writeFields (fields : List Field) :
    fields.length ≤ (writeFields fields).length := by
  induction fields with
  | nil => simp
  | cons field rest ih =>
    cases rest with
    | nil => simp [writeFields]
    | cons next rest =>
      rw [writeFields]
      · simp only [List.length_append, List.length_cons] at ih ⊢
        omega
      · exact List.cons_ne_nil _ _

/-- What is written is read back. -/
theorem readObject_writeObject
    (clean : ∀ field ∈ fields, (∀ ch ∈ field.1, plain ch = true) ∧ field.2.Plain) :
    readObject (writeObject fields) = some fields := by
  have inner {fuel : Nat} (enough : fields.length ≤ fuel) (nonempty : fields ≠ []) :
      readFields fuel (writeFields fields) = some fields := by
    induction fields generalizing fuel with
    | nil => exact absurd rfl nonempty
    | cons field rest ih =>
      obtain ⟨key, value⟩ := clean field List.mem_cons_self
      obtain ⟨fuel, rfl⟩ : ∃ less, fuel = less + 1 :=
        Nat.exists_eq_succ_of_ne_zero (by rw [List.length_cons] at enough; omega)
      cases rest with
      | nil =>
        rw [writeFields, readFields, readField_append key value (by decide)]
        simp
      | cons next rest =>
        have later := ih (fun field mem => clean field (List.mem_cons_of_mem _ mem))
          (Nat.succ_le_succ_iff.mp enough) (List.cons_ne_nil _ _)
        have more : ',' :: writeFields (next :: rest) ≠ [closeBrace] := fun same =>
          absurd (List.cons.inj same).1 (by decide)
        rw [writeFields, readFields, readField_append key value (by decide)]
        · simp [more, later]
        · exact List.cons_ne_nil _ _
  rw [writeObject, readObject]
  cases fields with
  | nil => rfl
  | cons field rest =>
    have other : writeFields (field :: rest) ≠ [closeBrace] := by
      cases rest <;> simp [writeFields, writeField, writeString]
    rw [List.head?_cons, if_pos rfl, List.tail_cons, if_neg other]
    refine inner ?_ (List.cons_ne_nil _ _)
    exact Nat.le_trans (length_le_writeFields _) (by simp)

theorem writeFields_cons (field : Field) (rest : List Field) : writeFields (field :: rest) =
    writeField field ++ (rest.flatMap fun field => ',' :: writeField field) ++ [closeBrace] := by
  induction rest generalizing field with
  | nil => simp [writeFields]
  | cons next rest ih =>
    rw [writeFields, ih]
    · simp
    · exact List.cons_ne_nil _ _

end Partyline.Library.Json
