import Partyline.Library.PrefixCode
import Partyline.ServerCommon

/-! `logValue` of `chat_server.cpp`, which writes a value between quotes so that it stays
on its line of the log and can be read back. -/
namespace Partyline

open Library

def quote : UInt8 := 34
def backslash : UInt8 := 92

/-- A `std::ostringstream`: what it holds, and the width, fill and base for what comes. -/
structure OutputString where
  str : Bytes
  width : Nat
  fill : UInt8
  hex : Bool

namespace OutputString

def empty : OutputString := ⟨[], 0, space, false⟩

/-- `<<` of a text or of a character, which is filled up to the width and resets that. -/
def put (s : Bytes) (o : OutputString) : OutputString :=
  { o with str := o.str ++ List.replicate (o.width - s.length) o.fill ++ s, width := 0 }

/-- `<<` of an `int` that is not negative. -/
def putInt (n : Nat) (o : OutputString) : OutputString :=
  o.put ((Nat.toDigits (if o.hex then 16 else 10) n).map fun ch => UInt8.ofNat ch.toNat)

def setHex (o : OutputString) : OutputString := { o with hex := true }
def setDec (o : OutputString) : OutputString := { o with hex := false }
def setWidth (width : Nat) (o : OutputString) : OutputString := { o with width }
def setFill (fill : UInt8) (o : OutputString) : OutputString := { o with fill }

end OutputString

/-- One pass of the loop in `logValue`. -/
def logByte (escaped : OutputString) (ch : UInt8) : OutputString :=
  if ch = backslash then escaped.put (ascii "\\\\")
  else if ch = quote then escaped.put (ascii "\\\"")
  else if ch = newline then escaped.put (ascii "\\n")
  else if ch = carriageReturn then escaped.put (ascii "\\r")
  else if ch = 9 then escaped.put (ascii "\\t")
  else if ch < 0x20 ∨ ch = 0x7f then
    (((((escaped.put (ascii "\\x")).setHex).setWidth 2).setFill 48).putInt ch.toNat).setDec
  else escaped.put [ch]

def logValue (value : Bytes) : Bytes :=
  ((value.foldl logByte (OutputString.empty.put [quote])).put [quote]).str

def hexDigit (n : Nat) : UInt8 := UInt8.ofNat (if n < 10 then 48 + n else 87 + n)

def escapeByte (ch : UInt8) : Bytes :=
  if ch = backslash then [backslash, backslash]
  else if ch = quote then [backslash, quote]
  else if ch = newline then [backslash, 110]
  else if ch = carriageReturn then [backslash, 114]
  else if ch = 9 then [backslash, 116]
  else if ch < 0x20 ∨ ch = 0x7f then
    [backslash, 120, hexDigit (ch.toNat / 16), hexDigit (ch.toNat % 16)]
  else [ch]

def unhex (digit : UInt8) : Nat := if digit < 58 then digit.toNat - 48 else digit.toNat - 87

def readEscape : Bytes → Option (UInt8 × Bytes)
  | [] => none
  | ch :: rest =>
    if ch = quote then none
    else if ch = backslash then
      match rest with
      | [] => none
      | mark :: rest =>
        if mark = backslash ∨ mark = quote then some (mark, rest)
        else if mark = 110 then some (newline, rest)
        else if mark = 114 then some (carriageReturn, rest)
        else if mark = 116 then some (9, rest)
        else match rest with
          | high :: low :: rest => some (UInt8.ofNat (16 * unhex high + unhex low), rest)
          | _ => none
    else some (ch, rest)

theorem unhex_hexDigit {n : Nat} (small : n < 16) : unhex (hexDigit n) = n := by
  have all : ∀ n < 16, unhex (hexDigit n) = n := by decide
  exact all n small

theorem hexDigit_range {n : Nat} (small : n < 16) :
    0x20 ≤ hexDigit n ∧ hexDigit n ≠ 0x7f ∧ hexDigit n ≠ quote ∧ hexDigit n ≠ backslash := by
  have all : ∀ n < 16,
      0x20 ≤ hexDigit n ∧ hexDigit n ≠ 0x7f ∧ hexDigit n ≠ quote ∧ hexDigit n ≠ backslash := by
    decide
  exact all n small

theorem readEscape_escapeByte (ch : UInt8) (rest : Bytes) :
    readEscape (escapeByte ch ++ rest) = some (ch, rest) := by
  rw [escapeByte]
  split_ifs with slash quoted feed ret tab control
  · rw [slash]
    rfl
  · rw [quoted]
    rfl
  · rw [feed]
    rfl
  · rw [ret]
    rfl
  · rw [tab]
    rfl
  · have byte := ch.toNat_lt
    have whole : 16 * (ch.toNat / 16) + ch.toNat % 16 = ch.toNat := Nat.div_add_mod ch.toNat 16
    have read : readEscape ([backslash, 120, hexDigit (ch.toNat / 16), hexDigit (ch.toNat % 16)] ++
        rest) = some (UInt8.ofNat (16 * unhex (hexDigit (ch.toNat / 16)) +
          unhex (hexDigit (ch.toNat % 16))), rest) := rfl
    rw [read, unhex_hexDigit (by omega), unhex_hexDigit (by omega), whole, UInt8.ofNat_toNat]
  · simp [readEscape, quoted, slash]

def logEscapes : PrefixCode UInt8 UInt8 where
  code := escapeByte
  next := readEscape
  ne_nil ch := by
    rw [escapeByte]
    split_ifs <;> exact List.cons_ne_nil _ _
  next_code := readEscape_escapeByte

def readLogValue : Bytes → Option Bytes
  | [] => none
  | first :: rest =>
    if first = quote ∧ (logEscapes.read rest.length rest).2 = [quote] then
      some (logEscapes.read rest.length rest).1
    else none

/-- Each backslash takes the byte after it, and no other quote or backslash is there. -/
inductive QuotesEscaped : Bytes → Prop where
  | nil : QuotesEscaped []
  | plain {ch : UInt8} {rest : Bytes} : ch ≠ quote → ch ≠ backslash → QuotesEscaped rest →
      QuotesEscaped (ch :: rest)
  | escaped {ch : UInt8} {rest : Bytes} : QuotesEscaped rest →
      QuotesEscaped (backslash :: ch :: rest)

theorem QuotesEscaped.escapeByte (ch : UInt8) {rest : Bytes} (escaped : QuotesEscaped rest) :
    QuotesEscaped (escapeByte ch ++ rest) := by
  rw [Partyline.escapeByte]
  split_ifs with slash quoted feed ret tab control
  · exact .escaped escaped
  · exact .escaped escaped
  · exact .escaped escaped
  · exact .escaped escaped
  · exact .escaped escaped
  · have byte := ch.toNat_lt
    have high := hexDigit_range (n := ch.toNat / 16) (by omega)
    have low := hexDigit_range (n := ch.toNat % 16) (by omega)
    apply QuotesEscaped.escaped
    apply QuotesEscaped.plain high.2.2.1 high.2.2.2
    exact .plain low.2.2.1 low.2.2.2 escaped
  · exact .plain quoted slash escaped

theorem QuotesEscaped.encode (value : Bytes) : QuotesEscaped (logEscapes.encode value) := by
  induction value with
  | nil => exact .nil
  | cons ch value ih =>
    rw [PrefixCode.encode_cons]
    exact QuotesEscaped.escapeByte ch ih

theorem printed_of_mem_escapeByte {ch other : UInt8} (mem : other ∈ escapeByte ch) :
    0x20 ≤ other ∧ other ≠ 0x7f := by
  have pair {mark : UInt8} (legal : 0x20 ≤ mark ∧ mark ≠ 0x7f) (mem : other ∈ [backslash, mark]) :
      0x20 ≤ other ∧ other ≠ 0x7f := by
    rw [List.mem_pair] at mem
    rcases mem with rfl | rfl
    · exact ⟨by decide, by decide⟩
    · exact legal
  rw [escapeByte] at mem
  split_ifs at mem with slash quoted feed ret tab control
  · exact pair ⟨by decide, by decide⟩ mem
  · exact pair ⟨by decide, by decide⟩ mem
  · exact pair ⟨by decide, by decide⟩ mem
  · exact pair ⟨by decide, by decide⟩ mem
  · exact pair ⟨by decide, by decide⟩ mem
  · have byte := ch.toNat_lt
    have high := hexDigit_range (n := ch.toNat / 16) (by omega)
    have low := hexDigit_range (n := ch.toNat % 16) (by omega)
    simp only [List.mem_cons, List.not_mem_nil, or_false] at mem
    rcases mem with rfl | rfl | rfl | rfl
    · exact ⟨by decide, by decide⟩
    · exact ⟨by decide, by decide⟩
    · exact ⟨high.1, high.2.1⟩
    · exact ⟨low.1, low.2.1⟩
  · rw [List.mem_singleton] at mem
    rw [mem]
    have bound := not_or.mp control
    exact ⟨UInt8.not_lt.mp bound.1, bound.2⟩

def OutputString.Plain (o : OutputString) : Prop := o.width = 0 ∧ o.hex = false

theorem OutputString.put_str {o : OutputString} (plain : o.width = 0) (s : Bytes) :
    (o.put s).str = o.str ++ s := by
  simp [put, plain]

/-- The width and the base that a byte sets are not there any more for the next one. -/
theorem logByte_str {escaped : OutputString} (plain : escaped.Plain) (ch : UInt8) :
    (logByte escaped ch).str = escaped.str ++ escapeByte ch ∧ (logByte escaped ch).Plain := by
  obtain ⟨width, decimal⟩ := plain
  rw [logByte, escapeByte]
  split_ifs with slash quoted feed ret tab control
  · exact ⟨OutputString.put_str width _, rfl, decimal⟩
  · exact ⟨OutputString.put_str width _, rfl, decimal⟩
  · exact ⟨OutputString.put_str width _, rfl, decimal⟩
  · exact ⟨OutputString.put_str width _, rfl, decimal⟩
  · exact ⟨OutputString.put_str width _, rfl, decimal⟩
  · have digits : ∀ n < 128, List.replicate (2 - (Nat.toDigits 16 n).length) 48 ++
        (Nat.toDigits 16 n).map (fun ch => UInt8.ofNat ch.toNat) =
        [hexDigit (n / 16), hexDigit (n % 16)] := by decide +kernel
    have small : ch.toNat < 128 := by
      rcases control with below | rfl
      · exact Nat.lt_trans (UInt8.lt_iff_toNat_lt.mp below) (by decide)
      · decide
    refine ⟨?_, rfl, rfl⟩
    have filled := digits ch.toNat small
    simp only [OutputString.putInt, OutputString.put, OutputString.setHex, OutputString.setWidth,
      OutputString.setFill, OutputString.setDec, if_true, List.length_map, width]
    rw [List.append_assoc _ _ (List.map _ _), filled]
    simp [ascii, backslash]
  · exact ⟨OutputString.put_str width _, rfl, decimal⟩

theorem foldl_logByte_str {escaped : OutputString} (plain : escaped.Plain) (value : Bytes) :
    (value.foldl logByte escaped).str = escaped.str ++ logEscapes.encode value ∧
      (value.foldl logByte escaped).Plain := by
  induction value generalizing escaped with
  | nil => exact ⟨(List.append_nil _).symm, plain⟩
  | cons ch value ih =>
    obtain ⟨str, after⟩ := logByte_str plain ch
    obtain ⟨rest, last⟩ := ih after
    refine ⟨?_, last⟩
    rw [List.foldl_cons, rest, str, PrefixCode.encode_cons, List.append_assoc]
    rfl

theorem logValue_eq (value : Bytes) :
    logValue value = quote :: (logEscapes.encode value ++ [quote]) := by
  have plain : (OutputString.empty.put [quote]).Plain := ⟨rfl, rfl⟩
  obtain ⟨str, after⟩ := foldl_logByte_str plain value
  rw [logValue, OutputString.put_str after.1, str]
  rfl

theorem readLogValue_logValue (value : Bytes) : readLogValue (logValue value) = some value := by
  have stops : logEscapes.next [quote] = none := rfl
  have enough : value.length ≤ (logEscapes.encode value ++ [quote]).length := by
    have words := logEscapes.length_le_length_encode value
    rw [List.length_append]
    omega
  have read := logEscapes.read_encode stops enough
  rw [logValue_eq, readLogValue, read, if_pos ⟨rfl, rfl⟩]

theorem logValue_unambiguous :
    (∀ value, ∃ body, logValue value = quote :: (body ++ [quote]) ∧ QuotesEscaped body) ∧
    (∀ value, ∀ ch ∈ logValue value, 0x20 ≤ ch ∧ ch ≠ 0x7f) ∧
    (∀ value, readLogValue (logValue value) = some value) ∧
    Function.Injective logValue := by
  refine ⟨fun value => ⟨_, logValue_eq value, QuotesEscaped.encode value⟩, fun value ch mem => ?_,
    readLogValue_logValue, fun left right same => ?_⟩
  · rw [logValue_eq, List.mem_cons, List.mem_append, List.mem_singleton] at mem
    rcases mem with rfl | inside | rfl
    · exact ⟨by decide, by decide⟩
    · obtain ⟨byte, -, there⟩ := List.mem_flatMap.mp inside
      exact printed_of_mem_escapeByte there
    · exact ⟨by decide, by decide⟩
  · have read := congrArg readLogValue same
    rw [readLogValue_logValue, readLogValue_logValue] at read
    exact Option.some.inj read

end Partyline
