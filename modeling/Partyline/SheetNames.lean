import Mathlib.Data.List.DropRight
import Partyline.Library.CodePoints
import Partyline.Library.Delimited
import Partyline.Library.Fresh

/-! `sheet_names` of `csv_to_xlsx.py`: one name for each path, made of its stem, that
is not in use yet under `str.casefold`. -/
namespace Partyline.CsvToXlsx

open Library

def apostrophe : CodePoint := chr 39
def underscore : CodePoint := chr 95

def invalidSheetChars : Text := text "\\/*?:[]"

/-- Full case folding, which replaces every code point on its own. Digits and underscores
are folded to themselves, and an apostrophe ends what it alone is folded to. -/
structure Casefold where
  fold : CodePoint → Text
  ne_nil : ∀ ch, fold ch ≠ []
  digit : ∀ ch : CodePoint, 48 ≤ ch.val ∧ ch.val ≤ 57 → fold ch = [ch]
  underscore : fold underscore = [underscore]
  apostrophe : ∀ ch, (fold ch).getLast? = some apostrophe ↔ ch = apostrophe

def Casefold.casefold (c : Casefold) (s : Text) : Text := s.flatMap c.fold

/-- `s.strip(ch)`. -/
def strip (ch : CodePoint) (s : Text) : Text := (s.dropWhile (· = ch)).rdropWhile (· = ch)

/-- `s[:stop]`, where a negative `stop` counts from the end. -/
def upTo (stop : Int) (s : Text) : Text :=
  s.take (if stop < 0 then s.length + stop else stop).toNat

def baseName (stem : Text) : Text :=
  let base := strip apostrophe (stem.map fun ch => if ch ∈ invalidSheetChars then underscore else ch)
  if base = [] then text "Sheet" else base

/-- The name of the search, and the `suffix` it tries next. -/
structure Search where
  name : Text
  suffix : Nat

def suffixed (base : Text) (suffix : Nat) : Text :=
  let ending := underscore :: str suffix
  upTo (31 - ending.length) base ++ ending

def nextName (base : Text) (s : Search) : Search := ⟨suffixed base s.suffix, s.suffix + 1⟩

section SheetNames

variable {Path : Type} (c : Casefold) (stem : Path → Text)

def inUse (used : List Text) (s : Search) : Bool := c.casefold s.name ∈ used

/-- The `while` loop of `sheet_names`. -/
def uniqueName (fuel : Nat) (used : List Text) (base : Text) : Option Text :=
  (whileLoop (inUse c used) (nextName base) fuel ⟨base.take 31, 2⟩).map Search.name

/-- The `for` loop of `sheet_names`; each `while` loop in it gets the fuel. -/
def sheetNamesLoop (fuel : Nat) : List Path → List Text → List Text → Option (List Text)
  | [], names, _ => some names
  | path :: paths, names, used => do
    let name ← uniqueName c fuel used (baseName (stem path))
    sheetNamesLoop fuel paths (names ++ [name]) (used ++ [c.casefold name])

def sheetNames (fuel : Nat) (paths : List Path) : Option (List Text) :=
  sheetNamesLoop c stem fuel paths [] []

end SheetNames

theorem Casefold.casefold_digits (c : Casefold) {s : Text}
    (digits : ∀ ch ∈ s, 48 ≤ ch.val ∧ ch.val ≤ 57) : c.casefold s = s := by
  induction s with
  | nil => rfl
  | cons ch s ih =>
    have rest : c.casefold s = s := ih fun other mem => digits other (List.mem_cons_of_mem ch mem)
    rw [casefold] at rest ⊢
    rw [List.flatMap_cons, c.digit ch (digits ch List.mem_cons_self), rest]
    rfl

theorem Casefold.getLast?_casefold (c : Casefold) (s : Text) :
    (c.casefold s).getLast? = some CsvToXlsx.apostrophe ↔
      s.getLast? = some CsvToXlsx.apostrophe := by
  induction s using List.reverseRecOn with
  | nil => rfl
  | append_singleton s ch =>
    have last : c.casefold (s ++ [ch]) = c.casefold s ++ c.fold ch := by
      simp [casefold]
    rw [last, List.getLast?_append_of_ne_nil _ (c.ne_nil ch), c.apostrophe, List.getLast?_concat]
    simp

theorem underscore_not_mem_str (number : Nat) : underscore ∉ str number := by
  intro mem
  have digit := digit_of_mem_str mem
  have value : underscore.val = 95 := val_chr (by decide)
  omega

theorem suffixed_injective (c : Casefold) (base : Text) :
    Function.Injective fun suffix => c.casefold (suffixed base suffix) := by
  intro m n same
  have split (suffix : Nat) : c.casefold (suffixed base suffix) =
      c.casefold (upTo (31 - (underscore :: str suffix).length) base) ++
        underscore :: str suffix := by
    have digits : c.casefold (str suffix) = str suffix :=
      c.casefold_digits fun ch mem => digit_of_mem_str mem
    rw [Casefold.casefold] at digits
    simp only [suffixed, Casefold.casefold, List.flatMap_append, List.flatMap_cons, c.underscore,
      digits, List.singleton_append]
  simp only [split] at same
  apply str_injective
  exact tails_eq (underscore_not_mem_str m) (underscore_not_mem_str n) same

theorem nextName_iterate (base : Text) (turns : Nat) :
    (nextName base)^[turns + 1] ⟨base.take 31, 2⟩ = ⟨suffixed base (turns + 2), turns + 3⟩ := by
  induction turns with
  | zero => rfl
  | succ turns ih => rw [Function.iterate_succ_apply', ih, nextName]

/-- A name that the search gives: not in use, and with a suffix that is no greater than
what the names in use have made it try. -/
structure Chosen (c : Casefold) (used : List Text) (base name : Text) : Prop where
  free : c.casefold name ∉ used
  made : name = base.take 31 ∨
    ∃ suffix, 2 ≤ suffix ∧ suffix ≤ used.length + 2 ∧ name = suffixed base suffix
  first : c.casefold (base.take 31) ∉ used → name = base.take 31

theorem uniqueName_chosen {c : Casefold} {fuel : Nat} {used : List Text} {base name : Text}
    (ends : uniqueName c fuel used base = some name) : Chosen c used base name := by
  obtain ⟨final, found, rfl⟩ := Option.map_eq_some_iff.mp ends
  obtain ⟨turns, last, done, before⟩ := whileLoop_eq_some found
  have free : c.casefold final.name ∉ used := of_decide_eq_false done
  cases turns with
  | zero =>
    rw [last] at free ⊢
    exact ⟨free, .inl rfl, fun _ => rfl⟩
  | succ turns =>
    rw [nextName_iterate] at last
    have taken : ∀ i < turns, c.casefold (suffixed base (i + 2)) ∈ used := by
      intro i less
      have used := before (i + 1) (Nat.succ_lt_succ less)
      rw [nextName_iterate] at used
      exact of_decide_eq_true used
    have few : turns ≤ used.length := by
      have distinct : Function.Injective fun i => c.casefold (suffixed base (i + 2)) := by
        intro i j same
        exact Nat.add_right_cancel (suffixed_injective c base same)
      exact le_of_taken distinct taken
    refine ⟨free, .inr ⟨turns + 2, by omega, by omega, by rw [last]⟩, fun unused => ?_⟩
    exact absurd (of_decide_eq_true (before 0 (Nat.succ_pos turns))) unused

/-- With more fuel than two tests beyond the names in use, the search ends. -/
theorem uniqueName_ends (c : Casefold) (used : List Text) (base : Text) :
    ∃ name, ∀ fuel, used.length + 1 < fuel → uniqueName c fuel used base = some name := by
  have distinct : Function.Injective fun i => c.casefold (suffixed base (i + 2)) := by
    intro i j same
    exact Nat.add_right_cancel (suffixed_injective c base same)
  obtain ⟨i, few, free⟩ := exists_free distinct used
  have stops : inUse c used ((nextName base)^[i + 1] ⟨base.take 31, 2⟩) = false := by
    rw [nextName_iterate]
    exact decide_eq_false free
  obtain ⟨final, ends⟩ := whileLoop_ends stops
  refine ⟨final.name, fun fuel enough => ?_⟩
  rw [uniqueName, ends fuel (by omega), Option.map_some]

/-- What a spreadsheet asks of the characters of a sheet's name. -/
structure LegalName (name : Text) : Prop where
  chars : ∀ ch ∈ name, ch ∉ invalidSheetChars
  head : name.head? ≠ some apostrophe
  last : name.getLast? ≠ some apostrophe

theorem mem_of_mem_strip {ch other : CodePoint} {s : Text} (mem : other ∈ strip ch s) :
    other ∈ s :=
  (List.dropWhile_sublist _).subset ((List.rdropWhile_prefix _ _).subset mem)

theorem head?_strip (ch : CodePoint) (s : Text) : (strip ch s).head? ≠ some ch := by
  intro first
  obtain ⟨rest, whole⟩ := List.rdropWhile_prefix (fun x => decide (x = ch))
    (s.dropWhile fun x => decide (x = ch))
  have dropped : (s.dropWhile fun x => decide (x = ch)).head? = some ch := by
    rw [← whole, List.head?_append]
    rw [strip] at first
    rw [first, Option.some_or]
  have kept := List.head?_dropWhile_not (fun x => decide (x = ch)) s
  rw [dropped] at kept
  simp at kept

theorem getLast?_strip (ch : CodePoint) (s : Text) : (strip ch s).getLast? ≠ some ch := by
  intro last
  have nonempty : strip ch s ≠ [] := by
    intro empty
    simp [empty] at last
  have kept := List.rdropWhile_last_not (fun x => decide (x = ch)) _ nonempty
  rw [List.getLast?_eq_some_getLast nonempty] at last
  exact kept (decide_eq_true (Option.some.inj last))

theorem baseName_ne_nil (stem : Text) : baseName stem ≠ [] := by
  rw [baseName]
  split_ifs with empty
  · decide
  · exact empty

theorem baseName_legal (stem : Text) : LegalName (baseName stem) := by
  rw [baseName]
  split_ifs with empty
  · have clean : ((text "Sheet").all fun ch => decide (ch ∉ invalidSheetChars)) = true := by decide
    refine ⟨fun ch mem => ?_, by decide, by decide⟩
    exact of_decide_eq_true (List.all_eq_true.mp clean ch mem)
  · refine ⟨fun ch mem => ?_, head?_strip _ _, getLast?_strip _ _⟩
    obtain ⟨old, -, rfl⟩ := List.mem_map.mp (mem_of_mem_strip mem)
    split_ifs with invalid
    · decide
    · exact invalid

theorem getLast?_take_baseName (stem : Text) :
    ((baseName stem).take 31).getLast? = some apostrophe ↔
      (baseName stem)[30]? = some apostrophe := by
  rw [List.getLast?_take, if_neg (by decide)]
  cases there : (baseName stem)[31 - 1]? with
  | none =>
    have last := (baseName_legal stem).last
    simpa using last
  | some ch => rfl

/-- The names that stems give without a suffix are legal but for their last character. -/
theorem take_legal {stem : Text} (other : (baseName stem)[30]? ≠ some apostrophe) :
    LegalName ((baseName stem).take 31) where
  chars ch mem := (baseName_legal stem).chars ch (List.mem_of_mem_take mem)
  head := by
    rw [List.head?_take, if_neg (by decide)]
    exact (baseName_legal stem).head
  last := mt (getLast?_take_baseName stem).mp other

theorem suffixed_legal (stem : Text) (suffix : Nat) :
    LegalName (suffixed (baseName stem) suffix) := by
  have legal := baseName_legal stem
  obtain ⟨length, front⟩ : ∃ length, upTo (31 - (underscore :: str suffix).length)
      (baseName stem) = (baseName stem).take length := ⟨_, rfl⟩
  rw [suffixed, front]
  have digits := str_ne_nil suffix
  constructor
  · intro ch mem
    rw [List.mem_append, List.mem_cons] at mem
    rcases mem with front | rfl | digit
    · exact legal.chars ch (List.mem_of_mem_take front)
    · decide
    · have value := digit_of_mem_str digit
      intro invalid
      have others :
          (invalidSheetChars.all fun bad => decide (bad.val < 48 ∨ 57 < bad.val)) = true := by
        decide
      have outside := of_decide_eq_true (List.all_eq_true.mp others ch invalid)
      omega
  · rw [List.head?_append, List.head?_take, List.head?_cons]
    have head := legal.head
    split_ifs
    · decide
    · cases first : (baseName stem).head? with
      | none => decide
      | some ch =>
        rw [first] at head
        exact head
  · rw [List.getLast?_append_of_ne_nil _ (List.cons_ne_nil _ _),
      List.getLast?_cons_of_ne_nil digits]
    intro last
    have value := digit_of_mem_str (List.mem_of_getLast? last)
    have code : apostrophe.val = 39 := val_chr (by decide)
    omega

theorem Chosen.length {c : Casefold} {used : List Text} {stem name : Text}
    (chosen : Chosen c used (baseName stem) name) (few : used.length + 2 < 10 ^ 21) :
    1 ≤ name.length ∧ name.length ≤ 31 := by
  have nonempty := List.length_pos_of_ne_nil (baseName_ne_nil stem)
  rcases chosen.made with rfl | ⟨suffix, -, most, rfl⟩
  · rw [List.length_take]
    omega
  · have digits : (str suffix).length ≤ 21 := length_str_le (by decide) (by omega)
    rw [suffixed, List.length_append, List.length_cons, upTo, List.length_take]
    omega

/-- The names of a spreadsheet for the paths, in their order, when those before are
`used`: each is made of its path's stem, and none is in use under `casefold`. -/
inductive Names {Path : Type} (c : Casefold) (stem : Path → Text) :
    List Text → List Path → List Text → Prop where
  | nil {used : List Text} : Names c stem used [] []
  | cons {used : List Text} {path : Path} {paths : List Path} {name : Text} {names : List Text} :
      Chosen c used (baseName (stem path)) name →
      Names c stem (used ++ [c.casefold name]) paths names →
      Names c stem used (path :: paths) (name :: names)

section Runs

variable {Path : Type} {c : Casefold} {stem : Path → Text}

theorem sheetNamesLoop_names {fuel : Nat} {paths : List Path} {names used result : List Text}
    (ends : sheetNamesLoop c stem fuel paths names used = some result) :
    ∃ more, result = names ++ more ∧ Names c stem used paths more := by
  induction paths generalizing names used with
  | nil =>
    obtain rfl := Option.some.inj ends
    exact ⟨[], (List.append_nil _).symm, .nil⟩
  | cons path paths ih =>
    obtain ⟨name, found, rest⟩ := Option.bind_eq_some_iff.mp ends
    obtain ⟨more, whole, given⟩ := ih rest
    refine ⟨name :: more, ?_, .cons (uniqueName_chosen found) given⟩
    rw [whole, List.append_assoc, List.singleton_append]

theorem sheetNamesLoop_ends (c : Casefold) (stem : Path → Text) (paths : List Path)
    (names used : List Text) :
    ∃ result, ∀ fuel, used.length + paths.length < fuel →
      sheetNamesLoop c stem fuel paths names used = some result := by
  induction paths generalizing names used with
  | nil => exact ⟨names, fun fuel _ => rfl⟩
  | cons path paths ih =>
    obtain ⟨name, found⟩ := uniqueName_ends c used (baseName (stem path))
    obtain ⟨result, rest⟩ := ih (names ++ [name]) (used ++ [c.casefold name])
    refine ⟨result, fun fuel enough => ?_⟩
    rw [List.length_cons] at enough
    rw [List.length_append, List.length_singleton] at rest
    rw [sheetNamesLoop, found fuel (by omega)]
    exact rest fuel (by omega)

theorem Names.distinct {used names : List Text} {paths : List Path}
    (given : Names c stem used paths names) :
    (names.map c.casefold).Nodup ∧ ∀ name ∈ names, c.casefold name ∉ used := by
  induction given with
  | nil => simp
  | @cons used path paths name names chosen _ ih =>
    obtain ⟨distinct, others⟩ := ih
    constructor
    · rw [List.map_cons, List.nodup_cons]
      refine ⟨fun again => ?_, distinct⟩
      obtain ⟨other, mem, same⟩ := List.mem_map.mp again
      apply others other mem
      rw [same]
      simp
    · intro other mem
      cases mem with
      | head => exact chosen.free
      | tail _ mem => exact fun old => others other mem (List.mem_append_left _ old)

theorem Names.length {used names : List Text} {paths : List Path}
    (given : Names c stem used paths names) (few : used.length + paths.length < 10 ^ 20) :
    ∀ name ∈ names, 1 ≤ name.length ∧ name.length ≤ 31 := by
  induction given with
  | nil => simp
  | @cons used path paths name names chosen _ ih =>
    rw [List.length_cons] at few
    intro other mem
    cases mem with
    | head => exact chosen.length (by omega)
    | tail _ mem =>
      refine ih ?_ other mem
      rw [List.length_append, List.length_singleton]
      omega

/-- A name is the base of its path cut to 31 characters, or that base with a suffix. -/
def NameOf (base name : Text) : Prop :=
  name = base.take 31 ∨ ∃ suffix, 2 ≤ suffix ∧ name = suffixed base suffix

theorem Names.inOrder {used names : List Text} {paths : List Path}
    (given : Names c stem used paths names) :
    List.Forall₂ (fun path name => NameOf (baseName (stem path)) name) paths names := by
  induction given with
  | nil => exact .nil
  | cons chosen _ ih =>
    refine .cons ?_ ih
    cases chosen.made with
    | inl whole => exact .inl whole
    | inr cut =>
      obtain ⟨suffix, least, -, equal⟩ := cut
      exact .inr ⟨suffix, least, equal⟩

theorem sheetNames_names (c : Casefold) (stem : Path → Text) (paths : List Path) :
    ∃ names, (∀ fuel, paths.length < fuel → sheetNames c stem fuel paths = some names) ∧
      Names c stem [] paths names := by
  obtain ⟨names, ends⟩ := sheetNamesLoop_ends c stem paths [] []
  have enough : ([] : List Text).length + paths.length < paths.length + 1 := by
    simp
  obtain ⟨more, whole, given⟩ := sheetNamesLoop_names (ends _ enough)
  rw [List.nil_append] at whole
  subst whole
  exact ⟨names, fun fuel less => ends fuel (by simpa using less), given⟩

theorem sheetNames_unique (c : Casefold) (stem : Path → Text) (paths : List Path)
    (few : paths.length < 10 ^ 20) :
    ∃ names, (∀ fuel, paths.length < fuel → sheetNames c stem fuel paths = some names) ∧
      List.Forall₂ (fun path name => NameOf (baseName (stem path)) name) paths names ∧
      (∀ name ∈ names, 1 ≤ name.length ∧ name.length ≤ 31) ∧
      (names.map c.casefold).Nodup := by
  obtain ⟨names, ends, given⟩ := sheetNames_names c stem paths
  exact ⟨names, ends, given.inOrder, given.length (by simpa using few), given.distinct.1⟩

end Runs

def asciiFolding : Casefold where
  fold ch := if chr 65 ≤ ch ∧ ch ≤ chr 90 then [chr (ch.val + 32)] else [ch]
  ne_nil ch := by split_ifs <;> simp
  digit ch range := by
    rw [if_neg]
    rw [Fin.le_def, Fin.le_def, val_chr (by decide), val_chr (by decide)]
    omega
  underscore := by decide
  apostrophe ch := by
    have code : apostrophe.val = 39 := val_chr (by decide)
    split_ifs with upper
    · rw [Fin.le_def, Fin.le_def, val_chr (by decide), val_chr (by decide)] at upper
      rw [List.getLast?_singleton, Option.some_inj, Fin.ext_iff, Fin.ext_iff, code,
        val_chr (by omega)]
      omega
    · rw [List.getLast?_singleton, Option.some_inj]

theorem sheetNames_unique_two :
    ∃ names, (∀ fuel, 2 < fuel → sheetNames asciiFolding text fuel ["run", "RUN"] = some names) ∧
      List.Forall₂ (fun path name => NameOf (baseName (text path)) name) ["run", "RUN"] names ∧
      (∀ name ∈ names, 1 ≤ name.length ∧ name.length ≤ 31) ∧
      (names.map asciiFolding.casefold).Nodup :=
  sheetNames_unique asciiFolding text ["run", "RUN"] (by decide)

/-- The stem, but for the apostrophes it begins with, has one as its 31st character, and
another character somewhere behind that one. -/
def CutAtApostrophe (stem : Text) : Prop :=
  let bare := stem.dropWhile (· = apostrophe)
  bare[30]? = some apostrophe ∧ ∃ ch ∈ bare.drop 31, ch ≠ apostrophe

theorem getElem?_rdropWhile {α : Type*} [DecidableEq α] (a : α) (s : List α) (i : Nat) :
    (s.rdropWhile fun x => decide (x = a))[i]? = some a ↔
      s[i]? = some a ∧ ∃ x ∈ s.drop (i + 1), x ≠ a := by
  induction s using List.reverseRecOn with
  | nil => simp
  | append_singleton s x ih =>
    rw [List.rdropWhile_concat]
    rcases Nat.lt_trichotomy i s.length with inside | rfl | outside
    · have kept : (s ++ [x])[i]? = s[i]? := List.getElem?_append_left inside
      have tail : (s ++ [x]).drop (i + 1) = s.drop (i + 1) ++ [x] :=
        List.drop_append_of_le_length inside
      rw [kept, tail]
      by_cases last : x = a
      · simp [last, ih]
      · rw [if_neg (by simpa using last), kept]
        simp [last]
    · by_cases last : x = a <;> simp [last, ih]
    · have before : s[i]? = none := List.getElem?_eq_none outside.le
      have beyond : (s ++ [x])[i]? = none := by
        apply List.getElem?_eq_none
        rw [List.length_append, List.length_singleton]
        exact outside
      rw [beyond]
      by_cases last : x = a
      · rw [if_pos (by simpa using last), ih, before]
        simp
      · rw [if_neg (by simpa using last), beyond]
        simp

/-- The base has an apostrophe as its 31st character exactly when the stem is so cut. -/
theorem getElem?_baseName (stem : Text) :
    (baseName stem)[30]? = some apostrophe ↔ CutAtApostrophe stem := by
  have replaced (ch : CodePoint) :
      (if ch ∈ invalidSheetChars then underscore else ch) = apostrophe ↔ ch = apostrophe := by
    split_ifs with invalid
    · refine ⟨fun same => absurd same (by decide), ?_⟩
      rintro rfl
      exact absurd invalid (by decide)
    · rfl
  have base : (baseName stem)[30]? = (strip apostrophe
      (stem.map fun ch => if ch ∈ invalidSheetChars then underscore else ch))[30]? := by
    rw [baseName]
    split_ifs with empty
    · rw [empty]
      rfl
    · rfl
  have alike : ((fun ch => decide (ch = apostrophe)) ∘
      fun ch => if ch ∈ invalidSheetChars then underscore else ch) =
      fun ch => decide (ch = apostrophe) := by
    funext ch
    rw [Function.comp_apply, decide_eq_decide]
    exact replaced ch
  rw [base, strip, getElem?_rdropWhile, List.dropWhile_map, alike, List.getElem?_map,
    Option.map_eq_some_iff, ← List.map_drop]
  simp only [List.mem_map, exists_exists_and_eq_and, ne_eq, replaced, CutAtApostrophe,
    exists_eq_right]

theorem Names.legal_iff {Path : Type} {c : Casefold} {stem : Path → Text}
    {used names : List Text} {paths : List Path} (given : Names c stem used paths names)
    (clean : ∀ key ∈ used, key.getLast? ≠ some apostrophe) :
    (∀ name ∈ names, LegalName name) ↔ ∀ path ∈ paths, ¬ CutAtApostrophe (stem path) := by
  induction given with
  | nil => simp
  | @cons used path paths name names chosen _ ih =>
    rw [List.forall_mem_cons, List.forall_mem_cons]
    by_cases cut : CutAtApostrophe (stem path)
    · -- No name before ends in an apostrophe, and so the first try is free.
      have ends := (getLast?_take_baseName (stem path)).mpr ((getElem?_baseName _).mpr cut)
      have unused : c.casefold ((baseName (stem path)).take 31) ∉ used := by
        intro taken
        exact clean _ taken ((c.getLast?_casefold _).mpr ends)
      have illegal : ¬ LegalName name := by
        rw [chosen.first unused]
        exact fun legal => legal.last ends
      simp [cut, illegal]
    · have legal : LegalName name := by
        rcases chosen.made with rfl | ⟨suffix, -, -, rfl⟩
        · exact take_legal (mt (getElem?_baseName _).mp cut)
        · exact suffixed_legal (stem path) suffix
      have rest := ih (by
        intro key mem
        rcases List.mem_append.mp mem with old | new
        · exact clean key old
        · rw [List.mem_singleton.mp new]
          exact mt (c.getLast?_casefold name).mp legal.last)
      simp only [legal, cut, rest, true_and, not_false_eq_true]

theorem sheetNames_legal_iff {Path : Type} (c : Casefold) (stem : Path → Text)
    (paths : List Path) :
    ∃ names, (∀ fuel, paths.length < fuel → sheetNames c stem fuel paths = some names) ∧
      ((∀ name ∈ names, LegalName name) ↔
        ∀ path ∈ paths, ¬ CutAtApostrophe (stem path)) := by
  obtain ⟨names, ends, given⟩ := sheetNames_names c stem paths
  refine ⟨names, ends, given.legal_iff fun key mem => ?_⟩
  exact absurd mem List.not_mem_nil

/-- A stem of thirty letters, an apostrophe and one more letter. -/
theorem sheetNames_illegal :
    ∃ name, sheetNames asciiFolding text 2 ["abcdefghijklmnopqrstuvwxyzabcd'x"] = some [name] ∧
      name = text "abcdefghijklmnopqrstuvwxyzabcd'" ∧ ¬ LegalName name := by
  refine ⟨_, rfl, by decide, fun legal => legal.last (by decide)⟩

end Partyline.CsvToXlsx
