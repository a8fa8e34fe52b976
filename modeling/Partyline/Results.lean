import Partyline.Library.Tables

/-! `combine_csvs` of `bench/compare.py`: the rows of the trials' files under one header, in
`results.csv`. -/
namespace Partyline.Results

open Library Library.Csv

/-- What the loops over files and rows have so far. -/
structure Combined where
  rows : List Dict
  fields : List Key

def addField (fields : List Key) (field : Key) : List Key :=
  if field ∈ fields then fields else fields ++ [field]

def Combined.add (s : Combined) (row : Dict) : Combined where
  rows := s.rows ++ [row]
  fields := row.keys.foldl addField s.fields

inductive Failure where
  | reader (error : Error)
  | wrongFields
deriving DecidableEq

def combine : List Text → Combined → Except Failure Combined
  | [], s => .ok s
  | path :: paths, s =>
    match dictReader false path with
    | (rows, none) => combine paths (rows.foldl Combined.add s)
    | (_, some error) => .error (.reader error)

section Write

variable (listText : List Text → Text)

/-- The rows, and what is in the destination. `paths` are the texts of the files. -/
def combineCsvs (paths : List Text) : Except Failure (List Dict × Option Text) :=
  match combine paths ⟨[], []⟩ with
  | .error failure => .error failure
  | .ok s =>
    if s.rows = [] then .ok (s.rows, none)
    else match dictWriter listText s.fields s.rows with
      | none => .error .wrongFields
      | some text => .ok (s.rows, some text)

end Write

/-! The header is the union of the rows' fields, each where it is first seen. -/

theorem mem_foldl_addField {fields added : List Key} {key : Key} :
    key ∈ added.foldl addField fields ↔ key ∈ fields ∨ key ∈ added := by
  induction added generalizing fields with
  | nil => simp
  | cons field added ih =>
    rw [List.foldl_cons, ih, addField]
    split_ifs with old
    · constructor
      · exact Or.imp_right (List.mem_cons_of_mem _)
      · rintro (mem | mem)
        · exact .inl mem
        · rcases List.mem_cons.mp mem with rfl | later
          · exact .inl old
          · exact .inr later
    · rw [List.mem_append, List.mem_singleton, List.mem_cons, or_assoc]

theorem nodup_foldl_addField {fields added : List Key} (distinct : fields.Nodup) :
    (added.foldl addField fields).Nodup := by
  induction added generalizing fields with
  | nil => exact distinct
  | cons field added ih =>
    refine ih ?_
    rw [addField]
    split_ifs with old
    · exact distinct
    · exact distinct.append (List.nodup_singleton field) (by simpa using old)

theorem foldl_addField_old {fields added : List Key} (old : ∀ key ∈ added, key ∈ fields) :
    added.foldl addField fields = fields := by
  induction added with
  | nil => rfl
  | cons field added ih =>
    rw [List.foldl_cons, addField, if_pos (old field List.mem_cons_self)]
    exact ih fun key mem => old key (List.mem_cons_of_mem _ mem)

theorem foldl_addField_new {fields added : List Key} (distinct : (fields ++ added).Nodup) :
    added.foldl addField fields = fields ++ added := by
  induction added generalizing fields with
  | nil => rw [List.foldl_nil, List.append_nil]
  | cons field added ih =>
    have new : field ∉ fields := fun mem =>
      (List.nodup_append.mp distinct).2.2 field mem field List.mem_cons_self rfl
    have rest : ((fields ++ [field]) ++ added).Nodup := by
      rwa [List.append_assoc, List.singleton_append]
    rw [List.foldl_cons, addField, if_neg new, ih rest, List.append_assoc, List.singleton_append]

namespace Combined

/-- The header so far is what the rows so far have. -/
structure Gathers (s : Combined) : Prop where
  distinct : s.fields.Nodup
  union : ∀ key, key ∈ s.fields ↔ ∃ row ∈ s.rows, key ∈ row.keys

variable {s : Combined}

theorem Gathers.add (h : s.Gathers) (row : Dict) : (s.add row).Gathers where
  distinct := nodup_foldl_addField h.distinct
  union key := by
    rw [Combined.add, mem_foldl_addField, h.union]
    simp only [List.mem_append, List.mem_singleton, or_and_right, exists_or, exists_eq_left]

theorem Gathers.foldl (h : s.Gathers) (rows : List Dict) : (rows.foldl Combined.add s).Gathers := by
  induction rows generalizing s with
  | nil => exact h
  | cons row rows ih => exact ih (h.add row)

theorem foldl_rows (rows : List Dict) : (rows.foldl Combined.add s).rows = s.rows ++ rows := by
  induction rows generalizing s with
  | nil => rw [List.foldl_nil, List.append_nil]
  | cons row rows ih =>
    rw [List.foldl_cons, ih]
    exact List.append_assoc _ _ _

end Combined

def allRows (paths : List Text) : List Dict := paths.flatMap fun path => (dictReader false path).1

theorem combine_ok {paths : List Text} (readable : ∀ path ∈ paths, (dictReader false path).2 = none)
    (s : Combined) : combine paths s = .ok ((allRows paths).foldl Combined.add s) := by
  induction paths generalizing s with
  | nil => rfl
  | cons path paths ih =>
    have rest := ih fun other mem => readable other (List.mem_cons_of_mem _ mem)
    have here := readable path List.mem_cons_self
    rw [combine, allRows, List.flatMap_cons, List.foldl_append]
    cases read : dictReader false path with
    | mk rows error =>
      rw [read] at here
      obtain rfl : error = none := here
      exact rest _

theorem dictReader_row {path : Text} {row : Dict} (mem : row ∈ (dictReader false path).1) :
    ∃ fieldnames ∈ (reader false path).1, ∃ below ∈ (reader false path).1,
      below ≠ [] ∧ row = dictRow fieldnames below := by
  rw [dictReader] at mem
  cases read : reader false path with
  | mk rows error =>
    cases rows with
    | nil =>
      rw [read] at mem
      exact absurd mem List.not_mem_nil
    | cons fieldnames rows =>
      rw [read] at mem
      obtain ⟨below, there, rfl⟩ := List.mem_map.mp mem
      obtain ⟨there, full⟩ := List.mem_filter.mp there
      exact ⟨fieldnames, List.mem_cons_self, below, List.mem_cons_of_mem _ there,
        of_decide_eq_true full, rfl⟩

section Read

variable {listText : List Text → Text} {paths : List Text}

theorem allRows_ne_nil {row : Dict} (mem : row ∈ allRows paths) : row.keys ≠ [] := by
  obtain ⟨path, -, there⟩ := List.mem_flatMap.mp mem
  obtain ⟨fieldnames, -, below, -, full, rfl⟩ := dictReader_row there
  exact fun empty => dictRow_ne_nil full (List.map_eq_nil_iff.mp empty)

theorem allRows_names {row : Dict} (mem : row ∈ allRows paths) (named : none ∉ row.keys)
    {key : Key} (there : key ∈ row.keys) : (Key.written key).length ≤ fieldLimit := by
  obtain ⟨path, -, inside⟩ := List.mem_flatMap.mp mem
  obtain ⟨fieldnames, header, below, -, -, rfl⟩ := dictReader_row inside
  obtain ⟨entry, here, rfl⟩ := List.mem_map.mp there
  obtain ⟨⟨name, known, same⟩, -⟩ := dictRow_mem named here
  rw [same]
  exact length_of_mem_reader header known

theorem allRows_values {row : Dict} (mem : row ∈ allRows paths) (named : none ∉ row.keys)
    {fields : List Key} {value : Text} (there : value ∈ values listText fields row) :
    value.length ≤ fieldLimit := by
  obtain ⟨path, -, inside⟩ := List.mem_flatMap.mp mem
  obtain ⟨fieldnames, -, below, body, -, rfl⟩ := dictReader_row inside
  obtain ⟨key, -, rfl⟩ := List.mem_map.mp there
  cases found : (dictRow fieldnames below).lookup key with
  | none => exact Nat.zero_le _
  | some own =>
    obtain ⟨before, after, same, -⟩ := List.lookup_eq_some_iff.mp found
    have here : (key, own) ∈ dictRow fieldnames below := by
      rw [same]
      exact List.mem_append_right _ List.mem_cons_self
    rcases (dictRow_mem named here).2 with missing | ⟨value, known, text⟩
    · obtain rfl : own = .missing := missing
      exact Nat.zero_le _
    · obtain rfl : own = .text value := text
      exact length_of_mem_reader body known

theorem gathered_reads {s : Combined} (gathers : s.Gathers)
    (own : ∀ row ∈ s.rows, row ∈ allRows paths)
    (nonempty : s.rows ≠ []) (named : ∀ row ∈ s.rows, none ∉ row.keys) :
    ∃ text, dictWriter listText s.fields s.rows = some text ∧
      ∀ strict, dictReader strict text = (s.rows.map (filled listText s.fields), none) := by
  have names : none ∉ s.fields := by
    intro mem
    obtain ⟨row, there, bad⟩ := (gathers.union none).mp mem
    exact named row there bad
  have fields : s.fields ≠ [] := by
    obtain ⟨row, rows, same⟩ := List.exists_cons_of_ne_nil nonempty
    have mem : row ∈ s.rows := same ▸ List.mem_cons_self
    obtain ⟨key, there⟩ := List.exists_mem_of_ne_nil _ (allRows_ne_nil (own row mem))
    exact List.ne_nil_of_mem ((gathers.union key).mpr ⟨row, mem, there⟩)
  refine dictReader_dictWriter names gathers.distinct fields
    (fun row mem key there => (gathers.union key).mpr ⟨row, mem, there⟩) ?_
    fun row mem value => allRows_values (own row mem) (named row mem)
  intro key mem
  obtain ⟨row, there, inside⟩ := (gathers.union key).mp mem
  exact allRows_names (own row there) (named row there) inside

theorem foldl_filled {fields : List Key} {row : Dict} {rows : List Dict}
    {s : Combined} (first : row.keys.foldl addField s.fields = fields)
    (full : ∀ row ∈ rows, row.keys = fields) :
    (row :: rows).foldl Combined.add s = ⟨s.rows ++ row :: rows, fields⟩ := by
  induction rows generalizing row s with
  | nil => rw [List.foldl_cons, List.foldl_nil, Combined.add, first]
  | cons other rows ih =>
    have next : other.keys.foldl addField (s.add row).fields = fields := by
      rw [Combined.add, first, full other List.mem_cons_self]
      exact foldl_addField_old fun _ => id
    rw [List.foldl_cons, ih next fun row mem => full row (List.mem_cons_of_mem _ mem),
      Combined.add, List.append_assoc, List.singleton_append]

theorem combineCsvs_again {s : Combined} (gathers : s.Gathers) (nonempty : s.rows ≠ []) {text : Text}
    (written : dictWriter listText s.fields s.rows = some text)
    (reads : dictReader false text = (s.rows.map (filled listText s.fields), none)) :
    combineCsvs listText [text] =
      .ok (s.rows.map (filled listText s.fields), some text) := by
  obtain ⟨row, rows, same⟩ := List.exists_cons_of_ne_nil nonempty
  have full : ∀ row, (filled listText s.fields row).keys = s.fields := map_fst_filled
  have first : (filled listText s.fields row).keys.foldl addField [] = s.fields := by
    rw [full, foldl_addField_new (by simpa using gathers.distinct), List.nil_append]
  have gathered : (s.rows.map (filled listText s.fields)).foldl Combined.add ⟨[], []⟩ =
      ⟨s.rows.map (filled listText s.fields), s.fields⟩ := by
    rw [same, List.map_cons]
    refine foldl_filled (s := ⟨[], []⟩) first fun other mem => ?_
    obtain ⟨own, -, rfl⟩ := List.mem_map.mp mem
    exact full own
  have again : dictWriter listText s.fields (s.rows.map (filled listText s.fields)) =
      some text := by
    rw [dictWriter_filled gathers.distinct, written]
    exact fun row mem key there => (gathers.union key).mpr ⟨row, mem, there⟩
  have there : s.rows.map (filled listText s.fields) ≠ [] := by
    rwa [Ne, List.map_eq_nil_iff]
  rw [combineCsvs, combine, reads]
  dsimp only
  rw [combine, gathered]
  simp only [if_neg there, again]

/-- `combine_csvs` loses and invents nothing: its file has the rows of all the files in their
order, each with its own values, and combining it once more gives it back. -/
theorem combineCsvs_reads {strict : Bool}
    (readable : ∀ path ∈ paths, (dictReader false path).2 = none)
    (named : ∀ row ∈ allRows paths, none ∉ row.keys) :
    ∃ fields written, combineCsvs listText paths = .ok (allRows paths, written) ∧
      fields.Nodup ∧ (∀ key, key ∈ fields ↔ ∃ row ∈ allRows paths, key ∈ row.keys) ∧
      (written = none ↔ allRows paths = []) ∧ ∀ text ∈ written,
        dictReader strict text = ((allRows paths).map (filled listText fields), none) ∧
          combineCsvs listText [text] =
            .ok ((allRows paths).map (filled listText fields), some text) := by
  have start : Combined.Gathers ⟨[], []⟩ := ⟨List.nodup_nil, by simp⟩
  have gathers := start.foldl (allRows paths)
  have rows : ((allRows paths).foldl Combined.add ⟨[], []⟩).rows = allRows paths :=
    Combined.foldl_rows _
  have loop := combine_ok readable ⟨[], []⟩
  generalize (allRows paths).foldl Combined.add ⟨[], []⟩ = s at gathers rows loop
  have own : ∀ row ∈ s.rows, row ∈ allRows paths := fun row mem => rows ▸ mem
  rw [← rows] at named ⊢
  refine ⟨s.fields, ?_⟩
  rw [combineCsvs, loop]
  by_cases empty : s.rows = []
  · refine ⟨none, ?_, gathers.distinct, gathers.union, by simp [empty], nofun⟩
    simp only [if_pos empty]
  · obtain ⟨text, written, reads⟩ := @gathered_reads listText _ _ gathers own empty named
    refine ⟨some text, ?_, gathers.distinct, gathers.union, by simp [empty], ?_⟩
    · simp only [if_neg empty, written]
    · rintro _ ⟨⟩
      exact ⟨reads strict, combineCsvs_again gathers empty written (reads false)⟩

end Read

/-- The row of the second file is shorter than its header. -/
def twoFiles : List Text :=
  [text "label,p50_ms\r\npoll,1.5\r\n", text "label,valid,run\r\nepoll,True\r\n"]

theorem twoFiles_reads : ∃ fields written,
    combineCsvs (fun _ => text "[]") twoFiles = .ok (allRows twoFiles, written) ∧
      fields.Nodup ∧ (∀ key, key ∈ fields ↔ ∃ row ∈ allRows twoFiles, key ∈ row.keys) ∧
      (written = none ↔ allRows twoFiles = []) ∧ ∀ s ∈ written,
        dictReader true s =
            ((allRows twoFiles).map (filled (fun _ => text "[]") fields), none) ∧
          combineCsvs (fun _ => text "[]") [s] =
            .ok ((allRows twoFiles).map (filled (fun _ => text "[]") fields), some s) :=
  combineCsvs_reads (by decide +kernel) (by decide +kernel)

example : (combineCsvs (fun _ => text "[]") twoFiles).toOption.map Prod.snd =
    some (text "label,p50_ms,valid,run\r\npoll,1.5,,\r\nepoll,,True,\r\n") := by decide +kernel

end Partyline.Results
