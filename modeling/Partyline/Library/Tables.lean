import Partyline.Library.Csv
import Partyline.Library.Keyed

/-! Tables with named columns: `csv.DictReader` and `csv.DictWriter`, with rows that are
dictionaries in the order of insertion. -/
namespace Partyline.Library.Csv

/-- `none` stands for the values of a row that have no name. -/
abbrev Key := Option Text

/-- What a row has at a key; a row may be too short, or too long for its header. -/
inductive Value where
  | missing
  | text (value : Text)
  | rest (values : List Text)
deriving DecidableEq

abbrev Dict := List (Key × Value)

namespace Dict

/-- `d[key] = value`. -/
def set (key : Key) (value : Value) : Dict → Dict
  | [] => [(key, value)]
  | entry :: d => if entry.1 = key then (key, value) :: d else entry :: set key value d

/-- `dict(pairs)`. -/
def ofPairs (pairs : List (Key × Value)) : Dict :=
  pairs.foldl (fun d entry => d.set entry.1 entry.2) []

def keys (d : Dict) : List Key := d.map Prod.fst

theorem set_new {key : Key} {d : Dict} (new : key ∉ d.keys) (value : Value) :
    d.set key value = d ++ [(key, value)] := by
  induction d with
  | nil => rfl
  | cons entry d ih =>
    obtain ⟨other, new⟩ := not_or.mp (mt List.mem_cons.mpr new)
    rw [set, if_neg (Ne.symm other), ih new, List.cons_append]

theorem mem_set {key : Key} {value : Value} {d : Dict} {entry : Key × Value}
    (mem : entry ∈ d.set key value) : entry ∈ d ∨ entry = (key, value) := by
  induction d with
  | nil => exact .inr (List.mem_singleton.mp mem)
  | cons first d ih =>
    rw [set] at mem
    split_ifs at mem
    · rcases List.mem_cons.mp mem with new | old
      · exact .inr new
      · exact .inl (List.mem_cons_of_mem _ old)
    · rcases List.mem_cons.mp mem with same | later
      · exact .inl (same ▸ List.mem_cons_self)
      · exact (ih later).imp_left (List.mem_cons_of_mem _)

theorem mem_keys_set (key : Key) (value : Value) (d : Dict) : key ∈ (d.set key value).keys := by
  induction d with
  | nil => exact List.mem_singleton_self key
  | cons first d ih =>
    rw [set]
    split_ifs
    · exact List.mem_cons_self
    · exact List.mem_cons_of_mem _ ih

theorem set_ne_nil {key : Key} {value : Value} {d : Dict} : d.set key value ≠ [] := fun empty =>
  absurd (mem_keys_set key value d) (by rw [empty]; exact List.not_mem_nil)

theorem foldl_set_ne_nil {pairs : List (Key × Value)} {d : Dict} (nonempty : d ≠ []) :
    pairs.foldl (fun d entry => d.set entry.1 entry.2) d ≠ [] := by
  induction pairs generalizing d with
  | nil => exact nonempty
  | cons entry pairs ih => exact ih set_ne_nil

theorem foldl_set_new {pairs : List (Key × Value)} {d : Dict}
    (distinct : (d.keys ++ pairs.map Prod.fst).Nodup) :
    pairs.foldl (fun d entry => d.set entry.1 entry.2) d = d ++ pairs := by
  induction pairs generalizing d with
  | nil => rw [List.foldl_nil, List.append_nil]
  | cons entry pairs ih =>
    have new : entry.1 ∉ d.keys := fun mem =>
      (List.nodup_append.mp distinct).2.2 _ mem _ List.mem_cons_self rfl
    have rest : ((d ++ [entry]).keys ++ pairs.map Prod.fst).Nodup := by
      simpa [keys] using distinct
    rw [List.foldl_cons, set_new new, ih rest, List.append_assoc, List.singleton_append]

theorem ofPairs_eq {pairs : List (Key × Value)} (distinct : (pairs.map Prod.fst).Nodup) :
    ofPairs pairs = pairs :=
  foldl_set_new (d := []) distinct

theorem mem_foldl_set {pairs : List (Key × Value)} {d : Dict} {entry : Key × Value}
    (mem : entry ∈ pairs.foldl (fun d entry => d.set entry.1 entry.2) d) :
    entry ∈ d ∨ entry ∈ pairs := by
  induction pairs generalizing d with
  | nil => exact .inl mem
  | cons first pairs ih =>
    rcases ih mem with old | later
    · exact (mem_set old).imp_right fun same => by rw [same]; exact List.mem_cons_self
    · exact .inr (List.mem_cons_of_mem _ later)

end Dict

/-- `DictReader.__next__`, with the row that `csv.reader` returns. -/
def dictRow (fieldnames row : List Text) : Dict :=
  let d := Dict.ofPairs ((fieldnames.zip row).map fun x => (some x.1, .text x.2))
  if fieldnames.length < row.length then d.set none (.rest (row.drop fieldnames.length))
  else (fieldnames.drop row.length).foldl (fun d key => d.set (some key) .missing) d

/-- The rows of `csv.DictReader`, and what stops it before the end of the file. -/
def dictReader (strict : Bool) (s : Text) : List Dict × Option Error :=
  match reader strict s with
  | ([], error) => ([], error)
  | (fieldnames :: rows, error) => ((rows.filter (· ≠ [])).map (dictRow fieldnames), error)

theorem dictRow_mem {fieldnames row : List Text} (named : none ∉ (dictRow fieldnames row).keys)
    {entry : Key × Value} (mem : entry ∈ dictRow fieldnames row) :
    (∃ name ∈ fieldnames, entry.1 = some name) ∧
      (entry.2 = .missing ∨ ∃ value ∈ row, entry.2 = .text value) := by
  have own : ∀ pair ∈ (fieldnames.zip row).map fun x => (some x.1, Value.text x.2),
      (∃ name ∈ fieldnames, pair.1 = some name) ∧
        (pair.2 = .missing ∨ ∃ value ∈ row, pair.2 = .text value) := by
    intro pair mem
    obtain ⟨x, there, rfl⟩ := List.mem_map.mp mem
    obtain ⟨name, value⟩ := List.of_mem_zip there
    exact ⟨⟨x.1, name, rfl⟩, .inr ⟨x.2, value, rfl⟩⟩
  rw [dictRow] at named mem
  split_ifs at named mem with long
  · exact absurd (Dict.mem_keys_set none _ _) named
  · rw [← @List.foldl_map _ _ _ (fun key => (some key, Value.missing))
      fun (d : Dict) entry => d.set entry.1 entry.2] at mem
    rcases Dict.mem_foldl_set mem with first | later
    · rcases Dict.mem_foldl_set first with empty | pair
      · exact absurd empty List.not_mem_nil
      · exact own entry pair
    · obtain ⟨name, there, rfl⟩ := List.mem_map.mp later
      exact ⟨⟨name, List.mem_of_mem_drop there, rfl⟩, .inl rfl⟩

theorem dictRow_ne_nil {fieldnames row : List Text} (nonempty : row ≠ []) :
    dictRow fieldnames row ≠ [] := by
  rw [dictRow]
  split_ifs with long
  · exact Dict.set_ne_nil
  · cases fieldnames with
    | nil =>
      exact absurd (List.eq_nil_of_length_eq_zero (Nat.le_zero.mp (Nat.le_of_not_lt long))) nonempty
    | cons name fieldnames =>
      cases row with
      | nil => exact absurd rfl nonempty
      | cons value row =>
        rw [← @List.foldl_map _ _ _ (fun key => (some key, Value.missing))
          fun (d : Dict) entry => d.set entry.1 entry.2]
        refine Dict.foldl_set_ne_nil ?_
        rw [Dict.ofPairs, List.zip_cons_cons, List.map_cons, List.foldl_cons]
        exact Dict.foldl_set_ne_nil Dict.set_ne_nil

section Writer

-- `str` of a list, as `csv.writer` puts it into a field.
variable (listText : List Text → Text)

def Value.written : Value → Text
  | .missing => []
  | .text value => value
  | .rest values => listText values

def Key.written (key : Key) : Text := key.getD []

def values (fields : List Key) (row : Dict) : List Text :=
  fields.map fun key => ((row.lookup key).map (Value.written listText)).getD []

/-- `DictWriter._dict_to_list`; `none` is its ValueError. -/
def dictToList (fields : List Key) (row : Dict) : Option (List Text) :=
  if row.keys.any fun key => !fields.contains key then none
  else some (values listText fields row)

/-- `writeheader` and `writerows`; `none` if a row has a field of its own. -/
def dictWriter (fields : List Key) (rows : List Dict) : Option Text := do
  let rows ← rows.mapM (dictToList listText fields)
  return writer (fields.map Key.written :: rows)

/-- A row with all the fields, as it is read back. -/
def filled (fields : List Key) (row : Dict) : Dict :=
  fields.zip ((values listText fields row).map .text)

variable {listText} {fields : List Key} {rows : List Dict}

theorem length_values (row : Dict) : (values listText fields row).length = fields.length :=
  List.length_map _

theorem map_fst_filled (row : Dict) : (filled listText fields row).map Prod.fst = fields := by
  rw [filled, List.map_fst_zip]
  rw [List.length_map, length_values]

theorem lookup_filled (distinct : fields.Nodup) (row : Dict) {key : Key} (mem : key ∈ fields) :
    (filled listText fields row).lookup key =
      some (.text (((row.lookup key).map (Value.written listText)).getD [])) := by
  refine lookup_key ((map_fst_filled row).symm ▸ distinct) ?_
  rw [filled, values, List.map_map, ← List.map_prod_left_eq_zip]
  exact List.mem_map_of_mem mem

theorem values_filled (distinct : fields.Nodup) (row : Dict) :
    values listText fields (filled listText fields row) = values listText fields row := by
  refine List.map_congr_left fun key mem => ?_
  rw [lookup_filled distinct row mem]
  rfl

theorem dictWriter_eq (within : ∀ row ∈ rows, ∀ key ∈ row.keys, key ∈ fields) :
    dictWriter listText fields rows =
      some (writer (fields.map Key.written :: rows.map (values listText fields))) := by
  have lists : rows.mapM (dictToList listText fields) =
      some (rows.map (values listText fields)) := by
    induction rows with
    | nil => rfl
    | cons row rows ih =>
      have known : ¬ (row.keys.any fun key => !fields.contains key) = true := by
        simpa using within row List.mem_cons_self
      rw [List.mapM_cons, ih fun other mem => within other (List.mem_cons_of_mem _ mem),
        dictToList, if_neg known]
      rfl
  rw [dictWriter, lists]
  rfl

theorem dictWriter_filled (distinct : fields.Nodup)
    (within : ∀ row ∈ rows, ∀ key ∈ row.keys, key ∈ fields) :
    dictWriter listText fields (rows.map (filled listText fields)) =
      dictWriter listText fields rows := by
  have own : ∀ row ∈ rows.map (filled listText fields), ∀ key ∈ row.keys, key ∈ fields := by
    intro row mem key there
    obtain ⟨row, -, rfl⟩ := List.mem_map.mp mem
    rwa [Dict.keys, map_fst_filled] at there
  rw [dictWriter_eq own, dictWriter_eq within, List.map_map]
  congr 3
  exact List.map_congr_left fun row _ => values_filled distinct row

theorem map_written (named : none ∉ fields) : (fields.map Key.written).map some = fields := by
  rw [List.map_map]
  conv_rhs => rw [← List.map_id fields]
  refine List.map_congr_left fun key mem => ?_
  cases key with
  | none => exact absurd mem named
  | some name => rfl

theorem dictRow_values (named : none ∉ fields) (distinct : fields.Nodup) (row : Dict) :
    dictRow (fields.map Key.written) (values listText fields row) = filled listText fields row := by
  have pairs : ((fields.map Key.written).zip (values listText fields row)).map
      (fun x => (some x.1, Value.text x.2)) = filled listText fields row := by
    rw [filled]
    generalize values listText fields row = written
    conv_rhs => rw [← map_written named]
    exact List.zip_map.symm
  have same : (values listText fields row).length = (fields.map Key.written).length := by
    rw [List.length_map, length_values]
  rw [dictRow, pairs, Dict.ofPairs_eq ((map_fst_filled row).symm ▸ distinct),
    if_neg (Nat.not_lt.mpr (Nat.le_of_eq same)), same, List.drop_length, List.foldl_nil]

/-- What `DictWriter` writes, `DictReader` reads. -/
theorem dictReader_dictWriter (named : none ∉ fields) (distinct : fields.Nodup)
    (nonempty : fields ≠ []) (within : ∀ row ∈ rows, ∀ key ∈ row.keys, key ∈ fields)
    (names : ∀ key ∈ fields, (Key.written key).length ≤ fieldLimit)
    (fits : ∀ row ∈ rows, ∀ value ∈ values listText fields row, value.length ≤ fieldLimit) :
    ∃ text, dictWriter listText fields rows = some text ∧
      ∀ strict, dictReader strict text = (rows.map (filled listText fields), none) := by
  refine ⟨_, dictWriter_eq within, fun strict => ?_⟩
  have short : ∀ row ∈ fields.map Key.written :: rows.map (values listText fields),
      ∀ field ∈ row, field.length ≤ fieldLimit := by
    intro row mem
    rcases List.mem_cons.mp mem with rfl | mem
    · intro field there
      obtain ⟨key, mem, rfl⟩ := List.mem_map.mp there
      exact names key mem
    · obtain ⟨own, there, rfl⟩ := List.mem_map.mp mem
      exact fits own there
  have full : ∀ row ∈ rows.map (values listText fields), row ≠ [] := by
    intro row mem empty
    obtain ⟨own, -, rfl⟩ := List.mem_map.mp mem
    exact nonempty (List.map_eq_nil_iff.mp empty)
  rw [dictReader, reader_writer short]
  dsimp only
  rw [List.filter_eq_self.mpr (by simpa using full), List.map_map]
  refine congrArg (·, none) (List.map_congr_left fun row _ => ?_)
  exact dictRow_values named distinct row

end Writer

end Partyline.Library.Csv
