import Mathlib.Algebra.Order.Ring.Rat
import Partyline.Compare
import Partyline.Library.Grouping
import Partyline.Library.Median

/-! The loops of `write_summaries` over the rows of all trials: what it writes to
`headline-valid-medians.csv` and `invalid-trials.csv`. Floats are rationals. -/
namespace Partyline.Compare

open Library

def medianFields : List String := [
  "offered_msg_s", "completed_by_deadline_msg_s", "inbound_messages_s",
  "outbound_deliveries_s", "per_socket_receive_rate_s", "delivery_ratio",
  "deadline_completion_ratio", "p50_ms", "p95_ms", "p99_ms",
  "server_cpu_percent", "generator_cpu_percent", "cpu_per_completed_request_us",
  "scheduling_lag_p95_ms", "scheduling_lag_p99_ms", "max_read_service_gap_ms",
  "wait_calls", "total_events", "events_per_wait_p50", "events_per_wait_p95",
  "events_per_wait_max", "full_event_batches", "epoll_ctl_add", "epoll_ctl_mod",
  "epoll_ctl_del", "immediate_write_successes", "partial_writes", "send_calls",
  "recv_calls", "send_eagain", "recv_eagain", "bytes_read", "bytes_written",
  "queue_high_water_bytes", "queue_high_water_messages"]

variable (R : Type*)

/-- A row with what `number` makes of its other fields. -/
structure MeasuredRow extends Row R where
  number : String → Option ℚ

structure HeadlineKey where
  experiment : Experiment
  label : Implementation
  total : Nat
  active : Nat
  rate : R
deriving DecidableEq

structure Headline where
  key : HeadlineKey R
  validTrials : Nat
  requiredTrials : Nat
  medians : List (String × Option ℚ)

/-- The locals `invalid` and `grouped`. -/
structure Sorted where
  invalid : List (MeasuredRow R)
  grouped : List (HeadlineKey R × List (MeasuredRow R))

/-- What is written: the rows of the two files, of which an empty one is left out, and the
summary. -/
structure SummaryFiles where
  headlines : List (Headline R)
  invalid : List (MeasuredRow R)
  summary : Summary R

variable {R}

def MeasuredRow.valid? (row : MeasuredRow R) : Bool := rowValid row.toRow

def MeasuredRow.headlineKey (row : MeasuredRow R) : HeadlineKey R :=
  ⟨row.experiment, row.label, row.totalConnections, row.activeConnections, row.globalOfferedRate⟩

def numbers (field : String) (rows : List (MeasuredRow R)) : List ℚ :=
  rows.filterMap fun row => row.number field

def headline (runs : Nat) (key : HeadlineKey R) (validRows : List (MeasuredRow R)) :
    Headline R where
  key := key
  validTrials := validRows.length
  requiredTrials := runs
  medians := medianFields.map fun field =>
    let values := numbers field validRows
    (field, if values = [] then none else some (median values))

section Order

variable [LinearOrder R]

/-- The body of the first loop. -/
def sortRow (s : Sorted R) (row : MeasuredRow R) : Sorted R :=
  if row.valid? then { s with grouped := addTo MeasuredRow.headlineKey row s.grouped }
  else { s with invalid := s.invalid ++ [row] }

def HeadlineKey.rank (key : HeadlineKey R) : ℕ ×ₗ ℕ ×ₗ ℕ ×ₗ ℕ ×ₗ R :=
  toLex (key.experiment.rank, toLex (key.label.rank, toLex (key.total, toLex (key.active, key.rate))))

def HeadlineKey.before (key key' : HeadlineKey R) : Prop := key.rank ≤ key'.rank

instance : DecidableRel (HeadlineKey.before (R := R)) := fun key key' =>
  inferInstanceAs (Decidable (key.rank ≤ key'.rank))

def summaryFiles (rows : List (MeasuredRow R)) (runs : Nat) : SummaryFiles R :=
  let sorted := rows.foldl sortRow ⟨[], []⟩
  { headlines := (sorted.grouped.insertionSort fun g g' => g.1.before g'.1).map fun g =>
      headline runs g.1 g.2
    invalid := sorted.invalid
    summary := writeSummaries (rows.map MeasuredRow.toRow) runs }

theorem Experiment.rank_injective : Function.Injective Experiment.rank := by
  intro e e' same
  cases e <;> cases e' <;> first | rfl | cases same

theorem Implementation.rank_injective : Function.Injective Implementation.rank := by
  intro i i' same
  cases i <;> cases i' <;> first | rfl | cases same

omit [LinearOrder R] in
theorem HeadlineKey.rank_injective : Function.Injective (HeadlineKey.rank (R := R)) := by
  intro key key' same
  simp only [HeadlineKey.rank, toLex_inj, Prod.mk.injEq] at same
  obtain ⟨experiment, label, total, active, rate⟩ := same
  cases key
  cases key'
  exact HeadlineKey.mk.injEq .. |>.mpr ⟨Experiment.rank_injective experiment,
    Implementation.rank_injective label, total, active, rate⟩

instance : Std.Total (HeadlineKey.before (R := R)) := ⟨fun key key' => le_total key.rank key'.rank⟩

instance : IsTrans (HeadlineKey R) HeadlineKey.before := ⟨fun _ _ _ => le_trans⟩

instance : Std.Antisymm (HeadlineKey.before (R := R)) :=
  ⟨fun _ _ first second => HeadlineKey.rank_injective (le_antisymm first second)⟩

theorem foldl_sortRow (rows : List (MeasuredRow R)) : rows.foldl sortRow ⟨[], []⟩ =
    ⟨rows.filter fun row => ¬ row.valid?,
      grouped MeasuredRow.headlineKey (rows.filter MeasuredRow.valid?)⟩ := by
  induction rows using List.reverseRecOn with
  | nil => rfl
  | append_singleton rows row ih =>
    rw [List.foldl_append, ih, List.foldl_cons, List.foldl_nil, sortRow]
    split_ifs with valid
    · simp [List.filter_append, valid, grouped]
    · simp [List.filter_append, valid]

def headlineKeys (rows : List (MeasuredRow R)) : List (HeadlineKey R) :=
  ((grouped MeasuredRow.headlineKey (rows.filter MeasuredRow.valid?)).map Prod.fst).insertionSort
    HeadlineKey.before

def validRows (rows : List (MeasuredRow R)) (key : HeadlineKey R) : List (MeasuredRow R) :=
  (rows.filter MeasuredRow.valid?).filter (MeasuredRow.headlineKey · = key)

variable {rows rows' : List (MeasuredRow R)} {runs : Nat}

theorem headlines_eq (rows : List (MeasuredRow R)) (runs : Nat) :
    (summaryFiles rows runs).headlines =
      (headlineKeys rows).map fun key => headline runs key (validRows rows key) := by
  have groups := @grouped_groups _ _ _ MeasuredRow.headlineKey (rows.filter MeasuredRow.valid?)
  rw [summaryFiles]
  dsimp only
  rw [foldl_sortRow, headlineKeys]
  dsimp only
  generalize grouped MeasuredRow.headlineKey (rows.filter MeasuredRow.valid?) = found at groups ⊢
  rw [← List.map_insertionSort (fun g g' : HeadlineKey R × List (MeasuredRow R) => g.1.before g'.1)
    HeadlineKey.before Prod.fst found fun _ _ _ _ => Iff.rfl, List.map_map]
  refine List.map_congr_left fun g mem => ?_
  have each := groups.each g ((List.mem_insertionSort _).mp mem)
  rw [Function.comp_apply, validRows, ← each]

theorem headlineKeys_mem {key : HeadlineKey R} :
    key ∈ headlineKeys rows ↔ ∃ row ∈ rows, row.valid? = true ∧ row.headlineKey = key := by
  rw [headlineKeys, List.mem_insertionSort, (grouped_groups _).keys]
  simp only [List.mem_filter, and_assoc]

theorem headlineKeys_nodup (rows : List (MeasuredRow R)) : (headlineKeys rows).Nodup :=
  (List.perm_insertionSort _ _).nodup_iff.mpr (grouped_groups _).nodup

theorem headlineKeys_ascend (rows : List (MeasuredRow R)) :
    (headlineKeys rows).Pairwise fun key key' => key.rank < key'.rank := by
  have ordered : (headlineKeys rows).Pairwise HeadlineKey.before :=
    List.pairwise_insertionSort _ _
  refine (ordered.and (headlineKeys_nodup rows)).imp fun ⟨before, ne⟩ => ?_
  exact lt_of_le_of_ne before fun same => ne (HeadlineKey.rank_injective same)

theorem headlines_perm (same : rows.Perm rows') :
    (summaryFiles rows runs).headlines = (summaryFiles rows' runs).headlines := by
  have keys : headlineKeys rows = headlineKeys rows' := by
    refine List.Perm.eq_of_pairwise' (r := HeadlineKey.before) (List.pairwise_insertionSort _ _)
      (List.pairwise_insertionSort _ _) ?_
    refine (List.perm_ext_iff_of_nodup (headlineKeys_nodup _) (headlineKeys_nodup _)).mpr ?_
    intro key
    rw [headlineKeys_mem, headlineKeys_mem]
    simp only [same.mem_iff]
  rw [headlines_eq, headlines_eq, keys]
  refine List.map_congr_left fun key _ => ?_
  have found : (validRows rows key).Perm (validRows rows' key) := (same.filter _).filter _
  have each (field : String) : (numbers field (validRows rows key)).Perm
      (numbers field (validRows rows' key)) := found.filterMap _
  rw [headline, headline, found.length_eq]
  congr 1
  refine List.map_congr_left fun field _ => ?_
  have empty : numbers field (validRows rows key) = [] ↔
      numbers field (validRows rows' key) = [] := by
    rw [← List.length_eq_zero_iff, ← List.length_eq_zero_iff, (each field).length_eq]
  dsimp only
  rw [median_congr (each field)]
  simp only [empty]

theorem sum_validTrials (rows : List (MeasuredRow R)) (runs : Nat) :
    ((summaryFiles rows runs).headlines.map Headline.validTrials).sum =
      (rows.filter MeasuredRow.valid?).length := by
  rw [summaryFiles]
  dsimp only
  rw [foldl_sortRow, List.map_map]
  dsimp only
  rw [((List.perm_insertionSort _ _).map _).sum_eq]
  exact grouped_length _

/-- What `write_summaries` writes: one headline for each tuple under which a valid row has come,
in ascending order, with the number of these rows and the medians of their numbers. The valid
rows are counted once each, the others are left as they are, and the order in which the rows
have come makes no difference to the headlines. -/
theorem headlines_summarize (rows : List (MeasuredRow R)) (runs : Nat) :
    let files := summaryFiles rows runs
    (files.headlines.map Headline.key).Pairwise (fun key key' => key.rank < key'.rank) ∧
    (∀ key, key ∈ files.headlines.map Headline.key ↔
      ∃ row ∈ rows, row.valid? = true ∧ row.headlineKey = key) ∧
    (∀ h ∈ files.headlines, h.requiredTrials = runs ∧
      h.validTrials = rows.countP (fun row => row.valid? ∧ row.headlineKey = h.key) ∧
      h.medians.map Prod.fst = medianFields ∧
      ∀ field value, (field, value) ∈ h.medians →
        (value = none ↔ numbers field (validRows rows h.key) = []) ∧
        ∀ m, value = some m → IsMedian (numbers field (validRows rows h.key)) m) ∧
    (files.headlines.map Headline.validTrials).sum = files.summary.validTrials ∧
    files.invalid = rows.filter (fun row => ¬ row.valid?) ∧
    files.invalid.length = files.summary.invalidTrials ∧
    ∀ rows', rows.Perm rows' → files.headlines = (summaryFiles rows' runs).headlines := by
  intro files
  have keys : files.headlines.map Headline.key = headlineKeys rows := by
    rw [headlines_eq, List.map_map]
    exact List.map_id _
  have invalid : files.invalid = rows.filter fun row => ¬ row.valid? :=
    congrArg Sorted.invalid (foldl_sortRow rows)
  refine ⟨keys ▸ headlineKeys_ascend rows, fun key => keys ▸ headlineKeys_mem, ?_, ?_, invalid, ?_,
    fun rows' same => headlines_perm same⟩
  · intro h mem
    rw [headlines_eq] at mem
    obtain ⟨key, there, rfl⟩ := List.mem_map.mp mem
    refine ⟨rfl, ?_, ?_, ?_⟩
    · rw [List.countP_eq_length_filter]
      simp only [headline, validRows, List.filter_filter]
      congr 2
      funext row
      simp [and_comm]
    · simp [headline, Function.comp_def]
    · intro field value listed
      obtain ⟨field', -, same⟩ := List.mem_map.mp listed
      obtain ⟨rfl, rfl⟩ := Prod.mk.inj same
      split_ifs with empty
      · exact ⟨by simp [headline, empty], nofun⟩
      · refine ⟨by simp [headline, empty], fun m same => ?_⟩
        obtain rfl := Option.some.inj same
        exact median_isMedian empty
  · rw [sum_validTrials]
    simp only [files, summaryFiles, writeSummaries, List.filter_map, List.length_map]
    rfl
  · rw [invalid]
    simp only [files, summaryFiles, writeSummaries, List.filter_map, List.length_map]
    rfl

end Order
end Partyline.Compare
