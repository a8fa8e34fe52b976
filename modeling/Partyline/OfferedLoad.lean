import Partyline.Library.Stride
import Partyline.Worker

/-! What becomes of the operations that a phase is to offer. Each belongs to one
entry of one worker's schedule until it is counted, and every entry that is
left at the deadline counts for all that its client has still to offer. -/
namespace Partyline.Bench

open Library

theorem int_eq_floor {x : ℚ} (positive : 0 ≤ x) : int x = ⌊x⌋ := by
  rw [int, Int.tdiv_eq_ediv_of_nonneg (Rat.num_nonneg.mpr positive), Rat.floor_def']

theorem zipIdx_range (n : Nat) : (List.range n).zipIdx = (List.range n).map fun i => (i, i) := by
  refine List.ext_getElem (by simp) fun i below below' => ?_
  simp

theorem slice_range {offset step : Nat} (small : offset < step) (n : Nat) :
    slice offset step (List.range n) = (List.range n).filter fun i => i % step = offset := by
  have same (i : Nat) : (offset ≤ i ∧ (i - offset) % step = 0) ↔ i % step = offset := by
    constructor
    · rintro ⟨above, divides⟩
      have split : i = offset + (i - offset) := by omega
      rw [split, Nat.add_mod, divides, Nat.mod_eq_of_lt small, Nat.add_zero, Nat.mod_eq_of_lt small]
    · rintro rfl
      exact ⟨Nat.mod_le i step, Nat.sub_mod_eq_zero_of_mod_eq (Nat.mod_mod i step).symm⟩
  rw [slice, zipIdx_range, List.filter_map, List.map_map]
  simp only [Function.comp_def, same]
  exact List.map_id _

namespace Phase

/-- What `phase_config` and the checks of `main` make sure of. -/
structure Configured (phase : Phase) (active : Nat) : Prop where
  nonzero : 0 < active
  indices : phase.activeIndices = List.range active
  rate : 0 < phase.rate
  apart : phase.rate ≤ 1000000000
  duration : 0 ≤ phase.duration
  start : 0 ≤ phase.startNs
  deadline : phase.deadlineNs = phase.startNs + int (phase.duration * 1000000000)

/-- An entry of the schedule with a sequence number of its client and of the phase,
scheduled no later than the numbers before it leave room for. -/
structure Fair (phase : Phase) (offer : Offer) : Prop where
  below : offer.sequence < phase.targetOffers
  position : offer.sequence % phase.activeCount = offer.client
  due : (offer.scheduledNs : ℚ) ≤ phase.startNs + offer.sequence * phase.periodNs

variable {phase : Phase} {active : Nat}

theorem activePosition_range (known : phase.activeIndices = List.range active) (index : Nat) :
    phase.activePosition index = if index < active then some index else none := by
  have last (n : Nat) : (((List.range n).zipIdx.filter fun entry => entry.1 = index).getLast?).map
      Prod.snd = if index < n then some index else none := by
    rw [zipIdx_range]
    induction n with
    | zero => rfl
    | succ n ih =>
      rw [List.range_succ, List.map_append, List.filter_append]
      by_cases here : n = index
      · simp [here]
      · have less : index < n + 1 ↔ index < n := by omega
        simpa [here, less] using ih
  rw [activePosition, known]
  exact last active

namespace Configured

variable (h : phase.Configured active)

include h

theorem activeCount : phase.activeCount = active := by
  rw [Phase.activeCount, h.indices, List.length_range]

theorem targetOffers_le : (phase.targetOffers : ℚ) ≤ phase.rate * phase.duration := by
  have positive : 0 ≤ phase.rate * phase.duration := mul_nonneg h.rate.le h.duration
  have floor : (phase.targetOffers : Int) = ⌊phase.rate * phase.duration⌋ := by
    rw [targetOffers, int_eq_floor positive, Int.toNat_of_nonneg (Int.floor_nonneg.mpr positive)]
  calc (phase.targetOffers : ℚ) = ((phase.targetOffers : Int) : ℚ) := by push_cast; rfl
    _ = (⌊phase.rate * phase.duration⌋ : ℚ) := by rw [floor]
    _ ≤ phase.rate * phase.duration := Int.floor_le _

theorem before_deadline {offer : Offer} (fair : phase.Fair offer) :
    offer.scheduledNs < phase.deadlineNs := by
  have positive : 0 ≤ phase.duration * 1000000000 := mul_nonneg h.duration (by norm_num)
  have last : (offer.sequence : ℚ) + 1 ≤ phase.rate * phase.duration :=
    le_trans (by exact_mod_cast Nat.succ_le_of_lt fair.below) h.targetOffers_le
  have period : 1 ≤ phase.periodNs := by
    rw [periodNs, le_div_iff₀ h.rate]
    linarith [h.apart]
  have room : ((offer.sequence : ℚ) + 1) * phase.periodNs ≤ phase.duration * 1000000000 := by
    calc ((offer.sequence : ℚ) + 1) * phase.periodNs
        ≤ phase.rate * phase.duration * phase.periodNs :=
          mul_le_mul_of_nonneg_right last (by linarith)
      _ = phase.duration * 1000000000 := by
          rw [periodNs]
          field_simp [h.rate.ne']
  have floor := Int.lt_floor_add_one (phase.duration * 1000000000)
  have due := fair.due
  have less : (offer.scheduledNs : ℚ) < phase.deadlineNs := by
    rw [h.deadline, int_eq_floor positive]
    push_cast
    linarith
  exact_mod_cast less

theorem fair_next {offer : Offer} (fair : phase.Fair offer)
    (below : offer.sequence + phase.activeCount < phase.targetOffers) :
    phase.Fair ⟨offer.scheduledNs + phase.periodPerClientNs,
      offer.sequence + phase.activeCount, offer.client⟩ where
  below := below
  position := by
    rw [Nat.add_mod_right]
    exact fair.position
  due := by
    have positive : (0 : ℚ) ≤ 1000000000 * phase.activeCount / phase.rate :=
      div_nonneg (by positivity) h.rate.le
    have period : (phase.periodPerClientNs : ℚ) ≤ phase.activeCount * phase.periodNs := by
      rw [periodPerClientNs, int_eq_floor positive]
      refine (Int.floor_le _).trans_eq ?_
      rw [periodNs]
      ring
    have due := fair.due
    push_cast
    linarith

theorem rest_eq {sequence : Nat} (below : sequence < phase.targetOffers) :
    Worker.rest phase sequence = strided phase.targetOffers active sequence := by
  rw [Worker.rest, Worker.remaining, strided, if_pos below, h.activeCount]

end Configured

end Phase

theorem dueOffers_append (nowNs maxLagNs : Int) (maxCount : Nat) (schedule : List Offer) :
    (dueOffers nowNs maxLagNs maxCount schedule).1.map Due.offer ++
      (dueOffers nowNs maxLagNs maxCount schedule).2 = schedule := by
  induction schedule generalizing maxCount with
  | nil => cases maxCount <;> rfl
  | cons offer schedule ih =>
    cases maxCount with
    | zero => rfl
    | succ maxCount =>
      unfold dueOffers
      split_ifs
      · simpa using ih maxCount
      · rfl

theorem heappush_perm (schedule : List Offer) (offer : Offer) :
    (heappush schedule offer).Perm (offer :: schedule) :=
  List.perm_orderedInsert _ offer schedule

/-- The sequence numbers of `quota` have been counted or are still to be, each of these
under one of the entries. -/
structure Spread (phase : Phase) (offers : List Offer) (counted quota : List Nat) : Prop where
  fair : ∀ offer ∈ offers, phase.Fair offer
  clients : (offers.map Offer.client).Nodup
  count : (counted ++ offers.flatMap fun offer => Worker.rest phase offer.sequence).Perm quota

namespace Spread

variable {phase : Phase} {active : Nat} {offers : List Offer} {counted quota : List Nat}

theorem perm (h : Spread phase offers counted quota) {offers' : List Offer}
    (same : offers.Perm offers') : Spread phase offers' counted quota where
  fair offer mem := h.fair offer (same.mem_iff.mpr mem)
  clients := (same.map Offer.client).nodup_iff.mp h.clients
  count := ((same.flatMap_right _).append_left counted).symm.trans h.count

/-- No two entries have the same sequence number, since no two have the same client. -/
theorem sequences (h : Spread phase offers counted quota) :
    (offers.map Offer.sequence).Nodup := by
  have positions : (offers.map Offer.sequence).map (· % phase.activeCount) =
      offers.map Offer.client := by
    rw [List.map_map]
    exact List.map_congr_left fun offer mem => (h.fair offer mem).position
  exact List.Nodup.of_map (· % phase.activeCount) (positions ▸ h.clients)

theorem next {offer : Offer} {others : List Offer} (c : phase.Configured active)
    (h : Spread phase (offer :: others) counted quota) :
    Spread phase (if offer.sequence + phase.activeCount < phase.targetOffers then
      ⟨offer.scheduledNs + phase.periodPerClientNs, offer.sequence + phase.activeCount,
        offer.client⟩ :: others else others) (counted ++ [offer.sequence]) quota := by
  have fair := h.fair offer List.mem_cons_self
  have fairs : ∀ other ∈ others, phase.Fair other := fun other mem =>
    h.fair other (List.mem_cons_of_mem offer mem)
  have count := h.count
  rw [List.flatMap_cons, c.rest_eq fair.below, strided_next c.nonzero fair.below] at count
  split_ifs with below
  · have next := c.fair_next fair below
    refine ⟨?_, h.clients, ?_⟩
    · intro other mem
      rcases List.mem_cons.mp mem with rfl | old
      · exact next
      · exact fairs other old
    · rw [List.flatMap_cons, c.rest_eq below, c.activeCount]
      simpa using count
  · refine ⟨fairs, (List.nodup_cons.mp h.clients).2, ?_⟩
    rw [c.activeCount] at below
    rw [strided_of_le (Nat.not_lt.mp below)] at count
    simpa using count

end Spread

def quota (phase : Phase) (indices : List Nat) : List Nat :=
  indices.flatMap fun index =>
    if index < phase.activeCount then strided phase.targetOffers phase.activeCount index else []

section Initial

variable {phase : Phase} {active : Nat} (c : phase.Configured active)

def firstOffer (phase : Phase) (index : Nat) : Option Offer :=
  match phase.activePosition index with
  | none => none
  | some position =>
    if phase.targetOffers ≤ position then none
    else some ⟨int (phase.startNs + position * phase.periodNs), position, index⟩

theorem scheduleForClients_perm (phase : Phase) (indices : List Nat) :
    (scheduleForClients indices phase).Perm (indices.filterMap (firstOffer phase)) := by
  have pushed (schedule : List Offer) :
      (indices.foldl (fun schedule index =>
        match phase.activePosition index with
        | none => schedule
        | some position =>
          if phase.targetOffers ≤ position then schedule
          else heappush schedule
            ⟨int (phase.startNs + position * phase.periodNs), position, index⟩) schedule).Perm
        (schedule ++ indices.filterMap (firstOffer phase)) := by
    induction indices generalizing schedule with
    | nil => simp
    | cons index rest ih =>
      rw [List.foldl_cons, List.filterMap_cons]
      unfold firstOffer
      cases phase.activePosition index with
      | none => exact ih schedule
      | some position =>
        dsimp only
        split_ifs
        · exact ih schedule
        · refine (ih _).trans (((heappush_perm _ _).append_right _).trans ?_)
          exact List.perm_middle.symm
  unfold scheduleForClients
  split_ifs with empty
  · have nothing : ∀ index ∈ indices, firstOffer phase index = none := by
      intro index _
      unfold firstOffer
      cases phase.activePosition index <;> simp [empty]
    rw [List.filterMap_eq_nil_iff.mpr nothing]
  · exact pushed []

include c

theorem firstOffer_eq (index : Nat) : firstOffer phase index =
    if index < active ∧ index < phase.targetOffers then
      some ⟨int (phase.startNs + index * phase.periodNs), index, index⟩
    else none := by
  rw [firstOffer, Phase.activePosition_range c.indices]
  by_cases within : index < active
  · by_cases below : index < phase.targetOffers
    · simp [within, below]
    · simp [within, below, Nat.not_lt.mp below]
  · simp [within]

theorem fair_first {index : Nat} {offer : Offer} (first : firstOffer phase index = some offer) :
    phase.Fair offer ∧ offer.client = index ∧ offer.sequence = index ∧ index < active := by
  rw [firstOffer_eq c] at first
  split_ifs at first with within
  obtain rfl := Option.some.inj first
  have period : 0 ≤ phase.periodNs := div_nonneg (by norm_num) c.rate.le
  have start : (0 : ℚ) ≤ phase.startNs := by exact_mod_cast c.start
  have positive : 0 ≤ phase.startNs + (index : ℚ) * phase.periodNs := by positivity
  refine ⟨⟨within.2, ?_, ?_⟩, rfl, rfl, within.1⟩
  · rw [c.activeCount]
    exact Nat.mod_eq_of_lt within.1
  · rw [int_eq_floor positive]
    exact Int.floor_le _

theorem spread_initial {indices : List Nat} (distinct : indices.Nodup) :
    Spread phase (scheduleForClients indices phase) [] (quota phase indices) := by
  refine Spread.perm ⟨?_, ?_, ?_⟩ (scheduleForClients_perm phase indices).symm
  · intro offer mem
    obtain ⟨index, -, first⟩ := List.mem_filterMap.mp mem
    exact (fair_first c first).1
  · have clients : (indices.filterMap (firstOffer phase)).map Offer.client =
        indices.filter fun index => index < active ∧ index < phase.targetOffers := by
      rw [List.map_filterMap, ← List.filterMap_eq_filter]
      congr 1
      funext index
      rw [firstOffer_eq c]
      by_cases within : index < active ∧ index < phase.targetOffers <;>
        simp [Option.guard, within]
    rw [clients]
    exact distinct.filter _
  · refine .of_eq ?_
    clear distinct
    induction indices with
    | nil => rfl
    | cons index others ih =>
      rw [List.filterMap_cons, firstOffer_eq c, quota, List.flatMap_cons, c.activeCount]
      rw [quota, c.activeCount] at ih
      by_cases within : index < active
      · by_cases below : index < phase.targetOffers
        · simpa [within, below, c.rest_eq below] using ih
        · simpa [within, below, strided_of_le (Nat.not_lt.mp below)] using ih
      · simpa [within] using ih

end Initial

/-- The three counts that the accounts of the offers are made of. -/
def BenchState.tally (state : BenchState) : Nat × Nat × Nat :=
  (state.offeredOperations, state.sentOperations, state.missedOffers)

theorem flushClientSend_tally (answers : List SendAnswer) (client : BenchClient)
    (state : BenchState) : (flushClientSend answers client state).2.tally = state.tally := by
  obtain ⟨sendBuffer, uplink, errors, parts, eagain, same⟩ :=
    flushClientSend_frame answers client state
  rw [same]
  rfl

theorem queueClientFrame_tally (frame : Bytes) (request : Request) (sentNs : Int)
    (workload : Workload) (answers : List SendAnswer) (client : BenchClient) (state : BenchState) :
    let result := queueClientFrame frame request sentNs workload answers client state
    result.2.2.offeredOperations = state.offeredOperations ∧
      result.2.2.missedOffers = state.missedOffers ∧
      result.2.2.sentOperations = state.sentOperations + if result.1 then 1 else 0 := by
  unfold queueClientFrame
  split_ifs
  · exact ⟨rfl, rfl, rfl⟩
  · have same := flushClientSend_tally answers (client.enqueue frame request sentNs workload)
      { state with sentOperations := state.sentOperations + 1 }
    simp only [BenchState.tally, Prod.mk.injEq] at same
    exact ⟨same.1, same.2.2, same.2.1⟩

section Served

variable (clock : Nat → Int) (phase : Phase) (index : Nat)

theorem handleLine_tally (s : Served) (line : List Octet) :
    (handleLine clock phase index s line).state.tally = s.state.tally := by
  unfold handleLine
  dsimp only
  generalize (if clock s.ticks ≤ phase.deadlineNs then 1 else 0) = byDeadline
  split_ifs
  · cases s.client.pending <;> rfl
  · rfl
  · cases parseBench phase.token (text line) with
    | none => rfl
    | some parsed =>
      dsimp only
      split_ifs <;> rfl

theorem takeData_tally (data : List Octet) (s : Served) :
    (takeData clock phase index data s).state.tally = s.state.tally := by
  have each (lines : List (List Octet)) (s : Served) :
      (lines.foldl (handleLine clock phase index) s).state.tally = s.state.tally := by
    induction lines generalizing s with
    | nil => rfl
    | cons line lines ih => exact (ih _).trans (handleLine_tally clock phase index s line)
  exact (each _ _).trans rfl

theorem readLoop_tally (answers : List RecvAnswer) (calls bytesRead : Nat) (s : Served) :
    (readLoop clock phase index answers calls bytesRead s).state.tally = s.state.tally := by
  refine readLoop_preserves clock phase index (P := fun t => t.state.tally = s.state.tally)
    (fun t data _ same => ?_) (fun t same => ?_) answers calls bytesRead rfl
  · exact (takeData_tally clock phase index data t).trans same
  · unfold closeClient
    split_ifs <;> exact same

theorem serviceEvent_tally (readyNs : Int) (event : ServiceEvent) (s : Served) :
    (serviceEvent clock phase readyNs event s).state.tally = s.state.tally := by
  have read : (serviceRead clock phase readyNs event s).state.tally = s.state.tally := by
    unfold serviceRead
    dsimp only
    split_ifs
    · exact (readLoop_tally clock phase event.index _ _ _ _).trans rfl
    · rfl
  have write (s : Served) : (serviceWrite event s).state.tally = s.state.tally := by
    unfold serviceWrite
    split_ifs
    · exact flushClientSend_tally _ _ _
    · rfl
  unfold serviceEvent
  split_ifs
  · rfl
  · exact (write _).trans read

end Served

namespace Worker

def running (clock : Nat → Int) (start : Worker) (phase : Phase) :
    Transition Worker WorkerEvent where
  init w := w = start.perform clock (.command phase)
  enabled event w := w.enabled event ∧ event.ongoing = true
  perform := perform clock

instance (clock : Nat → Int) (start : Worker) (phase : Phase) (event : WorkerEvent) (w : Worker) :
    Decidable ((running clock start phase).enabled event w) :=
  inferInstanceAs (Decidable (_ ∧ _))

/-- Every operation that the worker has to offer is counted once or is still to be. -/
structure Accounted (phase : Phase) (indices : List Nat) (w : Worker) : Prop where
  samePhase : w.phase = phase
  sameIndices : w.indices = indices
  balanced : w.state.offeredOperations = w.state.sentOperations + w.state.missedOffers
  length : w.state.offeredOperations = w.counted.length
  unique : (w.schedule.map Offer.sequence).Nodup
  offers : match w.point with
    | .waiting => w.counted = []
    | .sending | .servicing => Spread phase w.schedule w.counted (quota phase indices)
    | .offering _ ready =>
      Spread phase (w.schedule ++ ready.map Due.offer) w.counted (quota phase indices)
    | .draining | .idle => w.counted.Perm (quota phase indices)

section Steps

variable (clock : Nat → Int) {phase : Phase} {indices : List Nat} {active : Nat} {w : Worker}

theorem accounted_command (start : Worker) :
    Accounted phase start.indices (start.perform clock (.command phase)) :=
  ⟨rfl, rfl, rfl, rfl, .nil, rfl⟩

theorem Accounted.still (h : Accounted phase indices w) {w' : Worker} (phases : w'.phase = w.phase)
    (same : w'.indices = w.indices) (tally : w'.state.tally = w.state.tally)
    (counted : w'.counted = w.counted) (schedule : w'.schedule = w.schedule)
    (point : w'.point = w.point) : Accounted phase indices w' := by
  simp only [BenchState.tally, Prod.mk.injEq] at tally
  obtain ⟨offered, sent, missed⟩ := tally
  refine ⟨phases.trans h.samePhase, same.trans h.sameIndices, ?_, ?_, schedule ▸ h.unique, ?_⟩
  · rw [offered, sent, missed]
    exact h.balanced
  · rw [offered, counted]
    exact h.length
  · rw [point, counted, schedule]
    exact h.offers

theorem sendOffer_counts (sends : List SendAnswer) (due : Due) (w : Worker) :
    let w' := w.sendOffer clock sends due
    w'.phase = w.phase ∧ w'.indices = w.indices ∧ w'.schedule = w.schedule ∧
      w'.counted = w.counted ∧ w'.state.offeredOperations = w.state.offeredOperations ∧
      w'.state.sentOperations + w'.state.missedOffers =
        w.state.sentOperations + w.state.missedOffers + 1 := by
  unfold sendOffer
  dsimp only
  split_ifs
  · exact ⟨rfl, rfl, rfl, rfl, rfl, rfl⟩
  · have counts := queueClientFrame_tally
      (frame w.phase due.offer.client due.offer.sequence (clock w.ticks))
      ⟨w.number, due.offer.sequence⟩ (clock w.ticks) w.phase.workload sends
      (w.clients due.offer.client) w.state
    generalize queueClientFrame _ _ _ _ _ _ _ = result at counts ⊢
    obtain ⟨queued, client, state⟩ := result
    obtain ⟨offered, missed, sent⟩ := counts
    have same : state.missedOffers = w.state.missedOffers := missed
    cases queued with
    | true =>
      have more : state.sentOperations = w.state.sentOperations + 1 := sent
      refine ⟨rfl, rfl, rfl, rfl, offered, ?_⟩
      change state.sentOperations + state.missedOffers = _
      omega
    | false =>
      have empty : state.sentOperations = w.state.sentOperations := sent
      refine ⟨rfl, rfl, rfl, rfl, offered, ?_⟩
      change state.sentOperations + (state.missedOffers + 1) = _
      omega

theorem Accounted.offer (c : phase.Configured active) {nowNs : Int} {due : Due} {ready : List Due}
    (h : Accounted phase indices w) (point : w.point = .offering nowNs (due :: ready))
    (sends : List SendAnswer) :
    Accounted phase indices
      { w.offerDue clock sends nowNs due with point := .offering nowNs ready } := by
  obtain ⟨phases, same, schedule, counted, offered, counts⟩ :=
    sendOffer_counts clock sends due (w.countOffer nowNs due.offer)
  have spread := h.offers
  rw [point] at spread
  have next := (spread.perm List.perm_middle).next c
  have pushed : Spread phase
      ((w.countOffer nowNs due.offer).schedule ++ ready.map Due.offer)
      (w.counted ++ [due.offer.sequence]) (quota phase indices) := by
    refine next.perm ?_
    simp only [countOffer, h.samePhase]
    split_ifs
    · exact ((heappush_perm _ _).append_right _).symm
    · exact .refl _
  refine ⟨phases.trans h.samePhase, same.trans h.sameIndices, ?_, ?_, ?_, ?_⟩
  · have balanced := h.balanced
    simp only [countOffer] at offered counts
    simp only [offerDue, countOffer]
    omega
  · have length := h.length
    change (w.offerDue clock sends nowNs due).state.offeredOperations =
      (w.offerDue clock sends nowNs due).counted.length
    rw [offerDue, offered, counted]
    simp only [countOffer, List.length_append, List.length_singleton]
    omega
  · have unique := pushed.sequences
    rw [List.map_append] at unique
    have entries : (w.offerDue clock sends nowNs due).schedule =
        (w.countOffer nowNs due.offer).schedule := schedule
    rw [entries]
    exact unique.of_append_left
  · change Spread phase ((w.offerDue clock sends nowNs due).schedule ++ _)
      (w.offerDue clock sends nowNs due).counted _
    rw [offerDue, schedule, counted]
    exact pushed

theorem countRest_counts (c : phase.Configured active) (entries : List Offer)
    (fair : ∀ offer ∈ entries, phase.Fair offer) (same : w.phase = phase) :
    let w' := entries.foldl countRest w
    w'.phase = w.phase ∧ w'.indices = w.indices ∧ w'.schedule = w.schedule ∧
      w'.counted = w.counted ++ entries.flatMap (fun offer => rest phase offer.sequence) ∧
      w'.state.sentOperations = w.state.sentOperations ∧
      w'.state.offeredOperations + w.state.missedOffers =
        w.state.offeredOperations + w'.state.missedOffers ∧
      w'.state.offeredOperations + w.counted.length =
        w.state.offeredOperations + w'.counted.length := by
  induction entries generalizing w with
  | nil => exact ⟨rfl, rfl, rfl, (List.append_nil _).symm, rfl, rfl, rfl⟩
  | cons offer others ih =>
    have due := c.before_deadline (fair offer List.mem_cons_self)
    have one : w.countRest offer = { w with
        state := { w.state with
          offeredOperations := w.state.offeredOperations + remaining phase offer.sequence
          missedOffers := w.state.missedOffers + remaining phase offer.sequence }
        counted := w.counted ++ rest phase offer.sequence } := by
      rw [countRest, same, if_neg (not_le.mpr due)]
    have length : (rest phase offer.sequence).length = remaining phase offer.sequence := by
      simp [rest]
    obtain ⟨phases, indices, schedule, counted, sent, missed, lengths⟩ :=
      ih (w := w.countRest offer) (fun other mem => fair other (List.mem_cons_of_mem offer mem))
        (by rw [one, same])
    rw [List.foldl_cons]
    simp only [one] at phases indices schedule counted sent missed lengths ⊢
    refine ⟨phases, indices, schedule, ?_, sent, ?_, ?_⟩
    · rw [counted, List.flatMap_cons, List.append_assoc]
    · omega
    · rw [List.length_append] at lengths
      omega

theorem Accounted.proceed (c : phase.Configured active) (distinct : indices.Nodup)
    (h : Accounted phase indices w) (sends : List SendAnswer) :
    Accounted phase indices (w.proceed clock sends) := by
  have spread := h.offers
  unfold Worker.proceed
  cases point : w.point with
  | idle => exact h
  | waiting =>
    rw [point] at spread
    dsimp only
    split_ifs
    · exact h.still rfl rfl rfl rfl rfl point.symm
    · have initial := spread_initial c distinct
      refine ⟨h.samePhase, h.sameIndices, h.balanced, h.length, ?_, ?_⟩
      · rw [h.samePhase, h.sameIndices]
        exact initial.sequences
      · dsimp only
        rw [spread, h.samePhase, h.sameIndices]
        exact initial
  | sending =>
    rw [point] at spread
    dsimp only
    split_ifs
    · have popped := dueOffers_append (clock (w.ticks + 1)) w.phase.maxLagNs
        w.phase.maxOverdueSends w.schedule
      generalize dueOffers _ _ _ _ = result at popped ⊢
      obtain ⟨ready, schedule⟩ := result
      have apart : Spread phase (schedule ++ ready.map Due.offer) w.counted
          (quota phase indices) := spread.perm (popped ▸ List.perm_append_comm)
      refine ⟨h.samePhase, h.sameIndices, h.balanced, h.length, ?_, apart⟩
      have unique := apart.sequences
      rw [List.map_append] at unique
      exact unique.of_append_left
    · obtain ⟨phases, same, schedule, counted, sent, missed, length⟩ :=
        countRest_counts c w.schedule spread.fair h.samePhase
      have balanced := h.balanced
      have lengths := h.length
      refine ⟨phases.trans h.samePhase, same.trans h.sameIndices, ?_, ?_, schedule ▸ h.unique, ?_⟩
      · dsimp only [countUnpopped]
        omega
      · dsimp only [countUnpopped]
        omega
      · dsimp only [countUnpopped]
        rw [counted]
        exact spread.count
  | offering nowNs ready =>
    cases ready with
    | nil =>
      rw [point] at spread
      refine ⟨h.samePhase, h.sameIndices, h.balanced, h.length, h.unique, ?_⟩
      simpa using spread
    | cons due ready => exact h.offer clock c point sends
  | servicing =>
    rw [point] at spread
    exact ⟨h.samePhase, h.sameIndices, h.balanced, h.length, h.unique, spread⟩
  | draining =>
    rw [point] at spread
    exact ⟨h.samePhase, h.sameIndices, h.balanced, h.length, h.unique, spread⟩

theorem Accounted.perform (c : phase.Configured active) (distinct : indices.Nodup)
    (h : Accounted phase indices w) (event : WorkerEvent) (ongoing : event.ongoing = true) :
    Accounted phase indices (w.perform clock event) := by
  cases event with
  | command p => exact absurd ongoing Bool.false_ne_true
  | proceed sends => exact h.proceed clock c distinct sends
  | serve readyNs event =>
    exact h.still rfl rfl (serviceEvent_tally clock w.phase readyNs event _) rfl rfl rfl
  | arrive index octets => exact h.still rfl rfl rfl rfl rfl rfl

theorem accounted (c : phase.Configured active) {start : Worker}
    (distinct : start.indices.Nodup) (h : (running clock start phase).Reachable w) :
    Accounted phase start.indices w := by
  refine h.invariant ?_ ?_
  · rintro w rfl
    exact accounted_command clock start
  · intro w event known enabled
    exact known.perform clock c distinct event enabled.2

end Steps

end Worker

section Together

variable {phase : Phase} {active : Nat}

theorem quota_range (c : phase.Configured active) {total : Nat} (within : active ≤ total) :
    (quota phase (List.range total)).Perm (List.range phase.targetOffers) := by
  have idle : ((List.range (total - active)).map (active + ·)).flatMap (fun index =>
      if index < active then strided phase.targetOffers active index else []) = [] := by
    rw [List.flatMap_map]
    simp
  have busy : (List.range active).flatMap (fun index =>
      if index < active then strided phase.targetOffers active index else []) =
      (List.range active).flatMap fun index =>
        (List.range phase.targetOffers).filter fun n => n % active = index := by
    refine List.flatMap_congr fun index mem => ?_
    have small := List.mem_range.mp mem
    rw [if_pos small, strided_eq_filter small]
  have split : total = active + (total - active) := by omega
  rw [quota, c.activeCount, split, List.range_add, List.flatMap_append, idle, busy,
    List.append_nil]
  exact remainders_perm c.nonzero _

/-- What the workers have to offer is together what one worker with all clients would. -/
theorem quota_partition {workerCount : Nat} (workers : 1 ≤ workerCount) (total : Nat) :
    ((List.range workerCount).flatMap fun i =>
      quota phase (slice i workerCount (List.range total))).Perm
      (quota phase (List.range total)) := by
  have parts : ((List.range workerCount).flatMap fun i =>
      quota phase (slice i workerCount (List.range total))) =
      quota phase ((List.range workerCount).flatMap fun i =>
        (List.range total).filter fun n => n % workerCount = i) := by
    rw [quota, List.flatMap_assoc]
    refine List.flatMap_congr fun i mem => ?_
    rw [slice_range (List.mem_range.mp mem)]
    rfl
  rw [parts]
  exact (remainders_perm workers _).flatMap_right _

theorem phaseConfig_configured {nowNs : Nat} {args : Args} {workload : Workload}
    {total active : Nat} {duration : ℚ} {token : Bytes} (nonzero : 1 ≤ active)
    (rate : 0 < args.rate) (apart : args.rate ≤ 1000000000) (positive : 0 ≤ duration) :
    (phaseConfig nowNs args workload total active duration token).Configured active where
  nonzero := nonzero
  indices := rfl
  rate := rate
  apart := apart
  duration := positive
  start := by
    change (0 : Int) ≤ nowNs + startDelayNs
    rw [startDelayNs]
    omega
  deadline := rfl

/-- Each sequence number below the target is counted by exactly one worker, once. -/
theorem offered_exact {total active workerCount nowNs : Nat} {args : Args} {workload : Workload}
    {duration : ℚ} {token : Bytes} {phase : Phase} (clock : Nat → Nat → Int)
    (start final : Nat → Worker)
    (configured : phase = phaseConfig nowNs args workload total active duration token)
    (nonzero : 1 ≤ active) (within : active ≤ total) (workers : 1 ≤ workerCount)
    (rate : 0 < args.rate) (apart : args.rate ≤ 1000000000) (positive : 0 ≤ duration)
    (assigned : ∀ i < workerCount,
      (partitionClients (List.range total) workerCount)[i]? = some (start i).indices)
    (ran : ∀ i < workerCount, (Worker.running (clock i) (start i) phase).Reachable (final i))
    (ended : ∀ i < workerCount, (final i).point = .idle) :
    (∀ i < workerCount,
      let state := (final i).state
      state.offeredOperations = state.sentOperations + state.missedOffers ∧
        state.offeredOperations = (final i).counted.length) ∧
    (((List.range workerCount).map fun i => (final i).state.offeredOperations).sum : Int) =
      int (args.rate * duration) ∧
    ((List.range workerCount).flatMap fun i => (final i).counted).Perm
      (List.range (int (args.rate * duration)).toNat) ∧
    ∀ i < workerCount, ∀ w, (Worker.running (clock i) (start i) phase).Reachable w →
      (w.schedule.map Offer.sequence).Nodup := by
  have c : phase.Configured active := by
    rw [configured]
    exact phaseConfig_configured nonzero rate apart positive
  have target : phase.targetOffers = (int (args.rate * duration)).toNat := by
    rw [configured]
    rfl
  have indices (i : Nat) (small : i < workerCount) :
      (start i).indices = slice i workerCount (List.range total) := by
    have part := assigned i small
    rw [partitionClients, List.getElem?_map, List.getElem?_range small] at part
    exact (Option.some.inj part).symm
  have distinct (i : Nat) (small : i < workerCount) : (start i).indices.Nodup := by
    rw [indices i small, slice_range small]
    exact List.nodup_range.filter _
  have accounts (i : Nat) (small : i < workerCount) :=
    Worker.accounted (clock i) c (distinct i small) (ran i small)
  have counted : ((List.range workerCount).flatMap fun i => (final i).counted).Perm
      (List.range (int (args.rate * duration)).toNat) := by
    have each : ((List.range workerCount).flatMap fun i => (final i).counted).Perm
        ((List.range workerCount).flatMap fun i =>
          quota phase (slice i workerCount (List.range total))) := by
      refine List.Perm.flatMap_left _ fun i mem => ?_
      have small := List.mem_range.mp mem
      have offers := (accounts i small).offers
      rw [ended i small, indices i small] at offers
      exact offers
    rw [← target]
    exact (each.trans (quota_partition workers total)).trans (quota_range c within)
  refine ⟨fun i small => ⟨(accounts i small).balanced, (accounts i small).length⟩, ?_, counted,
    fun i small w reached => (Worker.accounted (clock i) c (distinct i small) reached).unique⟩
  have lengths := counted.length_eq
  rw [List.length_flatMap, List.length_range] at lengths
  have same : ((List.range workerCount).map fun i => (final i).state.offeredOperations) =
      (List.range workerCount).map fun i => (final i).counted.length :=
    List.map_congr_left fun i mem => (accounts i (List.mem_range.mp mem)).length
  have floor : 0 ≤ int (args.rate * duration) := by
    have product : 0 ≤ args.rate * duration := mul_nonneg rate.le positive
    rw [int_eq_floor product]
    exact Int.floor_nonneg.mpr product
  rw [same, lengths, Int.toNat_of_nonneg floor]

def twoWorkersArgs : Args := ⟨4, 0, 128, 10, 32, 1048576⟩

def twoWorkersPhase : Phase := phaseConfig 0 twoWorkersArgs .direct 3 2 1 []

def lateClock (tick : Nat) (n : Nat) : Int := if n < tick then 200000000 else 2000000000

def twoWorkersStart (i : Nat) : Worker where
  indices := if i = 0 then [0, 2] else [1]
  clients := fun _ => Worker.newClient
  phase := twoWorkersPhase
  number := 0
  state := emptyState
  counted := []
  schedule := []
  point := .idle
  ticks := 0

def twoWorkersEvents (i : Nat) : List WorkerEvent :=
  if i = 0 then List.replicate 7 (.proceed [.accepted 2]) else List.replicate 6 (.proceed [])

def twoWorkersFinal (i : Nat) : Worker :=
  (Worker.running (lateClock 5) (twoWorkersStart i) twoWorkersPhase).after
    ((twoWorkersStart i).perform (lateClock 5) (.command twoWorkersPhase)) (twoWorkersEvents i)

theorem twoWorkers_exact :
    (((List.range 2).map fun i => (twoWorkersFinal i).state.offeredOperations).sum : Int) = 4 ∧
      ((List.range 2).flatMap fun i => (twoWorkersFinal i).counted).Perm (List.range 4) := by
  have assigned : ∀ i < 2, (partitionClients (List.range 3) 2)[i]? =
      some (twoWorkersStart i).indices := by decide +kernel
  have runs : ∀ i < 2, (Worker.running (lateClock 5) (twoWorkersStart i) twoWorkersPhase).Runs
      ((twoWorkersStart i).perform (lateClock 5) (.command twoWorkersPhase))
      (twoWorkersEvents i) := by decide +kernel
  have ended : ∀ i < 2, (twoWorkersFinal i).point = .idle := by decide +kernel
  have exact := offered_exact (fun _ => lateClock 5) twoWorkersStart twoWorkersFinal
    (Eq.refl twoWorkersPhase) (by decide) (by decide) (by decide) (by decide +kernel)
    (by decide +kernel) (by decide +kernel) assigned
    (fun i small => ⟨_, rfl, (runs i small).steps⟩) ended
  have target : int (twoWorkersArgs.rate * 1) = 4 := by decide +kernel
  rw [target] at exact
  exact ⟨exact.2.1, exact.2.2.1⟩

end Together

end Partyline.Bench
