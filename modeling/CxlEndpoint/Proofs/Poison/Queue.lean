import CxlEndpoint.Proofs.Poison.History

/-!
# The queue of scan results

What a scan has found waits for the host in the order in which it was reported, which need not be
the order of the addresses. The range that the host is told of starts where the first record of
the queue does.

* `groundTruth_step`, `results_step`: what one operation makes of the two lists of media errors.
* `errors`: the media errors that were reported in the course of a history. `sublist_errors`: both
  lists hold some of them, in their order, so all of their records are whole.
* `Restarts`: where the range of a queue starts and ends.
* `RestartCovers`: no queued record reaches out of it. `restartCovers_iff` says when a host that
  fetches the queue is always told of such a range.
* `not_restartCovers`: errors that were reported with descending addresses.
-/

namespace CxlEndpoint.Poison

/-- The record reaches out of the range, given by start and length, at neither end. -/
def Record.Within (r : Record) (range : Nat × Nat) : Prop :=
  range.1 ≤ r.start ∧ r.start + r.length ≤ range.1 + range.2

/-- The media error that the operation reports. -/
def Op.error? : Op → Option Record
  | mediaError start length kind _ => Store.mediaError? start length kind
  | _ => none

namespace Store

variable {s : Store} {op : Op} {past : List Op} {first r : Record} {rest : List Record}
  {limit : Nat}

/-! ## Media errors in the order of their reports -/

/-- The media errors that were reported in the course of `past`, the first one first. -/
def errors : List Op → List Record
  | [] => []
  | op :: past => errors past ++ op.error?.toList

theorem lists_inject (s : Store) (address : Nat) (frozen : Bool) :
    ((s.inject? address frozen).getD s).groundTruth = s.groundTruth ∧
      ((s.inject? address frozen).getD s).results = s.results := by
  unfold inject?
  split
  · exact ⟨rfl, rfl⟩
  · split <;> exact ⟨rfl, rfl⟩

theorem lists_clear (s : Store) (address : Nat) (frozen : Bool) (now : Timestamp) :
    (s.clear address frozen now).1.groundTruth = s.groundTruth ∧
      (s.clear address frozen now).1.results = s.results := by
  cases frozen with
  | true => exact ⟨rfl, rfl⟩
  | false =>
    rcases clear_cases s address now with ⟨-, heq⟩ | ⟨r, -, -, heq⟩
    · rw [heq]
      exact ⟨rfl, rfl⟩
    · rw [heq]
      split
      · exact ⟨rfl, rfl⟩
      · split <;> exact ⟨rfl, rfl⟩

theorem lists_recordMediaError (s : Store) (start length : Nat) (kind : Kind) (now : Timestamp) :
    (s.recordMediaError start length kind now).groundTruth =
        s.groundTruth ++ (mediaError? start length kind).toList ∧
      (s.recordMediaError start length kind now).results = s.results := by
  cases hr : mediaError? start length kind with
  | none => simp [recordMediaError_of_none hr]
  | some r => simp [recordMediaError_of_some hr]

theorem groundTruth_step (s : Store) (op : Op) :
    (s.step op).groundTruth =
      match op with
      | .mediaError start length kind _ => s.groundTruth ++ (mediaError? start length kind).toList
      | .beginScan start length _ => s.left start length
      | _ => s.groundTruth := by
  cases op with
  | inject address frozen => exact (s.lists_inject address frozen).1
  | clear address frozen now => exact (s.lists_clear address frozen now).1
  | mediaError start length kind now => exact (s.lists_recordMediaError start length kind now).1
  | beginScan start length now => exact groundTruth_beginScan
  | completeScan | takeResults => rfl

theorem results_step (s : Store) (op : Op) :
    (s.step op).results =
      match op with
      | .beginScan start length _ => s.found start length
      | .takeResults limit => s.results.drop limit
      | _ => s.results := by
  cases op with
  | inject address frozen => exact (s.lists_inject address frozen).2
  | clear address frozen now => exact (s.lists_clear address frozen now).2
  | mediaError start length kind now => exact (s.lists_recordMediaError start length kind now).2
  | beginScan start length now => exact results_beginScan
  | completeScan | takeResults => rfl

theorem sublist_groundTruth_step (s : Store) (op : Op) :
    (s.step op).groundTruth.Sublist (s.groundTruth ++ op.error?.toList) := by
  rw [groundTruth_step]
  cases op with
  | mediaError => exact List.Sublist.refl _
  | beginScan => exact List.filter_sublist.trans (List.sublist_append_left _ _)
  | inject | clear | completeScan | takeResults => exact List.sublist_append_left _ _

/-- What is queued was queued or is a media error that a scan has found. -/
theorem sublist_results_step (s : Store) (op : Op) :
    (s.step op).results.Sublist s.results ∨ (s.step op).results.Sublist s.groundTruth := by
  rw [results_step]
  cases op with
  | beginScan => exact Or.inr List.filter_sublist
  | takeResults => exact Or.inl (List.drop_sublist _ _)
  | inject | clear | mediaError | completeScan => exact Or.inl (List.Sublist.refl _)

/-- Both lists keep the order in which the errors were reported. -/
theorem sublist_errors (past : List Op) :
    (after past).groundTruth.Sublist (errors past) ∧
      (after past).results.Sublist (errors past) := by
  induction past with
  | nil => exact ⟨List.Sublist.refl _, List.Sublist.refl _⟩
  | cons op past ih =>
    obtain ⟨htruth, hresults⟩ := ih
    have hmore : (errors past).Sublist (errors (op :: past)) := List.sublist_append_left _ _
    refine ⟨((after past).sublist_groundTruth_step op).trans (htruth.append_right _), ?_⟩
    rcases (after past).sublist_results_step op with h | h
    · exact (h.trans hresults).trans hmore
    · exact (h.trans htruth).trans hmore

theorem whole_errors (past : List Op) : ∀ r ∈ errors past, r.Whole := by
  induction past with
  | nil => nofun
  | cons op past ih =>
    intro r hr
    rcases List.mem_append.mp hr with hr | hr
    · exact ih r hr
    · cases op with
      | mediaError start length kind now => exact whole_of_mediaError? (Option.mem_toList.mp hr)
      | inject | clear | beginScan | completeScan | takeResults => cases hr

theorem whole_results (past : List Op) : ∀ r ∈ (after past).results, r.Whole :=
  fun r hr => whole_errors past r ((sublist_errors past).2.subset hr)

/-! ## The range of the queue -/

/-- The host is told of a range that no queued record reaches out of. -/
def RestartCovers (s : Store) : Prop :=
  ∃ range, s.nextResultRange? = some range ∧ ∀ r ∈ s.results, r.Within range

/-- The host is told of `range`, which goes from the start of the first queued record to the
furthest end of any. -/
structure Restarts (s : Store) (first : Record) (range : Nat × Nat) : Prop where
  head : s.results.head? = some first
  told : s.nextResultRange? = some range
  start_eq : range.1 = first.start
  reached : ∃ r ∈ s.results, r.start + r.length = range.1 + range.2
  end_le : ∀ r ∈ s.results, r.start + r.length ≤ range.1 + range.2

theorem exists_furthest (h : s.results = first :: rest) :
    ∃ stop, s.nextResultRange? = some (first.start, stop - first.start) ∧
      (∃ r ∈ s.results, r.stop = stop) ∧ ∀ r ∈ s.results, r.stop ≤ stop := by
  have hmax : (s.results.map Record.stop).max? =
      some (rest.foldl (fun stop r => max stop r.stop) first.stop) := by
    rw [h, List.map_cons, List.max?_cons', List.foldl_map]
  obtain ⟨hmem, hle⟩ := List.max?_eq_some_iff.mp hmax
  refine ⟨_, ?_, List.mem_map.mp hmem, fun r hr => hle _ (List.mem_map_of_mem hr)⟩
  rw [nextResultRange?, h]

theorem exists_restarts (hwhole : ∀ r ∈ s.results, r.Whole) (h : s.results = first :: rest) :
    ∃ range, s.Restarts first range := by
  obtain ⟨stop, hrange, ⟨last, hlast, hstop⟩, hle⟩ := exists_furthest h
  have hmem : first ∈ s.results := h ▸ List.mem_cons_self
  have hlt : first.start < stop := Nat.lt_of_lt_of_le (hwhole first hmem).start_lt_stop (hle _ hmem)
  have hend : first.start + (stop - first.start) = stop := Nat.add_sub_cancel' (Nat.le_of_lt hlt)
  refine ⟨_, ?_, hrange, rfl, ⟨last, hlast, ?_⟩, fun r hr => ?_⟩
  · rw [h]
    rfl
  · rw [hend, ← hstop, (hwhole last hlast).stop_eq]
  · rw [hend, ← (hwhole r hr).stop_eq]
    exact hle r hr

/-- Nothing reaches out of the range behind its end, so what counts is its start. -/
theorem Restarts.covers_iff {range : Nat × Nat} (h : s.Restarts first range) :
    s.RestartCovers ↔ ∀ r ∈ s.results, first.start ≤ r.start := by
  constructor
  · rintro ⟨range', hrange', hwithin⟩ r hr
    obtain rfl : range = range' := Option.some.inj (h.told.symm.trans hrange')
    rw [← h.start_eq]
    exact (hwithin r hr).1
  · intro hfirst
    refine ⟨range, h.told, fun r hr => ⟨?_, h.end_le r hr⟩⟩
    rw [h.start_eq]
    exact hfirst r hr

/-! ## Fetching the queue -/

theorem more_takeResults : (s.takeResults limit).2.more = true ↔ limit < s.results.length := by
  simp [takeResults]

theorem exists_first_of_more (h : (s.takeResults limit).2.more = true) :
    ∃ first rest, (s.takeResults limit).1.results = first :: rest := by
  rw [more_takeResults] at h
  exact ⟨_, _, List.drop_eq_getElem_cons h⟩

theorem whole_takeResults (hwhole : ∀ r ∈ s.results, r.Whole) (limit : Nat) :
    ∀ r ∈ (s.takeResults limit).1.results, r.Whole :=
  fun r hr => hwhole r (List.mem_of_mem_drop hr)

/-- Whatever number of records is fetched first, the range covers the rest, exactly if the queue is
in the order of the addresses. -/
theorem restartCovers_iff_pairwise (hwhole : ∀ r ∈ s.results, r.Whole) :
    (∀ limit, (s.takeResults limit).2.more = true → (s.takeResults limit).1.RestartCovers) ↔
      s.results.Pairwise fun r t => r.start ≤ t.start := by
  have hdrop (limit : Nat) (hmore : limit < s.results.length) :
      (s.takeResults limit).1.RestartCovers ↔
        ∀ r ∈ s.results.drop limit, s.results[limit].start ≤ r.start := by
    obtain ⟨range, hrestarts⟩ :=
      exists_restarts (whole_takeResults hwhole limit) (List.drop_eq_getElem_cons hmore)
    exact hrestarts.covers_iff
  rw [List.pairwise_iff_getElem]
  constructor
  · intro hcovers i j hi hj hij
    refine (hdrop i hi).mp (hcovers i (more_takeResults.mpr hi)) _ ?_
    rw [List.mem_drop_iff_getElem]
    exact ⟨j - i, by omega, by simp only [Nat.add_sub_cancel' (Nat.le_of_lt hij)]⟩
  · intro hordered limit hmore
    have hlt := more_takeResults.mp hmore
    refine (hdrop limit hlt).mpr fun r hr => ?_
    obtain ⟨i, hi, rfl⟩ := List.mem_drop_iff_getElem.mp hr
    rcases Nat.eq_zero_or_pos i with rfl | hpos
    · exact Nat.le_refl _
    · exact hordered limit (limit + i) hlt (by omega) (Nat.lt_add_of_pos_right hpos)

/-- **The range for going on covers the queue exactly if no record lies below the first one.** As
long as records are queued, the host is told of the range from the start of the first of them to the
furthest end of any. Every drain of the queue is told of a range that covers what is left exactly if
the queue is in the order of the addresses, as it is if the errors were reported in that order. -/
theorem restartCovers_iff (past : List Op) :
    (∀ limit, ((after past).takeResults limit).2.more = true →
      ∃ first range, ((after past).takeResults limit).1.Restarts first range ∧
        (((after past).takeResults limit).1.RestartCovers ↔
          ∀ r ∈ ((after past).takeResults limit).1.results, first.start ≤ r.start)) ∧
    ((∀ limit, ((after past).takeResults limit).2.more = true →
        ((after past).takeResults limit).1.RestartCovers) ↔
      (after past).results.Pairwise fun r t => r.start ≤ t.start) ∧
    ((errors past).Pairwise (fun r t => r.start ≤ t.start) →
      ∀ limit, ((after past).takeResults limit).2.more = true →
        ((after past).takeResults limit).1.RestartCovers) := by
  have hwhole := whole_results past
  refine ⟨fun limit hmore => ?_, restartCovers_iff_pairwise hwhole, fun hordered => ?_⟩
  · obtain ⟨first, rest, hrest⟩ := exists_first_of_more hmore
    obtain ⟨range, hrestarts⟩ := exists_restarts (whole_takeResults hwhole limit) hrest
    exact ⟨first, range, hrestarts, hrestarts.covers_iff⟩
  · exact (restartCovers_iff_pairwise hwhole).mpr (hordered.sublist (sublist_errors past).2)

/-- Three errors from below, a scan of all of them, and the first one fetched. -/
def ascendingErrors : List Op :=
  [.takeResults 1, .beginScan 0 0x4000 0, .mediaError 0x3000 64 .vendor 0,
    .mediaError 0x2000 128 .internal 0, .mediaError 0x1000 64 .internal 0]

theorem restartCovers_iff_ascending :
    (errors ascendingErrors).Pairwise (fun r t => r.start ≤ t.start) ∧
      ((after ascendingErrors).takeResults 0).2.more = true ∧
      ((after ascendingErrors).takeResults 0).1.RestartCovers := by
  have hordered : (errors ascendingErrors).Pairwise (fun r t => r.start ≤ t.start) := by decide
  have hmore : ((after ascendingErrors).takeResults 0).2.more = true := by decide
  exact ⟨hordered, hmore, (restartCovers_iff ascendingErrors).2.2 hordered 0 hmore⟩

/-- Three errors from above, and a scan of all of them. -/
def descendingErrors : List Op :=
  [.beginScan 0 0x4000 0, .mediaError 0x1000 64 .internal 0, .mediaError 0x2000 64 .internal 0,
    .mediaError 0x3000 64 .internal 0]

/-- When the first error has been fetched, the range starts behind the last one. -/
theorem not_restartCovers :
    ¬ ∀ (past : List Op) (limit : Nat), ((after past).takeResults limit).2.more = true →
      ∃ range, ((after past).takeResults limit).1.nextResultRange? = some range ∧
        ∀ r ∈ ((after past).takeResults limit).1.results, r.Within range := by
  intro h
  obtain ⟨range, hrange, hwithin⟩ := h descendingErrors 1 (by decide)
  have hrange' : ((after descendingErrors).takeResults 1).1.nextResultRange? =
      some (0x2000, 64) := by decide
  obtain rfl : range = (0x2000, 64) := Option.some.inj (hrange.symm.trans hrange')
  have hlast : (⟨0x1000, 64, .internal⟩ : Record) ∈
      ((after descendingErrors).takeResults 1).1.results := by decide
  exact absurd (hwithin _ hlast).1 (by decide)

end Store

end CxlEndpoint.Poison
