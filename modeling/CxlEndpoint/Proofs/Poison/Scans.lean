import CxlEndpoint.Proofs.Poison.Operations

/-!
# What a scan does to a poison store

* `beginScan_eq`: a scan parts the ground truth into what it finds (`found`) and what it leaves
  (`left`), drops a live list that has overflowed, and takes what it found into the store, one
  record after the other (`addResults`).
* `covers_of_covers_addResults`, `covers_addResults`: the live list covers nothing but what it
  covered and what was found, and all of that if the scan did not overflow.
* `WellFormed.beginScan`: a scan keeps a store in order.
-/

namespace CxlEndpoint.Poison.Store

variable {s : Store} {l : List Record} {r : Record} {a start length : Nat} {now : Timestamp}

/-! ## What a scan finds -/

/-- The media errors that a scan of `[start, start + length)` finds. -/
def found (s : Store) (start length : Nat) : List Record :=
  s.groundTruth.filter fun r => r.Overlaps start (Word.addSat start length)

/-- The media errors that a scan of `[start, start + length)` leaves for a later one. -/
def left (s : Store) (start length : Nat) : List Record :=
  s.groundTruth.filter fun r => ¬ r.Overlaps start (Word.addSat start length)

/-- The live list at the start of a scan, which drops a list that has overflowed. -/
def kept (s : Store) : List Record := if s.overflowedAt.isSome then [] else s.live

/-- The store when a scan has parted the ground truth and takes nothing in yet. -/
def opened (s : Store) (start length : Nat) : Store :=
  { s with
    results := [], scanOverflowed := false, groundTruth := s.left start length, live := s.kept }

theorem mem_found :
    r ∈ s.found start length ↔
      r ∈ s.groundTruth ∧ r.Overlaps start (Word.addSat start length) := by
  simp [found]

theorem covers_groundTruth :
    Covers s.groundTruth a ↔ Covers (s.found start length) a ∨ Covers (s.left start length) a := by
  simp only [Covers, found, left, List.mem_filter, decide_eq_true_eq, ← exists_or,
    ← or_and_right, ← and_or_left, Classical.em, and_true]

/-! ## Taking in what was found -/

/-- Takes the records `found` into the live list and the queue, one after the other. -/
def addResults (now : Timestamp) (s : Store) (found : List Record) : Store :=
  found.foldl (addResult now) s

theorem addResult_eq :
    addResult now s r =
      { s with
        live := (insertLive r s.live).1
        results := s.results ++ [r]
        scanOverflowed := s.scanOverflowed || !(insertLive r s.live).2
        overflowedAt :=
          if (insertLive r s.live).2 then s.overflowedAt else s.overflowedAt.or (some now) } := by
  unfold addResult
  obtain ⟨live, fits⟩ := insertLive r s.live
  cases fits <;> simp [markOverflow]

theorem live_addResult : (addResult now s r).live = (insertLive r s.live).1 := by
  rw [addResult_eq]

theorem scanOverflowed_addResult :
    (addResult now s r).scanOverflowed = (s.scanOverflowed || !(insertLive r s.live).2) := by
  rw [addResult_eq]

theorem overflowedAt_addResult :
    (addResult now s r).overflowedAt =
      if (insertLive r s.live).2 then s.overflowedAt else s.overflowedAt.or (some now) := by
  rw [addResult_eq]

theorem beginScan_eq :
    s.beginScan start length now =
      addResults now (s.opened start length) (s.found start length) := by
  unfold beginScan addResults opened found left kept
  simp only [List.partition_eq_filter_filter]
  congr 3
  funext r
  simp

section AddResults

variable {found : List Record}

theorem addResults_cons :
    addResults now s (r :: found) = addResults now (addResult now s r) found := rfl

theorem addResults_concat :
    addResults now s (found ++ [r]) = addResult now (addResults now s found) r := by
  rw [addResults, List.foldl_append]
  rfl

@[simp] theorem groundTruth_addResults :
    (addResults now s found).groundTruth = s.groundTruth := by
  induction found generalizing s with
  | nil => rfl
  | cons r found ih => rw [addResults_cons, ih, addResult_eq]

@[simp] theorem results_addResults : (addResults now s found).results = s.results ++ found := by
  induction found generalizing s with
  | nil => exact (List.append_nil _).symm
  | cons r found ih =>
    rw [addResults_cons, ih, addResult_eq]
    exact List.append_assoc ..

@[simp] theorem scanned_addResults : (addResults now s found).scanned = s.scanned := by
  induction found generalizing s with
  | nil => rfl
  | cons r found ih => rw [addResults_cons, ih, addResult_eq]

theorem sublist_addResults : s.live.Sublist (addResults now s found).live := by
  induction found generalizing s with
  | nil => exact List.Sublist.refl _
  | cons r found ih =>
    refine List.Sublist.trans ?_ ih
    rw [live_addResult]
    exact sublist_insertLive

theorem tidy_addResults (h : Tidy s.live) (hf : ∀ r ∈ found, r.Whole) :
    Tidy (addResults now s found).live := by
  induction found generalizing s with
  | nil => exact h
  | cons r found ih =>
    obtain ⟨hr, hf⟩ := List.forall_mem_cons.mp hf
    refine ih ?_ hf
    rw [live_addResult]
    exact h.insertLive hr

theorem length_addResults_le (h : s.live.length ≤ listLimit) :
    (addResults now s found).live.length ≤ listLimit := by
  induction found generalizing s with
  | nil => exact h
  | cons r found ih =>
    refine ih ?_
    rw [live_addResult]
    exact length_insertLive_le h

/-- What is live afterwards was live before or was found. -/
theorem covers_of_covers_addResults (h : Tidy s.live) (hf : ∀ r ∈ found, r.Whole)
    (hc : Covers (addResults now s found).live a) : Covers found a ∨ Covers s.live a := by
  induction found generalizing s with
  | nil => exact Or.inr hc
  | cons r found ih =>
    obtain ⟨hr, hf⟩ := List.forall_mem_cons.mp hf
    have hlive : Tidy (addResult now s r).live := by
      rw [live_addResult]
      exact h.insertLive hr
    rcases ih hlive hf hc with hc | hc
    · exact Or.inl (hc.mono (List.subset_cons_self r found))
    · rw [live_addResult] at hc
      rcases h.covers_of_covers_insertLive hr hc with ha | hc
      · exact Or.inl ⟨r, List.mem_cons_self, ha⟩
      · exact Or.inr hc

theorem overflowedAt_addResults (h : (addResults now s found).overflowedAt = none) :
    s.overflowedAt = none := by
  induction found generalizing s with
  | nil => exact h
  | cons r found ih =>
    have hr := ih h
    rw [overflowedAt_addResult] at hr
    split at hr
    · exact hr
    · exact (Option.or_eq_none_iff.mp hr).1

/-- A scan that did not overflow went through without an overflow from the start. -/
theorem scanOverflowed_addResults (h : (addResults now s found).scanOverflowed = false) :
    s.scanOverflowed = false := by
  induction found generalizing s with
  | nil => exact h
  | cons r found ih =>
    have hr := ih h
    rw [scanOverflowed_addResult, Bool.or_eq_false_iff] at hr
    exact hr.1

/-- If the scan did not overflow, all that was found is live. -/
theorem covers_addResults (h : Tidy s.live) (hf : ∀ r ∈ found, r.Whole)
    (hfits : (addResults now s found).scanOverflowed = false) :
    Covers (addResults now s found).live a ↔ Covers found a ∨ Covers s.live a := by
  refine ⟨covers_of_covers_addResults h hf, ?_⟩
  induction found generalizing s with
  | nil => exact fun hc => hc.resolve_left not_covers_nil
  | cons r found ih =>
    obtain ⟨hr, hf⟩ := List.forall_mem_cons.mp hf
    rw [addResults_cons] at hfits ⊢
    have hfit := scanOverflowed_addResults hfits
    rw [scanOverflowed_addResult, Bool.or_eq_false_iff] at hfit
    have hall : (insertLive r s.live).2 = true := by simpa using hfit.2
    have hnext := ih (by rw [live_addResult]; exact h.insertLive hr) hf hfits
    rw [live_addResult, h.covers_insertLive hr hall] at hnext
    rintro (⟨t, ht, ha⟩ | hc)
    · rcases List.mem_cons.mp ht with rfl | ht
      · exact hnext (Or.inr (Or.inl ha))
      · exact hnext (Or.inl ⟨t, ht, ha⟩)
    · exact hnext (Or.inr (Or.inr hc))

end AddResults

/-! ## The start of a scan -/

/-- The host can fetch what the scan found, and nothing that an earlier one did. -/
theorem results_beginScan : (s.beginScan start length now).results = s.found start length := by
  rw [beginScan_eq, results_addResults]
  rfl

@[simp] theorem groundTruth_beginScan :
    (s.beginScan start length now).groundTruth = s.left start length := by
  rw [beginScan_eq, groundTruth_addResults]
  rfl

theorem kept_sublist : s.kept.Sublist s.live := by
  unfold kept
  split
  · exact List.nil_sublist _
  · exact List.Sublist.refl _

theorem kept_sublist_beginScan : s.kept.Sublist (s.beginScan start length now).live := by
  rw [beginScan_eq]
  exact sublist_addResults (s := s.opened start length)

theorem overflowedAt_of_beginScan (h : (s.beginScan start length now).overflowedAt = none) :
    s.overflowedAt = none := by
  rw [beginScan_eq] at h
  exact overflowedAt_addResults (s := s.opened start length) h

namespace WellFormed

theorem whole_found (h : s.WellFormed) : ∀ r ∈ s.found start length, r.Whole :=
  fun r hr => h.truth r (mem_found.mp hr).1

theorem beginScan (h : s.WellFormed) : (s.beginScan start length now).WellFormed := by
  refine ⟨?_, ?_, fun r hr => ?_⟩
  · rw [beginScan_eq]
    exact tidy_addResults (s := s.opened start length) (h.tidy.sublist kept_sublist) h.whole_found
  · rw [beginScan_eq]
    exact length_addResults_le (s := s.opened start length)
      (Nat.le_trans kept_sublist.length_le h.length_le)
  · rw [groundTruth_beginScan] at hr
    exact h.truth r (List.mem_filter.mp hr).1

theorem covers_of_beginScan (h : s.WellFormed)
    (hc : Covers (s.beginScan start length now).live a) :
    Covers (s.found start length) a ∨ Covers s.kept a := by
  rw [beginScan_eq] at hc
  exact covers_of_covers_addResults (s := s.opened start length) (h.tidy.sublist kept_sublist)
    h.whole_found hc

theorem covers_beginScan (h : s.WellFormed)
    (hfits : (s.beginScan start length now).scanOverflowed = false) :
    Covers (s.beginScan start length now).live a ↔
      Covers (s.found start length) a ∨ Covers s.kept a := by
  rw [beginScan_eq] at hfits ⊢
  exact covers_addResults (s := s.opened start length) (h.tidy.sublist kept_sublist)
    h.whole_found hfits

end WellFormed

end CxlEndpoint.Poison.Store
