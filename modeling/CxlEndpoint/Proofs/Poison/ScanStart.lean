import CxlEndpoint.Proofs.Poison.History

/-!
# The start of a scan

A scan parts the ground truth by the range that it looks at. What it finds waits for the host in the
order of the reports, and goes into the live list as far as there is room.

* `overlaps_iff`, `overlaps_iff_exists`: what a scan finds, by the addresses. The records that it
  finds share one with the range, unless the range is empty.
* `live_addResults_of_full`: a full list takes in nothing any more. So a line that has found no room
  stays out, and a scan overflows exactly if such a line is left
  (`WellFormed.scanOverflowed_beginScan_iff`).
* `WellFormed.kindAt_beginScan`: a list that has not overflowed keeps its lines and their kinds.
* `begunScan_after`: all this of the store after any history.
-/

namespace CxlEndpoint.Poison

variable {l : List Record} {r : Record} {a : Nat}

/-- More records leave the kinds of the others alone. -/
theorem Tidy.kindAt_of_sublist {l' : List Record} (h : Tidy l') (hsub : l.Sublist l')
    (ha : Covers l a) : kindAt l' a = kindAt l a := by
  obtain ⟨r, hr, hra⟩ := ha
  rw [h.kindAt_of_mem (hsub.subset hr) hra, (h.sublist hsub).kindAt_of_mem hr hra]

/-- The lines of whole records, in unbounded arithmetic. -/
theorem covers_iff_exists (h : ∀ r ∈ l, r.Whole) :
    Covers l a ↔ ∃ r ∈ l, r.start ≤ a ∧ a < r.start + r.length := by
  refine exists_congr fun r => and_congr_right fun hr => ?_
  rw [(h r hr).containsLine_iff, (h r hr).stop_eq]

theorem insertLive_of_full (h : listLimit ≤ l.length) : (insertLive r l).1 = l := by
  rw [insertLive_eq, Nat.sub_eq_zero_of_le h]
  rfl

namespace Store

variable {s : Store} {found : List Record} {past : List Op} {start length : Nat} {now : Timestamp}

/-! ## What is found -/

/-- The bounds of a record that a scan finds, in unbounded arithmetic but for the end of the range,
which is held at the last word. -/
theorem overlaps_iff (h : r.Whole) :
    r.Overlaps start (Word.addSat start length) ↔
      r.start < min (start + length) Word.last ∧ start < r.start + r.length := by
  rw [Record.Overlaps, h.stop_eq]
  rfl

/-- A record overlaps a range that is not empty if they have an address in common. -/
theorem overlaps_iff_exists (h : r.Whole) (hpos : 0 < length) :
    r.Overlaps start (Word.addSat start length) ↔
      ∃ a, (r.start ≤ a ∧ a < r.start + r.length) ∧
        start ≤ a ∧ a < min (start + length) Word.last := by
  rw [overlaps_iff h]
  have hlength := h.length_pos
  have hend := h.fits
  have hlast : lastLine < Word.last := by decide
  constructor
  · rintro ⟨hlo, hhi⟩
    exact ⟨max r.start start, by omega, by omega, by omega⟩
  · rintro ⟨a, ⟨hlo, hhi⟩, hstart, hstop⟩
    omega

/-! ## The room of the list -/

/-- A full list takes in nothing of what is found. -/
theorem live_addResults_of_full (h : listLimit ≤ s.live.length) :
    (addResults now s found).live = s.live := by
  induction found generalizing s with
  | nil => rfl
  | cons r found ih =>
    have hlive : (addResult now s r).live = s.live := by
      rw [live_addResult]
      exact insertLive_of_full h
    rw [addResults_cons, ih (by rwa [hlive]), hlive]

/-- If the scan overflowed, a line that it found is not live. -/
theorem exists_of_scanOverflowed_addResults (h : Tidy s.live) (hlen : s.live.length ≤ listLimit)
    (hf : ∀ r ∈ found, r.Whole) (hbefore : s.scanOverflowed = false)
    (hafter : (addResults now s found).scanOverflowed = true) :
    ∃ a, Covers found a ∧ ¬ Covers (addResults now s found).live a := by
  induction found generalizing s with
  | nil => exact absurd (hbefore.symm.trans hafter) Bool.false_ne_true
  | cons r found ih =>
    obtain ⟨hr, hf⟩ := List.forall_mem_cons.mp hf
    rw [addResults_cons] at hafter ⊢
    cases hfits : (insertLive r s.live).2 with
    | true =>
      obtain ⟨a, ha, hout⟩ := ih (by rw [live_addResult]; exact h.insertLive hr)
        (by rw [live_addResult]; exact length_insertLive_le hlen) hf
        (by rw [scanOverflowed_addResult, hbefore, hfits]; rfl) hafter
      exact ⟨a, ha.mono (List.subset_cons_self r found), hout⟩
    | false =>
      -- The list is full by now, so the line that is missing is never put in.
      obtain ⟨hfull, a, ha, hout⟩ := h.full_of_insertLive hr hlen hfits
      refine ⟨a, ⟨r, List.mem_cons_self, ha⟩, ?_⟩
      rw [live_addResults_of_full (Nat.le_of_eq (by rw [live_addResult, hfull])), live_addResult]
      exact hout

/-- The time of an earlier overflow stays. -/
theorem overflowedAt_addResults_of_some {time : Timestamp} (h : s.overflowedAt = some time) :
    (addResults now s found).overflowedAt = some time := by
  induction found generalizing s with
  | nil => exact h
  | cons r found ih =>
    refine ih (s := addResult now s r) ?_
    rw [overflowedAt_addResult]
    split
    · exact h
    · rw [h]
      rfl

theorem overflowedAt_of_scanOverflowed (hbefore : s.scanOverflowed = false)
    (hafter : (addResults now s found).scanOverflowed = true) :
    (addResults now s found).overflowedAt = some (s.overflowedAt.getD now) := by
  induction found generalizing s with
  | nil => exact absurd (hbefore.symm.trans hafter) Bool.false_ne_true
  | cons r found ih =>
    rw [addResults_cons] at hafter ⊢
    cases hfits : (insertLive r s.live).2 with
    | true =>
      have hnone : (addResult now s r).scanOverflowed = false := by
        rw [scanOverflowed_addResult, hbefore, hfits]
        rfl
      rw [ih hnone hafter, overflowedAt_addResult, if_pos hfits]
    | false =>
      refine overflowedAt_addResults_of_some ?_
      rw [overflowedAt_addResult, hfits]
      exact Option.or_some

namespace WellFormed

variable (h : s.WellFormed)

include h

/-- A scan overflows exactly if it leaves a line that it found out of the live list. -/
theorem scanOverflowed_beginScan_iff :
    (s.beginScan start length now).scanOverflowed = true ↔
      ∃ a, Covers (s.found start length) a ∧
        ¬ Covers (s.beginScan start length now).live a := by
  constructor
  · intro hafter
    rw [beginScan_eq] at hafter ⊢
    exact exists_of_scanOverflowed_addResults (s := s.opened start length)
      (h.tidy.sublist kept_sublist) (Nat.le_trans kept_sublist.length_le h.length_le)
      h.whole_found rfl hafter
  · rintro ⟨a, ha, hout⟩
    by_contra hfits
    rw [Bool.not_eq_true] at hfits
    exact hout ((h.covers_beginScan hfits).mpr (Or.inl ha))

theorem found_eq :
    s.found start length = s.groundTruth.filter fun r =>
      r.start < min (start + length) Word.last ∧ start < r.start + r.length :=
  List.filter_congr fun r hr => decide_eq_decide.mpr (overlaps_iff (h.truth r hr))

theorem left_eq :
    s.left start length = s.groundTruth.filter fun r =>
      ¬ (r.start < min (start + length) Word.last ∧ start < r.start + r.length) :=
  List.filter_congr fun r hr => decide_eq_decide.mpr (not_congr (overlaps_iff (h.truth r hr)))

theorem kindAt_beginScan (hnone : s.overflowedAt = none) (ha : Covers s.live a) :
    (s.beginScan start length now).kindAt a = s.kindAt a := by
  have hkept : s.kept = s.live := by rw [kept, hnone]; rfl
  have hsub : s.live.Sublist (s.beginScan start length now).live :=
    hkept ▸ kept_sublist_beginScan
  exact h.beginScan.tidy.kindAt_of_sublist hsub ha

end WellFormed

/-! ## All of it -/

/-- `s'` is `s` after the start of a scan of `[start, start + length)` at the time `now`. The end of
the range is held at the last word. -/
structure BegunScan (s : Store) (start length : Nat) (now : Timestamp) (s' : Store) : Prop where
  /-- The host gets what overlaps the range, in the order of the ground truth. -/
  results : s'.results = s.groundTruth.filter fun r =>
    r.start < min (start + length) Word.last ∧ start < r.start + r.length
  /-- The others stay in the ground truth. -/
  groundTruth : s'.groundTruth = s.groundTruth.filter fun r =>
    ¬ (r.start < min (start + length) Word.last ∧ start < r.start + r.length)
  /-- To overlap a range that is not empty means to have an address in common with it. -/
  shared : 0 < length → ∀ r ∈ s.groundTruth,
    (r ∈ s'.results ↔ ∃ a, (r.start ≤ a ∧ a < r.start + r.length) ∧
      start ≤ a ∧ a < min (start + length) Word.last)
  /-- If there was room for everything, all lines of the results are live, and only then. -/
  covered_iff : s'.scanOverflowed = false ↔
    ∀ r ∈ s'.results, ∀ a, r.start ≤ a → a < r.start + r.length → s'.isPoisoned a = true
  /-- If not, the list has overflowed, now or at the time that is known already. -/
  flagged : s'.scanOverflowed = true → s'.overflowedAt = some (s.overflowedAt.getD now)
  /-- A list that has not overflowed before loses nothing. -/
  kept : s.overflowedAt = none → ∀ a kind, s.kindAt a = some kind → s'.kindAt a = some kind

/-- **A scan parts the ground truth, and covers what it found unless the list is full.** -/
theorem begunScan_after (h : ∀ op ∈ past, op.InSpace) (start length : Nat) (now : Timestamp) :
    BegunScan (after past) start length now ((after past).beginScan start length now) := by
  have hs : (after past).WellFormed := WellFormed.after h
  refine ⟨results_beginScan.trans hs.found_eq, groundTruth_beginScan.trans hs.left_eq,
    fun hpos r hr => ?_, ?_, fun hafter => ?_, fun hnone a kind ha => ?_⟩
  · rw [results_beginScan, mem_found, and_iff_right hr]
    exact overlaps_iff_exists (hs.truth r hr) hpos
  · rw [results_beginScan, ← Bool.not_eq_true, hs.scanOverflowed_beginScan_iff]
    constructor
    · intro hall r hr a hlo hhi
      by_contra hout
      rw [isPoisoned_iff] at hout
      exact hall ⟨a, (covers_iff_exists hs.whole_found).mpr ⟨r, hr, hlo, hhi⟩, hout⟩
    · rintro hall ⟨a, ha, hout⟩
      obtain ⟨r, hr, hlo, hhi⟩ := (covers_iff_exists hs.whole_found).mp ha
      exact hout (isPoisoned_iff.mp (hall r hr a hlo hhi))
  · rw [beginScan_eq] at hafter ⊢
    exact overflowedAt_of_scanOverflowed (s := (after past).opened start length) rfl hafter
  · have hlive : Covers (after past).live a := by
      rw [← kindAt_ne_none_iff]
      exact fun hn => Option.some_ne_none kind (ha.symm.trans hn)
    rw [hs.kindAt_beginScan hnone hlive]
    exact ha

/-- Two errors with a line in common, an error elsewhere, and an injection. -/
def sharedLine : List Op :=
  [.inject 0x10c0 false, .mediaError 0x1040 0x80 .vendor 2, .mediaError 0x4000 0x40 .external 1,
    .mediaError 0x1000 0x80 .internal 0]

theorem begunScan_after_sharedLine :
    (∀ op ∈ sharedLine, op.InSpace) ∧
      BegunScan (after sharedLine) 0x1040 0x40 9 ((after sharedLine).beginScan 0x1040 0x40 9) ∧
      ((after sharedLine).beginScan 0x1040 0x40 9).results =
        [⟨0x1000, 0x80, .internal⟩, ⟨0x1040, 0x80, .vendor⟩] := by
  have h : ∀ op ∈ sharedLine, op.InSpace := by simp [sharedLine, Op.InSpace, lastLine]
  exact ⟨h, begunScan_after h 0x1040 0x40 9, by decide⟩

end Store

end CxlEndpoint.Poison
