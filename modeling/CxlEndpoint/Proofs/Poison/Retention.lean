import CxlEndpoint.Proofs.Poison.History

/-!
# What a scan lets go of

A media error stands in the ground truth until a scan finds it, and in the live list from then on.

* `Reported`: the lines with a media error. `Keeps`: one of the two lists has the line.
* `reported_of_keeps`: without injections nothing else is in the lists.
* `WellFormed.retains_iff`: a scan lets go of no line if it has room for what it finds, or what has
  no room is still covered (`Retains.found`), and if a live list that it drops is in the ground
  truth (`Retains.dropped`).
* `keeps_iff`: the lists keep all errors of a history exactly if each of its scans does.
* `not_keeps`: a scan that finds more than the live list has room for does not.
-/

namespace CxlEndpoint.Poison

/-- Media errors on addresses in front of the last line, and scans. -/
def Op.Observed : Op → Prop
  | mediaError start length _ _ => 0 < length ∧ start + length ≤ lastLine
  | beginScan .. | completeScan => True
  | _ => False

theorem Op.Observed.inSpace {op : Op} (h : op.Observed) : op.InSpace := by
  cases op with
  | inject address frozen => exact h.elim
  | clear address frozen now => exact h.elim
  | _ => trivial

namespace Store

/-- A media error was reported on the line of `a`. -/
def Reported (a : Nat) (past : List Op) : Prop :=
  ∃ start length kind now, .mediaError start length kind now ∈ past ∧ Touches start length a

/-- The line of `a` is in the live list or the ground truth. -/
def Keeps (s : Store) (a : Nat) : Prop := Covers s.live a ∨ Covers s.groundTruth a

/-- A scan of `s` lets go of nothing. If what it finds does not fit into the live list, it is
covered all the same; if it drops the live list, the ground truth has the lines of that list. -/
structure Retains (s : Store) (start length : Nat) (now : Timestamp) : Prop where
  found : (s.beginScan start length now).scanOverflowed = true →
    ∀ a, Covers (s.found start length) a → (s.beginScan start length now).Keeps a
  dropped : s.overflowedAt ≠ none → ∀ a, Covers s.live a → Covers s.groundTruth a

variable {s : Store} {op : Op} {past : List Op} {a start length : Nat} {kind : Kind}
  {now : Timestamp}

theorem wellFormed_of_observed (h : ∀ op ∈ past, op.Observed) : (after past).WellFormed :=
  WellFormed.after fun op hop => (h op hop).inSpace

/-! ## One operation -/

theorem reported_mediaError :
    Reported a (.mediaError start length kind now :: past) ↔
      Touches start length a ∨ Reported a past := by
  constructor
  · rintro ⟨start', length', kind', now', hop, ha⟩
    rcases List.mem_cons.mp hop with hop | hop
    · cases hop
      exact Or.inl ha
    · exact Or.inr ⟨start', length', kind', now', hop, ha⟩
  · rintro (ha | ⟨start', length', kind', now', hop, ha⟩)
    · exact ⟨start, length, kind, now, List.mem_cons_self, ha⟩
    · exact ⟨start', length', kind', now', List.mem_cons_of_mem _ hop, ha⟩

@[simp] theorem reported_beginScan :
    Reported a (.beginScan start length now :: past) ↔ Reported a past := by
  simp [Reported]

@[simp] theorem reported_completeScan :
    Reported a (.completeScan :: past) ↔ Reported a past := by
  simp [Reported]

theorem WellFormed.keeps_recordMediaError (h : s.WellFormed) (hpos : 0 < length)
    (hle : start + length ≤ lastLine) :
    (s.recordMediaError start length kind now).Keeps a ↔ Touches start length a ∨ s.Keeps a := by
  obtain ⟨r, hr, htouch⟩ := exists_mediaError? hpos hle
  rw [recordMediaError_of_some hr, ← htouch]
  simp only [Keeps, covers_append, covers_singleton]
  constructor
  · rintro (hc | hc | ha)
    · exact (h.tidy.covers_of_covers_insertLive (whole_of_mediaError? hr) hc).imp_right Or.inl
    · exact Or.inr (Or.inr hc)
    · exact Or.inl ha
  · rintro (ha | hc | hc)
    · exact Or.inr (Or.inr ha)
    · exact Or.inl (hc.mono sublist_insertLive.subset)
    · exact Or.inr (Or.inl hc)

theorem WellFormed.keeps_of_beginScan (h : s.WellFormed)
    (hk : (s.beginScan start length now).Keeps a) : s.Keeps a := by
  rcases hk with hc | hc
  · rcases h.covers_of_beginScan hc with hc | hc
    · exact Or.inr (covers_groundTruth.mpr (Or.inl hc))
    · exact Or.inl (hc.mono kept_sublist.subset)
  · rw [groundTruth_beginScan] at hc
    exact Or.inr (covers_groundTruth.mpr (Or.inr hc))

/-- `Retains` says exactly that the scan lets go of no line. -/
theorem WellFormed.retains_iff (h : s.WellFormed) :
    s.Retains start length now ↔
      ∀ a, s.Keeps a → (s.beginScan start length now).Keeps a := by
  constructor
  · intro hret a hk
    have htruth : Covers s.groundTruth a → (s.beginScan start length now).Keeps a := fun hc => by
      rcases covers_groundTruth.mp hc with hc | hc
      · cases hfits : (s.beginScan start length now).scanOverflowed with
        | true => exact hret.found hfits a hc
        | false => exact Or.inl ((h.covers_beginScan hfits).mpr (Or.inl hc))
      · refine Or.inr ?_
        rwa [groundTruth_beginScan]
    rcases hk with hc | hc
    · by_cases hfull : s.overflowedAt = none
      · refine Or.inl (Covers.mono ?_ kept_sublist_beginScan.subset)
        rwa [kept, hfull]
      · exact htruth (hret.dropped hfull a hc)
    · exact htruth hc
  · intro hall
    refine ⟨fun _ a hc => hall a (Or.inr (covers_groundTruth.mpr (Or.inl hc))),
      fun hfull a hc => ?_⟩
    rcases hall a (Or.inl hc) with hc | hc
    · refine covers_groundTruth.mpr (Or.inl ((h.covers_of_beginScan hc).resolve_right ?_))
      rw [kept, if_pos (Option.isSome_iff_ne_none.mpr hfull)]
      exact not_covers_nil
    · rw [groundTruth_beginScan] at hc
      exact covers_groundTruth.mpr (Or.inr hc)

/-! ## Histories -/

/-- The lists hold media errors only. -/
theorem reported_of_keeps (h : ∀ op ∈ past, op.Observed) (hk : (after past).Keeps a) :
    Reported a past := by
  induction past with
  | nil => exact absurd hk (by simp [after, empty, Keeps])
  | cons op past ih =>
    obtain ⟨hop, hpast⟩ := List.forall_mem_cons.mp h
    have hs : (after past).WellFormed := wellFormed_of_observed hpast
    cases op with
    | inject address frozen => exact hop.elim
    | clear address frozen now => exact hop.elim
    | mediaError start length kind now =>
      rw [reported_mediaError]
      exact ((hs.keeps_recordMediaError hop.1 hop.2).mp hk).imp_right (ih hpast)
    | beginScan start length now =>
      rw [reported_beginScan]
      exact ih hpast (hs.keeps_of_beginScan hk)
    | completeScan =>
      rw [reported_completeScan]
      exact ih hpast hk
    | takeResults limit => exact hop.elim

theorem keeps_of_retains (h : ∀ op ∈ past, op.Observed)
    (hret : ∀ p start length now, .beginScan start length now :: p <:+ past →
      (after p).Retains start length now)
    (ha : Reported a past) : (after past).Keeps a := by
  induction past with
  | nil =>
    obtain ⟨_, _, _, _, hop, -⟩ := ha
    cases hop
  | cons op past ih =>
    obtain ⟨hop, hpast⟩ := List.forall_mem_cons.mp h
    have hs : (after past).WellFormed := wellFormed_of_observed hpast
    have hkeep : Reported a past → (after past).Keeps a :=
      ih hpast fun p start length now hp => hret p start length now
        (hp.trans (List.suffix_cons op past))
    cases op with
    | inject address frozen => exact hop.elim
    | clear address frozen now => exact hop.elim
    | mediaError start length kind now =>
      rw [reported_mediaError] at ha
      exact (hs.keeps_recordMediaError hop.1 hop.2).mpr (ha.imp_right hkeep)
    | beginScan start length now =>
      rw [reported_beginScan] at ha
      exact hs.retains_iff.mp (hret past start length now (List.suffix_refl _)) a (hkeep ha)
    | completeScan =>
      rw [reported_completeScan] at ha
      exact hkeep ha
    | takeResults limit => exact hop.elim

/-- **The lists keep all errors exactly if every scan lets go of none.** -/
theorem keeps_iff (h : ∀ op ∈ past, op.Observed) :
    (∀ p, p <:+ past → ∀ a, Reported a p → (after p).Keeps a) ↔
      ∀ p start length now, .beginScan start length now :: p <:+ past →
        (after p).Retains start length now := by
  constructor
  · intro hkeep p start length now hp
    have hpast : ∀ op ∈ p, op.Observed := fun op hop =>
      h op (hp.subset (List.mem_cons_of_mem _ hop))
    have hs : (after p).WellFormed := wellFormed_of_observed hpast
    refine hs.retains_iff.mpr fun a hk => hkeep _ hp a ?_
    rw [reported_beginScan]
    exact reported_of_keeps hpast hk
  · intro hret p hp a ha
    exact keeps_of_retains (fun op hop => h op (hp.subset hop))
      (fun q start length now hq => hret q start length now (hq.trans hp)) ha

/-- Two errors, and a scan of the page of the first. -/
def pageScan : List Op :=
  [.completeScan, .beginScan 0 0x1000 3, .mediaError 0x1010 0x20 .vendor 2,
    .mediaError 0x40 0x80 .internal 1]

theorem keeps_iff_pageScan :
    (∀ op ∈ pageScan, op.Observed) ∧
      ∀ p, p <:+ pageScan → ∀ a, Reported a p → (after p).Keeps a := by
  have h : ∀ op ∈ pageScan, op.Observed := by simp [pageScan, Op.Observed, lastLine]
  refine ⟨h, (keeps_iff h).mpr fun p start length now hp => ?_⟩
  simp only [pageScan, List.suffix_cons_iff, List.suffix_nil, List.cons.injEq, reduceCtorEq,
    false_and, false_or, or_false, Op.beginScan.injEq] at hp
  obtain ⟨⟨rfl, rfl, rfl⟩, rfl⟩ := hp
  exact ⟨fun hfits => absurd hfits (by decide), fun hfull => absurd (by decide) hfull⟩

/-! ## A scan that finds too much -/

theorem live_addResults_scattered {n : Nat} (h : n ≤ listLimit) (hl : s.live = []) :
    (addResults now s (scatteredRecords n)).live = scatteredRecords n := by
  induction n with
  | zero => exact hl
  | succ n ih =>
    rw [scatteredRecords_succ, addResults_concat, addResult_eq, ih (by omega),
      insertLive_scatteredRecord (by omega), if_pos (by omega),
      scatteredRecords_succ]

/-- The scan finds all errors. -/
theorem overlaps_scattered {r : Record} (hr : r ∈ scatteredRecords (listLimit + 1)) :
    r.Overlaps 0 (Word.addSat 0 0x8080) := by
  obtain ⟨i, hi, rfl⟩ := mem_scatteredRecords.mp hr
  unfold listLimit at hi
  constructor
  · show i * 128 < 0x8080
    omega
  · rw [stop_scatteredRecord (by unfold listLimit; omega)]
    omega

theorem found_wideScan :
    (after (scattered (listLimit + 1))).found 0 0x8080 = scatteredRecords (listLimit + 1) := by
  rw [after_scattered_full]
  exact List.filter_eq_self.mpr fun r hr => decide_eq_true (overlaps_scattered hr)

/-- It drops the live list before. -/
theorem live_opened_wideScan : ((after (scattered (listLimit + 1))).opened 0 0x8080).live = [] := by
  rw [after_scattered_full]
  rfl

/-- The live list has no room for the last of them. -/
theorem live_wideScan :
    (after (.beginScan 0 0x8080 9 :: scattered (listLimit + 1))).live =
      scatteredRecords listLimit := by
  show ((after (scattered (listLimit + 1))).beginScan 0 0x8080 9).live = _
  rw [beginScan_eq, found_wideScan, scatteredRecords_succ, addResults_concat, addResult_eq,
    live_addResults_scattered (Nat.le_refl _) live_opened_wideScan,
    insertLive_scatteredRecord (Nat.le_refl _), if_neg (Nat.lt_irrefl _)]

theorem groundTruth_wideScan :
    (after (.beginScan 0 0x8080 9 :: scattered (listLimit + 1))).groundTruth = [] := by
  show ((after (scattered (listLimit + 1))).beginScan 0 0x8080 9).groundTruth = _
  rw [groundTruth_beginScan, after_scattered_full]
  exact List.filter_eq_nil_iff.mpr fun r hr => by simpa using overlaps_scattered hr

/-- The device forgets the error that it had no room for. -/
theorem not_keeps :
    ¬ ∀ past, (∀ op ∈ past, op.Observed) → ∀ a, Reported a past → (after past).Keeps a := by
  intro h
  have hobserved : ∀ op ∈ .beginScan 0 0x8080 9 :: scattered (listLimit + 1), op.Observed := by
    refine List.forall_mem_cons.mpr ⟨trivial, fun op hop => ?_⟩
    obtain ⟨i, hi, rfl⟩ := mem_scattered.mp hop
    unfold listLimit at hi
    simp only [Op.Observed, lastLine]
    omega
  have hlast : .mediaError (listLimit * 128) 64 .internal 0 ∈
      .beginScan 0 0x8080 9 :: scattered (listLimit + 1) :=
    List.mem_cons_of_mem _ (mem_scattered.mpr ⟨listLimit, Nat.lt_succ_self _, rfl⟩)
  rcases h _ hobserved (listLimit * 128)
    ⟨_, _, _, _, hlast, listLimit * 128, Nat.le_refl _, by omega, rfl⟩ with ⟨r, hr, ha⟩ | hc
  · rw [live_wideScan] at hr
    obtain ⟨i, hi, rfl⟩ := mem_scatteredRecords.mp hr
    rw [(whole_scatteredRecord (Nat.le_of_lt hi)).containsLine_iff,
      stop_scatteredRecord (Nat.le_of_lt hi)] at ha
    omega
  · rw [groundTruth_wideScan] at hc
    exact not_covers_nil hc

end Store

end CxlEndpoint.Poison
