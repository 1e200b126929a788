import CxlEndpoint.Proofs.Poison.History

/-!
# What the overflow flag promises

While the flag is clear, the live list should show every media error that the host has not cleared.

* `Owed`: the lines with such an error. `Shows`: the live list has all of them.
* `Shows.step`: no operation hides an error and leaves the flag clear.
* `shows_iff`: so the promise can break only where the end of a scan clears a flag that was set
  (`Mends`). It holds there if the lines are shown by then, which for the scan itself means that it
  found all of them.
* `not_shows`: a scan that finds nothing clears the flag as well, and the promise is broken.
-/

namespace CxlEndpoint.Poison

/-- Media errors on addresses in front of the last line, clears between scans, and scans. -/
def Op.Watched : Op → Prop
  | mediaError start length _ _ => 0 < length ∧ start + length ≤ lastLine
  | clear address frozen _ => frozen = false ∧ address < lastLine
  | beginScan .. | completeScan => True
  | _ => False

theorem Op.Watched.inSpace {op : Op} (h : op.Watched) : op.InSpace := by
  cases op with
  | inject address frozen => exact h.elim
  | clear address frozen now => exact h.2
  | _ => trivial

namespace Store

/-- A media error was reported on the line of `a`, and the host has not cleared the line since. -/
def Owed (a : Nat) : List Op → Prop
  | [] => False
  | .mediaError start length _ _ :: past => Touches start length a ∨ Owed a past
  | .clear address _ _ :: past => lineStart a ≠ lineStart address ∧ Owed a past
  | _ :: past => Owed a past

/-- A scan has begun and is not over. -/
def scanning : List Op → Bool
  | [] => false
  | .beginScan .. :: _ => true
  | .completeScan :: _ => false
  | _ :: past => scanning past

/-- Scans begin and end in turn. -/
def Paired : List Op → Prop
  | [] => True
  | .beginScan .. :: past => scanning past = false ∧ Paired past
  | .completeScan :: past => scanning past = true ∧ Paired past
  | _ :: past => Paired past

/-- The live list shows every error that the host has not cleared. -/
def Shows (past : List Op) : Prop := ∀ a, Owed a past → (after past).isPoisoned a = true

/-- The end of the scan would clear a flag that is set. -/
def Mends (s : Store) : Prop := s.overflowedAt ≠ none ∧ s.scanOverflowed = false

variable {s : Store} {op : Op} {past : List Op} {a address start length : Nat} {kind : Kind}
  {now : Timestamp}

theorem wellFormed_of_watched (h : ∀ op ∈ past, op.Watched) : (after past).WellFormed :=
  WellFormed.after fun op hop => (h op hop).inSpace

/-! ## One operation -/

theorem shows_iff_covers : Shows past ↔ ∀ a, Owed a past → Covers (after past).live a := by
  simp only [Shows, isPoisoned_iff]

/-- An error that leaves the flag clear went into the live list as a whole. -/
theorem WellFormed.covers_recordMediaError (h : s.WellFormed) (hpos : 0 < length)
    (hle : start + length ≤ lastLine)
    (hnone : (s.recordMediaError start length kind now).overflowedAt = none)
    (ha : Touches start length a ∨ Covers s.live a) :
    Covers (s.recordMediaError start length kind now).live a := by
  obtain ⟨r, hr, htouch⟩ := exists_mediaError? hpos hle
  rw [recordMediaError_of_some hr] at hnone ⊢
  rw [← htouch] at ha
  refine (h.tidy.covers_insertLive (whole_of_mediaError? hr) ?_).mpr ha
  by_contra hout
  simp [hout] at hnone

/-- A clear that leaves the flag clear takes away no line but its own. -/
theorem WellFormed.covers_clear (h : s.WellFormed)
    (hnone : (s.clear address false now).1.overflowedAt = none)
    (hne : lineStart a ≠ lineStart address) (ha : Covers s.live a) :
    Covers (s.clear address false now).1.live a := by
  obtain ⟨-, hclear⟩ | ⟨r, hr, hra, ⟨-, hclear⟩ | ⟨-, l, -, -, hkind, hclear⟩⟩ :=
    h.clear_cases address now
  · rwa [hclear]
  · rw [hclear] at hnone
    exact absurd (Option.or_eq_none_iff.mp hnone).2 (by simp)
  · rw [hclear, ← kindAt_ne_none_iff, hkind, if_neg hne]
    exact kindAt_ne_none_iff.mpr ha

/-- A scan that leaves the flag clear drops nothing. -/
theorem covers_beginScan_of_none (ha : Covers s.live a)
    (hnone : (s.beginScan start length now).overflowedAt = none) :
    Covers (s.beginScan start length now).live a := by
  refine Covers.mono ?_ kept_sublist_beginScan.subset
  rwa [kept, overflowedAt_of_beginScan hnone]

/-- No operation hides an error and leaves the flag clear. -/
theorem Shows.step (h : Shows past) (hs : (after past).WellFormed) (hop : op.Watched)
    (hnone : (after (op :: past)).overflowedAt = none) : Shows (op :: past) := by
  rw [shows_iff_covers] at h ⊢
  intro a ha
  cases op with
  | inject address frozen => exact hop.elim
  | clear address frozen now =>
    obtain ⟨rfl, -⟩ := hop
    exact hs.covers_clear hnone ha.1 (h a ha.2)
  | mediaError start length kind now =>
    exact hs.covers_recordMediaError hop.1 hop.2 hnone (ha.imp_right (h a))
  | beginScan start length now => exact covers_beginScan_of_none (h a ha) hnone
  | completeScan => exact h a ha
  | takeResults limit => exact hop.elim

/-- Only the end of a scan clears the flag. -/
theorem overflowedAt_of_step (hop : op.Watched) (hnone : (s.step op).overflowedAt = none) :
    s.overflowedAt = none ∨ op = .completeScan ∧ s.Mends := by
  cases op with
  | inject address frozen => exact hop.elim
  | clear address frozen now => exact Or.inl (overflowedAt_of_clear hnone)
  | mediaError start length kind now => exact Or.inl (overflowedAt_of_recordMediaError hnone)
  | beginScan start length now => exact Or.inl (overflowedAt_of_beginScan hnone)
  | completeScan =>
    change (if s.scanOverflowed then s.overflowedAt else none) = none at hnone
    split at hnone
    · exact Or.inl hnone
    · by_cases hs : s.overflowedAt = none
      · exact Or.inl hs
      · exact Or.inr ⟨rfl, hs, by simpa using ‹¬ s.scanOverflowed = true›⟩
  | takeResults limit => exact hop.elim

/-! ## Histories -/

/-- If the flag was never cleared too early, it tells the truth. -/
theorem shows_of_mended (h : ∀ op ∈ past, op.Watched)
    (hmend : ∀ p, .completeScan :: p <:+ past → (after p).Mends → Shows p)
    (hnone : (after past).overflowedAt = none) : Shows past := by
  induction past with
  | nil => exact fun a ha => ha.elim
  | cons op past ih =>
    obtain ⟨hop, hpast⟩ := List.forall_mem_cons.mp h
    have hs : (after past).WellFormed := wellFormed_of_watched hpast
    refine Shows.step ?_ hs hop hnone
    obtain hnone | ⟨rfl, hm⟩ := overflowedAt_of_step hop hnone
    · exact ih hpast (fun p hp => hmend p (hp.trans (List.suffix_cons op past))) hnone
    · exact hmend past (List.suffix_refl _) hm

/-- A scan of a list that has overflowed shows every error if it found them all. -/
theorem shows_beginScan (hs : (after past).WellFormed)
    (hfull : (after past).overflowedAt ≠ none)
    (hfits : ((after past).beginScan start length now).scanOverflowed = false) :
    Shows (.beginScan start length now :: past) ↔
      ∀ a, Owed a past → Covers ((after past).found start length) a := by
  rw [shows_iff_covers]
  refine forall_congr' fun a => imp_congr_right fun _ => ?_
  show Covers ((after past).beginScan start length now).live a ↔ _
  rw [hs.covers_beginScan hfits, kept, if_pos (Option.isSome_iff_ne_none.mpr hfull)]
  simp

/-- **The flag tells the truth if no scan clears it too early.** -/
theorem shows_iff (h : ∀ op ∈ past, op.Watched) :
    ((∀ p, p <:+ past → scanning p = false → (after p).overflowedAt = none → Shows p) ↔
      ∀ p, .completeScan :: p <:+ past → (after p).Mends → Shows p) ∧
    (∀ start length now, (after past).overflowedAt ≠ none →
      ((after past).beginScan start length now).scanOverflowed = false →
      (Shows (.beginScan start length now :: past) ↔
        ∀ a, Owed a past → Covers ((after past).found start length) a)) := by
  refine ⟨⟨fun hshow p hp hm => ?_, fun hmend p hp _ hnone => ?_⟩, fun start length now => ?_⟩
  · -- Behind the end of the scan the list is the same and the flag is clear.
    have hnone : (after (.completeScan :: p)).overflowedAt = none := by
      show (if (after p).scanOverflowed then (after p).overflowedAt else none) = none
      rw [hm.2]
      rfl
    exact hshow (.completeScan :: p) hp rfl hnone
  · exact shows_of_mended (fun op hop => h op (hp.subset hop))
      (fun q hq => hmend q (hq.trans hp)) hnone
  · exact shows_beginScan (wellFormed_of_watched h)

/-! ## A scan that finds nothing -/

theorem watched_scattered : ∀ op ∈ scattered (listLimit + 1), op.Watched := by
  intro op hop
  obtain ⟨i, hi, rfl⟩ := mem_scattered.mp hop
  unfold listLimit at hi
  simp only [Op.Watched, lastLine]
  omega

theorem owed_scattered {i n : Nat} (h : i < n) : Owed (i * 128) (scattered n) := by
  induction n with
  | zero => exact absurd h (Nat.not_lt_zero i)
  | succ n ih =>
    by_cases hi : i = n
    · exact Or.inl ⟨i * 128, by omega, by omega, rfl⟩
    · exact Or.inr (ih (by omega))

theorem paired_scattered {n : Nat} : scanning (scattered n) = false ∧ Paired (scattered n) := by
  induction n with
  | zero => exact ⟨rfl, trivial⟩
  | succ n ih => exact ih

theorem found_zero : s.found 0 0 = [] := by
  refine List.filter_eq_nil_iff.mpr fun r _ hr => ?_
  exact Nat.not_lt_zero r.start (of_decide_eq_true hr).1

/-- The flag is set while the errors are reported, and a scan that finds none hides them all. -/
theorem shows_iff_scattered :
    (∀ op ∈ scattered (listLimit + 1), op.Watched) ∧
      (∀ p, p <:+ scattered (listLimit + 1) → scanning p = false →
        (after p).overflowedAt = none → Shows p) ∧
      ¬ Shows (.beginScan 0 0 9 :: scattered (listLimit + 1)) := by
  obtain ⟨hshow, hscan⟩ := shows_iff watched_scattered
  refine ⟨watched_scattered, hshow.mpr fun p hp => ?_, fun h => ?_⟩
  · obtain ⟨i, -, hi⟩ := mem_scattered.mp (hp.subset List.mem_cons_self)
    cases hi
  · rw [hscan 0 0 9 (by rw [after_scattered_full]; simp)
      (by rw [beginScan_eq, found_zero]; rfl), found_zero] at h
    exact not_covers_nil (h _ (owed_scattered (Nat.zero_lt_succ _)))

/-- The end of that scan clears the flag. -/
theorem not_shows :
    ¬ ∀ past, (∀ op ∈ past, op.Watched) → Paired past → scanning past = false →
      (after past).overflowedAt = none → ∀ a, Owed a past → (after past).isPoisoned a = true := by
  intro h
  have hlive : (after (.completeScan :: .beginScan 0 0 9 :: scattered (listLimit + 1))) =
      ((after (scattered (listLimit + 1))).opened 0 0).completeScan := by
    show ((after (scattered (listLimit + 1))).beginScan 0 0 9).completeScan = _
    rw [beginScan_eq, found_zero]
    rfl
  have h0 := h (.completeScan :: .beginScan 0 0 9 :: scattered (listLimit + 1))
    (by simpa [Op.Watched] using watched_scattered) ⟨rfl, paired_scattered⟩ rfl
    (by rw [hlive]; rfl) _ (owed_scattered (Nat.zero_lt_succ listLimit))
  rw [hlive, after_scattered_full] at h0
  cases h0

end Store

end CxlEndpoint.Poison
