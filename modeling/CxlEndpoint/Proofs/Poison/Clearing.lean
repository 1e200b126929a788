import CxlEndpoint.Proofs.Poison.History

/-!
# What brings a cleared line back

`clear` takes a line out of the live list and leaves the ground truth alone, so a media error that
no scan has found yet outlives it there.

* `Op.Names`: the operation is about the line, as an injection or a media error.
* `WellFormed.covers_of_step`: other operations than these put a line into the live list only as
  a scan that finds an error on it. `mem_groundTruth_of_step`: and they report no new one.
* `Store.Revives`: a scan finds an error on the line and has room for it.
* `stays_clear_iff`: a cleared line stays clear exactly as long as no scan revives it, and the
  errors that can do so are those that the ground truth held when the line was cleared.
* `not_stays_clear`: an error, a clear and a scan of the line.
-/

namespace CxlEndpoint.Poison

/-- The host injects the line of `a`, or the device reports an error that reaches from the line of
its first address over it. -/
def Op.Names (a : Nat) : Op → Prop
  | inject address _ => lineStart a = lineStart address
  | mediaError start length _ _ => Store.InRange start length a
  | _ => False

namespace Store

variable {s : Store} {op : Op} {past later : List Op} {r : Record} {a address start length : Nat}
  {kind : Kind} {now : Timestamp}

/-- A scan of `s` finds an error on the line of `a` and has room for it: it does not overflow, or
the live list has the line all the same. -/
def Revives (s : Store) (start length : Nat) (now : Timestamp) (a : Nat) : Prop :=
  Covers (s.found start length) a ∧
    ((s.beginScan start length now).scanOverflowed = false ∨
      Covers (s.beginScan start length now).live a)

/-! ## One operation -/

theorem WellFormed.not_covers_clear (h : s.WellFormed) :
    ¬ Covers (s.clear address false now).1.live address := by
  obtain ⟨hnone, hclear⟩ | ⟨r, hr, ha, ⟨-, hclear⟩ | ⟨-, l, -, -, hkind, hclear⟩⟩ :=
    h.clear_cases address now
  · rwa [hclear]
  · rw [hclear, ← Poison.kindAt_eq_none_iff]
    show Poison.kindAt (below s.live r address) address = none
    have hlt := lt_lineStart_add address
    rw [kindAt_below h.tidy hr ha, if_pos ⟨lineStart_le address, Nat.lt_of_lt_of_le hlt ha.2⟩]
  · rw [hclear, ← Poison.kindAt_eq_none_iff]
    show Poison.kindAt l address = none
    rw [hkind, if_pos rfl]

theorem WellFormed.covers_of_clear (h : s.WellFormed) {frozen : Bool}
    (hc : Covers (s.clear address frozen now).1.live a) : Covers s.live a := by
  cases frozen with
  | true => exact hc
  | false =>
    obtain ⟨-, hclear⟩ | ⟨r, hr, ha, ⟨-, hclear⟩ | ⟨-, l, -, -, hkind, hclear⟩⟩ :=
      h.clear_cases address now
    · rwa [hclear] at hc
    · rw [hclear, ← kindAt_ne_none_iff] at hc
      change Poison.kindAt (below s.live r address) a ≠ none at hc
      rw [kindAt_below h.tidy hr ha] at hc
      split at hc
      · exact absurd rfl hc
      · exact kindAt_ne_none_iff.mp hc
    · rw [hclear, ← kindAt_ne_none_iff] at hc
      change Poison.kindAt l a ≠ none at hc
      rw [hkind] at hc
      split at hc
      · exact absurd rfl hc
      · exact kindAt_ne_none_iff.mp hc

@[simp] theorem groundTruth_clear {frozen : Bool} :
    (s.clear address frozen now).1.groundTruth = s.groundTruth := by
  cases frozen with
  | true => rfl
  | false =>
    obtain ⟨-, hclear⟩ | ⟨r, -, -, hclear⟩ := s.clear_cases address now
    · rw [hclear]
    · rw [hclear]
      split
      · rfl
      · split <;> rfl

/-- An accepted injection puts in no line but its own. -/
theorem covers_of_inject? {s' : Store} {frozen : Bool} (haddr : address < lastLine)
    (hs : s.inject? address frozen = some s') :
    s'.groundTruth = s.groundTruth ∧
      (Covers s'.live a → lineStart a = lineStart address ∨ Covers s.live a) := by
  cases frozen with
  | true =>
    rw [inject?_true] at hs
    obtain rfl := Option.some.inj hs
    exact ⟨rfl, Or.inr⟩
  | false =>
    rw [inject?_false] at hs
    split at hs
    · obtain rfl := Option.some.inj hs
      exact ⟨rfl, Or.inr⟩
    · split at hs
      · cases hs
      · obtain rfl := Option.some.inj hs
        refine ⟨rfl, ?_⟩
        rintro ⟨r, hr, ha⟩
        rcases mem_insertSorted.mp hr with rfl | hr
        · exact Or.inl ((containsLine_line haddr).mp ha)
        · exact Or.inr ⟨r, hr, ha⟩

/-- A media error is recorded on no line that it does not reach. This holds of every range, also of
one that reaches over the last line. -/
theorem inRange_of_mediaError? (hr : mediaError? start length kind = some r) (ha : a < lastLine)
    (hra : r.ContainsLine a) : InRange start length a := by
  have hw := whole_of_mediaError? hr
  rw [hw.containsLine_iff, hw.stop_eq] at hra
  unfold mediaError? at hr
  simp only at hr
  split at hr
  · obtain rfl := Option.some.inj hr
    simp only [InRange, lastLine, lineStart, lineBytes, Word.addSat, Word.roundUp, Word.mulSat,
      Word.last] at *
    omega
  · cases hr

/-- An operation that does not name the line puts it into the live list only as a scan that finds
an error on it. -/
theorem WellFormed.covers_of_step (h : s.WellFormed) (hop : op.InSpace) (hn : ¬ op.Names a)
    (ha : a < lastLine) (hc : Covers (s.step op).live a) :
    Covers s.live a ∨
      ∃ start length t, op = .beginScan start length t ∧ Covers (s.found start length) a := by
  cases op with
  | inject address frozen =>
    change Covers ((s.inject? address frozen).getD s).live a at hc
    cases hs : s.inject? address frozen with
    | none =>
      rw [hs] at hc
      exact Or.inl hc
    | some s' =>
      rw [hs] at hc
      exact Or.inl (((covers_of_inject? hop hs).2 hc).resolve_left hn)
  | clear address frozen now => exact Or.inl (h.covers_of_clear hc)
  | mediaError start length kind now =>
    change Covers (s.recordMediaError start length kind now).live a at hc
    cases hr : mediaError? start length kind with
    | none =>
      rw [recordMediaError_of_none hr] at hc
      exact Or.inl hc
    | some r =>
      rw [recordMediaError_of_some hr] at hc
      rcases h.tidy.covers_of_covers_insertLive (whole_of_mediaError? hr) hc with hra | hc
      · exact absurd (inRange_of_mediaError? hr ha hra) hn
      · exact Or.inl hc
  | beginScan start length now =>
    rcases h.covers_of_beginScan hc with hc | hc
    · exact Or.inr ⟨start, length, now, rfl, hc⟩
    · exact Or.inl (hc.mono kept_sublist.subset)
  | completeScan => exact Or.inl hc
  | takeResults limit => exact Or.inl hc

/-- An operation that does not name the line reports no error on it. -/
theorem mem_groundTruth_of_step (hop : op.InSpace) (hn : ¬ op.Names a) (ha : a < lastLine)
    (hr : r ∈ (s.step op).groundTruth) (hra : r.ContainsLine a) : r ∈ s.groundTruth := by
  cases op with
  | inject address frozen =>
    change r ∈ ((s.inject? address frozen).getD s).groundTruth at hr
    cases hs : s.inject? address frozen with
    | none => rwa [hs] at hr
    | some s' =>
      rw [hs] at hr
      rwa [← (covers_of_inject? (a := a) hop hs).1]
  | clear address frozen now =>
    change r ∈ (s.clear address frozen now).1.groundTruth at hr
    rwa [groundTruth_clear] at hr
  | mediaError start length kind now =>
    change r ∈ (s.recordMediaError start length kind now).groundTruth at hr
    cases hm : mediaError? start length kind with
    | none => rwa [recordMediaError_of_none hm] at hr
    | some t =>
      rw [recordMediaError_of_some hm] at hr
      rcases List.mem_append.mp hr with hr | hr
      · exact hr
      · obtain rfl := List.mem_singleton.mp hr
        exact absurd (inRange_of_mediaError? hm ha hra) hn
  | beginScan start length now =>
    change r ∈ (s.beginScan start length now).groundTruth at hr
    rw [groundTruth_beginScan] at hr
    exact (List.mem_filter.mp hr).1
  | completeScan => exact hr
  | takeResults limit => exact hr

theorem WellFormed.covers_of_revives (h : s.WellFormed) (hrev : s.Revives start length now a) :
    Covers (s.beginScan start length now).live a := by
  obtain ⟨hfound, hfits | hc⟩ := hrev
  · exact (h.covers_beginScan hfits).mpr (Or.inl hfound)
  · exact hc

/-! ## Histories -/

/-- The operations after a clear of the line of `a`: none of them names it. -/
def Elsewhere (a : Nat) (later : List Op) : Prop := ∀ op ∈ later, op.InSpace ∧ ¬ op.Names a

theorem wellFormed_of_elsewhere (hpast : (after past).WellFormed) (h : Elsewhere a later) :
    (after (later ++ past)).WellFormed := by
  induction later with
  | nil => exact hpast
  | cons op later ih =>
    obtain ⟨hop, hlater⟩ := List.forall_mem_cons.mp h
    exact (ih hlater).step hop.1

/-- Errors on the line are older than the operations that do not name it. -/
theorem mem_groundTruth_of_elsewhere (h : Elsewhere a later) (ha : a < lastLine)
    (hr : r ∈ (after (later ++ past)).groundTruth) (hra : r.ContainsLine a) :
    r ∈ (after past).groundTruth := by
  induction later with
  | nil => exact hr
  | cons op later ih =>
    obtain ⟨hop, hlater⟩ := List.forall_mem_cons.mp h
    exact ih hlater (mem_groundTruth_of_step hop.1 hop.2 ha hr hra)

/-- A line that is not covered stays so until a scan revives it. -/
theorem not_covers_of_elsewhere (hpast : (after past).WellFormed) (h : Elsewhere a later)
    (ha : a < lastLine) (hclear : ¬ Covers (after past).live a)
    (hscan : ∀ p start length t, .beginScan start length t :: p <:+ later →
      ¬ (after (p ++ past)).Revives start length t a) :
    ¬ Covers (after (later ++ past)).live a := by
  induction later with
  | nil => exact hclear
  | cons op later ih =>
    obtain ⟨hop, hlater⟩ := List.forall_mem_cons.mp h
    have hprev : ¬ Covers (after (later ++ past)).live a := ih hlater fun p start length t hp =>
      hscan p start length t (hp.trans (List.suffix_cons op later))
    have hs : (after (later ++ past)).WellFormed := wellFormed_of_elsewhere hpast hlater
    intro hc
    rcases hs.covers_of_step hop.1 hop.2 ha hc with hc' | ⟨start, length, t, rfl, hfound⟩
    · exact hprev hc'
    · exact hscan later start length t (List.suffix_refl _) ⟨hfound, Or.inr hc⟩

/-- **A cleared line stays clear exactly as long as no scan revives it.** -/
theorem stays_clear_iff (now : Timestamp) (hpast : ∀ op ∈ past, op.InSpace)
    (ha : address < lastLine) (hlater : Elsewhere address later) :
    ((∀ p, p <:+ later →
        (after (p ++ .clear address false now :: past)).isPoisoned address = false) ↔
      ∀ p start length t, .beginScan start length t :: p <:+ later →
        ¬ (after (p ++ .clear address false now :: past)).Revives start length t address) ∧
    ∀ p, p <:+ later → ∀ r ∈ (after (p ++ .clear address false now :: past)).groundTruth,
      r.ContainsLine address → r ∈ (after past).groundTruth := by
  have hs : (after past).WellFormed := WellFormed.after hpast
  have hcleared : (after (.clear address false now :: past)).WellFormed := hs.clear
  have hsuffix : ∀ {p}, p <:+ later → Elsewhere address p := fun hp op hop =>
    hlater op (hp.subset hop)
  refine ⟨⟨fun hclear p start length t hp hrev => ?_, fun hscan p hp => ?_⟩,
    fun p hp r hr hra => ?_⟩
  · have hpw := wellFormed_of_elsewhere hcleared
      (hsuffix ((List.suffix_cons (.beginScan start length t) p).trans hp))
    have hpoisoned := isPoisoned_iff.mpr (hpw.covers_of_revives hrev)
    exact Bool.false_ne_true ((hclear _ hp).symm.trans hpoisoned)
  · rw [← Bool.not_eq_true, isPoisoned_iff]
    exact not_covers_of_elsewhere hcleared (hsuffix hp) ha hs.not_covers_clear
      fun q start length t hq => hscan q start length t (hq.trans hp)
  · have hr' := mem_groundTruth_of_elsewhere (hsuffix hp) ha hr hra
    change r ∈ ((after past).clear address false now).1.groundTruth at hr'
    rwa [groundTruth_clear] at hr'

/-- A scan finds an error, and then the second of its lines is cleared. -/
def foundBefore : List Op :=
  [.completeScan, .beginScan 0 0x1000 3, .mediaError 0 0xc0 .internal 1]

/-- Errors, an injection and another scan on both sides of that line. -/
def aroundLine : List Op :=
  [.beginScan 0 0x1000 9, .inject 0 false, .mediaError 0x80 0x40 .vendor 8, .takeResults 1]

theorem stays_clear_iff_aroundLine :
    (∀ op ∈ foundBefore, op.InSpace) ∧ 0x40 < lastLine ∧ Elsewhere 0x40 aroundLine ∧
      ∀ p, p <:+ aroundLine →
        (after (p ++ .clear 0x40 false 5 :: foundBefore)).isPoisoned 0x40 = false := by
  have hpast : ∀ op ∈ foundBefore, op.InSpace := by simp [foundBefore, Op.InSpace]
  have hlater : Elsewhere 0x40 aroundLine := by
    simp [Elsewhere, aroundLine, Op.InSpace, Op.Names, InRange, lastLine, lineStart, lineBytes,
      Word.roundUp, Word.mulSat, Word.last]
  have hline : 0x40 < lastLine := by decide
  obtain ⟨hiff, hold⟩ := stays_clear_iff 5 hpast hline hlater
  refine ⟨hpast, hline, hlater, hiff.mpr fun p start length t hp hrev => ?_⟩
  -- The ground truth was empty when the line was cleared.
  obtain ⟨⟨r, hr, hra⟩, -⟩ := hrev
  have hmem := hold p ((List.suffix_cons _ p).trans hp) r (mem_found.mp hr).1 hra
  have hempty : (after foundBefore).groundTruth = [] := by decide
  rw [hempty] at hmem
  cases hmem

/-- A scan brings back a line whose error it is the first to find. -/
theorem not_stays_clear :
    ¬ ∀ past later address now, (∀ op ∈ past, op.InSpace) → address < lastLine →
      Elsewhere address later →
      (after (later ++ .clear address false now :: past)).isPoisoned address = false := by
  intro h
  have hclear := h [.mediaError 0 0x40 .internal 5] [.beginScan 0 0x40 7] 0 6
    (by simp [Op.InSpace]) (by decide) (by simp [Elsewhere, Op.InSpace, Op.Names])
  have hback : (after [.beginScan 0 0x40 7, .clear 0 false 6,
      .mediaError 0 0x40 .internal 5]).isPoisoned 0 = true := by decide
  exact Bool.false_ne_true (hclear.symm.trans hback)

end Store

end CxlEndpoint.Poison
