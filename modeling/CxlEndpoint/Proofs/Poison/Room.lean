import CxlEndpoint.Proofs.Poison.Retention
import CxlEndpoint.Proofs.Poison.ScanStart

/-!
# Calls for which the live list has no room

Every call that has to leave something out of the live list sets the overflow flag, and keeps the
time of an earlier overflow. The end of a scan looks at a second mark, which the start of the scan
alone can set.

* `LacksRoom`: the live list has no room for a part of what a call is to leave in it.
  `WellFormed.lacksRoom_iff`: exactly then a line is missing from it that should be there (`Due`).
* `overflowedAt_step_of_lacksRoom`: such a call sets the flag, and `overflowedAt_of_meanwhile` says
  that the flag then stays until the end of the scan.
* `scanOverflowed_of_meanwhile`: what happens in the course of a scan leaves the second mark alone.
* `overflow_survives_iff`: so an overflow in the course of a scan is remembered after its end
  exactly if the start of the scan lacked room too, and with the time of that overflow or of an
  older one.
* `not_overflow_survives`: a list that overflows in the course of a scan that fits.
-/

namespace CxlEndpoint.Poison

/-- A call that may come between the start and the end of a scan: the device reports an error, or
the host clears a line. -/
def Op.Meanwhile : Op → Prop
  | mediaError .. | clear .. => True
  | _ => False

namespace Store

/-- The live list has no room for a part of a media error, of what lies above a cleared line, or of
what a scan has found. -/
def LacksRoom (s : Store) : Op → Prop
  | .mediaError start length kind _ =>
    ∃ r, mediaError? start length kind = some r ∧ (insertLive r s.live).2 = false
  | .clear address frozen _ =>
    frozen = false ∧ ∃ r, s.live.find? (fun r => r.ContainsLine address) = some r ∧
      lineStart address + lineBytes < r.stop ∧ listLimit ≤ (below s.live r address).length
  | .beginScan start length now =>
    ∃ front r back, s.found start length = front ++ r :: back ∧
      (insertLive r (addResults now (s.opened start length) front).live).2 = false
  | _ => False

/-- The call is to leave the line of `a` in the live list: a line of a media error, a live line
other than the cleared one, or a line that a scan has found. -/
def Due (s : Store) : Op → Nat → Prop
  | .mediaError start length kind _, a =>
    ∃ r, mediaError? start length kind = some r ∧ r.ContainsLine a
  | .clear address frozen _, a =>
    frozen = false ∧ lineStart a ≠ lineStart address ∧ Covers s.live a
  | .beginScan start length _, a => Covers (s.found start length) a
  | _, _ => False

/-- Some call of `window`, made after `past`, lacked room. -/
def LacksRoomIn (window past : List Op) : Prop :=
  ∃ op p, op :: p <:+ window ∧ (after (p ++ past)).LacksRoom op

variable {s : Store} {op : Op} {past window : List Op} {found : List Record} {r : Record}
  {address start length : Nat} {now time : Timestamp}

/-! ## One call -/

theorem or_ne_none (time? : Option Timestamp) (now : Timestamp) : time?.or (some now) ≠ none :=
  fun h => Option.some_ne_none now (Option.or_eq_none_iff.mp h).2

/-- A scan overflows exactly if one of the records that it found had no room when its turn came. -/
theorem scanOverflowed_addResults_iff :
    (addResults now s found).scanOverflowed = true ↔
      s.scanOverflowed = true ∨ ∃ front r back, found = front ++ r :: back ∧
        (insertLive r (addResults now s front).live).2 = false := by
  induction found generalizing s with
  | nil => simp [addResults]
  | cons t found ih =>
    have hmark : (addResult now s t).scanOverflowed = true ↔
        s.scanOverflowed = true ∨ (insertLive t s.live).2 = false := by
      rw [scanOverflowed_addResult]
      simp
    rw [addResults_cons, ih, hmark, or_assoc]
    refine or_congr_right ⟨?_, ?_⟩
    · rintro (hout | ⟨front, r, back, rfl, hout⟩)
      · exact ⟨[], t, found, rfl, hout⟩
      · exact ⟨t :: front, r, back, rfl, hout⟩
    · rintro ⟨front, r, back, heq, hout⟩
      cases front with
      | nil =>
        obtain ⟨rfl, rfl⟩ := List.cons.inj heq
        exact Or.inl hout
      | cons u front =>
        obtain ⟨rfl, rfl⟩ := List.cons.inj heq
        exact Or.inr ⟨front, r, back, rfl, hout⟩

theorem scanOverflowed_beginScan_iff_lacksRoom :
    (s.beginScan start length now).scanOverflowed = true ↔
      s.LacksRoom (.beginScan start length now) := by
  rw [beginScan_eq, scanOverflowed_addResults_iff]
  exact or_iff_right Bool.false_ne_true

/-- What finds no room sets the flag. -/
theorem overflowedAt_step_of_lacksRoom (h : s.LacksRoom op) : (s.step op).overflowedAt ≠ none := by
  cases op with
  | mediaError start length kind now =>
    obtain ⟨r, hr, hout⟩ := h
    show (s.recordMediaError start length kind now).overflowedAt ≠ none
    rw [recordMediaError_of_some hr, hout]
    exact or_ne_none _ _
  | clear address frozen now =>
    obtain ⟨rfl, r, hr, habove, hfull⟩ := h
    show (s.clear address false now).1.overflowedAt ≠ none
    rw [clear_of_find? hr, if_neg (Nat.not_le_of_lt habove), if_pos hfull]
    exact or_ne_none _ _
  | beginScan start length now =>
    have hmark := scanOverflowed_beginScan_iff_lacksRoom.mpr h
    show (s.beginScan start length now).overflowedAt ≠ none
    rw [beginScan_eq] at hmark ⊢
    rw [overflowedAt_of_scanOverflowed (s := s.opened start length) rfl hmark]
    exact Option.some_ne_none _
  | inject | completeScan | takeResults => exact h.elim

/-! ## In the course of a scan -/

theorem scanOverflowed_of_meanwhile (hop : op.Meanwhile) :
    (s.step op).scanOverflowed = s.scanOverflowed := by
  cases op with
  | mediaError start length kind now =>
    show (s.recordMediaError start length kind now).scanOverflowed = _
    cases hr : mediaError? start length kind with
    | none => rw [recordMediaError_of_none hr]
    | some r => rw [recordMediaError_of_some hr]
  | clear address frozen now =>
    show (s.clear address frozen now).1.scanOverflowed = _
    cases frozen with
    | true => rfl
    | false =>
      obtain ⟨-, hclear⟩ | ⟨r, -, -, hclear⟩ := s.clear_cases address now
      · rw [hclear]
      · rw [hclear]
        split
        · rfl
        · split <;> rfl
  | inject | beginScan | completeScan | takeResults => exact hop.elim

/-- The time of the first overflow stays. -/
theorem overflowedAt_of_meanwhile (hop : op.Meanwhile) (htime : s.overflowedAt = some time) :
    (s.step op).overflowedAt = some time := by
  have hor (now : Timestamp) : s.overflowedAt.or (some now) = some time := by rw [htime]; rfl
  cases op with
  | mediaError start length kind now =>
    show (s.recordMediaError start length kind now).overflowedAt = _
    cases hr : mediaError? start length kind with
    | none => rwa [recordMediaError_of_none hr]
    | some r =>
      rw [recordMediaError_of_some hr]
      split
      · exact htime
      · exact hor now
  | clear address frozen now =>
    show (s.clear address frozen now).1.overflowedAt = _
    cases frozen with
    | true => exact htime
    | false =>
      obtain ⟨-, hclear⟩ | ⟨r, -, -, hclear⟩ := s.clear_cases address now
      · rwa [hclear]
      · rw [hclear]
        split
        · exact htime
        · split
          · exact hor now
          · exact htime
  | inject | beginScan | completeScan | takeResults => exact hop.elim

theorem scanOverflowed_window (h : ∀ op ∈ window, op.Meanwhile) :
    (after (window ++ past)).scanOverflowed = (after past).scanOverflowed := by
  induction window with
  | nil => rfl
  | cons op window ih =>
    obtain ⟨hop, hwindow⟩ := List.forall_mem_cons.mp h
    exact (scanOverflowed_of_meanwhile hop).trans (ih hwindow)

theorem overflowedAt_window (h : ∀ op ∈ window, op.Meanwhile)
    (htime : (after past).overflowedAt = some time) :
    (after (window ++ past)).overflowedAt = some time := by
  induction window with
  | nil => exact htime
  | cons op window ih =>
    obtain ⟨hop, hwindow⟩ := List.forall_mem_cons.mp h
    exact overflowedAt_of_meanwhile hop (ih hwindow)

/-- Until the end of the scan, the flag tells of every overflow. -/
theorem overflowedAt_of_lacksRoomIn (h : ∀ op ∈ window, op.Meanwhile)
    (hlacks : LacksRoomIn window past) : (after (window ++ past)).overflowedAt ≠ none := by
  obtain ⟨op, p, ⟨later, rfl⟩, hroom⟩ := hlacks
  obtain ⟨time, htime⟩ := Option.ne_none_iff_exists'.mp (overflowedAt_step_of_lacksRoom hroom)
  have hlater : ∀ op ∈ later, op.Meanwhile := fun op hop => h op (List.mem_append_left _ hop)
  have hkept : (after (later ++ op :: (p ++ past))).overflowedAt = some time :=
    overflowedAt_window hlater htime
  rw [List.append_assoc, List.cons_append, hkept]
  exact Option.some_ne_none time

/-! ## What is missing -/

section WellFormed

variable (h : s.WellFormed)

include h

/-- `clear` lacks room exactly if it loses what lies above the line. -/
theorem WellFormed.lacksRoom_clear_iff :
    s.LacksRoom (.clear address false now) ↔ ∃ a, lineStart a ≠ lineStart address ∧
      Covers s.live a ∧ ¬ Covers (s.clear address false now).1.live a := by
  constructor
  · rintro ⟨-, r, hr, habove, hfull⟩
    have hmem := List.mem_of_find?_eq_some hr
    have ha : r.ContainsLine address := by simpa using List.find?_some hr
    have hline := lt_lineStart_add address
    have hstart := lineStart_le address
    refine ⟨lineStart address + lineBytes, ?_, ⟨r, hmem, ?_⟩, ?_⟩
    · simp only [lineStart, lineBytes]
      omega
    · rw [(h.tidy.whole r hmem).containsLine_iff]
      exact ⟨Nat.le_trans ha.1 (Nat.le_add_right _ _), habove⟩
    · rw [clear_of_find? hr, if_neg (Nat.not_le_of_lt habove), if_pos hfull]
      show ¬ Covers (below s.live r address) _
      rw [← Poison.kindAt_eq_none_iff, kindAt_below h.tidy hmem ha,
        if_pos ⟨Nat.le_add_right _ _, habove⟩]
  · rintro ⟨a, hne, hlive, hout⟩
    obtain ⟨-, hclear⟩ | ⟨r, hr, ha, ⟨⟨hlen, hlo, habove⟩, -⟩ | ⟨-, l, -, -, hkind, hclear⟩⟩ :=
      h.clear_cases address now
    · rw [hclear] at hout
      exact absurd hlive hout
    · have hfind : s.live.find? (fun r => r.ContainsLine address) = some r := by
        cases hfind : s.live.find? (fun r => r.ContainsLine address) with
        | none => exact absurd ha (by simpa using List.find?_eq_none.mp hfind r hr)
        | some t =>
          have hta : t.ContainsLine address := by simpa using List.find?_some hfind
          rw [h.tidy.eq_of_containsLine (List.mem_of_find?_eq_some hfind) hr hta ha]
      refine ⟨rfl, r, hfind, habove, Nat.le_of_eq ?_⟩
      rw [length_below hr ha, if_pos hlo, hlen]
    · rw [hclear, ← Poison.kindAt_eq_none_iff] at hout
      change Poison.kindAt l a = none at hout
      rw [hkind, if_neg hne, kindAt, Poison.kindAt_eq_none_iff] at hout
      exact absurd hlive hout

/-- A call lacks room exactly if the live list is left without a line that is due. -/
theorem WellFormed.lacksRoom_iff :
    s.LacksRoom op ↔ ∃ a, s.Due op a ∧ ¬ Covers (s.step op).live a := by
  cases op with
  | mediaError start length kind now =>
    have hlive (r : Record) (hr : mediaError? start length kind = some r) :
        (s.step (.mediaError start length kind now)).live = (insertLive r s.live).1 := by
      show (s.recordMediaError start length kind now).live = _
      rw [recordMediaError_of_some hr]
    constructor
    · rintro ⟨r, hr, hfits⟩
      obtain ⟨-, a, ha, hout⟩ :=
        h.tidy.full_of_insertLive (whole_of_mediaError? hr) h.length_le hfits
      exact ⟨a, ⟨r, hr, ha⟩, by rwa [hlive r hr]⟩
    · rintro ⟨a, ⟨r, hr, ha⟩, hout⟩
      rw [hlive r hr] at hout
      refine ⟨r, hr, ?_⟩
      by_contra hfits
      rw [Bool.not_eq_false] at hfits
      exact hout ((h.tidy.covers_insertLive (whole_of_mediaError? hr) hfits).mpr (Or.inl ha))
  | clear address frozen now =>
    cases frozen with
    | true => simp [LacksRoom, Due]
    | false =>
      rw [h.lacksRoom_clear_iff]
      simp only [Due, true_and, and_assoc]
      rfl
  | beginScan start length now =>
    rw [← scanOverflowed_beginScan_iff_lacksRoom, h.scanOverflowed_beginScan_iff]
    rfl
  | inject | completeScan | takeResults => simp [LacksRoom, Due]

end WellFormed

/-! ## The end of the scan -/

/-- What is left of the flag comes from the start of the scan or is older. -/
theorem overflowedAt_completed_iff (h : ∀ op ∈ window, op.Meanwhile) :
    (after (.completeScan :: (window ++ .beginScan start length now :: past))).overflowedAt =
        some time ↔
      (after past).LacksRoom (.beginScan start length now) ∧
        (after past).overflowedAt.getD now = time := by
  have hmark : (after (window ++ .beginScan start length now :: past)).scanOverflowed =
      ((after past).beginScan start length now).scanOverflowed := scanOverflowed_window h
  show (if (after (window ++ .beginScan start length now :: past)).scanOverflowed then
    (after (window ++ .beginScan start length now :: past)).overflowedAt else none) = _ ↔ _
  rw [hmark, ← scanOverflowed_beginScan_iff_lacksRoom]
  cases hout : ((after past).beginScan start length now).scanOverflowed with
  | false => simp
  | true =>
    have htime : (after (.beginScan start length now :: past)).overflowedAt =
        some ((after past).overflowedAt.getD now) := by
      show ((after past).beginScan start length now).overflowedAt = _
      rw [beginScan_eq] at hout ⊢
      exact overflowedAt_of_scanOverflowed (s := (after past).opened start length) rfl hout
    rw [if_pos rfl, overflowedAt_window h htime]
    simp

/-- **An overflow in the course of a scan survives the scan exactly if the scan itself lacks room.**
The flag is set until the end of the scan. Behind it, the flag is set exactly if the start of the
scan had no room for all that it found, and with the time of that overflow or of an older one,
whatever happened in between. -/
theorem overflow_survives_iff (past : List Op) (start length : Nat) (now : Timestamp)
    (h : ∀ op ∈ window, op.Meanwhile) :
    (LacksRoomIn window (.beginScan start length now :: past) →
      (after (window ++ .beginScan start length now :: past)).overflowedAt ≠ none) ∧
    ((LacksRoomIn window (.beginScan start length now :: past) →
        (after (.completeScan :: (window ++ .beginScan start length now :: past))).overflowedAt ≠
          none) ↔
      (LacksRoomIn window (.beginScan start length now :: past) →
        (after past).LacksRoom (.beginScan start length now))) ∧
    ∀ time,
      (after (.completeScan :: (window ++ .beginScan start length now :: past))).overflowedAt =
          some time ↔
        (after past).LacksRoom (.beginScan start length now) ∧
          (after past).overflowedAt.getD now = time := by
  refine ⟨overflowedAt_of_lacksRoomIn h, imp_congr_right fun _ => ?_,
    fun time => overflowedAt_completed_iff h⟩
  rw [Option.ne_none_iff_exists']
  constructor
  · rintro ⟨time, htime⟩
    exact ((overflowedAt_completed_iff h).mp htime).1
  · intro hroom
    exact ⟨_, (overflowedAt_completed_iff h).mpr ⟨hroom, rfl⟩⟩

/-- The wide scan finds one error more than there is room for. -/
theorem lacksRoom_wideScan :
    (after (scattered (listLimit + 1))).LacksRoom (.beginScan 0 0x8080 9) := by
  refine ⟨scatteredRecords listLimit, scatteredRecord listLimit, [], ?_, ?_⟩
  · rw [found_wideScan, scatteredRecords_succ]
  · rw [live_addResults_scattered (Nat.le_refl _) live_opened_wideScan,
      insertLive_scatteredRecord (Nat.le_refl _), if_neg (Nat.lt_irrefl _)]

/-- An error that is reported in the course of that scan. -/
def lateError : List Op := [.mediaError 0x9000 64 .vendor 12]

/-- It finds no room either. -/
theorem lacksRoomIn_lateError :
    LacksRoomIn lateError (.beginScan 0 0x8080 9 :: scattered (listLimit + 1)) := by
  have hr : mediaError? 0x9000 64 .vendor = some ⟨0x9000, 64, .vendor⟩ := by decide
  refine ⟨_, [], List.suffix_refl _, _, hr, ?_⟩
  show (insertLive _ (after (.beginScan 0 0x8080 9 :: scattered (listLimit + 1))).live).2 = false
  rw [live_wideScan, (tidy_scatteredRecords (Nat.le_refl _)).insertLive_of_above
    (whole_of_mediaError? hr), length_scatteredRecords, if_neg (Nat.lt_irrefl _)]
  intro r hr
  obtain ⟨i, hi, rfl⟩ := mem_scatteredRecords.mp hr
  rw [stop_scatteredRecord (Nat.le_of_lt hi)]
  unfold listLimit at hi
  show i * 128 + 64 ≤ 0x9000
  omega

theorem overflow_survives_iff_lateError :
    (∀ op ∈ lateError, op.Meanwhile) ∧
      LacksRoomIn lateError (.beginScan 0 0x8080 9 :: scattered (listLimit + 1)) ∧
      (after (.completeScan ::
        (lateError ++ .beginScan 0 0x8080 9 :: scattered (listLimit + 1)))).overflowedAt =
          some 0 := by
  have h : ∀ op ∈ lateError, op.Meanwhile := by simp [lateError, Op.Meanwhile]
  obtain ⟨-, -, htime⟩ := overflow_survives_iff (scattered (listLimit + 1)) 0 0x8080 9 h
  refine ⟨h, lacksRoomIn_lateError, (htime 0).mpr ⟨lacksRoom_wideScan, ?_⟩⟩
  rw [after_scattered_full]
  rfl

/-! ## An overflow that the end of a scan takes back -/

/-- What a call does depends on the store that it finds alone. -/
theorem after_append_of_eq {past' : List Op} (h : after past = after past') :
    after (window ++ past) = after (window ++ past') := by
  induction window with
  | nil => exact h
  | cons op window ih =>
    show (after (window ++ past)).step op = (after (window ++ past')).step op
    rw [ih]

/-- A scan of a new store finds nothing and changes nothing. -/
theorem after_scattered_meanwhile (n : Nat) :
    after (scattered n ++ [.beginScan 0 64 9]) = after (scattered n) := by
  have hnone : after [.beginScan 0 64 9] = after [] := by decide
  rw [after_append_of_eq hnone, List.append_nil]

/-- The list overflows in the course of that scan, and the end of the scan clears the flag. -/
theorem not_overflow_survives :
    ¬ ∀ past window start length now, (∀ op ∈ window, op.Meanwhile) →
      LacksRoomIn window (.beginScan start length now :: past) →
      (after (.completeScan :: (window ++ .beginScan start length now :: past))).overflowedAt ≠
        none := by
  intro h
  have hwindow : ∀ op ∈ scattered (listLimit + 1), op.Meanwhile := by
    intro op hop
    obtain ⟨i, -, rfl⟩ := mem_scattered.mp hop
    trivial
  have hlacks : LacksRoomIn (scattered (listLimit + 1)) [.beginScan 0 64 9] := by
    refine ⟨_, scattered listLimit, List.suffix_refl _, _,
      mediaError?_scattered (Nat.le_refl _), ?_⟩
    rw [after_scattered_meanwhile, after_scattered (Nat.le_refl _)]
    show (insertLive (scatteredRecord listLimit) (scatteredRecords listLimit)).2 = false
    rw [insertLive_scatteredRecord (Nat.le_refl _), if_neg (Nat.lt_irrefl _)]
  refine h [] _ 0 64 9 hwindow hlacks ?_
  rw [after, after_scattered_meanwhile, after_scattered_full]
  rfl

end Store

end CxlEndpoint.Poison
