import CxlEndpoint.Proofs.Poison.History

/-!
# The poison list as a map from lines to kinds

Between scans the host sees a partial map from lines to kinds (`Store.kindAt`), and each operation
is an update of this map.

* `InjectMaps`: an injection maps one more line, unless the list is full.
* `ClearMaps`: `clear` removes one line, or in a full list the rest of its record too.
* `ErrorMaps`: a media error maps lines that were not mapped. It maps all of its lines, or the list
  overflows and the lines that are missing lie above the new ones.
* `refines_lineMap`: this holds after every history without scans, at every line that ends at a
  word.
-/

namespace CxlEndpoint.Poison

/-- An operation between scans, on lines that end at a word. -/
def Op.Plain : Op → Prop
  | inject address frozen | clear address frozen _ => frozen = false ∧ address < lastLine
  | mediaError start length _ _ => start + length ≤ lastLine
  | _ => False

theorem Op.Plain.inSpace {op : Op} (h : op.Plain) : op.InSpace := by
  cases op with
  | inject address frozen => exact h.2
  | clear address frozen now => exact h.2
  | _ => trivial

namespace Store

variable {s : Store} {r : Record} {address start length b : Nat} {kind : Kind} {now : Timestamp}

/-- An injection maps the line to `injected` if it was not mapped. It is refused, and changes
nothing, exactly if the line is not mapped and the list is full. -/
structure InjectMaps (s : Store) (address : Nat) : Prop where
  refused_iff : s.inject? address false = none ↔
    s.kindAt address = none ∧ s.live.length = listLimit
  refused : s.inject? address false = none → s.step (.inject address false) = s
  accepted : ∀ s', s.inject? address false = some s' → ∀ b, s'.kindAt b =
    if lineStart b = lineStart address ∧ s.kindAt address = none then some .injected
    else s.kindAt b

/-- `clear` says whether the line was mapped, and removes it from the map. If the list is full and
the line strictly inside its record, the lines above it in the record are removed too, and the
list has overflowed. -/
structure ClearMaps (s : Store) (address : Nat) (now : Timestamp) (result : Store × Bool) :
    Prop where
  hit_iff : result.2 = true ↔ s.kindAt address ≠ none
  line : (∀ r ∈ s.live, r.ContainsLine address → ¬ s.SplitsFull r address) →
    (∀ b, result.1.kindAt b =
      if lineStart b = lineStart address then none else s.kindAt b) ∧
    result.1.overflowedAt = s.overflowedAt
  rest : ∀ r ∈ s.live, r.ContainsLine address → s.SplitsFull r address →
    (∀ b, result.1.kindAt b =
      if lineStart address ≤ b ∧ b < r.stop then none else s.kindAt b) ∧
    result.1.overflowedAt = s.overflowedAt.or (some now)

/-- A media error maps lines of its range that were not mapped to its kind, and leaves the others
alone. Either all lines of the range are mapped then, or the list is full and has overflowed, and
the new lines lie below those that are missing. -/
structure ErrorMaps (s : Store) (start length : Nat) (kind : Kind) (now : Timestamp)
    (s' : Store) : Prop where
  mapped : ∀ b, s.kindAt b ≠ none → s'.kindAt b = s.kindAt b
  new : ∀ b, s.kindAt b = none → s'.kindAt b ≠ none →
    InRange start length b ∧ s'.kindAt b = some kind
  all_or_overflow :
    (∀ b, InRange start length b → s'.kindAt b ≠ none) ∧ s'.overflowedAt = s.overflowedAt ∨
    (∃ c, InRange start length c ∧ s'.kindAt c = none) ∧
      s'.overflowedAt = s.overflowedAt.or (some now) ∧ s'.live.length = listLimit ∧
      ∀ b c, s.kindAt b = none → s'.kindAt b ≠ none → InRange start length c →
        s'.kindAt c = none → b < c

theorem WellFormed.injectMaps (h : s.WellFormed) (ha : address < lastLine) :
    InjectMaps s address := by
  have hle := h.length_le
  refine ⟨?_, fun hn => ?_, fun s' hs b => ?_⟩
  · rw [inject?_false, kindAt_eq_none_iff]
    split
    · simp [*]
    · split
      · simp only [true_iff]
        exact ⟨by simpa using ‹¬ s.isPoisoned address = true›, by omega⟩
      · simp only [reduceCtorEq, false_iff]
        omega
  · show (s.inject? address false).getD s = s
    rw [hn]
    rfl
  · rw [inject?_false] at hs
    simp only [kindAt_eq_none_iff]
    split at hs
    · obtain rfl := Option.some.inj hs
      simp [*]
    · rename_i hp
      split at hs
      · cases hs
      · obtain rfl := Option.some.inj hs
        have htidy : Tidy (insertSorted ⟨lineStart address, lineBytes, .injected⟩ s.live) :=
          tidy_insertSorted_line h.tidy ha (by rwa [isPoisoned_iff] at hp)
        rw [kindAt, htidy.kindAt_insertSorted, kindAt]
        simp only [containsLine_line ha, hp, and_true]

theorem WellFormed.clearMaps (h : s.WellFormed) :
    ClearMaps s address now (s.clear address false now) := by
  obtain ⟨hnone, hclear⟩ | ⟨r, hr, ha, hcases⟩ := h.clear_cases address now
  · have hmap : s.kindAt address = none := Poison.kindAt_eq_none_iff.mpr hnone
    refine ⟨by simp [hclear, hmap], fun _ => ⟨fun b => ?_, by rw [hclear]⟩, fun r hr ha => ?_⟩
    · rw [hclear]
      split
      · rw [← hmap]
        exact kindAt_congr (by assumption)
      · rfl
    · exact absurd ⟨r, hr, ha⟩ hnone
  · have hmap : s.kindAt address = some r.kind := h.tidy.kindAt_of_mem hr ha
    have honly : ∀ t ∈ s.live, t.ContainsLine address → t = r := fun t ht hta =>
      h.tidy.eq_of_containsLine ht hr hta ha
    obtain ⟨hfull, hclear⟩ | ⟨hroom, l, -, -, hkind, hclear⟩ := hcases
    · refine ⟨by simp [hclear, hmap], fun hnot => absurd hfull (hnot r hr ha), fun t ht hta _ => ?_⟩
      obtain rfl := honly t ht hta
      rw [hclear]
      exact ⟨fun b => kindAt_below h.tidy hr ha, rfl⟩
    · refine ⟨by simp [hclear, hmap], fun _ => ?_, fun t ht hta hfull => ?_⟩
      · rw [hclear]
        exact ⟨hkind, rfl⟩
      · exact absurd (honly t ht hta ▸ hfull) hroom

theorem WellFormed.errorMaps (h : s.WellFormed) (hle : start + length ≤ lastLine) :
    ErrorMaps s start length kind now (s.recordMediaError start length kind now) := by
  cases hr : mediaError? start length kind with
  | none =>
    have hempty : ∀ b, ¬ InRange start length b := fun _ => not_inRange_of_mediaError? hle hr
    rw [recordMediaError_of_none hr]
    exact ⟨fun b _ => rfl, fun b hb hb' => absurd hb hb',
      Or.inl ⟨fun b hb => absurd hb (hempty b), rfl⟩⟩
  | some r =>
    have hw := whole_of_mediaError? hr
    obtain ⟨rfl, hin⟩ := containsLine_of_mediaError? hle hr
    rw [recordMediaError_of_some hr]
    refine ⟨fun b hb => h.tidy.kindAt_insertLive hw (kindAt_ne_none_iff.mp hb),
      fun b hb hb' => ?_, ?_⟩
    · rw [← hin]
      exact h.tidy.kindAt_insertLive_of_new hw (Poison.kindAt_eq_none_iff.mp hb)
        (kindAt_ne_none_iff.mp hb')
    · cases hfits : (insertLive r s.live).2 with
      | true =>
        refine Or.inl ⟨fun b hb => kindAt_ne_none_iff.mpr ?_, rfl⟩
        exact (h.tidy.covers_insertLive hw hfits).mpr (Or.inl ((hin b).mpr hb))
      | false =>
        obtain ⟨hfull, c, hc, hopen⟩ := h.tidy.full_of_insertLive hw h.length_le hfits
        refine Or.inr ⟨⟨c, (hin c).mp hc, Poison.kindAt_eq_none_iff.mpr hopen⟩, rfl, hfull, ?_⟩
        intro b c hb hnew hc hopen
        exact h.tidy.lt_of_insertLive hw (Poison.kindAt_eq_none_iff.mp hb)
          (kindAt_ne_none_iff.mp hnew) ((hin c).mpr hc) (Poison.kindAt_eq_none_iff.mp hopen)

/-- **Between scans, the list is a map from lines to kinds.** -/
theorem refines_lineMap {past : List Op} (h : ∀ op ∈ past, op.Plain) :
    (∀ address, address < lastLine → InjectMaps (after past) address) ∧
    (∀ address now, address < lastLine →
      ClearMaps (after past) address now ((after past).clear address false now)) ∧
    (∀ start length kind now, start + length ≤ lastLine →
      ErrorMaps (after past) start length kind now
        ((after past).recordMediaError start length kind now)) := by
  have hs : (after past).WellFormed := WellFormed.after fun op hop => (h op hop).inSpace
  exact ⟨fun _ ha => hs.injectMaps ha, fun _ _ _ => hs.clearMaps, fun _ _ _ _ hle =>
    hs.errorMaps hle⟩

/-- A full list whose last record has three lines. -/
def fullHistory : List Op := .mediaError 0x100000 0xc0 .internal 1 :: scattered 255

theorem plain_fullHistory : ∀ op ∈ fullHistory, op.Plain := by
  refine List.forall_mem_cons.mpr ⟨by simp [Op.Plain, lastLine], fun op hop => ?_⟩
  obtain ⟨i, hi, rfl⟩ := mem_scattered.mp hop
  simp only [Op.Plain, lastLine]
  omega

/-- To clear the middle line of that record loses its last line. -/
theorem splitsFull_fullHistory :
    (after fullHistory).SplitsFull ⟨0x100000, 0xc0, .internal⟩ 0x100040 := by
  have hr : mediaError? 0x100000 0xc0 .internal = some ⟨0x100000, 0xc0, .internal⟩ := by decide
  refine ⟨?_, by decide, by decide⟩
  show ((after (scattered 255)).recordMediaError 0x100000 0xc0 .internal 1).live.length = _
  rw [after_scattered (by decide), recordMediaError_of_some hr,
    (tidy_scatteredRecords (by decide)).insertLive_of_above (whole_of_mediaError? hr)]
  · rw [length_scatteredRecords, if_pos (by decide), List.length_append, length_scatteredRecords]
    rfl
  · intro r hr
    obtain ⟨i, hi, rfl⟩ := mem_scatteredRecords.mp hr
    rw [stop_scatteredRecord (by unfold listLimit; omega)]
    show i * 128 + 64 ≤ 0x100000
    omega

theorem refines_lineMap_fullHistory :
    (∀ op ∈ fullHistory, op.Plain) ∧ InjectMaps (after fullHistory) 0x200000 ∧
      ClearMaps (after fullHistory) 0x100040 7 ((after fullHistory).clear 0x100040 false 7) ∧
      ErrorMaps (after fullHistory) 0 0x8000 .vendor 7
        ((after fullHistory).recordMediaError 0 0x8000 .vendor 7) ∧
      (after fullHistory).SplitsFull ⟨0x100000, 0xc0, .internal⟩ 0x100040 := by
  obtain ⟨hinject, hclear, herror⟩ := refines_lineMap plain_fullHistory
  exact ⟨plain_fullHistory, hinject _ (by decide), hclear _ _ (by decide),
    herror _ _ _ _ (by decide), splitsFull_fullHistory⟩

end Store

end CxlEndpoint.Poison
