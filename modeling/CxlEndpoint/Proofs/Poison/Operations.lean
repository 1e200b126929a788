import CxlEndpoint.Proofs.Poison.Gaps

/-!
# What the host and the device do to a poison store

One equation or case split for each operation, so that nothing else opens its definition.

* `WellFormed`: the live list is tidy and within the limit, and the ground truth holds whole
  records only. `WellFormed.inject`, `WellFormed.clear` and `WellFormed.recordMediaError` keep it.
* `WellFormed.clear_cases`: `clear` finds no record; or it takes one line away; or the list is full
  and the line inside its record (`SplitsFull`), and what lies above the line is lost too.
* `mediaError?_eq`: the record of a media error reaches from the line of its first address to the
  first line behind it.
-/

namespace CxlEndpoint.Poison

variable {l : List Record} {r : Record} {a b address start length : Nat} {kind : Kind}
  {now : Timestamp}

namespace Store

variable {s s' : Store}

/-- The live list is tidy and within the limit; the ground truth holds whole records. -/
structure WellFormed (s : Store) : Prop where
  tidy : Tidy s.live
  length_le : s.live.length ≤ listLimit
  truth : ∀ r ∈ s.groundTruth, r.Whole

theorem wellFormed_empty : empty.WellFormed :=
  ⟨tidy_nil, Nat.zero_le _, fun _ hr => by cases hr⟩

/-- The kind of the live record that covers the line of `address`. -/
def kindAt (s : Store) (address : Nat) : Option Kind := Poison.kindAt s.live address

theorem kindAt_eq_none_iff : s.kindAt a = none ↔ s.isPoisoned a = false := by
  rw [kindAt, Poison.kindAt_eq_none_iff, ← isPoisoned_iff, Bool.not_eq_true]

/-! ## Injection -/

/-- A line whose end is a word, as a record. -/
theorem whole_line (h : address < lastLine) :
    Record.Whole ⟨lineStart address, lineBytes, kind⟩ := by
  constructor <;>
    simp only [lastLine, LineAligned, lineStart, lineBytes] at * <;> omega

theorem containsLine_line (h : address < lastLine) :
    Record.ContainsLine ⟨lineStart address, lineBytes, kind⟩ b ↔
      lineStart b = lineStart address := by
  have hw : Record.Whole ⟨lineStart address, lineBytes, kind⟩ := whole_line h
  rw [hw.containsLine_iff, hw.stop_eq]
  simp only [lineStart, lineBytes]
  omega

theorem inject?_false :
    s.inject? address false =
      if s.isPoisoned address then some s
      else if listLimit ≤ s.live.length then none
      else
        some { s with live := insertSorted ⟨lineStart address, lineBytes, .injected⟩ s.live } := by
  simp only [inject?, Bool.or_false]

theorem inject?_true : s.inject? address true = some s := by
  simp only [inject?, Bool.or_true, ↓reduceIte]

/-- A line that the list does not cover can be inserted. -/
theorem tidy_insertSorted_line (h : Tidy l) (ha : address < lastLine) (hp : ¬ Covers l address) :
    Tidy (insertSorted ⟨lineStart address, lineBytes, kind⟩ l) := by
  refine h.insertSorted (whole_line ha) fun r hr => ?_
  refine (whole_line ha).apart_of_containsLine (h.whole r hr) fun b hb hrb => hp ⟨r, hr, ?_⟩
  rw [containsLine_line ha] at hb
  unfold Record.ContainsLine at hrb ⊢
  rwa [hb] at hrb

theorem WellFormed.inject (h : s.WellFormed) (ha : address < lastLine) {frozen : Bool}
    (hs : s.inject? address frozen = some s') : s'.WellFormed := by
  cases frozen with
  | true =>
    rw [inject?_true] at hs
    obtain rfl := Option.some.inj hs
    exact h
  | false =>
    rw [inject?_false] at hs
    split at hs
    · obtain rfl := Option.some.inj hs
      exact h
    · split at hs
      · cases hs
      · rename_i hp hroom
        obtain rfl := Option.some.inj hs
        refine ⟨tidy_insertSorted_line h.tidy ha ?_, ?_, h.truth⟩
        · rwa [isPoisoned_iff] at hp
        · rw [length_insertSorted]
          omega

/-! ## Clearing -/

/-- The list without the lines of `r` from the line of `address` on. -/
def below (l : List Record) (r : Record) (address : Nat) : List Record :=
  let others := l.eraseP fun r => r.ContainsLine address
  if r.start < lineStart address then
    insertSorted (.between r.start (lineStart address) r.kind) others
  else others

/-- What lies above the line of `address` in the record `r`. -/
def above (r : Record) (address : Nat) : Record :=
  .between (lineStart address + lineBytes) r.stop r.kind

/-- `clear` on the record that it finds. -/
theorem clear_of_find? (hr : s.live.find? (fun r => r.ContainsLine address) = some r) :
    s.clear address false now =
      if r.stop ≤ lineStart address + lineBytes then
        ({ s with live := below s.live r address }, true)
      else if listLimit ≤ (below s.live r address).length then
        ({ s with live := below s.live r address }.markOverflow now, true)
      else
        ({ s with live := insertSorted (above r address) (below s.live r address) }, true) := by
  unfold clear
  rw [if_neg Bool.false_ne_true, hr]
  rfl

/-- `clear` finds no record, or one of which it keeps what lies below the line and, if there is
room, above it. -/
theorem clear_cases (s : Store) (address : Nat) (now : Timestamp) :
    (¬ Covers s.live address ∧ s.clear address false now = (s, false)) ∨
      ∃ r ∈ s.live, r.ContainsLine address ∧
        s.clear address false now =
          if r.stop ≤ lineStart address + lineBytes then
            ({ s with live := below s.live r address }, true)
          else if listLimit ≤ (below s.live r address).length then
            ({ s with live := below s.live r address }.markOverflow now, true)
          else
            ({ s with live := insertSorted (above r address) (below s.live r address) }, true) := by
  cases hf : s.live.find? (fun r => r.ContainsLine address) with
  | none =>
    refine Or.inl ⟨?_, by rw [clear, if_neg Bool.false_ne_true, hf]⟩
    rintro ⟨r, hr, ha⟩
    simpa [ha] using List.find?_eq_none.mp hf r hr
  | some r =>
    exact Or.inr ⟨r, List.mem_of_find?_eq_some hf, by simpa using List.find?_some hf,
      clear_of_find? hf⟩

theorem length_below (hr : r ∈ l) (ha : r.ContainsLine address) :
    (below l r address).length =
      if r.start < lineStart address then l.length else l.length - 1 := by
  have hlen := List.length_eraseP_of_mem (p := fun r => decide (r.ContainsLine address)) hr
    (decide_eq_true ha)
  have hpos := List.length_pos_of_mem hr
  unfold below
  split
  · rw [length_insertSorted, hlen]
    omega
  · exact hlen

theorem whole_above (hr : r.Whole) (habove : lineStart address + lineBytes < r.stop) :
    (above r address).Whole := by
  have hline := lineAligned_lineStart address
  refine hr.part ?_ hr.stop_aligned habove (Nat.le_refl _)
  simp only [LineAligned, lineBytes] at *
  omega

section Below

variable (h : Tidy l) (hr : r ∈ l) (ha : r.ContainsLine address)

include h hr ha

/-- A part of the record that contains the line is apart from the other records. -/
theorem apart_part {x y : Nat} (hx : r.start ≤ x) (hxy : x ≤ y) (hy : y ≤ r.stop) :
    ∀ t ∈ l.eraseP (fun r => r.ContainsLine address), Record.Apart (.between x y kind) t := by
  intro t ht
  obtain ⟨htl, hta⟩ := h.mem_eraseP.mp ht
  have hap := h.apart hr htl fun hrt => hta (hrt ▸ ha)
  unfold Record.Apart at hap ⊢
  rw [Record.start_between, Record.stop_between hxy (Nat.le_trans hy (h.whole r hr).stop_le)]
  omega

theorem tidy_below : Tidy (below l r address) := by
  have herase : Tidy (l.eraseP fun r => r.ContainsLine address) := h.sublist List.eraseP_sublist
  obtain ⟨hlo, hhi⟩ := ha
  unfold below
  split
  · refine herase.insertSorted ?_ (apart_part h hr ⟨hlo, hhi⟩ (Nat.le_refl _) hlo (by omega))
    exact (h.whole r hr).part (h.whole r hr).start_aligned (lineAligned_lineStart _) (by assumption)
      (by omega)
  · exact herase

/-- `below` takes away the lines of the record from the line of `address` on. -/
theorem kindAt_below :
    Poison.kindAt (below l r address) b =
      if lineStart address ≤ b ∧ b < r.stop then none else Poison.kindAt l b := by
  have htidy := tidy_below h hr ha
  have hw := h.whole r hr
  have hrest := h.kindAt_eraseP hr ha (b := b)
  have hself : r.ContainsLine b → Poison.kindAt l b = some r.kind := h.kindAt_of_mem hr
  simp only [hw.containsLine_iff] at hrest hself
  obtain ⟨hlo, hhi⟩ := ha
  unfold below at htidy ⊢
  split
  · rename_i hfront
    rw [if_pos hfront] at htidy
    have hpart : Record.Whole (.between r.start (lineStart address) r.kind) :=
      hw.part hw.start_aligned (lineAligned_lineStart _) hfront (by omega)
    have hstop : Record.stop (.between r.start (lineStart address) r.kind) = lineStart address :=
      Record.stop_between hlo (by have := hw.stop_le; omega)
    rw [htidy.kindAt_insertSorted, hrest]
    simp only [hpart.containsLine_iff, hstop, Record.start_between, Record.kind_between]
    by_cases hin : r.start ≤ b ∧ b < r.stop
    · rw [hself hin]
      split <;> split <;> first | rfl | omega
    · rw [if_neg hin, if_neg (by omega), if_neg (by omega)]
  · rw [hrest]
    split <;> split <;> first | rfl | omega

variable (habove : lineStart address + lineBytes < r.stop)

include habove

theorem tidy_insert_above : Tidy (insertSorted (above r address) (below l r address)) := by
  have hstop := (h.whole r hr).stop_le
  have hrest : ∀ t ∈ l.eraseP (fun r => r.ContainsLine address), (above r address).Apart t :=
    apart_part h hr ha (by have := ha.1; omega) (Nat.le_of_lt habove) (Nat.le_refl _)
  refine (tidy_below h hr ha).insertSorted (whole_above (h.whole r hr) habove) fun t ht => ?_
  unfold below at ht
  split at ht
  · rcases mem_insertSorted.mp ht with rfl | ht
    · -- The part below the line ends where the line starts.
      refine Or.inr ?_
      rw [Record.stop_between ha.1 (by omega)]
      exact Nat.le_add_right _ _
    · exact hrest t ht
  · exact hrest t ht

/-- With the part above the line put back, the line alone is taken away. -/
theorem kindAt_insert_above :
    Poison.kindAt (insertSorted (above r address) (below l r address)) b =
      if lineStart b = lineStart address then none else Poison.kindAt l b := by
  have hw := h.whole r hr
  have hself : r.ContainsLine b → Poison.kindAt l b = some r.kind := h.kindAt_of_mem hr
  have hstop : (above r address).stop = r.stop :=
    Record.stop_between (Nat.le_of_lt habove) hw.stop_le
  rw [hw.containsLine_iff] at hself
  rw [(tidy_insert_above h hr ha habove).kindAt_insertSorted, kindAt_below h hr ha]
  have hline : lineStart b = lineStart address ↔
      lineStart address ≤ b ∧ b < lineStart address + lineBytes := by
    simp only [lineStart, lineBytes]
    omega
  have hlo := ha.1
  have hstart : (above r address).start = lineStart address + lineBytes := rfl
  simp only [hline, (whole_above hw habove).containsLine_iff, hstart, hstop]
  by_cases hin : r.start ≤ b ∧ b < r.stop
  · rw [hself hin]
    split
    · rw [if_neg (by omega)]
      rfl
    · split <;> split <;> first | rfl | omega
  · rw [if_neg (by omega), if_neg (by omega), if_neg (by omega)]

end Below

/-- The list is full, and the line lies strictly inside the record. -/
def SplitsFull (s : Store) (r : Record) (address : Nat) : Prop :=
  s.live.length = listLimit ∧ r.start < lineStart address ∧ lineStart address + lineBytes < r.stop

/-- `clear` takes one line away, unless it finds none or loses what lies above the line. -/
theorem WellFormed.clear_cases (h : s.WellFormed) (address : Nat) (now : Timestamp) :
    (¬ Covers s.live address ∧ s.clear address false now = (s, false)) ∨
      ∃ r ∈ s.live, r.ContainsLine address ∧
        ((s.SplitsFull r address ∧ s.clear address false now =
            ({ s with live := below s.live r address }.markOverflow now, true)) ∨
          ¬ s.SplitsFull r address ∧ ∃ l, Tidy l ∧ l.length ≤ listLimit ∧
            (∀ b, Poison.kindAt l b =
              if lineStart b = lineStart address then none else s.kindAt b) ∧
            s.clear address false now = ({ s with live := l }, true)) := by
  obtain hnone | ⟨r, hr, ha, hclear⟩ := Store.clear_cases s address now
  · exact Or.inl hnone
  refine Or.inr ⟨r, hr, ha, ?_⟩
  have hlen := length_below hr ha
  have hle := h.length_le
  by_cases hstop : r.stop ≤ lineStart address + lineBytes
  · rw [if_pos hstop] at hclear
    refine Or.inr ⟨fun hf => ?_, _, tidy_below h.tidy hr ha, ?_, fun b => ?_, hclear⟩
    · have := hf.2.2
      omega
    · split at hlen <;> omega
    · -- The record ends with the line.
      have hline : lineStart b = lineStart address ↔ lineStart address ≤ b ∧ b < r.stop := by
        obtain ⟨-, hhi⟩ := ha
        simp only [lineStart, lineBytes] at *
        omega
      rw [kindAt_below h.tidy hr ha, kindAt]
      simp only [hline]
  · rw [if_neg hstop] at hclear
    have habove : lineStart address + lineBytes < r.stop := by omega
    by_cases hfull : listLimit ≤ (below s.live r address).length
    · rw [if_pos hfull] at hclear
      refine Or.inl ⟨?_, hclear⟩
      split at hlen
      · exact ⟨by omega, by assumption, habove⟩
      · have := List.length_pos_of_mem hr
        omega
    · rw [if_neg hfull] at hclear
      refine Or.inr ⟨fun hf => ?_, _, tidy_insert_above h.tidy hr ha habove, ?_, fun b => ?_,
        hclear⟩
      · rw [if_pos hf.2.1, hf.1] at hlen
        omega
      · rw [length_insertSorted]
        omega
      · exact kindAt_insert_above h.tidy hr ha habove

theorem WellFormed.clear (h : s.WellFormed) {frozen : Bool} :
    (s.clear address frozen now).1.WellFormed := by
  cases frozen with
  | true => exact h
  | false =>
    obtain ⟨-, hclear⟩ | ⟨r, hr, ha, ⟨hfull, hclear⟩ | ⟨-, l, hl, hle, -, hclear⟩⟩ :=
      h.clear_cases address now
    · rw [hclear]
      exact h
    · rw [hclear]
      refine ⟨tidy_below h.tidy hr ha, ?_, h.truth⟩
      show (below s.live r address).length ≤ listLimit
      rw [length_below hr ha, if_pos hfull.2.1]
      exact h.length_le
    · rw [hclear]
      exact ⟨hl, hle, h.truth⟩

/-- A clear never clears the overflow flag. -/
theorem overflowedAt_of_clear {frozen : Bool}
    (h : (s.clear address frozen now).1.overflowedAt = none) : s.overflowedAt = none := by
  cases frozen with
  | true => exact h
  | false =>
    obtain ⟨-, hclear⟩ | ⟨r, -, -, hclear⟩ := s.clear_cases address now
    · rwa [hclear] at h
    · rw [hclear] at h
      split at h
      · exact h
      · split at h
        · exact (Option.or_eq_none_iff.mp h).1
        · exact h

/-! ## Media errors -/

theorem whole_of_mediaError? (hr : mediaError? start length kind = some r) : r.Whole := by
  unfold mediaError? at hr
  simp only at hr
  split at hr
  · obtain rfl := Option.some.inj hr
    refine Record.whole_between (lineAligned_lineStart _) (lineAligned_lineStart _)
      (by assumption) ?_
    have := Word.addSat_le_last (Word.addSat start length) (lineBytes - 1)
    simp only [lastLine, lineStart, lineBytes, Word.last] at *
    omega
  · cases hr

/-- An error that ends in front of the last line is recorded from the line of its first address to
the first line that it does not reach. -/
theorem mediaError?_eq (h : start + length ≤ lastLine) :
    mediaError? start length kind =
      if lineStart start < Word.roundUp (start + length) lineBytes then
        some (.between (lineStart start) (Word.roundUp (start + length) lineBytes) kind)
      else none := by
  have hstop : lineStart (Word.addSat (Word.addSat start length) (lineBytes - 1)) =
      Word.roundUp (start + length) lineBytes := by
    simp only [lastLine, lineStart, lineBytes, Word.last, Word.addSat, Word.roundUp,
      Word.mulSat] at *
    omega
  unfold mediaError?
  simp only [hstop]
  rfl

/-- The addresses from the line of `start` to the first line behind `[start, start + length)`. -/
def InRange (start length b : Nat) : Prop :=
  lineStart start ≤ b ∧ b < Word.roundUp (start + length) lineBytes

/-- The line of `b` has an address in `[start, start + length)`. -/
def Touches (start length b : Nat) : Prop :=
  ∃ x, start ≤ x ∧ x < start + length ∧ lineStart x = lineStart b

/-- For a range with an address, these are the same lines. -/
theorem touches_iff_inRange (hpos : 0 < length) (hle : start + length ≤ lastLine) :
    Touches start length b ↔ InRange start length b := by
  simp only [Touches, InRange, lastLine, lineStart, lineBytes, Word.roundUp, Word.mulSat,
    Word.last] at *
  constructor
  · rintro ⟨x, hlo, hhi, hx⟩
    omega
  · rintro ⟨hlo, hhi⟩
    exact ⟨max start (b / 64 * 64), by omega, by omega, by omega⟩

/-- The record of an error has the lines of its range. -/
theorem containsLine_of_mediaError? (hle : start + length ≤ lastLine)
    (hr : mediaError? start length kind = some r) :
    r.kind = kind ∧ ∀ b, r.ContainsLine b ↔ InRange start length b := by
  have hw := whole_of_mediaError? hr
  rw [mediaError?_eq hle] at hr
  split at hr
  · obtain rfl := Option.some.inj hr
    refine ⟨rfl, fun b => ?_⟩
    rw [hw.containsLine_iff, Record.stop_between (Nat.le_of_lt (by assumption))]
    · rfl
    · simp only [lastLine, Word.roundUp, Word.mulSat, lineBytes] at *
      omega
  · cases hr

theorem not_inRange_of_mediaError? (hle : start + length ≤ lastLine)
    (hr : mediaError? start length kind = none) : ¬ InRange start length b := by
  rw [mediaError?_eq hle] at hr
  split at hr
  · cases hr
  · unfold InRange
    omega

theorem recordMediaError_of_none (hr : mediaError? start length kind = none) :
    s.recordMediaError start length kind now = s := by
  unfold recordMediaError
  rw [hr]

theorem recordMediaError_of_some (hr : mediaError? start length kind = some r) :
    s.recordMediaError start length kind now =
      { s with
        groundTruth := s.groundTruth ++ [r]
        live := (insertLive r s.live).1
        overflowedAt :=
          if (insertLive r s.live).2 then s.overflowedAt else s.overflowedAt.or (some now) } := by
  unfold recordMediaError insert
  rw [hr]
  simp only
  obtain ⟨live, fits⟩ := insertLive r s.live
  cases fits <;> rfl

/-- An error on a range with an address has a record, which has the lines that it touches. -/
theorem exists_mediaError? (hpos : 0 < length) (hle : start + length ≤ lastLine) :
    ∃ r, mediaError? start length kind = some r ∧
      ∀ b, r.ContainsLine b ↔ Touches start length b := by
  cases hr : mediaError? start length kind with
  | none =>
    have hstart : Touches start length start := ⟨start, Nat.le_refl _, by omega, rfl⟩
    exact absurd ((touches_iff_inRange hpos hle).mp hstart) (not_inRange_of_mediaError? hle hr)
  | some r =>
    refine ⟨r, rfl, fun b => ?_⟩
    rw [(containsLine_of_mediaError? hle hr).2, touches_iff_inRange hpos hle]

theorem overflowedAt_of_recordMediaError
    (h : (s.recordMediaError start length kind now).overflowedAt = none) :
    s.overflowedAt = none := by
  cases hr : mediaError? start length kind with
  | none => rwa [recordMediaError_of_none hr] at h
  | some r =>
    rw [recordMediaError_of_some hr] at h
    simp only at h
    split at h
    · exact h
    · exact (Option.or_eq_none_iff.mp h).1

theorem WellFormed.recordMediaError (h : s.WellFormed) :
    (s.recordMediaError start length kind now).WellFormed := by
  cases hr : mediaError? start length kind with
  | none =>
    rw [recordMediaError_of_none hr]
    exact h
  | some r =>
    have hw := whole_of_mediaError? hr
    rw [recordMediaError_of_some hr]
    refine ⟨h.tidy.insertLive hw, length_insertLive_le h.length_le, fun t ht => ?_⟩
    rcases List.mem_append.mp ht with ht | ht
    · exact h.truth t ht
    · rwa [List.mem_singleton.mp ht]

end Store

end CxlEndpoint.Poison
