import CxlEndpoint.Proofs.Poison.Lines

/-!
# What a list leaves open of a range

`uncovered` walks over records in the order of their starts and collects what it finds between
them. The records may overlap, and some may be empty.

* `Open`: an interval in a range that no record reaches into. `IsGap`: one that is part of no
  longer one. Gaps that have an address in common are the same (`IsGap.eq_of_meet`).
* `Walk`: what the walk needs to know of the records. It meets every address that they leave open
  (`Walk.exists_mem_iff`), and each of its intervals ends where the range or a record does
  (`Walk.left_end`, `Walk.right_end`).
* `Walk.mem_uncovered_iff`: so the walk collects exactly the gaps.
* `pieces`: the walk for a record. Records that do not overlap it are left out, which makes no
  difference to its gaps (`isGap_filter_iff`) and to the addresses that are open
  (`Sorted.exists_mem_pieces_iff`).
-/

namespace CxlEndpoint.Poison

/-- `[g.1, g.2)` is a part of `[start, stop)`, not empty, and no record reaches into it. -/
structure Open (start stop : Nat) (l : List Record) (g : Nat × Nat) : Prop where
  nonempty : g.1 < g.2
  start_le : start ≤ g.1
  le_stop : g.2 ≤ stop
  clear : ∀ s ∈ l, s.start + s.length ≤ g.1 ∨ g.2 ≤ s.start

/-- An open interval that is part of no other. -/
structure IsGap (start stop : Nat) (l : List Record) (g : Nat × Nat) : Prop
    extends Open start stop l g where
  maximal : ∀ g', Open start stop l g' → g'.1 ≤ g.1 → g.2 ≤ g'.2 → g' = g

variable {l : List Record} {r s : Record} {start stop a : Nat} {g g' : Nat × Nat}

/-- The union of two open intervals that have an address in common. -/
theorem Open.union (h : Open start stop l g) (h' : Open start stop l g') (hlo : g.1 < g'.2)
    (hhi : g'.1 < g.2) : Open start stop l (min g.1 g'.1, max g.2 g'.2) := by
  have hg := h.nonempty
  refine ⟨by simp only; omega, ?_, ?_, fun s hs => ?_⟩
  · exact Nat.le_min.mpr ⟨h.start_le, h'.start_le⟩
  · exact Nat.max_le.mpr ⟨h.le_stop, h'.le_stop⟩
  · have := h.clear s hs
    have := h'.clear s hs
    simp only
    omega

/-- Two gaps that have an address in common are the same. -/
theorem IsGap.eq_of_meet (h : IsGap start stop l g) (h' : IsGap start stop l g') (hlo : g.1 < g'.2)
    (hhi : g'.1 < g.2) : g = g' := by
  have hunion := h.toOpen.union h'.toOpen hlo hhi
  have h1 := h.maximal _ hunion (Nat.min_le_left _ _) (Nat.le_max_left _ _)
  have h2 := h'.maximal _ hunion (Nat.min_le_right _ _) (Nat.le_max_right _ _)
  rw [← h1, h2]

/-! ## The walk -/

theorem mem_uncovered_nil : g ∈ uncovered start stop [] ↔ start < stop ∧ g = (start, stop) := by
  unfold uncovered
  split <;> rename_i h <;> simp [h]

theorem mem_uncovered_cons :
    g ∈ uncovered start stop (s :: l) ↔
      start < s.start ∧ g = (start, s.start) ∨ g ∈ uncovered (max start s.stop) stop l := by
  rw [uncovered]
  split <;> rename_i h <;> simp [h]

/-- The records stand in the order of their starts, start inside a range, and the range ends at a
word. -/
structure Walk (stop : Nat) (l : List Record) : Prop where
  sorted : Sorted l
  start_lt : ∀ s ∈ l, s.start < stop
  stop_le : stop ≤ Word.last

namespace Walk

theorem tail (h : Walk stop (s :: l)) : Walk stop l :=
  ⟨(List.pairwise_cons.mp h.sorted).2, fun t ht => h.start_lt t (List.mem_cons_of_mem _ ht),
    h.stop_le⟩

/-- Below the end of the range, it makes no difference that the end of a record is a word. -/
theorem stop_le_iff (h : Walk stop l) (ha : a < stop) : s.stop ≤ a ↔ s.start + s.length ≤ a := by
  have := h.stop_le
  unfold Record.stop Word.addSat
  omega

theorem start_le_stop (h : Walk stop l) (hs : s ∈ l) : s.start ≤ s.stop := by
  have := h.start_lt s hs
  have := h.stop_le
  unfold Record.stop Word.addSat
  omega

/-- What the walk collects lies between where it stands and the end. -/
theorem bounds (h : Walk stop l) (hg : g ∈ uncovered start stop l) :
    start ≤ g.1 ∧ g.1 < g.2 ∧ g.2 ≤ stop := by
  induction l generalizing start with
  | nil =>
    obtain ⟨hlt, rfl⟩ := mem_uncovered_nil.mp hg
    exact ⟨Nat.le_refl _, hlt, Nat.le_refl _⟩
  | cons s l ih =>
    rcases mem_uncovered_cons.mp hg with ⟨hlt, rfl⟩ | hg
    · exact ⟨Nat.le_refl _, hlt, Nat.le_of_lt (h.start_lt s List.mem_cons_self)⟩
    · obtain ⟨hlo, hlt, hhi⟩ := ih h.tail hg
      exact ⟨by omega, hlt, hhi⟩

/-- No record reaches into what the walk collects. -/
theorem clear (h : Walk stop l) (hg : g ∈ uncovered start stop l) (hs : s ∈ l) :
    s.stop ≤ g.1 ∨ g.2 ≤ s.start := by
  induction l generalizing start with
  | nil => cases hs
  | cons t l ih =>
    have hafter := (List.pairwise_cons.mp h.sorted).1
    rcases mem_uncovered_cons.mp hg with ⟨-, rfl⟩ | hg
    · -- The interval ends at the start of the first record.
      rcases List.mem_cons.mp hs with rfl | hs
      · exact Or.inr (Nat.le_refl _)
      · exact Or.inr (hafter s hs)
    · rcases List.mem_cons.mp hs with rfl | hs
      · have := (h.tail.bounds hg).1
        omega
      · exact ih h.tail hg hs

theorem isOpen (h : Walk stop l) (hg : g ∈ uncovered start stop l) : Open start stop l g := by
  obtain ⟨hlo, hlt, hhi⟩ := h.bounds hg
  refine ⟨hlt, hlo, hhi, fun s hs => (h.clear hg hs).imp_left fun hstop => ?_⟩
  exact (h.stop_le_iff (Nat.lt_of_lt_of_le hlt hhi)).mp hstop

/-- On the left, an interval ends with the range or a record. -/
theorem left_end (hg : g ∈ uncovered start stop l) : g.1 = start ∨ ∃ s ∈ l, g.1 = s.stop := by
  induction l generalizing start with
  | nil =>
    obtain ⟨-, rfl⟩ := mem_uncovered_nil.mp hg
    exact Or.inl rfl
  | cons s l ih =>
    rcases mem_uncovered_cons.mp hg with ⟨-, rfl⟩ | hg
    · exact Or.inl rfl
    · rcases ih hg with hstart | ⟨t, ht, heq⟩
      · rcases Nat.le_total s.stop start with hle | hle
        · exact Or.inl (hstart.trans (Nat.max_eq_left hle))
        · exact Or.inr ⟨s, List.mem_cons_self, hstart.trans (Nat.max_eq_right hle)⟩
      · exact Or.inr ⟨t, List.mem_cons_of_mem _ ht, heq⟩

/-- On the right, an interval ends with the range or in front of a record. -/
theorem right_end (hg : g ∈ uncovered start stop l) : g.2 = stop ∨ ∃ s ∈ l, g.2 = s.start := by
  induction l generalizing start with
  | nil =>
    obtain ⟨-, rfl⟩ := mem_uncovered_nil.mp hg
    exact Or.inl rfl
  | cons s l ih =>
    rcases mem_uncovered_cons.mp hg with ⟨-, rfl⟩ | hg
    · exact Or.inr ⟨s, List.mem_cons_self, rfl⟩
    · refine (ih hg).imp_right ?_
      rintro ⟨t, ht, heq⟩
      exact ⟨t, List.mem_cons_of_mem _ ht, heq⟩

theorem isGap (h : Walk stop l) (hg : g ∈ uncovered start stop l) : IsGap start stop l g := by
  have hopen := h.isOpen hg
  have hlt := hopen.nonempty
  refine ⟨hopen, fun g' hg' hlo hhi => Prod.ext ?_ ?_⟩
  · have hstart := hg'.start_le
    rcases left_end hg with heq | ⟨s, hs, heq⟩
    · omega
    · have hle := h.start_le_stop hs
      have hclear := hg'.clear s hs
      rw [← h.stop_le_iff (by have := hg'.le_stop; omega)] at hclear
      omega
  · have hstop := hg'.le_stop
    rcases right_end hg with heq | ⟨s, hs, heq⟩
    · omega
    · have := hg'.clear s hs
      omega

/-- The walk comes by an address in the range if no record holds it. -/
theorem exists_mem_iff (h : Walk stop l) :
    (∃ g ∈ uncovered start stop l, g.1 ≤ a ∧ a < g.2) ↔
      (start ≤ a ∧ a < stop) ∧ ∀ s ∈ l, ¬ (s.start ≤ a ∧ a < s.stop) := by
  constructor
  · rintro ⟨g, hg, hlo, hhi⟩
    have hbounds := h.bounds hg
    refine ⟨by omega, fun s hs => ?_⟩
    have := h.clear hg hs
    omega
  · rintro ⟨⟨hstart, hstop⟩, hfree⟩
    induction l generalizing start with
    | nil => exact ⟨_, mem_uncovered_nil.mpr ⟨by omega, rfl⟩, hstart, hstop⟩
    | cons s l ih =>
      obtain ⟨hs, hl⟩ := List.forall_mem_cons.mp hfree
      by_cases hbefore : a < s.start
      · exact ⟨_, mem_uncovered_cons.mpr (Or.inl ⟨by omega, rfl⟩), hstart, hbefore⟩
      · have hbehind : max start s.stop ≤ a := by omega
        obtain ⟨g, hg, hin⟩ := ih h.tail hl hbehind
        exact ⟨g, mem_uncovered_cons.mpr (Or.inr hg), hin⟩

/-- The walk goes upwards. -/
theorem ascending (h : Walk stop l) :
    (uncovered start stop l).Pairwise fun g g' => g.2 ≤ g'.1 := by
  induction l generalizing start with
  | nil =>
    unfold uncovered
    split
    · exact List.pairwise_singleton _ _
    · exact .nil
  | cons s l ih =>
    rw [uncovered]
    split
    · refine List.pairwise_cons.mpr ⟨fun g hg => ?_, ih h.tail⟩
      have := (h.tail.bounds hg).1
      have := h.start_le_stop List.mem_cons_self
      omega
    · exact ih h.tail

/-- **The walk collects exactly the gaps.** -/
theorem mem_uncovered_iff (h : Walk stop l) :
    g ∈ uncovered start stop l ↔ IsGap start stop l g := by
  refine ⟨h.isGap, fun hgap => ?_⟩
  have hlt := hgap.nonempty
  -- The walk comes by the first address of the gap.
  have hfirst : ∃ g' ∈ uncovered start stop l, g'.1 ≤ g.1 ∧ g.1 < g'.2 := by
    refine h.exists_mem_iff.mpr ⟨⟨hgap.start_le, by have := hgap.le_stop; omega⟩, fun s hs => ?_⟩
    have := hgap.clear s hs
    rw [← h.stop_le_iff (by have := hgap.le_stop; omega)] at this
    omega
  obtain ⟨g', hg', hlo, hhi⟩ := hfirst
  rwa [hgap.eq_of_meet (h.isGap hg') hhi (by omega)]

end Walk

/-! ## The records that overlap a range -/

/-- What the walk collects of a record, over the records of the list that overlap it. -/
def pieces (r : Record) (l : List Record) : List (Nat × Nat) :=
  uncovered r.start r.stop (l.filter fun s => s.Overlaps r.start r.stop)

/-- Of a list in order, the records that overlap another one are fit for the walk. -/
theorem Sorted.walk (h : Sorted l) (r : Record) :
    Walk r.stop (l.filter fun s => s.Overlaps r.start r.stop) :=
  ⟨h.sublist List.filter_sublist,
    fun _ hs => (of_decide_eq_true (List.mem_filter.mp hs).2).1, Word.addSat_le_last _ _⟩

/-- What the walk collects of a record has the addresses that the list leaves open of it. -/
theorem Sorted.exists_mem_pieces_iff (h : Sorted l) :
    (∃ g ∈ pieces r l, g.1 ≤ a ∧ a < g.2) ↔
      (r.start ≤ a ∧ a < r.stop) ∧ ∀ s ∈ l, ¬ (s.start ≤ a ∧ a < s.stop) := by
  rw [pieces, (h.walk r).exists_mem_iff]
  refine and_congr_right fun ha => ⟨fun hfree s hs hsa => ?_, fun hfree s hs => ?_⟩
  · refine hfree s (List.mem_filter.mpr ⟨hs, decide_eq_true ?_⟩) hsa
    unfold Record.Overlaps
    omega
  · exact hfree s (List.mem_filter.mp hs).1

/-- Records that do not overlap a range do not reach into parts of it. -/
theorem open_filter_iff (hstop : stop ≤ Word.last) :
    Open start stop (l.filter fun s => s.Overlaps start stop) g ↔ Open start stop l g := by
  constructor
  · intro h
    refine ⟨h.nonempty, h.start_le, h.le_stop, fun s hs => ?_⟩
    by_cases ho : s.Overlaps start stop
    · exact h.clear s (List.mem_filter.mpr ⟨hs, decide_eq_true ho⟩)
    · have := h.nonempty
      have := h.start_le
      have := h.le_stop
      unfold Record.Overlaps Record.stop Word.addSat at ho
      omega
  · intro h
    exact ⟨h.nonempty, h.start_le, h.le_stop, fun s hs => h.clear s (List.mem_filter.mp hs).1⟩

theorem isGap_filter_iff (hstop : stop ≤ Word.last) :
    IsGap start stop (l.filter fun s => s.Overlaps start stop) g ↔ IsGap start stop l g := by
  constructor
  · intro h
    exact ⟨(open_filter_iff hstop).mp h.toOpen,
      fun g' hg' => h.maximal g' ((open_filter_iff hstop).mpr hg')⟩
  · intro h
    exact ⟨(open_filter_iff hstop).mpr h.toOpen,
      fun g' hg' => h.maximal g' ((open_filter_iff hstop).mp hg')⟩

end CxlEndpoint.Poison
