import CxlEndpoint.Proofs.Poison.Insertion
import CxlEndpoint.Proofs.Poison.Uncovered

/-!
# The gaps that a record fills

`insertLive` adds to a list what the list does not cover of a record yet.

* `gaps`: those parts of the record, in ascending order. They are tidy (`Tidy.gaps`), apart from
  the list (`Tidy.apart_gaps`), and cover exactly the lines that the list leaves open
  (`Tidy.covers_gaps`).
* `insertLive_eq`: `insertLive` puts in as many of the gaps, from below, as there is room for, and
  says whether these are all of them.
* `Tidy.kindAt_insertLive`, `Tidy.covers_insertLive`, `Tidy.full_of_insertLive`: what follows for
  the lines. Kinds stay, new lines get the kind of the record, and either all its lines are covered
  or the list is full and what is missing lies above what is new.
-/

namespace CxlEndpoint.Poison

variable {l : List Record} {r s g : Record} {a b : Nat}

/-! ## Gaps -/

/-- The parts of `r` that the list does not cover, from below. -/
def gaps (r : Record) (l : List Record) : List Record :=
  (uncovered r.start r.stop (l.filter fun s => s.Overlaps r.start r.stop)).map fun g =>
    .between g.1 g.2 r.kind

theorem gaps_eq : gaps r l = (pieces r l).map fun g => .between g.1 g.2 r.kind := rfl

theorem kind_of_mem_gaps (hg : g ∈ gaps r l) : g.kind = r.kind := by
  obtain ⟨g', -, rfl⟩ := List.mem_map.mp hg
  rfl

/-- Between whole records lie whole lines. -/
theorem Tidy.part_of_pieces (h : Tidy l) (hr : r.Whole) {g : Nat × Nat}
    (hg : g ∈ pieces r l) : (Record.between g.1 g.2 r.kind).Whole := by
  obtain ⟨-, hlt, hle⟩ := (h.sorted.walk r).bounds hg
  refine hr.part ?_ ?_ hlt hle
  · rcases Walk.left_end hg with heq | ⟨s, hs, heq⟩
    · exact heq ▸ hr.start_aligned
    · exact heq ▸ (h.whole s (List.mem_filter.mp hs).1).stop_aligned
  · rcases Walk.right_end hg with heq | ⟨s, hs, heq⟩
    · exact heq ▸ hr.stop_aligned
    · exact heq ▸ (h.whole s (List.mem_filter.mp hs).1).start_aligned

theorem Tidy.whole_gaps (h : Tidy l) (hr : r.Whole) (hg : g ∈ gaps r l) : g.Whole := by
  obtain ⟨g', hg', rfl⟩ := List.mem_map.mp hg
  exact h.part_of_pieces hr hg'

theorem Tidy.gaps (h : Tidy l) (hr : r.Whole) : Tidy (gaps r l) := by
  refine ⟨fun g hg => h.whole_gaps hr hg, List.pairwise_map.mpr ?_⟩
  refine (h.sorted.walk r).ascending.imp_of_mem fun {g g'} hg _ hle => ?_
  obtain ⟨-, hlt, hstop⟩ := (h.sorted.walk r).bounds hg
  rw [Record.stop_between (Nat.le_of_lt hlt) (Nat.le_trans hstop hr.stop_le)]
  exact hle

/-- The gaps cover what the list leaves open of the record. -/
theorem Tidy.covers_gaps (h : Tidy l) (hr : r.Whole) :
    Covers (Poison.gaps r l) a ↔ r.ContainsLine a ∧ ¬ Covers l a := by
  have hcov : Covers (Poison.gaps r l) a ↔ ∃ g ∈ pieces r l, g.1 ≤ a ∧ a < g.2 := by
    simp only [Covers, gaps_eq, List.mem_map, exists_exists_and_eq_and]
    refine exists_congr fun g => and_congr_right fun hg => ?_
    obtain ⟨-, hlt, hle⟩ := (h.sorted.walk r).bounds hg
    rw [(h.part_of_pieces hr hg).containsLine_iff, Record.start_between,
      Record.stop_between (Nat.le_of_lt hlt) (Nat.le_trans hle hr.stop_le)]
  rw [hcov, h.sorted.exists_mem_pieces_iff, hr.containsLine_iff]
  refine and_congr_right fun _ => ?_
  rw [Covers, not_exists]
  refine forall_congr' fun s => Iff.trans (imp_congr_right fun hs => ?_) not_and.symm
  rw [(h.whole s hs).containsLine_iff]

theorem Tidy.apart_gaps (h : Tidy l) (hr : r.Whole) (hg : g ∈ Poison.gaps r l) (hs : s ∈ l) :
    g.Apart s := by
  refine (h.whole_gaps hr hg).apart_of_containsLine (h.whole s hs) fun a hga hsa => ?_
  exact ((h.covers_gaps hr).mp ⟨g, hg, hga⟩).2 ⟨s, hs, hsa⟩

/-! ## Insertion of the gaps -/

theorem insertPieces_eq {kind : Kind} {pieces : List (Nat × Nat)} :
    insertPieces kind pieces l =
      (insertAll ((pieces.map fun g => .between g.1 g.2 kind).take (listLimit - l.length)) l,
        decide (pieces.length ≤ listLimit - l.length)) := by
  induction pieces generalizing l with
  | nil => simp [insertPieces, insertAll]
  | cons g rest ih =>
    unfold insertPieces
    by_cases hfull : listLimit ≤ l.length
    · rw [if_pos hfull, Nat.sub_eq_zero_of_le hfull]
      simp [insertAll]
    · rw [if_neg hfull, ih, length_insertSorted]
      obtain ⟨n, hn⟩ : ∃ n, listLimit - l.length = n + 1 :=
        ⟨listLimit - l.length - 1, by omega⟩
      rw [show listLimit - (l.length + 1) = n by omega, hn, List.map_cons, List.take_succ_cons,
        List.length_cons]
      simp only [Nat.add_le_add_iff_right]
      rfl

/-- `insertLive` puts in the gaps of the record from below, as many as the list has room for. -/
theorem insertLive_eq :
    insertLive r l =
      (insertAll ((gaps r l).take (listLimit - l.length)) l,
        decide ((gaps r l).length ≤ listLimit - l.length)) := by
  rw [insertLive, insertPieces_eq, gaps, List.length_map]

theorem sublist_insertLive : l.Sublist (insertLive r l).1 := by
  rw [insertLive_eq]
  exact sublist_insertAll

theorem mem_of_mem_insertLive (hs : s ∈ (insertLive r l).1) : s ∈ gaps r l ∨ s ∈ l := by
  rw [insertLive_eq] at hs
  exact (mem_insertAll.mp hs).imp_left List.mem_of_mem_take

theorem Tidy.insertLive (h : Tidy l) (hr : r.Whole) : Tidy (insertLive r l).1 := by
  rw [insertLive_eq]
  refine h.insertAll ((h.gaps hr).sublist (List.take_sublist _ _)) fun g hg s hs => ?_
  exact h.apart_gaps hr (List.mem_of_mem_take hg) hs

theorem length_insertLive_le (h : l.length ≤ listLimit) :
    (insertLive r l).1.length ≤ listLimit := by
  rw [insertLive_eq, length_insertAll, List.length_take]
  omega

/-- What is covered afterwards was covered before or lies in the record. -/
theorem Tidy.covers_of_covers_insertLive (h : Tidy l) (hr : r.Whole)
    (hc : Covers (Poison.insertLive r l).1 a) : r.ContainsLine a ∨ Covers l a := by
  obtain ⟨s, hs, ha⟩ := hc
  rcases mem_of_mem_insertLive hs with hs | hs
  · exact Or.inl ((h.covers_gaps hr).mp ⟨s, hs, ha⟩).1
  · exact Or.inr ⟨s, hs, ha⟩

/-- If all gaps went in, the lines of the record are covered. -/
theorem Tidy.covers_insertLive (h : Tidy l) (hr : r.Whole)
    (hall : (Poison.insertLive r l).2 = true) :
    Covers (Poison.insertLive r l).1 a ↔ r.ContainsLine a ∨ Covers l a := by
  rw [insertLive_eq] at hall ⊢
  rw [List.take_of_length_le (of_decide_eq_true hall), covers_insertAll, h.covers_gaps hr]
  by_cases hl : Covers l a <;> simp [hl]

/-- The gaps that go in lie below those that stay out. -/
theorem Tidy.take_gaps_below (h : Tidy l) (hr : r.Whole) {n : Nat}
    (hs : s ∈ (Poison.gaps r l).take n) (hg : g ∈ (Poison.gaps r l).drop n) :
    s.stop ≤ g.start := by
  have ho := (h.gaps hr).ordered
  rw [← List.take_append_drop n (Poison.gaps r l)] at ho
  exact (List.pairwise_append.mp ho).2.2 s hs g hg

/-- If some gap stayed out, the list is full, and a line of the record is not covered. -/
theorem Tidy.full_of_insertLive (h : Tidy l) (hr : r.Whole) (hlen : l.length ≤ listLimit)
    (hout : (Poison.insertLive r l).2 = false) :
    (Poison.insertLive r l).1.length = listLimit ∧
      ∃ a, r.ContainsLine a ∧ ¬ Covers (Poison.insertLive r l).1 a := by
  rw [insertLive_eq] at hout ⊢
  have hmore : listLimit - l.length < (Poison.gaps r l).length := by
    have := of_decide_eq_false hout
    omega
  constructor
  · rw [length_insertAll, List.length_take]
    omega
  · -- The first gap that stayed out starts at such a line.
    have hdrop := List.drop_eq_getElem_cons hmore
    have hmem : (Poison.gaps r l)[listLimit - l.length] ∈
        (Poison.gaps r l).drop (listLimit - l.length) := by
      rw [hdrop]
      exact List.mem_cons_self
    generalize (Poison.gaps r l)[listLimit - l.length] = g at hmem
    have hg := List.mem_of_mem_drop hmem
    have hw := h.whole_gaps hr hg
    have ha : g.ContainsLine g.start := hw.containsLine_iff.mpr ⟨Nat.le_refl _, hw.start_lt_stop⟩
    obtain ⟨hra, hla⟩ := (h.covers_gaps hr).mp ⟨g, hg, ha⟩
    refine ⟨g.start, hra, fun hc => ?_⟩
    rcases covers_insertAll.mp hc with ⟨s, hs, hsa⟩ | hc
    · have := h.take_gaps_below hr hs hmem
      rw [(h.whole_gaps hr (List.mem_of_mem_take hs)).containsLine_iff] at hsa
      omega
    · exact hla hc

/-- A new line lies below every line of the record that is still missing. -/
theorem Tidy.lt_of_insertLive (h : Tidy l) (hr : r.Whole) (ha : ¬ Covers l a)
    (hnew : Covers (Poison.insertLive r l).1 a) (hb : r.ContainsLine b)
    (hout : ¬ Covers (Poison.insertLive r l).1 b) : a < b := by
  rw [insertLive_eq, covers_insertAll] at hnew hout
  rw [not_or] at hout
  obtain ⟨s, hs, hsa⟩ := hnew.resolve_right ha
  obtain ⟨g, hg, hgb⟩ := (h.covers_gaps hr).mpr ⟨hb, hout.2⟩
  have hdrop : g ∈ (Poison.gaps r l).drop (listLimit - l.length) := by
    rw [← List.take_append_drop (listLimit - l.length) (Poison.gaps r l)] at hg
    exact (List.mem_append.mp hg).resolve_left fun hg => hout.1 ⟨g, hg, hgb⟩
  have hle := h.take_gaps_below hr hs hdrop
  rw [(h.whole_gaps hr (List.mem_of_mem_take hs)).containsLine_iff] at hsa
  rw [(h.whole_gaps hr (List.mem_of_mem_drop hdrop)).containsLine_iff] at hgb
  omega

/-- Covered lines keep their kind. -/
theorem Tidy.kindAt_insertLive (h : Tidy l) (hr : r.Whole) (ha : Covers l a) :
    kindAt (Poison.insertLive r l).1 a = kindAt l a := by
  obtain ⟨s, hs, hsa⟩ := ha
  rw [h.kindAt_of_mem hs hsa, (h.insertLive hr).kindAt_of_mem (sublist_insertLive.subset hs) hsa]

/-- New lines are lines of the record and get its kind. -/
theorem Tidy.kindAt_insertLive_of_new (h : Tidy l) (hr : r.Whole) (ha : ¬ Covers l a)
    (hnew : Covers (Poison.insertLive r l).1 a) :
    r.ContainsLine a ∧ kindAt (Poison.insertLive r l).1 a = some r.kind := by
  obtain ⟨s, hs, hsa⟩ := hnew
  have hg := (mem_of_mem_insertLive hs).resolve_right fun hs => ha ⟨s, hs, hsa⟩
  rw [(h.insertLive hr).kindAt_of_mem hs hsa, kind_of_mem_gaps hg]
  exact ⟨((h.covers_gaps hr).mp ⟨s, hg, hsa⟩).1, rfl⟩

/-- A record above the list goes to its end, if there is room. -/
theorem Tidy.insertLive_of_above (h : Tidy l) (hr : r.Whole) (ha : ∀ s ∈ l, s.stop ≤ r.start) :
    Poison.insertLive r l = if l.length < listLimit then (l ++ [r], true) else (l, false) := by
  have hnone : (l.filter fun s => s.Overlaps r.start r.stop) = [] := by
    refine List.filter_eq_nil_iff.mpr fun s hs ho => ?_
    have := ha s hs
    have := (of_decide_eq_true ho).2
    omega
  have hgaps : Poison.gaps r l = [r] := by
    rw [Poison.gaps, hnone, uncovered, if_pos hr.start_lt_stop, List.map_singleton]
    have hlen : r.stop - r.start = r.length := by
      rw [hr.stop_eq]
      omega
    rw [Record.between, hlen]
  rw [insertLive_eq, hgaps]
  split
  · rw [List.take_of_length_le (by simp; omega)]
    show (Poison.insertSorted r l, _) = _
    rw [insertSorted_eq_append fun s hs =>
      Nat.lt_of_lt_of_le (h.whole s hs).start_lt_stop (ha s hs)]
    simp
    omega
  · rw [show listLimit - l.length = 0 by omega]
    rfl

end CxlEndpoint.Poison
