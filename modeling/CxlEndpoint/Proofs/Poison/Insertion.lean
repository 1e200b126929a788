import CxlEndpoint.Proofs.Poison.Lines
import Mathlib.Data.List.Sort

/-!
# Insertion into a poison list

* `insertSorted`: a record goes to its place in the order of the starts (`Sorted.insertSorted`),
  among the records that were there (`perm_insertSorted`, `sublist_insertSorted`). A whole record
  that is apart from a tidy list can be put into it (`Tidy.insertSorted`), and gives its lines its
  kind (`Tidy.kindAt_insertSorted`).
* `insertAll`: the same for several records, one after the other.
* `eraseP`: taking out the record that contains a line makes the map undefined at the lines of
  that record (`Tidy.kindAt_eraseP`).
-/

namespace CxlEndpoint.Poison

variable {l new : List Record} {r s : Record} {a b : Nat}

/-! ## One record -/

theorem insertSorted_eq_orderedInsert :
    insertSorted r l = l.orderedInsert (fun s t => s.start ≤ t.start) r := by
  induction l with
  | nil => rfl
  | cons t l ih =>
    rw [insertSorted, List.orderedInsert_cons, ih]
    by_cases hlt : t.start < r.start
    · rw [if_pos hlt, if_neg (Nat.not_le_of_lt hlt)]
    · rw [if_neg hlt, if_pos (Nat.le_of_not_lt hlt)]

@[simp] theorem mem_insertSorted : s ∈ insertSorted r l ↔ s = r ∨ s ∈ l := by
  rw [insertSorted_eq_orderedInsert]
  exact List.mem_orderedInsert _

@[simp] theorem length_insertSorted : (insertSorted r l).length = l.length + 1 := by
  rw [insertSorted_eq_orderedInsert]
  exact List.orderedInsert_length _ l r

theorem sublist_insertSorted : l.Sublist (insertSorted r l) := by
  rw [insertSorted_eq_orderedInsert]
  exact List.sublist_orderedInsert r l

theorem perm_insertSorted : (insertSorted r l).Perm (r :: l) := by
  rw [insertSorted_eq_orderedInsert]
  exact List.perm_orderedInsert _ r l

/-- The record goes in between two parts of the list. -/
theorem exists_insertSorted_eq (r : Record) (l : List Record) :
    ∃ front back, l = front ++ back ∧ insertSorted r l = front ++ r :: back := by
  rw [insertSorted_eq_orderedInsert, List.orderedInsert_eq_take_drop]
  exact ⟨_, _, List.takeWhile_append_dropWhile.symm, rfl⟩

theorem Sorted.insertSorted (h : Sorted l) : Sorted (insertSorted r l) := by
  have : Std.Total fun s t : Record => s.start ≤ t.start :=
    ⟨fun s t => Nat.le_total s.start t.start⟩
  have : IsTrans Record fun s t => s.start ≤ t.start := ⟨fun _ _ _ => Nat.le_trans⟩
  rw [insertSorted_eq_orderedInsert]
  exact List.Pairwise.orderedInsert r l h

theorem insertSorted_eq_append (h : ∀ s ∈ l, s.start < r.start) : insertSorted r l = l ++ [r] := by
  induction l with
  | nil => rfl
  | cons t l ih =>
    obtain ⟨ht, hl⟩ := List.forall_mem_cons.mp h
    rw [insertSorted, if_pos ht, ih hl, List.cons_append]

/-- Whole records that are apart from each other are tidy, if they stand in order. -/
theorem Sorted.tidy_of_perm (h : Sorted l) (hp : l.Perm new) (hw : ∀ r ∈ new, r.Whole)
    (ha : new.Pairwise Record.Apart) : Tidy l := by
  have hwhole : ∀ r ∈ l, r.Whole := fun r hr => hw r (hp.mem_iff.mp hr)
  have hapart : l.Pairwise Record.Apart := (hp.pairwise_iff fun h => h.symm).mpr ha
  refine ⟨hwhole, (h.and hapart).imp_of_mem fun {r s} _ hs hrs => ?_⟩
  have := (hwhole s hs).start_lt_stop
  have := hrs.2
  unfold Record.Apart at this
  omega

/-- A whole record that is apart from all records of a tidy list can be inserted. -/
theorem Tidy.insertSorted (h : Tidy l) (hr : r.Whole) (ha : ∀ s ∈ l, r.Apart s) :
    Tidy (insertSorted r l) :=
  h.sorted.insertSorted.tidy_of_perm perm_insertSorted (List.forall_mem_cons.mpr ⟨hr, h.whole⟩)
    (List.pairwise_cons.mpr ⟨ha, h.pairwise_apart⟩)

theorem find?_insertSorted_of_neg {p : Record → Bool} (h : p r = false) :
    (insertSorted r l).find? p = l.find? p := by
  obtain ⟨front, back, rfl, heq⟩ := exists_insertSorted_eq r l
  rw [heq, List.find?_append, List.find?_append, List.find?_cons, h]

/-- The inserted record gives its lines its kind and leaves the other lines alone. -/
theorem Tidy.kindAt_insertSorted (h : Tidy (Poison.insertSorted r l)) :
    kindAt (Poison.insertSorted r l) a =
      if r.ContainsLine a then some r.kind else kindAt l a := by
  by_cases hr : r.ContainsLine a
  · rw [if_pos hr, h.kindAt_of_mem (mem_insertSorted.mpr (Or.inl rfl)) hr]
  · rw [if_neg hr, kindAt, find?_insertSorted_of_neg (decide_eq_false hr), kindAt]

/-! ## Several records -/

/-- The list with all of `new` inserted, one after the other. -/
def insertAll (new l : List Record) : List Record := new.foldl (fun l r => insertSorted r l) l

theorem perm_insertAll : (insertAll new l).Perm (new ++ l) := by
  induction new generalizing l with
  | nil => exact List.Perm.refl l
  | cons r new ih => exact (ih.trans (perm_insertSorted.append_left new)).trans List.perm_middle

@[simp] theorem mem_insertAll : s ∈ insertAll new l ↔ s ∈ new ∨ s ∈ l :=
  perm_insertAll.mem_iff.trans List.mem_append

@[simp] theorem length_insertAll : (insertAll new l).length = l.length + new.length := by
  rw [perm_insertAll.length_eq, List.length_append, Nat.add_comm]

theorem sublist_insertAll : l.Sublist (insertAll new l) := by
  induction new generalizing l with
  | nil => exact List.Sublist.refl l
  | cons r new ih => exact sublist_insertSorted.trans ih

theorem Sorted.insertAll (h : Sorted l) : Sorted (insertAll new l) := by
  induction new generalizing l with
  | nil => exact h
  | cons r new ih => exact ih h.insertSorted

theorem Tidy.insertAll (h : Tidy l) (hnew : Tidy new) (ha : ∀ r ∈ new, ∀ s ∈ l, r.Apart s) :
    Tidy (insertAll new l) :=
  h.sorted.insertAll.tidy_of_perm perm_insertAll
    (List.forall_mem_append.mpr ⟨hnew.whole, h.whole⟩)
    (List.pairwise_append.mpr ⟨hnew.pairwise_apart, h.pairwise_apart, ha⟩)

theorem covers_insertAll : Covers (insertAll new l) a ↔ Covers new a ∨ Covers l a := by
  simp only [Covers, mem_insertAll, or_and_right, exists_or]

/-! ## Removal of the record that contains a line -/

/-- Of a tidy list, `eraseP` takes the one record that contains a line. -/
theorem Tidy.mem_eraseP (h : Tidy l) :
    s ∈ l.eraseP (fun r => r.ContainsLine a) ↔ s ∈ l ∧ ¬ s.ContainsLine a := by
  induction l with
  | nil => simp
  | cons t l ih =>
    obtain ⟨ht, hlt, hl⟩ := tidy_cons.mp h
    by_cases hta : t.ContainsLine a
    · rw [List.eraseP_cons_of_pos (by simpa using hta)]
      constructor
      · intro hs
        refine ⟨List.mem_cons_of_mem _ hs, fun hsa => ?_⟩
        have hst := h.eq_of_containsLine (List.mem_cons_of_mem _ hs) List.mem_cons_self hsa hta
        have := hlt s hs
        have := ht.start_lt_stop
        rw [hst] at *
        omega
      · rintro ⟨hs, hsa⟩
        rcases List.mem_cons.mp hs with rfl | hs
        · exact absurd hta hsa
        · exact hs
    · rw [List.eraseP_cons_of_neg (by simpa using hta), List.mem_cons, ih hl, List.mem_cons]
      constructor
      · rintro (rfl | ⟨hs, hsa⟩)
        · exact ⟨Or.inl rfl, hta⟩
        · exact ⟨Or.inr hs, hsa⟩
      · rintro ⟨rfl | hs, hsa⟩
        · exact Or.inl rfl
        · exact Or.inr ⟨hs, hsa⟩

theorem Tidy.covers_eraseP (h : Tidy l) (hr : r ∈ l) (hra : r.ContainsLine a) :
    Covers (l.eraseP fun s => s.ContainsLine a) b ↔ Covers l b ∧ ¬ r.ContainsLine b := by
  constructor
  · rintro ⟨s, hs, hb⟩
    obtain ⟨hsl, hsa⟩ := h.mem_eraseP.mp hs
    refine ⟨⟨s, hsl, hb⟩, fun hrb => hsa ?_⟩
    rwa [h.eq_of_containsLine hsl hr hb hrb]
  · rintro ⟨⟨s, hs, hb⟩, hrb⟩
    refine ⟨s, h.mem_eraseP.mpr ⟨hs, fun hsa => hrb ?_⟩, hb⟩
    rwa [h.eq_of_containsLine hr hs hra hsa]

/-- Without the record `r`, the map is undefined at its lines and the same at the other lines. -/
theorem Tidy.kindAt_eraseP (h : Tidy l) (hr : r ∈ l) (hra : r.ContainsLine a) :
    kindAt (l.eraseP fun s => s.ContainsLine a) b =
      if r.ContainsLine b then none else kindAt l b := by
  have herase : Tidy (l.eraseP fun s => s.ContainsLine a) := h.sublist List.eraseP_sublist
  by_cases hrb : r.ContainsLine b
  · rw [if_pos hrb, kindAt_eq_none_iff, h.covers_eraseP hr hra]
    exact fun hc => hc.2 hrb
  · rw [if_neg hrb]
    by_cases hb : Covers l b
    · obtain ⟨s, hs, hsb⟩ := (h.covers_eraseP hr hra).mpr ⟨hb, hrb⟩
      rw [herase.kindAt_of_mem hs hsb, h.kindAt_of_mem (List.mem_of_mem_eraseP hs) hsb]
    · rw [kindAt_eq_none_iff.mpr hb, kindAt_eq_none_iff, h.covers_eraseP hr hra]
      exact fun hc => hb hc.1

end CxlEndpoint.Poison
