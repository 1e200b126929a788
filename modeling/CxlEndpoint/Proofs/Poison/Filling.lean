import CxlEndpoint.Proofs.Poison.Gaps
import CxlEndpoint.Proofs.Poison.History

/-!
# An insertion fills the gaps

* `GapList`: the gaps that a list leaves of a record, from below. There is one such list
  (`Sorted.gapList_pieces`, `GapList.unique`).
* `Fills`: a list has been filled up with records for some intervals, each at its place.
* `insertLive_fills`: an insertion fills all gaps of its record if there is room for all of them,
  and otherwise as many as there is room for, from below.
-/

namespace CxlEndpoint.Poison

/-- The gaps that the list leaves of `r`, from below. -/
structure GapList (r : Record) (l : List Record) (g : List (Nat × Nat)) : Prop where
  ascending : g.Pairwise fun x y => x.2 ≤ y.1
  mem_iff : ∀ x, x ∈ g ↔ IsGap r.start (r.start + r.length) l x

/-- The records of `l` and one of the kind for each of the intervals, by their starts. Those of `l`
are what they were, in the order in which they were. -/
structure Fills (kind : Kind) (g : List (Nat × Nat)) (l l' : List Record) : Prop where
  perm : l'.Perm ((g.map fun x => .between x.1 x.2 kind) ++ l)
  sorted : Sorted l'
  kept : l.Sublist l'

variable {l : List Record} {r : Record} {g g' : List (Nat × Nat)} {kind : Kind}

theorem GapList.pairwise_lt (h : GapList r l g) : g.Pairwise fun x y => x.1 < y.1 :=
  h.ascending.imp_of_mem fun hx _ hle =>
    Nat.lt_of_lt_of_le ((h.mem_iff _).mp hx).nonempty hle

theorem GapList.unique (h : GapList r l g) (h' : GapList r l g') : g = g' := by
  have : Std.Irrefl fun x y : Nat × Nat => x.1 < y.1 := ⟨fun x => Nat.lt_irrefl x.1⟩
  have : Std.Antisymm fun x y : Nat × Nat => x.1 < y.1 :=
    ⟨fun _ _ hlt hgt => absurd hlt (Nat.lt_asymm hgt)⟩
  refine h.pairwise_lt.eq_of_mem_iff h'.pairwise_lt fun x => ?_
  rw [h.mem_iff, h'.mem_iff]

/-- The walk finds the gaps. -/
theorem Sorted.gapList_pieces (hl : Sorted l) (hr : r.start + r.length ≤ Word.last) :
    GapList r l (pieces r l) := by
  refine ⟨(hl.walk r).ascending, fun x => ?_⟩
  rw [pieces, (hl.walk r).mem_uncovered_iff, isGap_filter_iff (hl.walk r).stop_le, Record.stop,
    Word.addSat_eq_add hr]

theorem Sorted.fills_insertAll (h : Sorted l) :
    Fills kind g l (Poison.insertAll (g.map fun x => .between x.1 x.2 kind) l) :=
  ⟨perm_insertAll, h.insertAll, sublist_insertAll⟩

/-- **An insertion fills the gaps of its record, from below, as far as there is room.** Of the list
only the order is asked: its records need not be whole lines, nor apart from each other. -/
theorem insertLive_fills (hl : Sorted l) (hr : r.start + r.length ≤ Word.last) :
    (∃ g, GapList r l g) ∧
    ∀ g, GapList r l g →
      ((insertLive r l).2 = true ↔ l.length + g.length ≤ listLimit ∨ g = []) ∧
      Fills r.kind (if (insertLive r l).2 then g else g.take (listLimit - l.length)) l
        (insertLive r l).1 := by
  refine ⟨⟨_, hl.gapList_pieces hr⟩, fun g hg => ?_⟩
  obtain rfl := hg.unique (hl.gapList_pieces hr)
  rw [insertLive_eq, gaps_eq, List.length_map, ← List.map_take]
  constructor
  · rw [decide_eq_true_iff, ← List.length_eq_zero_iff]
    omega
  · by_cases hroom : (pieces r l).length ≤ listLimit - l.length
    · rw [List.take_of_length_le hroom, if_pos (decide_eq_true hroom)]
      exact hl.fills_insertAll
    · rw [if_neg (by simpa using hroom)]
      exact hl.fills_insertAll

/-- A record that reaches over three others, of which two gaps are left and one place for them. -/
def acrossThree : Record := ⟨0, 0x140, .external⟩

/-- The records that it meets, and more of them up to one less than the limit. -/
def nearlyFull : List Record := Store.scatteredRecords 255

theorem insertLive_fills_acrossThree :
    Sorted nearlyFull ∧ acrossThree.start + acrossThree.length ≤ Word.last ∧
      GapList acrossThree nearlyFull [(0x40, 0x80), (0xc0, 0x100)] ∧
      (insertLive acrossThree nearlyFull).2 = false ∧
      Fills .external [(0x40, 0x80)] nearlyFull (insertLive acrossThree nearlyFull).1 := by
  have hsorted : Sorted nearlyFull := (Store.tidy_scatteredRecords (by decide)).sorted
  have hend : acrossThree.start + acrossThree.length ≤ Word.last := by decide
  have hgaps : GapList acrossThree nearlyFull [(0x40, 0x80), (0xc0, 0x100)] := by
    have hpieces : pieces acrossThree nearlyFull = [(0x40, 0x80), (0xc0, 0x100)] := by decide
    exact hpieces ▸ hsorted.gapList_pieces hend
  obtain ⟨hflag, hfills⟩ := (insertLive_fills hsorted hend).2 _ hgaps
  have hlength : nearlyFull.length = 255 := Store.length_scatteredRecords
  have hfull : (insertLive acrossThree nearlyFull).2 = false := by
    rw [Bool.eq_false_iff, ne_eq, hflag, hlength]
    decide
  rw [hfull, hlength] at hfills
  exact ⟨hsorted, hend, hgaps, hfull, hfills⟩

end CxlEndpoint.Poison
