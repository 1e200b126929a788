import CxlEndpoint.Capacity.BlockWords
import Mathlib.Data.Nat.Bitwise

/-!
# Blocks in words

* `BlockWords.Marks`: what a call for a range of blocks leaves, and what is answered. A range goes
  on (`Marks.append`) until a block is not new (`Marks.stop`).
* `BlockWords.index_lt`: there is a word for each block below the size. So a block can be marked
  (`exists_insertChecked`), and with it several of them (`exists_insertBlocksChecked`) and a range
  with whatever ends (`exists_insertRangeChecked`).
* `BlockWords.Represents`: the words stand for a `BlockSet`. The set takes in a series of ranges
  exactly if the words do, and then they stand for the set afterwards
  (`Represents.forall_answers_iff`).
* `BlockWords.exact_after`: the bits that are set are those of the ranges that were taken in, a
  range is taken in if it lies below the size and meets none of them, and the program never stops.
-/

namespace CxlEndpoint

/-- Some range of the list has block `i`. A range is given by its first block and its length. -/
def Named (calls : List (Nat × Nat)) (i : Nat) : Prop := ∃ c ∈ calls, c.1 ≤ i ∧ i < c.1 + c.2

/-- Adds the ranges one after another, if all of them can be added. -/
def BlockSet.insertRanges? (s : BlockSet) (calls : List (Nat × Nat)) : Option BlockSet :=
  calls.foldlM (fun s c => s.insertRange? c.1 c.2) s

/-! ## Bits of a word -/

section Bits

variable {word : UInt64} {i k : Nat}

theorem toNat_blockBit (i : Nat) : (blockBit i).toNat = 2 ^ (i % wordBits) := by
  have hlt : i % wordBits < 64 := Nat.mod_lt _ (by decide)
  have hpow : 2 ^ (i % wordBits) < 2 ^ 64 := Nat.pow_lt_pow_right (by decide) hlt
  have hshift : (UInt64.ofNat (i % wordBits)).toNat % 64 = i % wordBits := by
    rw [UInt64.toNat_ofNat', Nat.mod_eq_of_lt (Nat.lt_trans hlt (by decide)), Nat.mod_eq_of_lt hlt]
  rw [blockBit, UInt64.toNat_shiftLeft, hshift, UInt64.toNat_one, Nat.one_shiftLeft,
    Nat.mod_eq_of_lt hpow]

theorem and_blockBit_ne_zero_iff :
    word &&& blockBit i ≠ 0 ↔ word.toNat.testBit (i % wordBits) = true := by
  have hand : (word &&& blockBit i).toNat =
      (word.toNat.testBit (i % wordBits)).toNat * 2 ^ (i % wordBits) := by
    rw [UInt64.toNat_and, toNat_blockBit, Nat.and_two_pow]
  rw [ne_eq, ← UInt64.toNat_inj, hand]
  cases word.toNat.testBit (i % wordBits) <;> simp

theorem testBit_or_blockBit :
    (word ||| blockBit i).toNat.testBit k =
      (word.toNat.testBit k || decide (i % wordBits = k)) := by
  rw [UInt64.toNat_or, Nat.testBit_or, toNat_blockBit, Nat.testBit_two_pow]

end Bits

namespace BlockWords

variable {w w' w₁ : BlockWords} {s : BlockSet} {size first count m n i : Nat} {ok : Bool}
  {answers : List Bool} {calls : List (Nat × Nat)}

/-! ## What a call leaves and answers -/

/-- What becomes of `w` in a call for `count` blocks from `first` on, and what is answered: if all
of them are below the size and new, they are marked, and nothing else is. -/
structure Marks (w : BlockWords) (first count : Nat) (w' : BlockWords) (ok : Bool) : Prop where
  size_eq : w'.size = w.size
  new_iff : ok = true ↔
    first + count ≤ w.size ∧ ∀ i, first ≤ i → i < first + count → w.contains i = false
  contains_eq : ok = true →
    ∀ i, w'.contains i = (w.contains i || (decide (first ≤ i) && decide (i < first + count)))

/-- The range goes on behind blocks that were marked. -/
theorem Marks.append (h₁ : w.Marks first m w₁ true) (h₂ : w₁.Marks (first + m) n w' ok) :
    w.Marks first (m + n) w' ok := by
  obtain ⟨-, hnew₁⟩ := h₁.new_iff.mp rfl
  refine ⟨h₂.size_eq.trans h₁.size_eq, ?_, fun hok i => ?_⟩
  · rw [h₂.new_iff, h₁.size_eq, Nat.add_assoc]
    refine and_congr_right fun _ => ⟨fun hnew₂ i hlo hhi => ?_, fun hnew i hlo hhi => ?_⟩
    · by_cases hi : i < first + m
      · exact hnew₁ i hlo hi
      · have := hnew₂ i (Nat.le_of_not_lt hi) hhi
        rw [h₁.contains_eq rfl, Bool.or_eq_false_iff] at this
        exact this.1
    · rw [h₁.contains_eq rfl, hnew i (by omega) hhi, decide_eq_false (Nat.not_lt_of_le hlo)]
      simp
  · rw [h₂.contains_eq hok, h₁.contains_eq rfl, Bool.or_assoc]
    congr 1
    rw [Bool.eq_iff_iff]
    simp only [Bool.or_eq_true, Bool.and_eq_true, decide_eq_true_eq]
    omega

/-- The range ends at a block that was not new. -/
theorem Marks.stop (h : w.Marks first m w' false) : w.Marks first (m + n) w' false := by
  refine ⟨h.size_eq, ?_, by simp⟩
  simp only [Bool.false_eq_true, false_iff]
  rintro ⟨hroom, hnew⟩
  have hok := h.new_iff.mpr ⟨by omega, fun i hlo hhi => hnew i hlo (by omega)⟩
  cases hok

/-! ## One block -/

/-- There is a word for each block below the size. -/
theorem index_lt (h : i < size) : i / wordBits < wordCount size := by
  unfold wordCount wordBits
  omega

theorem contains_empty : (empty size).contains i = false := by
  rw [contains, empty, Vector.getElem?_replicate]
  split <;> simp

theorem exists_word (h : i < w.size) :
    ∃ word, w.words[i / wordBits]? = some word ∧
      w.contains i = word.toNat.testBit (i % wordBits) := by
  obtain ⟨word, hword⟩ : ∃ word, w.words[i / wordBits]? = some word :=
    ⟨_, Vector.getElem?_eq_getElem (index_lt h)⟩
  exact ⟨word, hword, by rw [contains, hword, Option.any_some]⟩

/-- With the bit of block `i` set in its word, block `i` is in the set, and of the others those
that were. -/
theorem contains_setIfInBounds (h : i < w.size) {word : UInt64}
    (hword : w.words[i / wordBits]? = some word) (j : Nat) :
    contains ⟨w.size, w.words.setIfInBounds (i / wordBits) (word ||| blockBit i)⟩ j =
      (w.contains j || decide (j = i)) := by
  unfold contains
  rw [Vector.getElem?_setIfInBounds]
  by_cases hindex : i / wordBits = j / wordBits
  · -- Two blocks of one word are the same if their bits are.
    have hbit : i % wordBits = j % wordBits ↔ j = i := by
      unfold wordBits at *
      omega
    rw [if_pos hindex, if_pos (index_lt h), ← hindex, hword, Option.any_some, Option.any_some,
      testBit_or_blockBit, decide_eq_decide.mpr hbit]
  · have hne : j ≠ i := fun hj => hindex (by rw [hj])
    rw [if_neg hindex, decide_eq_false hne, Bool.or_false]

/-- A block below the size is marked, unless it is in the set. -/
theorem exists_insertChecked (h : i < w.size) :
    ∃ w' ok, w.insertChecked i = some (w', ok) ∧ w.Marks i 1 w' ok := by
  obtain ⟨word, hword, hcontains⟩ := exists_word h
  rw [insertChecked, hword, Option.map_some]
  by_cases hset : word.toNat.testBit (i % wordBits) = true
  · refine ⟨w, false, by rw [if_pos (and_blockBit_ne_zero_iff.mpr hset)], rfl, ?_, by simp⟩
    simp only [Bool.false_eq_true, false_iff]
    rintro ⟨-, hnew⟩
    rw [← hcontains, hnew i (Nat.le_refl _) (Nat.lt_succ_self _)] at hset
    cases hset
  · have hbit : ¬ word &&& blockBit i ≠ 0 := mt and_blockBit_ne_zero_iff.mp hset
    refine ⟨⟨w.size, w.words.setIfInBounds (i / wordBits) (word ||| blockBit i)⟩, true,
      by rw [if_neg hbit], rfl, ?_, fun _ j => ?_⟩
    · simp only [true_iff]
      refine ⟨h, fun j hlo hhi => ?_⟩
      obtain rfl : j = i := by omega
      exact hcontains.trans (Bool.eq_false_iff.mpr hset)
    · have hj : j = i ↔ i ≤ j ∧ j < i + 1 := by omega
      rw [contains_setIfInBounds h hword, decide_eq_decide.mpr hj, Bool.decide_and]

/-! ## Ranges -/

/-- Blocks below the size are marked, up to one that is in the set. -/
theorem exists_insertBlocksChecked (h : first + count ≤ w.size) :
    ∃ w' ok, w.insertBlocksChecked first count = some (w', ok) ∧ w.Marks first count w' ok := by
  induction count generalizing w first with
  | zero =>
    refine ⟨w, true, rfl, rfl, ?_, fun _ i => ?_⟩
    · simp only [true_iff]
      exact ⟨h, fun i hlo hhi => absurd hhi (Nat.not_lt_of_le hlo)⟩
    · by_cases hi : first ≤ i <;> simp [hi]
  | succ count ih =>
    have hfirst : first < w.size := by omega
    obtain ⟨w₁, ok₁, hinsert, hmarks₁⟩ := exists_insertChecked hfirst
    rw [insertBlocksChecked, hinsert, Nat.add_comm count 1]
    cases ok₁ with
    | false => exact ⟨w₁, false, rfl, hmarks₁.stop⟩
    | true =>
      have hroom : first + 1 + count ≤ w₁.size := by
        rw [hmarks₁.size_eq]
        omega
      obtain ⟨w', ok, hrest, hmarks⟩ := ih hroom
      exact ⟨w', ok, hrest, hmarks₁.append hmarks⟩

/-- A range with whatever ends is marked or turned down. -/
theorem exists_insertRangeChecked (hsize : w.size ≤ Word.last) (first count : Nat) :
    ∃ w' ok, w.insertRangeChecked first count = some (w', ok) ∧ w.Marks first count w' ok := by
  by_cases hroom : first + count ≤ w.size
  · obtain ⟨w', ok, hinsert, hmarks⟩ := exists_insertBlocksChecked hroom
    refine ⟨w', ok, ?_, hmarks⟩
    rw [insertRangeChecked, Word.add?, if_pos (Nat.le_trans hroom hsize)]
    simp only [if_neg (Nat.not_lt_of_le hroom)]
    exact hinsert
  · refine ⟨w, false, ?_, rfl, by simp [hroom], by simp⟩
    rw [insertRangeChecked, Word.add?]
    by_cases hword : first + count ≤ Word.last
    · rw [if_pos hword]
      exact if_pos (Nat.lt_of_not_le hroom)
    · rw [if_neg hword]

/-! ## Sets -/

/-- The words stand for the set. -/
structure Represents (w : BlockWords) (s : BlockSet) : Prop where
  size_eq : w.size = s.size
  contains_eq : ∀ i, w.contains i = s.contains i

theorem represents_empty : (empty size).Represents (.empty size) :=
  ⟨rfl, fun i => by simp [contains_empty, BlockSet.contains, BlockSet.empty]⟩

/-- The set takes in a range that the words take in. -/
theorem Represents.of_marks (h : w.Represents s) (hmarks : w.Marks first count w' true) :
    ∃ s', s.insertRange? first count = some s' ∧ w'.Represents s' := by
  obtain ⟨hroom, hnew⟩ := hmarks.new_iff.mp rfl
  rw [h.size_eq] at hroom
  have hinsert := BlockSet.insertRange?_eq_some_iff.mpr
    ⟨hroom, fun i hlo hhi => h.contains_eq i ▸ hnew i hlo hhi, rfl⟩
  refine ⟨_, hinsert, hmarks.size_eq.trans h.size_eq, fun i => ?_⟩
  rw [hmarks.contains_eq rfl, h.contains_eq, BlockSet.contains_insertRange? hinsert]

/-- The set turns down a range that the words turn down. -/
theorem Represents.insertRange?_eq_none (h : w.Represents s)
    (hmarks : w.Marks first count w' false) : s.insertRange? first count = none := by
  cases hinsert : s.insertRange? first count with
  | none => rfl
  | some s' =>
    obtain ⟨hroom, hnew, -⟩ := BlockSet.insertRange?_eq_some_iff.mp hinsert
    have hok := hmarks.new_iff.mpr
      ⟨h.size_eq.trans_ge hroom, fun i hlo hhi => (h.contains_eq i).trans (hnew i hlo hhi)⟩
    cases hok

/-! ## Several ranges -/

/-- The calls one after another, with what was answered to each. -/
def insertRangesChecked (w : BlockWords) : List (Nat × Nat) → Option (BlockWords × List Bool)
  | [] => some (w, [])
  | (first, count) :: rest =>
    match w.insertRangeChecked first count with
    | none => none
    | some (w, ok) => (insertRangesChecked w rest).map fun (w, answers) => (w, ok :: answers)

theorem named_cons : Named ((first, count) :: calls) i ↔
    (first ≤ i ∧ i < first + count) ∨ Named calls i := by
  simp [Named]

/-- No call stops the program. -/
theorem exists_insertRangesChecked (hsize : w.size ≤ Word.last) (calls : List (Nat × Nat)) :
    ∃ w' answers, w.insertRangesChecked calls = some (w', answers) ∧ w'.size = w.size ∧
      ((∀ ok ∈ answers, ok = true) →
        ∀ i, w'.contains i = true ↔ w.contains i = true ∨ Named calls i) := by
  induction calls generalizing w with
  | nil => exact ⟨w, [], rfl, rfl, fun _ i => by simp [Named]⟩
  | cons c calls ih =>
    obtain ⟨first, count⟩ := c
    obtain ⟨w', ok, hinsert, hmarks⟩ := exists_insertRangeChecked hsize first count
    obtain ⟨w'', answers, hrest, hsize', hcontains⟩ := ih (hmarks.size_eq.trans_le hsize)
    refine ⟨w'', ok :: answers, ?_, hsize'.trans hmarks.size_eq, fun hall i => ?_⟩
    · rw [insertRangesChecked, hinsert]
      simp only [hrest, Option.map_some]
    · obtain ⟨hok, hanswers⟩ := List.forall_mem_cons.mp hall
      rw [hcontains hanswers, hmarks.contains_eq hok, named_cons, ← or_assoc]
      simp

/-- The set takes in all ranges if the words do. -/
theorem Represents.forall_answers_iff (h : w.Represents s) (hsize : w.size ≤ Word.last)
    (hrun : w.insertRangesChecked calls = some (w', answers)) :
    (∀ ok ∈ answers, ok = true) ↔ ∃ s', s.insertRanges? calls = some s' ∧ w'.Represents s' := by
  induction calls generalizing w s answers with
  | nil =>
    obtain ⟨rfl, rfl⟩ := Prod.mk.inj (Option.some.inj hrun)
    exact ⟨fun _ => ⟨s, rfl, h⟩, fun _ ok hok => absurd hok List.not_mem_nil⟩
  | cons c calls ih =>
    obtain ⟨first, count⟩ := c
    obtain ⟨w₁, ok, hinsert, hmarks⟩ := exists_insertRangeChecked hsize first count
    rw [insertRangesChecked, hinsert] at hrun
    obtain ⟨⟨w₂, answers'⟩, hrest, heq⟩ := Option.map_eq_some_iff.mp hrun
    obtain ⟨rfl, rfl⟩ := Prod.mk.inj heq
    rw [List.forall_mem_cons, BlockSet.insertRanges?, List.foldlM_cons]
    cases ok with
    | true =>
      obtain ⟨s₁, hset, h₁⟩ := h.of_marks hmarks
      rw [hset, eq_self_iff_true, true_and]
      exact ih h₁ (hmarks.size_eq.trans_le hsize) hrest
    | false =>
      rw [h.insertRange?_eq_none hmarks]
      simp

/-- **The words hold exactly the blocks of the ranges that they took in.** There is a word for every
block that is looked at, also after a range has been turned down. -/
theorem exact_after (hsize : size ≤ Word.last) (calls : List (Nat × Nat)) :
    ∃ w answers, (empty size).insertRangesChecked calls = some (w, answers) ∧
      (∀ first count, (w.insertRangeChecked first count).isSome) ∧
      ((∀ ok ∈ answers, ok = true) ↔
        ∃ s, (BlockSet.empty size).insertRanges? calls = some s ∧ w.Represents s) ∧
      ((∀ ok ∈ answers, ok = true) →
        (∀ i, w.contains i = true ↔ Named calls i) ∧
        ∀ first count, (∃ w', w.insertRangeChecked first count = some (w', true)) ↔
          first + count ≤ size ∧ ∀ i, first ≤ i → i < first + count → ¬ Named calls i) := by
  obtain ⟨w, answers, hrun, hsize', hcontains⟩ :=
    exists_insertRangesChecked (show (empty size).size ≤ Word.last from hsize) calls
  refine ⟨w, answers, hrun, fun first count => ?_,
    represents_empty.forall_answers_iff hsize hrun, fun hall => ?_⟩
  · obtain ⟨w', ok, hinsert, -⟩ := exists_insertRangeChecked (hsize'.trans_le hsize) first count
    rw [hinsert]
    rfl
  have hnamed : ∀ i, w.contains i = true ↔ Named calls i := fun i => by
    rw [hcontains hall, contains_empty]
    simp
  refine ⟨hnamed, fun first count => ?_⟩
  obtain ⟨w', ok, hinsert, hmarks⟩ := exists_insertRangeChecked (hsize'.trans_le hsize) first count
  have hiff : ok = true ↔
      first + count ≤ size ∧ ∀ i, first ≤ i → i < first + count → ¬ Named calls i := by
    rw [hmarks.new_iff, hsize']
    simp only [← hnamed, Bool.not_eq_true]
    rfl
  rw [← hiff, hinsert]
  simp

/-- Ranges in three words of which the last one is not full: one from the first word to the second,
and one at the end. -/
def overWords : List (Nat × Nat) := [(60, 10), (128, 2)]

theorem exact_after_overWords :
    130 ≤ Word.last ∧
      ∃ w, (empty 130).insertRangesChecked overWords = some (w, [true, true]) ∧
        (∀ i, w.contains i = true ↔ Named overWords i) ∧
        (∃ w', w.insertRangeChecked 70 58 = some (w', true)) ∧
        ¬ ∃ w', w.insertRangeChecked 64 1 = some (w', true) := by
  have hsize : 130 ≤ Word.last := by decide
  obtain ⟨w, answers, hrun, -, -, hexact⟩ := exact_after hsize overWords
  have hanswers : answers = [true, true] := by
    have hboth : ((empty 130).insertRangesChecked overWords).map Prod.snd = some [true, true] := by
      decide
    rw [hrun] at hboth
    exact Option.some.inj hboth
  obtain ⟨hnamed, hanswered⟩ := hexact (by rw [hanswers]; simp)
  refine ⟨hsize, w, hanswers ▸ hrun, hnamed, (hanswered 70 58).mpr ⟨by decide, ?_⟩, ?_⟩
  · simp only [Named, overWords, List.mem_cons, List.not_mem_nil, or_false, exists_eq_or_imp,
      exists_eq_left]
    omega
  · rw [hanswered 64 1]
    rintro ⟨-, hfree⟩
    exact hfree 64 (by decide) (by decide) ⟨(60, 10), List.mem_cons_self, by decide⟩

end BlockWords

end CxlEndpoint
