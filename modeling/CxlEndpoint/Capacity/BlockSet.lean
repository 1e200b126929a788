/-!
# Sets of blocks

A set of block numbers below a fixed size, kept as the bits of one number.

* `BlockSet.contains`: the view; block `i` is in the set if bit `i` is set.
* `BlockSet.insertRange?`: adds a range of blocks that are all new and all below the size.
  `insertRange?_eq_some_iff` says when it does, `contains_insertRange?` what is then in the set.
-/

namespace CxlEndpoint

/-- A set of block numbers below `size`. -/
structure BlockSet where
  size : Nat
  bits : Nat := 0
  deriving DecidableEq, Repr

namespace BlockSet

/-- No block is in the set. -/
def empty (size : Nat) : BlockSet := { size }

/-- Block `i` is in the set. -/
def contains (s : BlockSet) (i : Nat) : Bool := s.bits.testBit i

/-- The bits `first, …, first + count - 1`. -/
def rangeBits (first count : Nat) : Nat := (1 <<< count - 1) <<< first

/-- Adds `count` blocks from `first` on, unless one of them is in the set or not below its
size. -/
def insertRange? (s : BlockSet) (first count : Nat) : Option BlockSet :=
  if first + count ≤ s.size ∧ s.bits &&& rangeBits first count = 0 then
    some { s with bits := s.bits ||| rangeBits first count }
  else none

theorem testBit_rangeBits (first count i : Nat) :
    (rangeBits first count).testBit i = (decide (first ≤ i) && decide (i < first + count)) := by
  rw [rangeBits, Nat.one_shiftLeft, Nat.testBit_shiftLeft, Nat.testBit_two_pow_sub_one]
  by_cases h : first ≤ i
  · simp [h]; omega
  · simp [h]

/-- The bits that a set shares with a range are those of its blocks in the range. -/
theorem and_rangeBits_eq_zero_iff {s : BlockSet} {first count : Nat} :
    s.bits &&& rangeBits first count = 0 ↔
      ∀ i, first ≤ i → i < first + count → s.contains i = false := by
  constructor
  · intro h i hl hu
    have := congrArg (·.testBit i) h
    simpa [testBit_rangeBits, hl, hu, contains] using this
  · intro h
    refine Nat.eq_of_testBit_eq fun i => ?_
    rw [Nat.testBit_and, testBit_rangeBits, Nat.zero_testBit]
    by_cases hl : first ≤ i
    · by_cases hu : i < first + count
      · rw [show s.bits.testBit i = false from h i hl hu, Bool.false_and]
      · simp [hu]
    · simp [hl]

theorem insertRange?_eq_some_iff {s t : BlockSet} {first count : Nat} :
    s.insertRange? first count = some t ↔
      first + count ≤ s.size ∧ (∀ i, first ≤ i → i < first + count → s.contains i = false) ∧
        t = { s with bits := s.bits ||| rangeBits first count } := by
  rw [← and_rangeBits_eq_zero_iff]
  unfold insertRange?
  split <;> simp_all [eq_comm]

theorem contains_insertRange? {s t : BlockSet} {first count : Nat}
    (h : s.insertRange? first count = some t) (i : Nat) :
    t.contains i = (s.contains i || (decide (first ≤ i) && decide (i < first + count))) := by
  obtain ⟨-, -, rfl⟩ := insertRange?_eq_some_iff.1 h
  simp [contains, testBit_rangeBits]

end BlockSet

end CxlEndpoint
