/-!
# Arithmetic at the edge of the 64-bit range

Addresses, lengths, times and counters are natural numbers. An operation that holds its result
inside a 64-bit word says so by its name.

* `Word.addSat`, `Word.mulSat`: a sum or product that stops at the last word. `addSat_eq_add`
  says when nothing is lost.
* `Word.add?`: a sum that must be a word.
* `Word.roundUp`: the least multiple of a unit not below a value, held at the last word.
-/

namespace CxlEndpoint.Word

/-- The greatest 64-bit word. -/
def last : Nat := 0xffffffffffffffff

/-- The greatest 32-bit number. -/
def last32 : Nat := 0xffffffff

/-- The sum of two words, or the last word if it does not fit. -/
def addSat (a b : Nat) : Nat := min (a + b) last

/-- The sum of two words, if it is a word. -/
def add? (a b : Nat) : Option Nat := if a + b ≤ last then some (a + b) else none

/-- The product of two words, or the last word if it does not fit. -/
def mulSat (a b : Nat) : Nat := min (a * b) last

/-- The least multiple of `unit` that is not below `value`, or the last word. -/
def roundUp (value unit : Nat) : Nat := mulSat ((value + unit - 1) / unit) unit

theorem addSat_eq_add {a b : Nat} (h : a + b ≤ last) : addSat a b = a + b :=
  Nat.min_eq_left h

theorem addSat_le_add (a b : Nat) : addSat a b ≤ a + b :=
  Nat.min_le_left _ _

theorem addSat_le_last (a b : Nat) : addSat a b ≤ last :=
  Nat.min_le_right _ _

end CxlEndpoint.Word
