/-!
# Cache lines

Media is written and poisoned a cache line at a time.

* `lineStart a`: the address of the line that holds `a`. `lineStart_le` and `lt_lineStart_add`
  bound it from both sides.
* `CacheLine`: the bytes of one line.
-/

namespace CxlEndpoint

/-- Bytes in a cache line. -/
def lineBytes : Nat := 64

/-- The contents of one cache line. -/
abbrev CacheLine := Vector UInt8 lineBytes

/-- The address at which the cache line of `a` starts. -/
def lineStart (a : Nat) : Nat := a / lineBytes * lineBytes

/-- `a` is the address of a whole line. -/
def LineAligned (a : Nat) : Prop := a % lineBytes = 0

instance (a : Nat) : Decidable (LineAligned a) := inferInstanceAs (Decidable (_ = _))

theorem lineStart_le (a : Nat) : lineStart a ≤ a := Nat.div_mul_le_self a lineBytes

theorem lt_lineStart_add (a : Nat) : a < lineStart a + lineBytes := by
  simp only [lineStart, lineBytes]; omega

theorem lineAligned_lineStart (a : Nat) : LineAligned (lineStart a) := Nat.mul_mod_left _ _

theorem LineAligned.lineStart_eq {a : Nat} (h : LineAligned a) : lineStart a = a := by
  simp only [LineAligned, lineStart, lineBytes] at *; omega

end CxlEndpoint
