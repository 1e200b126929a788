import CxlEndpoint.Word

/-!
# Clocks

* `Clock`: a reading in milliseconds that changes only when it is told to.
* `Clock.advance`: moves the clock on. Behind the last word it starts again at zero.
-/

namespace CxlEndpoint

/-- A clock that is moved by hand. -/
structure Clock where
  now : Nat
  deriving DecidableEq, Repr

/-- The clock `milliseconds` later. -/
def Clock.advance (c : Clock) (milliseconds : Nat) : Clock :=
  ⟨(c.now + milliseconds) % (Word.last + 1)⟩

end CxlEndpoint
