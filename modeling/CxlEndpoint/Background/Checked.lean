import CxlEndpoint.Background

/-!
# Polls, as far as they get

The progress is a quotient by the runtime, which may be zero. A program that divides by zero stops.

* `Word.div?`: a quotient by a number that must not be zero.
* `Background.pollChecked`: `Background.poll`, where `none` says that the program stops.
-/

namespace CxlEndpoint

/-- The quotient of two words, if the second is not zero. -/
def Word.div? (a b : Nat) : Option Nat := if b = 0 then none else some (a / b)

/-- `Background.poll`, which divides by the runtime of an operation that is not over. -/
def Background.pollChecked (b : Background) (now : Nat) :
    Option (Background × Option Opcode) :=
  match b.running with
  | none => some (b, none)
  | some r =>
    let elapsed := now - r.start
    if r.runtime ≤ elapsed then some ({ running := none, percent := 100 }, some r.opcode)
    else
      (Word.div? (Word.mulSat elapsed 100) r.runtime).map fun percent =>
        ({ running := some { r with nextTick := Word.addSat now tickInterval },
           percent := min percent 99 }, none)

end CxlEndpoint
