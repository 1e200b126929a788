import CxlEndpoint.CacheLine
import CxlEndpoint.Word

/-!
# Poison records

* `Poison.Kind`: who reported the error.
* `Poison.Record`: a poisoned address range and its kind. `stop` is the end of the range, held at
  the last word.
* `Record.Overlaps`, `Record.Contains`: how a record lies to the range `[start, stop)`.
-/

namespace CxlEndpoint.Poison

/-- Who reported a poisoned range. -/
inductive Kind where
  | external
  | internal
  | injected
  | vendor
  deriving DecidableEq, Repr

/-- The number of a kind: three bits on the wire. -/
def Kind.code : Kind → Nat
  | external => 1
  | internal => 2
  | injected => 3
  | vendor => 7

/-- A poisoned range of device addresses. -/
structure Record where
  start : Nat
  length : Nat
  kind : Kind
  deriving DecidableEq, Repr

namespace Record

/-- The end of the range. -/
def stop (r : Record) : Nat := Word.addSat r.start r.length

/-- The record starts below `stop` and ends above `start`. If the range `[start, stop)` is not
empty, some address of it is in the record. -/
def Overlaps (r : Record) (start stop : Nat) : Prop := r.start < stop ∧ start < r.stop

/-- Every address of `[start, stop)` is in the record. -/
def Contains (r : Record) (start stop : Nat) : Prop := r.start ≤ start ∧ stop ≤ r.stop

/-- The record holds the cache line of `address`. -/
def ContainsLine (r : Record) (address : Nat) : Prop :=
  r.Contains (lineStart address) (lineStart address + lineBytes)

instance (r : Record) (start stop : Nat) : Decidable (r.Overlaps start stop) :=
  inferInstanceAs (Decidable (_ ∧ _))

instance (r : Record) (start stop : Nat) : Decidable (r.Contains start stop) :=
  inferInstanceAs (Decidable (_ ∧ _))

instance (r : Record) (address : Nat) : Decidable (r.ContainsLine address) :=
  inferInstanceAs (Decidable (r.Contains _ _))

/-- The part of a record inside `[start, stop)`, where the record starts at a whole line. -/
def clip (r : Record) (start stop : Nat) : Record :=
  let first := max (lineStart r.start) start
  { r with start := first, length := min (Word.addSat (lineStart r.start) r.length) stop - first }

end Record

end CxlEndpoint.Poison
