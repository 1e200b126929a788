import CxlEndpoint.Word

/-!
# Extents

* `AddressRange`: a range that the host names, `[start, stop)`.
* `Extent`: a range of dynamic capacity that the host holds, with its tag and sequence number.
* `Extent.without`: what is left of an extent around a range.
-/

namespace CxlEndpoint

/-- A range of addresses. -/
structure AddressRange where
  start : Nat
  length : Nat
  deriving DecidableEq, Repr

/-- The end of the range, held at the last word. -/
def AddressRange.stop (r : AddressRange) : Nat := Word.addSat r.start r.length

/-- A range of dynamic capacity that the host holds. -/
structure Extent where
  start : Nat
  length : Nat
  tag : Vector UInt8 16
  sequenceNumber : UInt16
  deriving DecidableEq, Repr

namespace Extent

/-- The end of the extent, held at the last word. -/
def stop (e : Extent) : Nat := Word.addSat e.start e.length

/-- The range without a tag. -/
def untagged (r : AddressRange) : Extent := ⟨r.start, r.length, Vector.replicate 16 0, 0⟩

/-- The extent and the range share an address. -/
def Meets (e : Extent) (r : AddressRange) : Prop := r.start < e.stop ∧ e.start < r.stop

/-- The range lies inside the extent. -/
def Holds (e : Extent) (r : AddressRange) : Prop := e.start ≤ r.start ∧ r.stop ≤ e.stop

instance (e : Extent) (r : AddressRange) : Decidable (e.Meets r) :=
  inferInstanceAs (Decidable (_ ∧ _))

instance (e : Extent) (r : AddressRange) : Decidable (e.Holds r) :=
  inferInstanceAs (Decidable (_ ∧ _))

/-- What is left of an extent before and behind the range `r` inside it. Both parts keep the
tag. -/
def without (e : Extent) (r : AddressRange) : List Extent :=
  (if e.start < r.start then [{ e with length := r.start - e.start }] else []) ++
    (if r.stop < e.stop then [{ e with start := r.stop, length := e.stop - r.stop }] else [])

end Extent

end CxlEndpoint
