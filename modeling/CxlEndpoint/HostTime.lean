import CxlEndpoint.Word

/-!
# Host time

The host sets its time once; afterwards the device's own clock moves it on.

* `HostTime.set`, `HostTime.now`: `now` is zero until `set`, then the given time plus the
  milliseconds that have passed since, in nanoseconds.
-/

namespace CxlEndpoint

/-- Nanoseconds of host time. -/
abbrev Timestamp := UInt64

/-- The time that the host gave, with the clock reading in milliseconds at that moment. -/
structure HostTime where
  given : Option (Timestamp × Nat) := none
  deriving DecidableEq, Repr

namespace HostTime

/-- The host says that it is `host` when the clock reads `now`. -/
def set (host : Timestamp) (now : Nat) : HostTime := ⟨some (host, now)⟩

/-- Host time when the clock reads `now`. A clock that went backwards counts as standing still. -/
def now (t : HostTime) (now : Nat) : Timestamp :=
  match t.given with
  | none => 0
  | some (host, since) => host + UInt64.ofNat (Word.mulSat (now - since) 1000000)

end HostTime

end CxlEndpoint
