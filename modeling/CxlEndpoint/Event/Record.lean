import CxlEndpoint.HostTime
import CxlEndpoint.Payload

/-!
# Event records

* `EventRecord`: what the device reports. `StoredEvent` adds what the log assigns to it.
* `StoredEvent.toPayload`: the 128 bytes of a record on the wire.
-/

namespace CxlEndpoint

/-- An event as the device reports it. Only the low 24 bits of the flags are sent. -/
structure EventRecord where
  uuid : Vector UInt8 16 := Vector.replicate 16 0
  flags : UInt32 := 0
  relatedHandle : UInt16 := 0
  maintenanceClass : UInt8 := 0
  data : Vector UInt8 80 := Vector.replicate 80 0
  deriving DecidableEq, Repr

/-- An event with the handle and the time that the log gave it. -/
structure StoredEvent where
  handle : UInt16
  timestamp : Timestamp
  record : EventRecord
  deriving DecidableEq, Repr

namespace StoredEvent

/-- Bytes of a record on the wire. -/
def wireLength : Nat := 128

/-- The record on the wire: a header of 48 bytes, then the data. -/
def toPayload (e : StoredEvent) : Payload :=
  e.record.uuid.toList ++ [UInt8.ofNat wireLength] ++ littleEndian 3 e.record.flags.toNat ++
    littleEndian 2 e.handle.toNat ++ littleEndian 2 e.record.relatedHandle.toNat ++
    littleEndian 8 e.timestamp.toNat ++ [e.record.maintenanceClass] ++ zeros 15 ++
    e.record.data.toList

@[simp] theorem length_toPayload (e : StoredEvent) : e.toPayload.length = wireLength := by
  simp [toPayload, wireLength]

end StoredEvent

end CxlEndpoint
