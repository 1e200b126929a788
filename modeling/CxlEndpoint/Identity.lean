import CxlEndpoint.Payload

/-!
# Component identity

* `Identity`: the PCI identity and serial number of a component.
* `Identity.toPayload`: its sixteen bytes on the wire.
-/

namespace CxlEndpoint

/-- The PCI identity and serial number of a component. -/
structure Identity where
  vendor : UInt16 := 0
  device : UInt16 := 0
  subsystemVendor : UInt16 := 0
  subsystem : UInt16 := 0
  serial : UInt64 := 0
  deriving DecidableEq, Repr

namespace Identity

/-- The fields in order, little-endian. -/
def toPayload (id : Identity) : Payload :=
  littleEndian 2 id.vendor.toNat ++ littleEndian 2 id.device.toNat ++
    littleEndian 2 id.subsystemVendor.toNat ++ littleEndian 2 id.subsystem.toNat ++
    littleEndian 8 id.serial.toNat

@[simp] theorem length_toPayload (id : Identity) : id.toPayload.length = 16 := by
  simp [toPayload]

end Identity

end CxlEndpoint
