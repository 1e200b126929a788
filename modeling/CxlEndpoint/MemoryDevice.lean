import CxlEndpoint.Capacity.Ledger
import CxlEndpoint.Event.Logs
import CxlEndpoint.Identity
import CxlEndpoint.Memory
import CxlEndpoint.Message.Component
import CxlEndpoint.Poison.Scan

/-!
# Memory devices

* `MemoryDevice`: the state behind the mailbox of a memory device.
* `MemoryDevice.provisionedCapacity`: the end of the addresses that media commands take.
* `MemoryDevice.finish`: what happens when a background operation is over. `memory_finish` and
  `poison_finish` say it for each part of the device.
-/

namespace CxlEndpoint

/-- The state of a memory device. -/
structure MemoryDevice where
  identity : Identity
  memory : Memory
  poison : Poison.Store := .empty
  ledger : Ledger := {}
  events : EventLogs := .empty

namespace MemoryDevice

/-- Static capacity and the decoded sizes of all regions. -/
def provisionedCapacity (d : MemoryDevice) : Nat :=
  Word.addSat d.memory.staticCapacity d.ledger.regions.totalCapacity

/-- The background operation `op` is over. -/
def finish (d : MemoryDevice) (op : Opcode) : MemoryDevice :=
  if op = .sanitize then { d with memory := { d.memory.sanitize with mediaEnabled := true } }
  else if op = .scanMedia then { d with poison := d.poison.completeScan }
  else d

theorem memory_finish (d : MemoryDevice) (op : Opcode) :
    (d.finish op).memory =
      if op = .sanitize then { d.memory.sanitize with mediaEnabled := true } else d.memory := by
  unfold finish
  split
  · rfl
  · split <;> rfl

theorem poison_finish (d : MemoryDevice) (op : Opcode) :
    (d.finish op).poison = if op = .scanMedia then d.poison.completeScan else d.poison := by
  unfold finish
  split
  next hsanitize => rw [hsanitize, if_neg (by decide)]
  · split <;> rfl

end MemoryDevice

end CxlEndpoint
