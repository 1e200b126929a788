import CxlEndpoint.Capacity.Region
import CxlEndpoint.Event.Logs
import CxlEndpoint.Memory
import CxlEndpoint.Poison.Store

/-!
# Messages about memory and labels

* `firmwarePayload`: the firmware slots.
* `MemoryInfo`, `PartitionInfo`: the capacities of a device in capacity units.
* `LabelWindow`, `LabelWrite`: which labels the host reads or writes.
-/

namespace CxlEndpoint

/-- Two firmware slots, the first active and the first staged, and the version of the first. -/
def firmwarePayload : Payload :=
  [2, 9] ++ zeros 14 ++ Payload.ofText 16 "BWFW VERSION 0" ++ zeros 48

/-- A capacity in whole units. -/
def capacityUnits? (bytes : Nat) : Option Nat :=
  if bytes % capacityUnit = 0 then some (bytes / capacityUnit) else none

/-- The static capacities of a device in capacity units. -/
structure PartitionInfo where
  volatileUnits : Nat
  persistentUnits : Nat
  deriving DecidableEq, Repr

/-- The capacities, and no capacity after a restart: 32 bytes. -/
def PartitionInfo.toPayload (p : PartitionInfo) : Payload :=
  littleEndian 8 p.volatileUnits ++ littleEndian 8 p.persistentUnits ++ zeros 16

/-- The partition of memory, which must be provisioned in whole units. -/
def Memory.partition? (m : Memory) : Option PartitionInfo := do
  return ⟨← capacityUnits? m.volatileCapacity, ← capacityUnits? m.persistentCapacity⟩

/-- What a memory device tells of itself. -/
structure MemoryInfo where
  partition : PartitionInfo
  labelSize : Nat
  deriving DecidableEq, Repr

/-- The firmware version, the capacities, no partition alignment, the sizes of the logs, of label
storage and of the poison list, no injection limit of its own, and the size of the last log. -/
def MemoryInfo.toPayload (i : MemoryInfo) : Payload :=
  Payload.ofText 16 "BWFW VERSION 00" ++
    littleEndian 8 (i.partition.volatileUnits + i.partition.persistentUnits) ++
    littleEndian 8 i.partition.volatileUnits ++ littleEndian 8 i.partition.persistentUnits ++
    zeros 8 ++ littleEndian 2 logCapacity ++ littleEndian 2 logCapacity ++
    littleEndian 2 logCapacity ++ littleEndian 2 logCapacity ++ littleEndian 4 i.labelSize ++
    littleEndian 3 Poison.listLimit ++ zeros 4 ++ littleEndian 2 logCapacity

/-- A part of label storage that the host reads. -/
structure LabelWindow where
  offset : Nat
  length : Nat
  deriving DecidableEq, Repr

/-- Reads the offset and the length. -/
def LabelWindow.ofPayload (p : Payload) : Except Status LabelWindow := do
  return ⟨← p.word 0 4, ← p.word 4 4⟩

/-- Bytes that the host writes to label storage. -/
structure LabelWrite where
  offset : Nat
  data : Payload
  deriving DecidableEq, Repr

/-- Reads the offset, and the data behind eight bytes. -/
def LabelWrite.ofPayload (p : Payload) : Except Status LabelWrite :=
  if p.length < 8 then .error .invalidPayloadLength
  else .ok ⟨ofLittleEndian (p.take 4), p.drop 8⟩

end CxlEndpoint
