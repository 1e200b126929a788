import CxlEndpoint.Config.Error
import CxlEndpoint.CacheLine
import CxlEndpoint.Capacity.Region
import CxlEndpoint.Identity
import CxlEndpoint.Memory

/-!
# Device configurations

* `MemoryConfig`, `SwitchConfig`: what a memory device or a switch is built from.
* `MemoryConfig.check`, `SwitchConfig.check`: the first rule that a configuration breaks.
* `MemoryConfig.layout`: the regions, one behind the other from static capacity on. Each takes up
  a whole number of capacity units.
* `MemoryConfig.memory`: blank memory that backs all of it.
-/

namespace CxlEndpoint

/-- One dynamic capacity region. Its place is found when the device is built. -/
structure RegionConfig where
  length : Nat := 268435456
  blockSize : Nat := 2097152
  dsmadHandle : UInt32 := 0
  flags : UInt8 := 0
  deriving DecidableEq, Repr

namespace RegionConfig

/-- The size of the addresses that the region takes up. -/
def decodeLength (r : RegionConfig) : Nat := Word.roundUp r.length capacityUnit

/-- The sizes of the addresses that regions take up, together. -/
def decodedBytes (regions : List RegionConfig) : Nat :=
  regions.foldr (fun r total => r.decodeLength + total) 0

/-- The rule that the region breaks, where it is number `index`. -/
def fault? (index : Nat) (r : RegionConfig) : Option ConfigError :=
  if r.blockSize < lineBytes ∨ r.blockSize ≠ 1 <<< r.blockSize.log2 then
    some (.invalidBlockSize index r.blockSize)
  else if r.length = 0 then some (.emptyRegion index)
  else if r.length % r.blockSize ≠ 0 then some (.unalignedRegion index r.length r.blockSize)
  else none

/-- The first rule that a region breaks, where the regions are counted from `index`. -/
def firstFault? (index : Nat) : List RegionConfig → Option ConfigError
  | [] => none
  | r :: rest => (r.fault? index).or (firstFault? (index + 1) rest)

/-- The bytes from the start of the first region to the usable end of the last. -/
def span : List RegionConfig → Nat
  | [] => 0
  | [r] => r.length
  | r :: rest => Word.addSat r.decodeLength (span rest)

/-- Places the regions one behind the other from `base` on. They are counted from `index`. -/
def place (index base : Nat) : List RegionConfig → Except ConfigError RegionTable
  | [] => .ok []
  | r :: rest =>
    let next := base + r.decodeLength
    if Word.last < next then .error (.regionOrder index (index + 1))
    else
      match place (index + 1) next rest with
      | .error e => .error e
      | .ok regions =>
        .ok (⟨base, r.decodeLength, r.length, r.blockSize, r.dsmadHandle, r.flags⟩ :: regions)

end RegionConfig

/-- Whether a mailbox can have payloads of up to `size` bytes. -/
def checkPayloadMax (size : Nat) : Except ConfigError Unit :=
  if 256 ≤ size ∧ size ≤ mebibyte then .ok () else .error (.invalidPayloadSize size)

/-- What a memory device is built from. Sizes are in bytes. -/
structure MemoryConfig where
  identity : Identity := { vendor := 0x8086, device := 0x0d93 }
  volatileCapacity : Nat := 0
  persistentCapacity : Nat := capacityUnit
  labelBytes : Nat := 0
  payloadMax : Nat := 2048
  regions : List RegionConfig := []
  deriving DecidableEq, Repr

namespace MemoryConfig

/-- The most regions that a device has. -/
def maxRegions : Nat := 8

/-- The number of smallest blocks that the regions span. -/
def blockCount (c : MemoryConfig) : Nat :=
  match (c.regions.map (·.blockSize)).min? with
  | none => 0
  | some granule => RegionConfig.span c.regions / granule

/-- The first rule that the configuration breaks. -/
def check (c : MemoryConfig) : Except ConfigError Unit :=
  match checkPayloadMax c.payloadMax with
  | .error e => .error e
  | .ok () =>
    if Word.last32 < c.labelBytes then .error (.labelsTooLarge c.labelBytes)
    else if maxRegions < c.regions.length then .error (.tooManyRegions c.regions.length)
    else
      match RegionConfig.firstFault? 0 c.regions with
      | some e => .error e
      | none =>
        if maxBlocks < c.blockCount then .error (.tooManyBlocks c.blockCount) else .ok ()

/-- The regions from the end of static capacity on. -/
def layout (c : MemoryConfig) (staticCapacity : Nat) : Except ConfigError RegionTable :=
  match c.check with
  | .error e => .error e
  | .ok () => RegionConfig.place 0 (Word.roundUp staticCapacity capacityUnit) c.regions

/-- Blank memory for the device. The dynamic part reaches to the end of the last region. -/
def memory (c : MemoryConfig) : Memory :=
  let staticCapacity := c.volatileCapacity + c.persistentCapacity
  let padding := Word.roundUp staticCapacity capacityUnit - staticCapacity
  .blank c.volatileCapacity c.persistentCapacity
    (RegionConfig.decodedBytes c.regions + padding) c.labelBytes

end MemoryConfig

/-- What a switch is built from. -/
structure SwitchConfig where
  identity : Identity := { vendor := 0x19e5, device := 0xa128 }
  /-- The port through which the switch is managed. -/
  ingressPort : UInt8 := 0
  payloadMax : Nat := 2048
  deriving DecidableEq, Repr

/-- The first rule that the configuration breaks. -/
def SwitchConfig.check (c : SwitchConfig) : Except ConfigError Unit := checkPayloadMax c.payloadMax

end CxlEndpoint
