import CxlEndpoint.Config.Device
import CxlEndpoint.Config.Json.Reader

/-!
# Reading configurations

* `Identity.ofJson?`, `RegionConfig.ofJson?`, `MemoryConfig.ofJson?`, `SwitchConfig.ofJson?`: a
  record each, whose missing fields have defaults.
* `MemoryConfig.ofText`, `SwitchConfig.ofText`: a checked configuration from JSON text.
-/

namespace CxlEndpoint

open Json (naturalUpTo?)

/-- The value of a field that may be missing. -/
def Json.orDefault {α : Type} (default : α) (read : Json → Option α) : Option Json → Option α
  | none => some default
  | some j => read j

/-- A natural number of up to `bits` bits. -/
def Json.word? (bits : Nat) (j : Json) : Option Nat := j.naturalUpTo? (1 <<< bits - 1)

namespace Identity

/-- Reads an identity. Missing fields are zero. -/
def ofJson? (j : Json) : Option Identity := do
  let fields ←
    j.record? ["vendor_id", "device_id", "subsystem_vendor_id", "subsystem_id", "serial"]
  match fields with
  | [vendor, device, subsystemVendor, subsystem, serial] =>
    return {
      vendor := UInt16.ofNat (← Json.orDefault 0 (Json.word? 16) vendor)
      device := UInt16.ofNat (← Json.orDefault 0 (Json.word? 16) device)
      subsystemVendor := UInt16.ofNat (← Json.orDefault 0 (Json.word? 16) subsystemVendor)
      subsystem := UInt16.ofNat (← Json.orDefault 0 (Json.word? 16) subsystem)
      serial := UInt64.ofNat (← Json.orDefault 0 (Json.word? 64) serial) }
  | _ => none

end Identity

namespace RegionConfig

/-- Reads a region. -/
def ofJson? (j : Json) : Option RegionConfig := do
  let standard : RegionConfig := {}
  match ← j.record? ["len", "block_size", "dsmad_handle", "flags"] with
  | [length, blockSize, dsmadHandle, flags] =>
    return {
      length := ← Json.orDefault standard.length (Json.word? 64) length
      blockSize := ← Json.orDefault standard.blockSize (Json.word? 64) blockSize
      dsmadHandle := UInt32.ofNat (← Json.orDefault 0 (Json.word? 32) dsmadHandle)
      flags := UInt8.ofNat (← Json.orDefault 0 (Json.word? 8) flags) }
  | _ => none

end RegionConfig

namespace MemoryConfig

/-- Reads the configuration of a memory device. -/
def ofJson? (j : Json) : Option MemoryConfig := do
  let standard : MemoryConfig := {}
  let fields ←
    j.record?
      ["identity", "volatile_capacity", "persistent_capacity", "lsa_size", "payload_max", "regions"]
  match fields with
  | [identity, volatileCapacity, persistentCapacity, labelBytes, payloadMax, regions] =>
    return {
      identity := ← Json.orDefault standard.identity Identity.ofJson? identity
      volatileCapacity :=
        ← Json.orDefault standard.volatileCapacity (Json.word? 64) volatileCapacity
      persistentCapacity :=
        ← Json.orDefault standard.persistentCapacity (Json.word? 64) persistentCapacity
      labelBytes := ← Json.orDefault standard.labelBytes (Json.word? 64) labelBytes
      payloadMax := ← Json.orDefault standard.payloadMax (Json.word? 64) payloadMax
      regions :=
        ← Json.orDefault [] (fun j => do (← j.array?).mapM RegionConfig.ofJson?) regions }
  | _ => none

/-- Reads and checks the configuration of a memory device. -/
def ofText (text : String) : Except ConfigError MemoryConfig :=
  match (Json.ofText? text).bind ofJson? with
  | none => .error .malformed
  | some c =>
    match c.check with
    | .error e => .error e
    | .ok () => .ok c

end MemoryConfig

namespace SwitchConfig

/-- Reads the configuration of a switch. -/
def ofJson? (j : Json) : Option SwitchConfig := do
  let standard : SwitchConfig := {}
  match ← j.record? ["identity", "ingress_port", "payload_max"] with
  | [identity, ingressPort, payloadMax] =>
    return {
      identity := ← Json.orDefault standard.identity Identity.ofJson? identity
      ingressPort := UInt8.ofNat (← Json.orDefault 0 (Json.word? 8) ingressPort)
      payloadMax := ← Json.orDefault standard.payloadMax (Json.word? 64) payloadMax }
  | _ => none

/-- Reads and checks the configuration of a switch. -/
def ofText (text : String) : Except ConfigError SwitchConfig :=
  match (Json.ofText? text).bind ofJson? with
  | none => .error .malformed
  | some c =>
    match c.check with
    | .error e => .error e
    | .ok () => .ok c

end SwitchConfig

end CxlEndpoint
