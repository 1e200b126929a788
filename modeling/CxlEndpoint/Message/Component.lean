import CxlEndpoint.Background
import CxlEndpoint.Command.EffectsLog
import CxlEndpoint.Identity

/-!
# Messages that every endpoint knows

* `ComponentInfo`: what an endpoint is and how large its messages are.
* `ProgressReport`: the state of the background operation.
* `LogWindow`: a request for a part of a log; `supportedLogsPayload` tells which logs there are.
-/

namespace CxlEndpoint

/-- What an endpoint tells of itself. Its greatest message has at least `2 ^ sizeShift` bytes. -/
structure ComponentInfo where
  identity : Identity
  sizeShift : Nat
  componentType : UInt8
  deriving DecidableEq, Repr

/-- The component type of a switch. -/
def switchComponent : UInt8 := 0

/-- The component type of a memory device. -/
def memoryComponent : UInt8 := 3

/-- The identity, the shift and the component type: 18 bytes. -/
def ComponentInfo.toPayload (c : ComponentInfo) : Payload :=
  c.identity.toPayload ++ [UInt8.ofNat c.sizeShift, c.componentType]

/-- The state of the background operation, as the host reads it. -/
structure ProgressReport where
  running : Option Opcode
  percent : Nat
  returnCode : Status
  deriving DecidableEq, Repr

/-- The progress in percent above the running bit, then the opcode, or zero, and the return
code. -/
def ProgressReport.toPayload (r : ProgressReport) : Payload :=
  [UInt8.ofNat (2 * r.percent + if r.running.isSome then 1 else 0), 0] ++
    littleEndian 2 (r.running.elim 0 (·.code.toNat)) ++ littleEndian 2 r.returnCode.code ++ zeros 2

/-- The report on a mailbox's background operation. -/
def Background.report (b : Background) : ProgressReport := ⟨b.opcode?, b.percent, b.returnCode⟩

/-- A part of a log: `length` bytes from `offset` on. -/
structure LogWindow where
  uuid : Vector UInt8 16
  offset : Nat
  length : Nat
  deriving DecidableEq, Repr

/-- Reads the identifier, the offset and the length. -/
def LogWindow.ofPayload (p : Payload) : Except Status LogWindow := do
  return ⟨← p.bytes 0 16, ← p.word 16 4, ← p.word 20 4⟩

/-- One log, of `size` bytes. -/
def supportedLogsPayload (size : Nat) : Payload :=
  littleEndian 2 1 ++ zeros 6 ++ effectsLogUuid.toList ++ littleEndian 4 size

end CxlEndpoint
