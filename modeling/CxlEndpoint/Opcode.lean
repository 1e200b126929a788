import CxlEndpoint.Text.Hex

/-!
# Opcodes and command effects

* `Opcode`: sixteen bits, the command set in the high byte and the command in the low byte
  (`set_of`, `command_of`). The opcodes of the commands that this library implements have names.
* `Effects`: the bits by which a command declares what it may change.
-/

namespace CxlEndpoint

/-- The number of a command: its set in the high byte, its place in the set in the low byte. -/
structure Opcode where
  code : UInt16
  deriving DecidableEq, Repr

namespace Opcode

/-- Command `command` of command set `set`. -/
def of (set command : UInt8) : Opcode := ⟨set.toUInt16 <<< 8 ||| command.toUInt16⟩

/-- The command set. -/
def set (op : Opcode) : UInt8 := (op.code >>> 8).toUInt8

/-- The command within its set. -/
def command (op : Opcode) : UInt8 := op.code.toUInt8

@[simp] theorem set_of (set command : UInt8) : (of set command).set = set := by
  apply UInt8.toBitVec_inj.mp
  ext i hi
  have hin : i < 16 := by omega
  have hhigh : 8 + i < 16 := by omega
  simp [of, Opcode.set, hi, hin, hhigh]

@[simp] theorem command_of (set command : UInt8) : (of set command).command = command := by
  apply UInt8.toBitVec_inj.mp
  ext i hi
  simp [of, Opcode.command]

/-- Four hexadecimal digits and the letter h. -/
def text (op : Opcode) : String := Hex.padded 4 op.code.toNat ++ "h"

def identify : Opcode := ⟨0x0001⟩
def backgroundStatus : Opcode := ⟨0x0002⟩
def getEventRecords : Opcode := ⟨0x0100⟩
def clearEventRecords : Opcode := ⟨0x0101⟩
def getInterruptPolicy : Opcode := ⟨0x0102⟩
def setInterruptPolicy : Opcode := ⟨0x0103⟩
def firmwareInfo : Opcode := ⟨0x0200⟩
def getTimestamp : Opcode := ⟨0x0300⟩
def setTimestamp : Opcode := ⟨0x0301⟩
def supportedLogs : Opcode := ⟨0x0400⟩
def getLog : Opcode := ⟨0x0401⟩
def identifyMemory : Opcode := ⟨0x4000⟩
def partitionInfo : Opcode := ⟨0x4100⟩
def getLabels : Opcode := ⟨0x4102⟩
def setLabels : Opcode := ⟨0x4103⟩
def getPoisonList : Opcode := ⟨0x4300⟩
def injectPoison : Opcode := ⟨0x4301⟩
def clearPoison : Opcode := ⟨0x4302⟩
def scanCapabilities : Opcode := ⟨0x4303⟩
def scanMedia : Opcode := ⟨0x4304⟩
def scanResults : Opcode := ⟨0x4305⟩
def sanitize : Opcode := ⟨0x4400⟩
def securityState : Opcode := ⟨0x4500⟩
def capacityConfig : Opcode := ⟨0x4800⟩
def extentList : Opcode := ⟨0x4801⟩
def addCapacity : Opcode := ⟨0x4802⟩
def releaseCapacity : Opcode := ⟨0x4803⟩
def identifySwitch : Opcode := ⟨0x5100⟩
def portStates : Opcode := ⟨0x5101⟩
def tunnel : Opcode := ⟨0x5300⟩

end Opcode

/-- What a command may change, one bit for each kind of state. -/
structure Effects where
  bits : UInt16
  deriving DecidableEq, Repr

namespace Effects

def none : Effects := ⟨0⟩
def configChange : Effects := ⟨0x02⟩
def dataChange : Effects := ⟨0x04⟩
def policyChange : Effects := ⟨0x08⟩
def logChange : Effects := ⟨0x10⟩
def securityChange : Effects := ⟨0x20⟩
def background : Effects := ⟨0x40⟩

/-- The effects of either. -/
def union (a b : Effects) : Effects := ⟨a.bits ||| b.bits⟩

/-- Every effect of `b` is one of `a`. -/
def contains (a b : Effects) : Bool := a.bits &&& b.bits == b.bits

end Effects

end CxlEndpoint
