import CxlEndpoint.Command.Table

/-!
# The command effects log

* `CommandTable.effectsLog`: one entry for each command of a table, in the table's order.
* `EffectsEntry.toPayload`: the four bytes of an entry; `effectsLogUuid` names the log.
-/

namespace CxlEndpoint

/-- What one command declares. -/
structure EffectsEntry where
  opcode : Opcode
  effects : Effects
  deriving DecidableEq, Repr

/-- The opcode and the effects, little-endian. -/
def EffectsEntry.toPayload (e : EffectsEntry) : Payload :=
  littleEndian 2 e.opcode.code.toNat ++ littleEndian 2 e.effects.bits.toNat

/-- The entries one after another. -/
def effectsLogPayload (log : List EffectsEntry) : Payload := log.flatMap (·.toPayload)

/-- The entries of all commands. -/
def CommandTable.effectsLog (t : CommandTable) : List EffectsEntry :=
  t.map fun c => ⟨c.opcode, c.effects⟩

/-- The identifier of the command effects log. -/
def effectsLogUuid : Vector UInt8 16 :=
  #v[0x0d, 0xa9, 0xc0, 0xb5, 0xbf, 0x41, 0x4b, 0x78, 0x8f, 0x79, 0x96, 0xb1, 0x62, 0x3b, 0x3f, 0x17]

@[simp] theorem length_effectsLogPayload (log : List EffectsEntry) :
    (effectsLogPayload log).length = 4 * log.length :=
  Payload.length_flatMap (fun e => by simp [EffectsEntry.toPayload]) log

end CxlEndpoint
