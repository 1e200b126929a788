import CxlEndpoint.Background
import CxlEndpoint.Command.EffectsLog
import CxlEndpoint.HostTime
import CxlEndpoint.MemoryDevice.Serve

/-!
# Mailboxes

* `Mailbox`: what every endpoint has: its commands, the size of its messages, the background
  operation, and host time.
* `Mailbox.accept`: the command that a request reaches, or why it reaches none.
* `Mailbox.addCommands`: further commands, and perhaps larger messages.
-/

namespace CxlEndpoint

/-- The part that all endpoints have in common. -/
structure Mailbox where
  commands : CommandTable
  /-- The greatest payload in bytes. -/
  payloadMax : Nat
  background : Background := .idle
  hostTime : HostTime := {}
  /-- The background operations that were reported as finished, if anybody listens. -/
  completions : Option (List Opcode) := none

namespace Mailbox

/-- A mailbox with the given commands. -/
def ofCommands (commands : List Command) (payloadMax : Nat) : Mailbox where
  commands := CommandTable.merge [] commands
  payloadMax := payloadMax

/-- The bytes that a response may have, where the requester may set a limit of its own. -/
def room (m : Mailbox) : (limit : Option Nat) → Nat
  | none => m.payloadMax
  | some limit => min limit m.payloadMax

/-- The command for a request. It must be known, the payload must have its length, nothing else may
run in the background if it wants to, and media must not be in the hands of a sanitize. -/
def accept (m : Mailbox) (op : Opcode) (p : Payload) : Except Status Command :=
  match m.commands.find? op with
  | none => .error .unsupported
  | some c =>
    if ¬ c.input.Accepts p.length then .error .invalidPayloadLength
    else if c.runsInBackground ∧ m.background.isRunning then .error .busy
    else if m.background.isRunningOp .sanitize ∧ op ∈ mediaCommands then .error .mediaDisabled
    else .ok c

/-- What a device has to know to answer at clock time `now`. -/
def conditions (m : Mailbox) (now room : Nat) : Conditions :=
  ⟨room, m.hostTime.now now, m.background.isRunningOp .scanMedia⟩

/-- Adds commands, which replace those of the same opcodes. Messages become no smaller. -/
def addCommands (m : Mailbox) (commands : List Command) (payloadMax : Nat) : Mailbox :=
  { m with
    commands := m.commands.merge commands, payloadMax := max m.payloadMax payloadMax }

/-- Reports that `op` is finished. -/
def notify (m : Mailbox) (op : Opcode) : Mailbox :=
  { m with completions := m.completions.map (· ++ [op]) }

/-- A part of the effects log, zeros beyond its end. The part must fit into the response, and
there is no other log. -/
def logPart (m : Mailbox) (room : Nat) (w : LogWindow) : Except Status Payload :=
  if room < w.offset + w.length then .error .invalidInput
  else if w.uuid ≠ effectsLogUuid then .error .unsupported
  else .ok (Payload.fit w.length ((effectsLogPayload m.commands.effectsLog).drop w.offset))

end Mailbox

end CxlEndpoint
