import CxlEndpoint.Command.Reply
import CxlEndpoint.Command.Standard

/-!
# Command tables

* `Command`: a command as a mailbox has it, with what it does.
* `CommandTable`: commands in ascending order of their opcodes, one for each.
  `CommandTable.insert` replaces a command of the same opcode, `CommandTable.find?` looks one up
  (`find?_insert`).
* `memoryCommands`, `capacityCommands`, `switchCommands`, `memoryMctpCommands`,
  `switchMctpCommands`: what each kind of endpoint starts with.
* `mediaCommands`: what a running sanitize keeps from being carried out.
-/

namespace CxlEndpoint

/-- What a command does. -/
inductive Action where
  | standard (command : StandardCommand)
  /-- A command from outside this library, which answers from its input alone. -/
  | extension (run : Payload → Except Status Reply)

/-- A command of a mailbox. -/
structure Command where
  opcode : Opcode
  name : String
  input : InputSize
  effects : Effects
  action : Action

namespace Command

/-- A standard command under its own opcode. -/
def standard (c : StandardCommand) : Command where
  opcode := c.opcode
  name := c.name
  input := c.input
  effects := c.effects
  action := .standard c

/-- The command may run on in the background. -/
def runsInBackground (c : Command) : Bool := c.effects.contains .background

end Command

/-- The commands of a mailbox in ascending order of their opcodes. -/
abbrev CommandTable := List Command

namespace CommandTable

/-- Puts a command at its place, where it replaces one of the same opcode. -/
def insert (c : Command) : CommandTable → CommandTable
  | [] => [c]
  | d :: rest =>
    if c.opcode.code < d.opcode.code then c :: d :: rest
    else if c.opcode = d.opcode then c :: rest
    else d :: insert c rest

/-- Inserts commands in order, so that of two with one opcode the later stays. -/
def merge (t : CommandTable) (commands : List Command) : CommandTable :=
  commands.foldl (fun t c => insert c t) t

/-- The command with opcode `op`. -/
def find? (t : CommandTable) (op : Opcode) : Option Command := List.find? (·.opcode == op) t

theorem find?_cons (c : Command) (t : CommandTable) (op : Opcode) :
    find? (c :: t) op = if c.opcode = op then some c else t.find? op := by
  by_cases h : c.opcode = op <;> simp [find?, h]

theorem find?_insert (t : CommandTable) (c : Command) (op : Opcode) :
    (t.insert c).find? op = if c.opcode = op then some c else t.find? op := by
  induction t with
  | nil => exact find?_cons c [] op
  | cons d rest ih =>
    unfold insert
    split
    · exact find?_cons c _ op
    · split
      · next h => rw [find?_cons, find?_cons, h]; split <;> rfl
      · next h => rw [find?_cons, find?_cons, ih]; grind

end CommandTable

/-- The commands of a memory device. -/
def memoryCommands : List Command :=
  [.standard .identify, .standard .backgroundStatus, .standard .getEventRecords,
    .standard .clearEventRecords, .standard .getInterruptPolicy, .standard .setInterruptPolicy,
    .standard .firmwareInfo, .standard .getTimestamp, .standard .setTimestamp,
    .standard .supportedLogs, .standard .getLog, .standard .identifyMemory,
    .standard .partitionInfo, .standard .getLabels, .standard .setLabels,
    .standard .getPoisonList, .standard .injectPoison, .standard .clearPoison,
    .standard .scanCapabilities, .standard .scanMedia, .standard .scanResults,
    .standard .sanitize, .standard .securityState]

/-- The further commands of a memory device with dynamic capacity. -/
def capacityCommands : List Command :=
  [.standard .capacityConfig, .standard .extentList, .standard .addCapacity,
    .standard .releaseCapacity]

/-- The commands of a switch. -/
def switchCommands : List Command :=
  [.standard .identify, .standard .backgroundStatus, .standard .getTimestamp,
    .standard .setTimestamp, .standard .supportedLogs, .standard .getLog,
    .standard .identifySwitch, .standard .portStates, .standard .tunnel]

/-- The commands of a memory device's MCTP endpoint. -/
def memoryMctpCommands : List Command := [.standard .identify]

/-- The commands of a switch's MCTP endpoint. -/
def switchMctpCommands : List Command :=
  [.standard .identify, .standard .identifySwitch, .standard .portStates]

/-- The opcodes that are turned down while a sanitize is running. -/
def mediaCommands : List Opcode :=
  [.getEventRecords, .partitionInfo, .getLabels, .setLabels, .getLog, .getPoisonList,
    .injectPoison, .clearPoison]

end CxlEndpoint
