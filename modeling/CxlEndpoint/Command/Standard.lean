import CxlEndpoint.Opcode

/-!
# The standard commands

* `StandardCommand`: the commands that this library carries out.
* `StandardCommand.opcode`, `.name`, `.input`, `.effects`: how each is announced.
* `InputSize.Accepts`: the payload lengths that a command takes.
-/

namespace CxlEndpoint

/-- How long the payload of a request is. -/
inductive InputSize where
  | fixed (bytes : Nat)
  /-- The command looks at the length itself. -/
  | free
  deriving DecidableEq, Repr

/-- A payload of `length` bytes passes. -/
def InputSize.Accepts : InputSize → (length : Nat) → Prop
  | fixed bytes, length => length = bytes
  | free, _ => True

instance (s : InputSize) (length : Nat) : Decidable (s.Accepts length) :=
  match s with
  | .fixed _ => inferInstanceAs (Decidable (_ = _))
  | .free => inferInstanceAs (Decidable True)

/-- The commands that this library carries out. -/
inductive StandardCommand where
  | identify
  | backgroundStatus
  | getEventRecords
  | clearEventRecords
  | getInterruptPolicy
  | setInterruptPolicy
  | firmwareInfo
  | getTimestamp
  | setTimestamp
  | supportedLogs
  | getLog
  | identifyMemory
  | partitionInfo
  | getLabels
  | setLabels
  | getPoisonList
  | injectPoison
  | clearPoison
  | scanCapabilities
  | scanMedia
  | scanResults
  | sanitize
  | securityState
  | capacityConfig
  | extentList
  | addCapacity
  | releaseCapacity
  | identifySwitch
  | portStates
  | tunnel
  deriving DecidableEq, Repr

namespace StandardCommand

/-- The number of a command. -/
def opcode : StandardCommand → Opcode
  | identify => .identify
  | backgroundStatus => .backgroundStatus
  | getEventRecords => .getEventRecords
  | clearEventRecords => .clearEventRecords
  | getInterruptPolicy => .getInterruptPolicy
  | setInterruptPolicy => .setInterruptPolicy
  | firmwareInfo => .firmwareInfo
  | getTimestamp => .getTimestamp
  | setTimestamp => .setTimestamp
  | supportedLogs => .supportedLogs
  | getLog => .getLog
  | identifyMemory => .identifyMemory
  | partitionInfo => .partitionInfo
  | getLabels => .getLabels
  | setLabels => .setLabels
  | getPoisonList => .getPoisonList
  | injectPoison => .injectPoison
  | clearPoison => .clearPoison
  | scanCapabilities => .scanCapabilities
  | scanMedia => .scanMedia
  | scanResults => .scanResults
  | sanitize => .sanitize
  | securityState => .securityState
  | capacityConfig => .capacityConfig
  | extentList => .extentList
  | addCapacity => .addCapacity
  | releaseCapacity => .releaseCapacity
  | identifySwitch => .identifySwitch
  | portStates => .portStates
  | tunnel => .tunnel

/-- The name of a command. -/
def name : StandardCommand → String
  | identify => "IDENTIFY"
  | backgroundStatus => "BACKGROUND_OPERATION_STATUS"
  | getEventRecords => "EVENTS_GET_RECORDS"
  | clearEventRecords => "EVENTS_CLEAR_RECORDS"
  | getInterruptPolicy => "EVENTS_GET_INTERRUPT_POLICY"
  | setInterruptPolicy => "EVENTS_SET_INTERRUPT_POLICY"
  | firmwareInfo => "FIRMWARE_UPDATE_GET_INFO"
  | getTimestamp => "TIMESTAMP_GET"
  | setTimestamp => "TIMESTAMP_SET"
  | supportedLogs => "LOGS_GET_SUPPORTED"
  | getLog => "LOGS_GET_LOG"
  | identifyMemory => "IDENTIFY_MEMORY_DEVICE"
  | partitionInfo => "CCLS_GET_PARTITION_INFO"
  | getLabels => "CCLS_GET_LSA"
  | setLabels => "CCLS_SET_LSA"
  | getPoisonList => "GET_POISON_LIST"
  | injectPoison => "INJECT_POISON"
  | clearPoison => "CLEAR_POISON"
  | scanCapabilities => "GET_SCAN_MEDIA_CAPABILITIES"
  | scanMedia => "SCAN_MEDIA"
  | scanResults => "GET_SCAN_MEDIA_RESULTS"
  | sanitize => "SANITIZE_OVERWRITE"
  | securityState => "GET_SECURITY_STATE"
  | capacityConfig => "DCD_GET_DC_CONFIG"
  | extentList => "DCD_GET_EXTENT_LIST"
  | addCapacity => "DCD_ADD_CAPACITY_RESPONSE"
  | releaseCapacity => "DCD_RELEASE_CAPACITY"
  | identifySwitch => "IDENTIFY_SWITCH_DEVICE"
  | portStates => "GET_PHYSICAL_PORT_STATE"
  | tunnel => "TUNNEL_MANAGEMENT_COMMAND"

/-- The payload lengths of a command. -/
def input : StandardCommand → InputSize
  | getEventRecords => .fixed 1
  | capacityConfig => .fixed 2
  | setTimestamp | getLabels | injectPoison | extentList => .fixed 8
  | getPoisonList | scanCapabilities => .fixed 16
  | scanMedia => .fixed 17
  | getLog => .fixed 24
  | clearPoison => .fixed 72
  | clearEventRecords | setInterruptPolicy | setLabels | addCapacity | releaseCapacity
  | portStates | tunnel => .free
  | _ => .fixed 0

/-- What a command declares that it may change. -/
def effects : StandardCommand → Effects
  | clearEventRecords => .logChange
  | setInterruptPolicy => .configChange
  | setTimestamp => .policyChange
  | setLabels => .union .configChange .dataChange
  | scanMedia => .background
  | sanitize => .union (.union .dataChange .securityChange) .background
  | addCapacity | releaseCapacity => .dataChange
  | _ => .none

end StandardCommand

end CxlEndpoint
