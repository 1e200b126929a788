import CxlEndpoint.Payload

/-!
# Messages about switch ports

* `SwitchInfo`: the ports of a switch.
* `PortState`: what is behind one of them.
* `portListOfPayload`: the ports that the host asks about.
-/

namespace CxlEndpoint

/-- What a switch tells of itself. -/
structure SwitchInfo where
  ingressPort : UInt8
  /-- The number of ports, downstream ports and the upstream port together. -/
  portCount : Nat
  /-- The ids of all ports. -/
  ports : List UInt8
  deriving DecidableEq, Repr

/-- The number whose set bits are the given ids. -/
def portBits (ids : List UInt8) : Nat := ids.foldl (fun bits id => bits ||| 1 <<< id.toNat) 0

/-- The ingress port, the number of ports, one virtual switch, a bit for each active port, an
active virtual switch, the numbers of its bridges, and four decoders: 73 bytes. -/
def SwitchInfo.toPayload (s : SwitchInfo) : Payload :=
  [s.ingressPort, 0, UInt8.ofNat s.portCount, 1] ++ littleEndian 32 (portBits s.ports) ++ [1] ++
    zeros 31 ++ littleEndian 2 (s.portCount % 256) ++ littleEndian 2 (s.portCount % 256) ++ [4]

/-- What a port is for. -/
inductive PortRole where
  | upstream
  /-- A device may be attached below. -/
  | downstream (attached : Bool)
  deriving DecidableEq, Repr

/-- A port and its role. -/
structure PortState where
  id : UInt8
  role : PortRole
  deriving DecidableEq, Repr

namespace PortRole

/-- The configuration state of a port. -/
def configState : PortRole → UInt8
  | upstream => 4
  | downstream _ => 3

/-- The type of the attached device: a memory device, or none. -/
def deviceType : PortRole → UInt8
  | downstream true => 4
  | _ => 0

/-- How many logical devices the port supports. -/
def logicalDevices : PortRole → UInt8
  | upstream => 0
  | downstream _ => 3

end PortRole

/-- The port, its role, the attached device, and the link: version 2, sixteen lanes, 32 GT/s, up.
Sixteen bytes. -/
def PortState.toPayload (s : PortState) : Payload :=
  [s.id, s.role.configState, 2, 0, s.role.deviceType, 2, 0x10, 0x10, 0x1c, 5, 5, 7, 0, 0, 0,
    s.role.logicalDevices]

/-- The number of ports, and sixteen bytes for each. -/
def portStatesPayload (states : List PortState) : Payload :=
  [UInt8.ofNat states.length] ++ zeros 3 ++ states.flatMap (·.toPayload)

/-- Reads the number of ports and as many port ids. -/
def portListOfPayload : Payload → Except Status (List UInt8)
  | count :: ids => if ids.length = count.toNat then .ok ids else .error .invalidPayloadLength
  | [] => .error .invalidPayloadLength

end CxlEndpoint
