import CxlEndpoint.Config.Device
import CxlEndpoint.Mailbox
import CxlEndpoint.Topology

/-!
# Endpoints

An endpoint is a mailbox with what is behind it: a memory device, the identity of one, or a switch
with the endpoints of the devices below its ports.

* `Endpoint.memoryDevice`, `.memoryMctp`, `.switchManager`, `.switchMctp`: new endpoints from
  configurations.
* `Endpoint.recordMediaError?`, `.insertEvent`, `.provision`, `.addCommands`: what the device
  itself reports or changes.
* `Endpoint.onPath`: acts on the endpoint that is reached through switch ports.
-/

namespace CxlEndpoint

/-- What a switch tells of itself besides its ports. -/
structure SwitchCard where
  identity : Identity
  ingressPort : UInt8
  deriving DecidableEq, Repr

/-- A mailbox and what is behind it. -/
inductive Endpoint where
  | memory (mailbox : Mailbox) (device : MemoryDevice)
  /-- The identity of a memory device alone. -/
  | identity (mailbox : Mailbox) (identity : Identity)
  | switch (mailbox : Mailbox) (card : SwitchCard) (topology : Topology Endpoint)

namespace Endpoint

/-- The mailbox of an endpoint. -/
def mailbox : Endpoint → Mailbox
  | memory m _ | identity m _ | switch m _ _ => m

/-- The endpoint with another mailbox. -/
def withMailbox (e : Endpoint) (m : Mailbox) : Endpoint :=
  match e with
  | memory _ d => memory m d
  | identity _ id => identity m id
  | switch _ card t => switch m card t

/-- The memory device behind the mailbox. -/
def device? : Endpoint → Option MemoryDevice
  | memory _ d => some d
  | _ => none

/-- The ports behind the mailbox. -/
def topology? : Endpoint → Option (Topology Endpoint)
  | switch _ _ t => some t
  | _ => none

/-- The identity and the kind of component. -/
def component : Endpoint → Identity × UInt8
  | memory _ d => (d.identity, memoryComponent)
  | identity _ id => (id, memoryComponent)
  | switch _ card _ => (card.identity, switchComponent)

/-- The extents that the host holds. -/
def extents (e : Endpoint) : List Extent := e.device?.elim [] (·.ledger.extents)

/-- A memory device over the given memory. It has the commands for dynamic capacity if it has
regions. -/
def memoryDevice (c : MemoryConfig) (memory : Memory) : Except ConfigError Endpoint :=
  match c.layout memory.staticCapacity with
  | .error e => .error e
  | .ok regions =>
    match Ledger.ofRegions regions with
    | .error e => .error e
    | .ok ledger =>
      let commands := if regions.isEmpty then memoryCommands else memoryCommands ++ capacityCommands
      .ok (.memory (.ofCommands commands c.payloadMax) { identity := c.identity, memory, ledger })

/-- The MCTP endpoint of a memory device. -/
def memoryMctp (id : Identity) : Endpoint := identity (.ofCommands memoryMctpCommands 2048) id

/-- An endpoint of a switch with the given commands. A switch has no subsystem identity. -/
def switchWith (commands : List Command) (c : SwitchConfig) (t : Topology Endpoint) :
    Except ConfigError Endpoint :=
  match c.check with
  | .error e => .error e
  | .ok () =>
    .ok (switch (.ofCommands commands c.payloadMax)
      ⟨{ c.identity with subsystemVendor := 0, subsystem := 0 }, c.ingressPort⟩ t)

/-- The endpoint that manages a switch. -/
def switchManager (c : SwitchConfig) (t : Topology Endpoint) : Except ConfigError Endpoint :=
  switchWith switchCommands c t

/-- The MCTP endpoint of a switch. -/
def switchMctp (c : SwitchConfig) (t : Topology Endpoint) : Except ConfigError Endpoint :=
  switchWith switchMctpCommands c t

/-- Somebody listens for finished background operations from now on. -/
def listen (e : Endpoint) : Endpoint := e.withMailbox { e.mailbox with completions := some [] }

/-- Adds commands to the mailbox. -/
def addCommands (e : Endpoint) (commands : List Command) (payloadMax : Nat) : Endpoint :=
  e.withMailbox (e.mailbox.addCommands commands payloadMax)

/-- The device reports a media error on `[start, start + length)`. Only a memory device has
media. -/
def recordMediaError? (e : Endpoint) (now start length : Nat) (kind : Poison.Kind) :
    Option Endpoint :=
  match e with
  | memory m d =>
    some (memory m
      { d with poison := d.poison.recordMediaError start length kind (m.hostTime.now now) })
  | _ => none

/-- The device reports an event. The handle is missing if the log is full or there is none. -/
def insertEvent (e : Endpoint) (now : Nat) (log : EventLog.Kind) (r : EventRecord) :
    Endpoint × Option UInt16 :=
  match e with
  | memory m d =>
    match d.events.insert log r (m.hostTime.now now) with
    | (events, handle) => (memory m { d with events }, handle)
  | e => (e, none)

/-- The device takes an extent into its ledger by itself. -/
def provision (e : Endpoint) (extent : Extent) : Except Status Endpoint :=
  match e with
  | memory m d =>
    match d.withLedger (d.ledger.provision extent) with
    | .ok d => .ok (memory m d)
    | .error s => .error s
  | _ => .error .unsupported

/-- Lets `f` act on the endpoint that is reached through the ports of a path. -/
def onPath {α : Type} (f : Endpoint → Endpoint × α) : List UInt8 → Endpoint → Option (Endpoint × α)
  | [], e => some (f e)
  | port :: path, switch m card t =>
    match t.leaf? port with
    | none => none
    | some leaf =>
      match onPath f path leaf with
      | none => none
      | some (leaf, a) => (t.relay (fun _ => (leaf, a)) port).map fun (t, a) => (switch m card t, a)
  | _ :: _, _ => none

end Endpoint

end CxlEndpoint
