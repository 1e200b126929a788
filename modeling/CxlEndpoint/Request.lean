import CxlEndpoint.Command.Standard
import CxlEndpoint.Message.Capacity
import CxlEndpoint.Message.Component
import CxlEndpoint.Message.Event
import CxlEndpoint.Message.Memory
import CxlEndpoint.Message.Poison
import CxlEndpoint.Message.Switch
import CxlEndpoint.Message.Tunnel

/-!
# Requests

* `MemoryRequest`, `SwitchRequest`, `DirectRequest`: what an endpoint is asked to do itself.
* `Request.ofPayload`: the request that a standard command makes of a payload. A payload that
  cannot be read is turned down before the kind of endpoint matters.
* `Request.payload_length_lt`: a tunnelled payload is shorter than the one around it.
-/

namespace CxlEndpoint

/-- What only a memory device can do. -/
inductive MemoryRequest where
  | eventRecords (log : EventLog.Kind)
  | clearEvents (clearance : EventClearance)
  | interruptPolicy
  | setInterruptPolicy (settings : List UInt8)
  | firmware
  | identify
  | partition
  | getLabels (window : LabelWindow)
  | setLabels (write : LabelWrite)
  | poisonList (range : Poison.Range)
  | injectPoison (address : Nat)
  | clearPoison (address : Nat) (data : CacheLine)
  | scanCapabilities (range : Poison.Range)
  | scan (range : Poison.Range)
  | scanResults
  | sanitize
  | regions (page : PageRequest)
  | extents (page : PageRequest)
  | addCapacity (batch : List AddressRange)
  | releaseCapacity (batch : List AddressRange)
  deriving DecidableEq

/-- What only a switch can do. -/
inductive SwitchRequest where
  | identify
  | portStates (ids : List UInt8)
  deriving DecidableEq

/-- What an endpoint is asked to do itself. -/
inductive DirectRequest where
  | identify
  | backgroundStatus
  | getTimestamp
  | setTimestamp (host : Timestamp)
  | supportedLogs
  | getLog (window : LogWindow)
  | securityState
  /-- A write of nothing. -/
  | nothing
  | memory (request : MemoryRequest)
  | switch (request : SwitchRequest)
  deriving DecidableEq

/-- What an endpoint is asked to do, or to pass on. -/
inductive Request where
  | direct (request : DirectRequest)
  | tunnel (request : TunnelRequest)
  deriving DecidableEq

namespace DirectRequest

/-- Reads the payload of a command that an endpoint carries out itself. A tunnelled request is not
among them. -/
def ofPayload (c : StandardCommand) (p : Payload) : Except Status DirectRequest :=
  match c with
  | .identify => .ok .identify
  | .backgroundStatus => .ok .backgroundStatus
  | .getEventRecords => (EventLog.Kind.ofPayload p).map (.memory ∘ .eventRecords)
  | .clearEventRecords => (EventClearance.ofPayload p).map (.memory ∘ .clearEvents)
  | .getInterruptPolicy => .ok (.memory .interruptPolicy)
  | .setInterruptPolicy => (interruptSettingsOf p).map (.memory ∘ .setInterruptPolicy)
  | .firmwareInfo => .ok (.memory .firmware)
  | .getTimestamp => .ok .getTimestamp
  | .setTimestamp => (p.word 0 8).map (.setTimestamp ∘ UInt64.ofNat)
  | .supportedLogs => .ok .supportedLogs
  | .getLog => (LogWindow.ofPayload p).map .getLog
  | .identifyMemory => .ok (.memory .identify)
  | .partitionInfo => .ok (.memory .partition)
  | .getLabels => (LabelWindow.ofPayload p).map (.memory ∘ .getLabels)
  | .setLabels =>
    if p.isEmpty then .ok .nothing else (LabelWrite.ofPayload p).map (.memory ∘ .setLabels)
  | .getPoisonList => (Poison.Range.alignedOfPayload p).map (.memory ∘ .poisonList)
  | .injectPoison => (p.word 0 8).map (.memory ∘ .injectPoison)
  | .clearPoison => do
    let address ← p.word 0 8
    return .memory (.clearPoison address (← p.bytes 8 lineBytes))
  | .scanCapabilities => (Poison.Range.ofPayload p).map (.memory ∘ .scanCapabilities)
  | .scanMedia => (Poison.Range.ofPayload p).map (.memory ∘ .scan)
  | .scanResults => .ok (.memory .scanResults)
  | .sanitize => .ok (.memory .sanitize)
  | .securityState => .ok .securityState
  | .capacityConfig => (PageRequest.regionsOfPayload p).map (.memory ∘ .regions)
  | .extentList => (PageRequest.extentsOfPayload p).map (.memory ∘ .extents)
  | .addCapacity => (AddressRange.batchOfPayload p).map (.memory ∘ .addCapacity)
  | .releaseCapacity => (AddressRange.batchOfPayload p).map (.memory ∘ .releaseCapacity)
  | .identifySwitch => .ok (.switch .identify)
  | .portStates => (portListOfPayload p).map (.switch ∘ .portStates)
  | .tunnel => .error .unsupported

end DirectRequest

namespace Request

/-- Reads the payload of a standard command. -/
def ofPayload (c : StandardCommand) (p : Payload) : Except Status Request :=
  if c = .tunnel then (TunnelRequest.ofPayload p).map .tunnel
  else (DirectRequest.ofPayload c p).map .direct

theorem payload_length_lt {c : StandardCommand} {p : Payload} {t : TunnelRequest}
    (h : ofPayload c p = .ok (.tunnel t)) : t.payload.length < p.length := by
  unfold ofPayload at h
  split at h
  · cases ht : TunnelRequest.ofPayload p with
    | error s => simp [ht, Except.map] at h
    | ok u =>
      simp only [ht, Except.map, Except.ok.injEq, tunnel.injEq] at h
      exact h ▸ TunnelRequest.payload_length_lt ht
  · cases hd : DirectRequest.ofPayload c p <;> simp [hd, Except.map] at h

end Request

end CxlEndpoint
