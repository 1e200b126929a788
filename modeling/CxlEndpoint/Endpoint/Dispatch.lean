import CxlEndpoint.Endpoint

/-!
# Answering requests

* `Endpoint.serve`: what an endpoint does itself. A request that is turned down changes nothing.
* `Endpoint.settle`: the checks on a reply. A reply that is too long, or an operation that may not
  run in the background, becomes an internal error, but what the command did stays done.
* `Endpoint.pass`: a request goes to the device below a port, and the response is wrapped.
* `Endpoint.dispatch`: the answer to a request, and the endpoint after it. `dispatch_of_refused`,
  `dispatch_of_extension`, `dispatch_of_unreadable`, `dispatch_of_direct` and
  `dispatch_of_tunnel` are its cases.
-/

namespace CxlEndpoint.Endpoint

/-- Carries out a request at clock time `now`, for a response of up to `room` bytes. -/
def serve (e : Endpoint) (now room : Nat) : DirectRequest → Except Status (Endpoint × Reply)
  | .identify =>
    let info : ComponentInfo := ⟨e.component.1, e.mailbox.payloadMax.log2, e.component.2⟩
    .ok (e, { payload := info.toPayload })
  | .backgroundStatus => .ok (e, { payload := e.mailbox.background.report.toPayload })
  | .getTimestamp =>
    .ok (e, { payload := littleEndian 8 (e.mailbox.hostTime.now now).toNat })
  | .setTimestamp host =>
    .ok (e.withMailbox { e.mailbox with hostTime := .set host now }, {})
  | .supportedLogs =>
    .ok (e, { payload := supportedLogsPayload (4 * e.mailbox.commands.effectsLog.length) })
  | .getLog w =>
    match e.mailbox.logPart room w with
    | .ok payload => .ok (e, { payload })
    | .error s => .error s
  | .securityState => .ok (e, { payload := zeros 4 })
  | .nothing => .ok (e, {})
  | .memory request =>
    match e with
    | .memory m d =>
      match d.serve (m.conditions now room) request with
      | .ok (d, reply) => .ok (.memory m d, reply)
      | .error s => .error s
    | _ => .error .unsupported
  | .switch .identify =>
    match e with
    | .switch _ card t => .ok (e, { payload := (t.info card.ingressPort).toPayload })
    | _ => .error .unsupported
  | .switch (.portStates ids) =>
    match e with
    | .switch _ _ t =>
      match t.portStates? ids with
      | some states => .ok (e, { payload := portStatesPayload states })
      | none => .error .invalidInput
    | _ => .error .unsupported

/-- Checks a reply to command `c` and starts the background operation that it asks for. -/
def settle (e : Endpoint) (c : Command) (now room : Nat) (reply : Reply) : Endpoint × Response :=
  if room < reply.payload.length then (e, .refusal .internalError)
  else
    match reply.completion with
    | .done => (e, ⟨.success, reply.payload⟩)
    | .background runtime =>
      if c.runsInBackground then
        (e.withMailbox { e.mailbox with background := .start c.opcode now runtime },
          ⟨.backgroundStarted, reply.payload⟩)
      else (e, .refusal .internalError)

/-- The answer to command `c`, of which `result` is what it did or why it was turned down. -/
def conclude (e : Endpoint) (c : Command) (now room : Nat) :
    (result : Except Status (Endpoint × Reply)) → Endpoint × Response
  | .error s => (e, .refusal s)
  | .ok (e, reply) => e.settle c now room reply

/-- Passes a request on to the device below a port, where `ask` has it answered. The length of the
inner message must be a 16-bit number; by then the device has answered. -/
def pass (e : Endpoint) (c : Command) (now room : Nat) (t : TunnelRequest)
    (ask : Endpoint → Endpoint × Response) : Endpoint × Response :=
  match e with
  | .switch m card topology =>
    match topology.relay ask t.port with
    | none => (e, .refusal .invalidInput)
    | some (topology, response) =>
      let e := .switch m card topology
      let reply : TunnelReply := ⟨t.tag, t.opcode, response⟩
      if 65535 < reply.innerLength then (e, .refusal .internalError)
      else e.settle c now room { payload := reply.toPayload }
  | e => (e, .refusal .unsupported)

/-- The answer to a request at clock time `now`, and the endpoint after it. The requester may limit
the length of the response. -/
def dispatch (e : Endpoint) (now : Nat) (limit : Option Nat) (op : Opcode) (p : Payload) :
    Endpoint × Response :=
  match e.mailbox.accept op p with
  | .error s => (e, .refusal s)
  | .ok c =>
    let room := e.mailbox.room limit
    match c.action with
    | .extension run => e.conclude c now room ((run p).map fun reply => (e, reply))
    | .standard command =>
      match _h : Request.ofPayload command p with
      | .error s => (e, .refusal s)
      | .ok (.direct request) => e.conclude c now room (e.serve now room request)
      | .ok (.tunnel t) =>
        e.pass c now room t fun leaf =>
          leaf.dispatch now (some (room - tunnelOverhead)) t.opcode t.payload
termination_by p.length
decreasing_by exact Request.payload_length_lt _h

section Cases

variable {e : Endpoint} {now : Nat} {limit : Option Nat} {op : Opcode} {p : Payload} {c : Command}
  {command : StandardCommand}

theorem dispatch_of_refused {s : Status} (h : e.mailbox.accept op p = .error s) :
    e.dispatch now limit op p = (e, .refusal s) := by
  rw [dispatch, h]

theorem dispatch_of_extension {run : Payload → Except Status Reply}
    (h : e.mailbox.accept op p = .ok c) (hc : c.action = .extension run) :
    e.dispatch now limit op p =
      e.conclude c now (e.mailbox.room limit) ((run p).map fun reply => (e, reply)) := by
  rw [dispatch, h]
  simp only [hc]

theorem dispatch_of_unreadable {s : Status} (h : e.mailbox.accept op p = .ok c)
    (hc : c.action = .standard command) (hr : Request.ofPayload command p = .error s) :
    e.dispatch now limit op p = (e, .refusal s) := by
  rw [dispatch, h]
  simp only [hc]
  split <;> simp_all

theorem dispatch_of_direct {request : DirectRequest} (h : e.mailbox.accept op p = .ok c)
    (hc : c.action = .standard command)
    (hr : Request.ofPayload command p = .ok (.direct request)) :
    e.dispatch now limit op p =
      e.conclude c now (e.mailbox.room limit) (e.serve now (e.mailbox.room limit) request) := by
  rw [dispatch, h]
  simp only [hc]
  split <;> simp_all

theorem dispatch_of_tunnel {t : TunnelRequest} (h : e.mailbox.accept op p = .ok c)
    (hc : c.action = .standard command) (hr : Request.ofPayload command p = .ok (.tunnel t)) :
    e.dispatch now limit op p =
      e.pass c now (e.mailbox.room limit) t fun leaf =>
        leaf.dispatch now (some (e.mailbox.room limit - tunnelOverhead)) t.opcode t.payload := by
  rw [dispatch, h]
  simp only [hc]
  split <;> simp_all

end Cases

end CxlEndpoint.Endpoint
