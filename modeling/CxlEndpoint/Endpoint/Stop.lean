import CxlEndpoint.Endpoint.Dispatch
import CxlEndpoint.Endpoint.Tick
import CxlEndpoint.Poison.Checked

/-!
# What stops the program

An answer says what a request does if all of it is computed. An injection looks for its line on the
poison list first, and does not get past that for a line whose end is no word. A sanitize is counted
when it is over, as long as there is a number for it.

* `MemoryDevice.stopsAt`: the device does not get through with a request.
* `Endpoint.stops`: the endpoint that is asked, or the one that the request is passed on to, does
  not get through with it.
* `Endpoint.stopsOnTick`: the endpoint does not get through with a look at the clock.
-/

namespace CxlEndpoint

/-- The device stops the program on a request. -/
def MemoryDevice.stopsAt (d : MemoryDevice) : MemoryRequest → Bool
  | .injectPoison address => (d.poison.injectChecked address false).isNone
  | .sanitize =>
    decide (sanitizeSeconds (d.memory.staticCapacity / mebibyte) ≤ sanitizeSyncSeconds) &&
      d.memory.sanitizeChecked.isNone
  | _ => false

/-- A request for `op` with the payload `p` stops the program. -/
def Endpoint.stops (e : Endpoint) (op : Opcode) (p : Payload) : Bool :=
  match e.mailbox.accept op p with
  | .error _ => false
  | .ok c =>
    match c.action with
    | .extension _ => false
    | .standard command =>
      match _h : Request.ofPayload command p with
      | .ok (.direct (.memory request)) => e.device?.any (·.stopsAt request)
      | .ok (.tunnel t) =>
        match e with
        | .switch _ _ topology =>
          match topology.leaf? t.port with
          | none => false
          | some leaf => leaf.stops t.opcode t.payload
        | _ => false
      | _ => false
termination_by p.length
decreasing_by exact Request.payload_length_lt _h

/-- A look at the clock stops the program: it ends a sanitize that cannot be counted any more. -/
def Endpoint.stopsOnTick (e : Endpoint) (now : Nat) : Bool :=
  e.overAt? now == some .sanitize && e.device?.any (·.memory.sanitizeChecked.isNone)

end CxlEndpoint
