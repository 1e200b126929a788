import CxlEndpoint.Command.Reply
import CxlEndpoint.Opcode

/-!
# Tunnelled messages

A request to the device below a port travels inside a request to the switch, and its response
inside the switch's response.

* `TunnelRequest.ofPayload`: the port and the inner request. `payload_length_lt` says that the
  inner payload is shorter than what it was read from, so that tunnels end.
* `TunnelReply`: the inner response with the tag of its request.
-/

namespace CxlEndpoint

/-- Bytes before an inner payload: four for the tunnel, twelve for the inner message. -/
def tunnelOverhead : Nat := 16

/-- A request to the device below a port. -/
structure TunnelRequest where
  port : UInt8
  tag : UInt8
  opcode : Opcode
  payload : Payload
  deriving DecidableEq, Repr

namespace TunnelRequest

/-- Reads the inner message to `port`: a category, the tag, a reserved byte, the command and its
set, the length of the payload, four more bytes, and the payload. Only target type zero, a port,
is known. -/
def ofMessage (port targetType : UInt8) : Payload → Except Status TunnelRequest
  | _ :: tag :: _ :: command :: set :: l0 :: l1 :: l2 :: _ :: _ :: _ :: _ :: body =>
    let length := ofLittleEndian [l0, l1, l2]
    if body.length < length then .error .invalidInput
    else if targetType ≠ 0 then .error .unsupported
    else .ok ⟨port, tag, .of set command, body.take length⟩
  | _ => .error .invalidInput

/-- Reads the port, the target type, the size of the inner message, and the message. -/
def ofPayload : Payload → Except Status TunnelRequest
  | port :: targetType :: s0 :: s1 :: rest =>
    let size := ofLittleEndian [s0, s1]
    if rest.length < size then .error .invalidInput else ofMessage port targetType (rest.take size)
  | _ => .error .invalidInput

theorem payload_length_lt_of_ofMessage {port targetType : UInt8} {message : Payload}
    {t : TunnelRequest} (h : ofMessage port targetType message = .ok t) :
    t.payload.length < message.length := by
  unfold ofMessage at h
  split at h
  · rename_i body
    dsimp only at h
    split at h
    · cases h
    · split at h
      · cases h
      · cases h
        have := List.length_take_le (ofLittleEndian [‹UInt8›, ‹UInt8›, ‹UInt8›]) body
        simp only [List.length_take, List.length_cons]
        omega
  · cases h

theorem payload_length_lt {p : Payload} {t : TunnelRequest} (h : ofPayload p = .ok t) :
    t.payload.length < p.length := by
  unfold ofPayload at h
  split at h
  · dsimp only at h
    split at h
    · cases h
    · have := payload_length_lt_of_ofMessage h
      simp only [List.length_take, List.length_cons] at *
      omega
  · cases h

end TunnelRequest

/-- The response of the device below a port. -/
structure TunnelReply where
  tag : UInt8
  opcode : Opcode
  response : Response
  deriving DecidableEq, Repr

namespace TunnelReply

/-- The size of the inner message. -/
def innerLength (r : TunnelReply) : Nat := 12 + r.response.payload.length

/-- The size of the inner message, and the message: the response category, the tag, the command
and its set, the length of the payload, the return code, and the payload. -/
def toPayload (r : TunnelReply) : Payload :=
  littleEndian 2 r.innerLength ++ zeros 2 ++ [1, r.tag, 0, r.opcode.command, r.opcode.set] ++
    littleEndian 3 r.response.payload.length ++ zeros 2 ++ littleEndian 2 r.response.status.code ++
    r.response.payload

end TunnelReply

end CxlEndpoint
