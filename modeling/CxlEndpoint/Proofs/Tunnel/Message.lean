import CxlEndpoint.Message.Tunnel

/-!
# The fields of tunnelled messages

The fields of a request lie at fixed offsets: behind the port, the target type and the size of the
inner message stands the inner message itself, twelve bytes of which come before its payload.

* `TunnelRequest.Framed`: the lengths in a request agree with each other and with its own length.
* `TunnelRequest.ofPayload_of_framed`, `TunnelRequest.ofPayload_of_not_framed`: what is read from
  a payload, for every payload.
* `WrappedResponse.ofPayload?`: the fields of a wrapped response. `ofPayload?_toPayload` says that
  they are those that `TunnelReply.toPayload` was given.
-/

namespace CxlEndpoint

namespace TunnelRequest

/-- The port that a request names. -/
def portOf (p : Payload) : UInt8 := p.getD 0 0

/-- The kind of target that a request names. -/
def targetOf (p : Payload) : UInt8 := p.getD 1 0

/-- The size of the inner message. -/
def messageSize (p : Payload) : Nat := ofLittleEndian ((p.drop 2).take 2)

/-- The tag of the inner message. -/
def tagOf (p : Payload) : UInt8 := p.getD 5 0

/-- The inner command within its set. -/
def commandOf (p : Payload) : UInt8 := p.getD 7 0

/-- The command set of the inner command. -/
def setOf (p : Payload) : UInt8 := p.getD 8 0

/-- The length of the inner payload. -/
def innerLength (p : Payload) : Nat := ofLittleEndian ((p.drop 9).take 3)

/-- The inner payload. -/
def innerOf (p : Payload) : Payload := (p.drop 16).take (innerLength p)

/-- The lengths in a request agree: the request has its header, the inner message has one and is
all there, and the inner payload ends inside the inner message. -/
structure Framed (p : Payload) : Prop where
  header : 4 ≤ p.length
  message : 12 ≤ messageSize p
  inside : 4 + messageSize p ≤ p.length
  payload : innerLength p ≤ messageSize p - 12

instance (p : Payload) : Decidable (Framed p) :=
  decidable_of_iff
    (4 ≤ p.length ∧ 12 ≤ messageSize p ∧ 4 + messageSize p ≤ p.length ∧
      innerLength p ≤ messageSize p - 12)
    ⟨fun ⟨h, m, i, l⟩ => ⟨h, m, i, l⟩, fun ⟨h, m, i, l⟩ => ⟨h, m, i, l⟩⟩

variable {p message rest : Payload} {port targetType s0 s1 : UInt8}

/-! ## The inner message -/

theorem ofMessage_of_short (h : message.length < 12) :
    ofMessage port targetType message = .error .invalidInput := by
  unfold ofMessage
  split
  · simp only [List.length_cons] at h
    omega
  · rfl

theorem exists_header (h : 12 ≤ message.length) :
    ∃ category tag reserved command set l0 l1 l2 v0 v1 c0 c1 body,
      message = category :: tag :: reserved :: command :: set :: l0 :: l1 :: l2 :: v0 :: v1 ::
        c0 :: c1 :: body := by
  obtain _ | ⟨_, _ | ⟨_, _ | ⟨_, _ | ⟨_, _ | ⟨_, _ | ⟨_, _ | ⟨_, _ | ⟨_, _ | ⟨_, _ | ⟨_, _ | ⟨_,
    _ | ⟨_, _⟩⟩⟩⟩⟩⟩⟩⟩⟩⟩⟩⟩ := message
  all_goals simp at h ⊢

theorem ofMessage_of_header (h : 12 ≤ message.length) :
    ofMessage port targetType message =
      if message.length - 12 < ofLittleEndian ((message.drop 5).take 3) then .error .invalidInput
      else if targetType ≠ 0 then .error .unsupported
      else .ok ⟨port, message.getD 1 0, .of (message.getD 4 0) (message.getD 3 0),
        (message.drop 12).take (ofLittleEndian ((message.drop 5).take 3))⟩ := by
  obtain ⟨_, _, _, _, _, _, _, _, _, _, _, _, _, rfl⟩ := exists_header h
  rfl

/-! ## The request -/

theorem ofPayload_cons (hp : p = port :: targetType :: s0 :: s1 :: rest) :
    ofPayload p =
      if rest.length < messageSize p then .error .invalidInput
      else ofMessage port targetType (rest.take (messageSize p)) := by
  subst hp
  rfl

theorem exists_cons (h : 4 ≤ p.length) :
    ∃ port targetType s0 s1 rest, p = port :: targetType :: s0 :: s1 :: rest := by
  obtain _ | ⟨_, _ | ⟨_, _ | ⟨_, _ | ⟨_, _⟩⟩⟩⟩ := p
  all_goals simp at h ⊢

theorem getD_take {n i : Nat} (h : i < n) (l : Payload) : (l.take n).getD i 0 = l.getD i 0 := by
  rw [List.getD_eq_getElem?_getD, List.getElem?_take_of_lt h, List.getD_eq_getElem?_getD]

/-- The inner message is there and has a header. -/
theorem ofPayload_of_message (hheader : 4 ≤ p.length) (hmessage : 12 ≤ messageSize p)
    (hinside : 4 + messageSize p ≤ p.length) :
    ofPayload p =
      if messageSize p - 12 < innerLength p then .error .invalidInput
      else if targetOf p ≠ 0 then .error .unsupported
      else .ok ⟨portOf p, tagOf p, .of (setOf p) (commandOf p), innerOf p⟩ := by
  obtain ⟨port, targetType, s0, s1, rest, hp⟩ := exists_cons hheader
  have hlength : p.length = rest.length + 4 := by
    rw [hp]
    rfl
  have hinner : innerLength p = ofLittleEndian ((rest.drop 5).take 3) := by
    rw [hp]
    rfl
  have htake : (rest.take (messageSize p)).length = messageSize p :=
    List.length_take_of_le (by omega)
  have hfield : ((rest.take (messageSize p)).drop 5).take 3 = (rest.drop 5).take 3 := by
    rw [List.drop_take, List.take_take, Nat.min_eq_left (by omega)]
  rw [ofPayload_cons hp, if_neg (by omega), ofMessage_of_header (by omega), htake, hfield, ← hinner,
    getD_take (by omega), getD_take (by omega), getD_take (by omega)]
  split
  · rfl
  next hfits =>
    have hbody : ((rest.take (messageSize p)).drop 12).take (innerLength p) = innerOf p := by
      rw [List.drop_take, List.take_take, Nat.min_eq_left (Nat.le_of_not_lt hfits), innerOf, hp]
      rfl
    rw [hbody, hp]
    rfl

theorem ofPayload_of_framed (h : Framed p) :
    ofPayload p =
      if targetOf p ≠ 0 then .error .unsupported
      else .ok ⟨portOf p, tagOf p, .of (setOf p) (commandOf p), innerOf p⟩ := by
  rw [ofPayload_of_message h.header h.message h.inside, if_neg (Nat.not_lt.mpr h.payload)]

theorem ofPayload_of_framed_port (h : Framed p) (htarget : targetOf p = 0) :
    ofPayload p = .ok ⟨portOf p, tagOf p, .of (setOf p) (commandOf p), innerOf p⟩ := by
  rw [ofPayload_of_framed h, if_neg (not_not_intro htarget)]

theorem ofPayload_of_not_framed (h : ¬ Framed p) : ofPayload p = .error .invalidInput := by
  by_cases hheader : 4 ≤ p.length
  · obtain ⟨port, targetType, s0, s1, rest, hp⟩ := exists_cons hheader
    have hlength : p.length = rest.length + 4 := by
      rw [hp]
      rfl
    by_cases hinside : rest.length < messageSize p
    · rw [ofPayload_cons hp, if_pos hinside]
    · by_cases hmessage : 12 ≤ messageSize p
      · have hpayload : ¬ innerLength p ≤ messageSize p - 12 := fun hle =>
          h ⟨hheader, hmessage, by omega, hle⟩
        rw [ofPayload_of_message hheader hmessage (by omega), if_pos (Nat.not_le.mp hpayload)]
      · rw [ofPayload_cons hp, if_neg hinside]
        exact ofMessage_of_short (by rw [List.length_take]; omega)
  · unfold ofPayload
    split
    · simp only [List.length_cons] at hheader
      omega
    · rfl

end TunnelRequest

/-! ## The response -/

/-- The fields of a wrapped response. -/
structure WrappedResponse where
  /-- The size of the inner message. -/
  size : Nat
  category : UInt8
  tag : UInt8
  command : UInt8
  set : UInt8
  /-- The length of the inner payload. -/
  length : Nat
  vendor : Nat
  /-- The status with the return code, if there is one. -/
  status : Option Status
  body : Payload
  deriving DecidableEq, Repr

/-- Reads the fields. Two bytes behind the size and one behind the tag are reserved. -/
def WrappedResponse.ofPayload? : Payload → Option WrappedResponse
  | n0 :: n1 :: _ :: _ :: category :: tag :: _ :: command :: set :: l0 :: l1 :: l2 :: v0 :: v1 ::
      c0 :: c1 :: body =>
    some {
      size := ofLittleEndian [n0, n1], category, tag, command, set
      length := ofLittleEndian [l0, l1, l2], vendor := ofLittleEndian [v0, v1]
      status := Status.ofCode? (ofLittleEndian [c0, c1]), body }
  | _ => none

namespace TunnelReply

theorem length_toPayload (r : TunnelReply) :
    r.toPayload.length = tunnelOverhead + r.response.payload.length := by
  simp only [toPayload, List.length_append, length_littleEndian, length_zeros, List.length_cons,
    List.length_nil, tunnelOverhead]

theorem ofPayload?_toPayload (r : TunnelReply) (h : r.innerLength ≤ 65535) :
    WrappedResponse.ofPayload? r.toPayload = some {
      size := r.innerLength, category := 1, tag := r.tag, command := r.opcode.command
      set := r.opcode.set, length := r.response.payload.length, vendor := 0
      status := some r.response.status, body := r.response.payload } := by
  have hread : WrappedResponse.ofPayload? r.toPayload = some {
      size := ofLittleEndian (littleEndian 2 r.innerLength), category := 1, tag := r.tag
      command := r.opcode.command, set := r.opcode.set
      length := ofLittleEndian (littleEndian 3 r.response.payload.length), vendor := 0
      status := Status.ofCode? (ofLittleEndian (littleEndian 2 r.response.status.code))
      body := r.response.payload } := rfl
  have hsize : ofLittleEndian (littleEndian 2 r.innerLength) = r.innerLength := by
    rw [ofLittleEndian_littleEndian]
    exact Nat.mod_eq_of_lt (Nat.lt_succ_of_le h)
  have hlength : ofLittleEndian (littleEndian 3 r.response.payload.length) =
      r.response.payload.length := by
    rw [ofLittleEndian_littleEndian]
    have hle : r.response.payload.length ≤ r.innerLength := Nat.le_add_left _ _
    exact Nat.mod_eq_of_lt (Nat.lt_of_le_of_lt (Nat.le_trans hle h) (by decide))
  have hcode : ofLittleEndian (littleEndian 2 r.response.status.code) = r.response.status.code := by
    cases r.response.status <;> rfl
  rw [hread, hsize, hlength, hcode, Status.ofCode?_code]

end TunnelReply

end CxlEndpoint
