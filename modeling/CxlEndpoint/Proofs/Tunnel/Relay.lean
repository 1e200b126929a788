import CxlEndpoint.Proofs.Endpoint.MemoryDevice
import CxlEndpoint.Proofs.Tunnel.Message

/-!
# Relayed requests

A switch has the device below a port answer a request as if it had been asked directly, with less
room for the response, and wraps what it answers.

* `Port.withLeaf`, `Topology.withLeaf`: another device below a port, and the same ones below all
  others (`leaf?_withLeaf`). `relay_eq` says that relaying changes nothing else.
* `Mailbox.Relays`: the mailbox passes requests on, as that of every switch manager does
  (`relays_switchManager`).
* `dispatch_tunnel_of_not_framed`, `dispatch_tunnel_of_target`, `dispatch_tunnel_of_no_leaf`,
  `dispatch_tunnel_of_leaf`: the answer to a tunnelled request, in all cases.
* `Unwrappable`: a response that a device has given and that no answer of the switch can hold.
* `dispatch_tunnel_transparent`: what the requester sees of a device behind a switch.
-/

namespace CxlEndpoint

/-! ## Another device below a port -/

namespace Port

variable {δ α : Type} {id other : UInt8} {leaf leaf' : δ} {ports : List (Port δ)}

/-- The ports with `leaf` below the first port with the id. -/
def withLeaf (id : UInt8) (leaf : δ) : List (Port δ) → List (Port δ)
  | [] => []
  | p :: rest => if p.id = id then ⟨id, some leaf⟩ :: rest else p :: withLeaf id leaf rest

theorem relay_eq (f : δ → δ × α) (id : UInt8) (ports : List (Port δ)) :
    relay f id ports =
      (leaf? id ports).map fun leaf => (withLeaf id (f leaf).1 ports, (f leaf).2) := by
  induction ports with
  | nil => rfl
  | cons p rest ih =>
    rw [relay, leaf?_cons, ih]
    by_cases hid : p.id = id
    · cases hp : p.leaf <;> simp [hid, withLeaf]
    · cases hrest : leaf? id rest <;> simp [hid, withLeaf]

@[simp] theorem map_id_withLeaf (ports : List (Port δ)) :
    (withLeaf id leaf ports).map (·.id) = ports.map (·.id) := by
  induction ports with
  | nil => rfl
  | cons p rest ih =>
    rw [withLeaf]
    split
    · next hid => simp [hid]
    · rw [List.map_cons, ih, List.map_cons]

theorem leaf?_withLeaf (h : leaf? id ports = some leaf) :
    leaf? other (withLeaf id leaf' ports) =
      if other = id then some leaf' else leaf? other ports := by
  induction ports with
  | nil => simp [leaf?] at h
  | cons p rest ih =>
    rw [leaf?_cons] at h
    rw [withLeaf]
    split
    · next hid =>
      simp only [leaf?_cons, hid]
      grind
    · next hid =>
      rw [if_neg hid] at h
      simp only [leaf?_cons, ih h]
      grind

theorem withLeaf_self (h : leaf? id ports = some leaf) : withLeaf id leaf ports = ports := by
  induction ports with
  | nil => rfl
  | cons p rest ih =>
    rw [leaf?_cons] at h
    rw [withLeaf]
    split
    · next hid =>
      rw [if_pos hid] at h
      rw [← hid, ← h]
    · next hid =>
      rw [if_neg hid] at h
      rw [ih h]

end Port

namespace Topology

variable {δ α : Type} {t : Topology δ} {id other : UInt8} {leaf leaf' : δ}

/-- The topology with `leaf` below the first port with the id. -/
def withLeaf (t : Topology δ) (id : UInt8) (leaf : δ) : Topology δ :=
  { t with ports := Port.withLeaf id leaf t.ports }

@[simp] theorem upstream_withLeaf : (t.withLeaf id leaf).upstream = t.upstream := rfl

@[simp] theorem downstream_withLeaf : (t.withLeaf id leaf).downstream = t.downstream :=
  Port.map_id_withLeaf t.ports

theorem relay_eq (f : δ → δ × α) (t : Topology δ) (id : UInt8) :
    t.relay f id = (t.leaf? id).map fun leaf => (t.withLeaf id (f leaf).1, (f leaf).2) := by
  rw [relay, Port.relay_eq, leaf?]
  cases Port.leaf? id t.ports <;> rfl

theorem leaf?_withLeaf (h : t.leaf? id = some leaf) :
    (t.withLeaf id leaf').leaf? other = if other = id then some leaf' else t.leaf? other :=
  Port.leaf?_withLeaf h

theorem withLeaf_eq_self_iff (h : t.leaf? id = some leaf) :
    t.withLeaf id leaf' = t ↔ leaf' = leaf := by
  constructor
  · intro hself
    have hthere : (t.withLeaf id leaf').leaf? id = some leaf' := by
      rw [leaf?_withLeaf h, if_pos rfl]
    rw [hself, h] at hthere
    exact (Option.some.inj hthere).symm
  · rintro rfl
    exact congrArg (Topology.mk t.upstream) (Port.withLeaf_self h)

end Topology

/-! ## The answer to a tunnelled request -/

/-- A tunnelled request reaches the command that passes requests on. -/
def Mailbox.Relays (m : Mailbox) : Prop := m.commands.find? .tunnel = some (.standard .tunnel)

theorem Mailbox.Relays.accept {m : Mailbox} (h : m.Relays) (p : Payload) :
    m.accept .tunnel p = .ok (.standard .tunnel) := by
  have hinput : (Command.standard .tunnel).input.Accepts p.length := trivial
  have hbackground : ¬ (Command.standard .tunnel).runsInBackground = true := by decide
  have hmedia : Opcode.tunnel ∉ mediaCommands := by decide
  rw [Mailbox.accept, show m.commands.find? .tunnel = _ from h]
  simp [hinput, hbackground, hmedia]

namespace Endpoint

open TunnelRequest

variable {m : Mailbox} {card : SwitchCard} {t : Topology Endpoint} {now : Nat} {limit : Option Nat}
  {p : Payload} {request : TunnelRequest} {leaf leaf' : Endpoint} {response : Response}

theorem relays_switchManager {c : SwitchConfig} {e : Endpoint} (h : switchManager c t = .ok e) :
    ∃ m card, e = switch m card t ∧ m.Relays := by
  unfold switchManager switchWith at h
  split at h
  · cases h
  · cases h
    exact ⟨_, _, rfl, rfl⟩

theorem dispatch_tunnel_of_unreadable {s : Status} (h : m.Relays)
    (hread : TunnelRequest.ofPayload p = .error s) :
    (switch m card t).dispatch now limit .tunnel p = (switch m card t, .refusal s) := by
  refine dispatch_of_unreadable (h.accept p) rfl ?_
  rw [Request.ofPayload, if_pos rfl, hread]
  rfl

theorem dispatch_tunnel_of_not_framed (h : m.Relays) (hframed : ¬ Framed p) :
    (switch m card t).dispatch now limit .tunnel p = (switch m card t, .refusal .invalidInput) :=
  dispatch_tunnel_of_unreadable h (ofPayload_of_not_framed hframed)

theorem dispatch_tunnel_of_target (h : m.Relays) (hframed : Framed p) (htarget : targetOf p ≠ 0) :
    (switch m card t).dispatch now limit .tunnel p = (switch m card t, .refusal .unsupported) := by
  refine dispatch_tunnel_of_unreadable h ?_
  rw [ofPayload_of_framed hframed, if_pos htarget]

/-- The device below the port is asked for an answer that leaves room for the wrapping. -/
theorem dispatch_tunnel_of_read (h : m.Relays) (hread : TunnelRequest.ofPayload p = .ok request) :
    (switch m card t).dispatch now limit .tunnel p =
      (switch m card t).pass (.standard .tunnel) now (m.room limit) request fun leaf =>
        leaf.dispatch now (some (m.room limit - tunnelOverhead)) request.opcode
          request.payload := by
  refine dispatch_of_tunnel (h.accept p) rfl ?_
  rw [Request.ofPayload, if_pos rfl, hread]
  rfl

theorem dispatch_tunnel_of_no_leaf (h : m.Relays)
    (hread : TunnelRequest.ofPayload p = .ok request) (hleaf : t.leaf? request.port = none) :
    (switch m card t).dispatch now limit .tunnel p =
      (switch m card t, .refusal .invalidInput) := by
  rw [dispatch_tunnel_of_read h hread, pass, Topology.relay_eq, hleaf]
  rfl

/-- The response of a device cannot be wrapped: there is no room for what comes before it, or the
size of the inner message is no 16-bit number. -/
def Unwrappable (m : Mailbox) (limit : Option Nat) (response : Response) : Prop :=
  m.room limit < tunnelOverhead ∨ 65535 < 12 + response.payload.length

instance : Decidable (Unwrappable m limit response) := inferInstanceAs (Decidable (_ ∨ _))

/-- The device below the port has answered, and its response is wrapped if that is possible. -/
theorem dispatch_tunnel_of_leaf (h : m.Relays)
    (hread : TunnelRequest.ofPayload p = .ok request) (hleaf : t.leaf? request.port = some leaf)
    (hask : leaf.dispatch now (some (m.room limit - tunnelOverhead)) request.opcode
      request.payload = (leaf', response)) :
    (switch m card t).dispatch now limit .tunnel p =
      (switch m card (t.withLeaf request.port leaf'),
        if Unwrappable m limit response then .refusal .internalError
        else ⟨.success, (TunnelReply.mk request.tag request.opcode response).toPayload⟩) := by
  have hroom : response.payload.length ≤ m.room limit - tunnelOverhead := length_le_of_dispatch hask
  have hlength : (TunnelReply.mk request.tag request.opcode response).toPayload.length =
      tunnelOverhead + response.payload.length := TunnelReply.length_toPayload _
  rw [dispatch_tunnel_of_read h hread, pass, Topology.relay_eq, hleaf]
  simp only [Option.map_some, hask]
  by_cases hnumber : 65535 < (TunnelReply.mk request.tag request.opcode response).innerLength
  · have hlost : Unwrappable m limit response := Or.inr hnumber
    rw [if_pos hnumber, if_pos hlost]
  · rw [if_neg hnumber]
    by_cases hfits : m.room limit < tunnelOverhead
    · have hlost : Unwrappable m limit response := Or.inl hfits
      rw [if_pos hlost]
      exact settle_of_long (by rw [hlength]; omega)
    · have hwraps : ¬ Unwrappable m limit response := not_or.mpr ⟨hfits, hnumber⟩
      rw [if_neg hwraps]
      exact settle_of_done (by rw [hlength]; omega) rfl

/-- **A device behind a switch answers as it does in front of it.** The response says what the
device answered and for which request, and nothing but the device has changed. A request that
cannot be read, that names another target or that finds no device changes nothing. -/
theorem dispatch_tunnel_transparent (h : m.Relays) (card : SwitchCard) (t : Topology Endpoint)
    (now : Nat) (limit : Option Nat) (p : Payload) :
    (∀ leaf leaf' response, Framed p → targetOf p = 0 → t.leaf? (portOf p) = some leaf →
      tunnelOverhead ≤ m.room limit →
      leaf.dispatch now (some (m.room limit - tunnelOverhead)) (.of (setOf p) (commandOf p))
        (innerOf p) = (leaf', response) →
      12 + response.payload.length ≤ 65535 →
      ∃ t' out,
        (switch m card t).dispatch now limit .tunnel p = (switch m card t', ⟨.success, out⟩) ∧
        t' = t.withLeaf (portOf p) leaf' ∧
        t'.upstream = t.upstream ∧ t'.downstream = t.downstream ∧
        t'.leaf? (portOf p) = some leaf' ∧
        (∀ other, other ≠ portOf p → t'.leaf? other = t.leaf? other) ∧
        WrappedResponse.ofPayload? out = some {
          size := 12 + response.payload.length
          category := 1
          tag := tagOf p
          command := commandOf p
          set := setOf p
          length := response.payload.length
          vendor := 0
          status := some response.status
          body := response.payload }) ∧
    (¬ Framed p →
      (switch m card t).dispatch now limit .tunnel p = (switch m card t, .refusal .invalidInput)) ∧
    (Framed p → targetOf p ≠ 0 →
      (switch m card t).dispatch now limit .tunnel p = (switch m card t, .refusal .unsupported)) ∧
    (Framed p → targetOf p = 0 → t.leaf? (portOf p) = none →
      (switch m card t).dispatch now limit .tunnel p =
        (switch m card t, .refusal .invalidInput)) := by
  refine ⟨fun leaf leaf' response hframed htarget hleaf hroom hask hlength => ?_,
    dispatch_tunnel_of_not_framed h, dispatch_tunnel_of_target h, fun hframed htarget hleaf => ?_⟩
  · have hanswer : (switch m card t).dispatch now limit .tunnel p = _ :=
      dispatch_tunnel_of_leaf h (ofPayload_of_framed_port hframed htarget) hleaf hask
    have hwraps : ¬ Unwrappable m limit response :=
      not_or.mpr ⟨Nat.not_lt.mpr hroom, Nat.not_lt.mpr hlength⟩
    rw [if_neg hwraps] at hanswer
    refine ⟨_, _, hanswer, rfl, Topology.upstream_withLeaf, Topology.downstream_withLeaf, ?_,
      fun other hother => ?_, ?_⟩
    · rw [Topology.leaf?_withLeaf hleaf, if_pos rfl]
    · rw [Topology.leaf?_withLeaf hleaf, if_neg hother]
    · have hfields := TunnelReply.ofPayload?_toPayload
        ⟨tagOf p, .of (setOf p) (commandOf p), response⟩ hlength
      rwa [Opcode.command_of, Opcode.set_of] at hfields
  · exact dispatch_tunnel_of_no_leaf h (ofPayload_of_framed_port hframed htarget) hleaf

/-- A switch with one port, number 1, and a memory device below it. -/
def memoryBehind (payloadMax : Nat) (d : MemoryDevice) : Topology Endpoint :=
  ⟨0, [⟨1, some (memory (.ofCommands memoryCommands payloadMax) d)⟩]⟩

/-- Asks the device below port 1, under tag 9, to poison address 4096. -/
def tunnelledInjection : Payload :=
  [1, 0, 20, 0] ++ [0, 9, 0, 0x01, 0x43, 8, 0, 0, 0, 0, 0, 0] ++ littleEndian 8 4096

/-- The device after that. -/
def injectedDevice : MemoryDevice :=
  { MemoryDevice.fresh with poison := { live := [⟨4096, 64, .injected⟩] } }

theorem dispatch_injection (limit : Option Nat) :
    (memory (.ofCommands memoryCommands 2048) .fresh).dispatch 0 limit (.of 0x43 0x01)
        (innerOf tunnelledInjection) =
      (memory (.ofCommands memoryCommands 2048) injectedDevice, ⟨.success, []⟩) := by
  have hread : Request.ofPayload .injectPoison (innerOf tunnelledInjection) =
      .ok (.direct (.memory (.injectPoison 4096))) := rfl
  rw [dispatch_of_serve (c := .standard .injectPoison) rfl rfl hread rfl]
  exact settle_of_done (Nat.zero_le _) rfl

theorem dispatch_tunnel_transparent_injection :
    ∃ m card t' out,
      switchManager {} (memoryBehind 2048 .fresh) = .ok (switch m card (memoryBehind 2048 .fresh)) ∧
      (switch m card (memoryBehind 2048 .fresh)).dispatch 0 none .tunnel tunnelledInjection =
        (switch m card t', ⟨.success, out⟩) ∧
      t'.leaf? 1 = some (memory (.ofCommands memoryCommands 2048) injectedDevice) ∧
      WrappedResponse.ofPayload? out = some ⟨12, 1, 9, 0x01, 0x43, 0, 0, some .success, []⟩ := by
  have hrelays : (Mailbox.ofCommands switchCommands 2048).Relays := rfl
  obtain ⟨t', out, hanswer, -, -, -, hleaf, -, hout⟩ :=
    (dispatch_tunnel_transparent hrelays
      ⟨{ ({} : SwitchConfig).identity with subsystemVendor := 0, subsystem := 0 }, 0⟩
      (memoryBehind 2048 .fresh) 0 none tunnelledInjection).1 _ _ _ (by decide) rfl rfl
      (by decide) (dispatch_injection _) (by decide)
  exact ⟨_, _, t', out, rfl, hanswer, hleaf, hout⟩

end Endpoint

end CxlEndpoint
