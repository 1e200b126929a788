import CxlEndpoint.Proofs.Endpoint.MessageSize
import CxlEndpoint.Proofs.Tunnel.Atomicity

/-!
# What a switch shows of its ports

A switch shows its ports in three ways: as bits in what it tells of itself, as states of ports, and
by the devices that it passes requests on to.

* `Relayed`: a request is passed on to a device, which answers. `relayed_iff` and `refused_iff` say
  that it is when there is a device below the port, and that it is turned down otherwise.
* `attached_iff_relayed`: the state of a port says which of the two happens.
* `status_portStates`, `blocks_portStates`: when the states of ports are told, and what is told.
* `ports_agree`: the three ways give one picture, for every topology and every list of ports.
-/

namespace CxlEndpoint.Endpoint

open TunnelRequest

variable {m : Mailbox} {card : SwitchCard} {t : Topology Endpoint} {now : Nat} {limit : Option Nat}
  {p payload : Payload} {id : UInt8} {ids : List UInt8} {s : PortState} {e : Endpoint}

/-! ## Requests that are passed on -/

/-- The tunnelled request `p` is passed on: the device below its port answers, and its response is
wrapped if that is possible. -/
def Relayed (m : Mailbox) (card : SwitchCard) (t : Topology Endpoint) (now : Nat)
    (limit : Option Nat) (p : Payload) : Prop :=
  ∃ leaf leaf' response, Reaches m t now limit p leaf leaf' response ∧
    (switch m card t).dispatch now limit .tunnel p =
      (switch m card (t.withLeaf (portOf p) leaf'),
        if Unwrappable m limit response then .refusal .internalError
        else ⟨.success,
          (TunnelReply.mk (tagOf p) (.of (setOf p) (commandOf p)) response).toPayload⟩)

/-- A request that is passed on is not turned down as invalid. -/
theorem Relayed.status_ne (h : Relayed m card t now limit p) :
    ((switch m card t).dispatch now limit .tunnel p).2.status ≠ .invalidInput := by
  obtain ⟨leaf, leaf', response, -, hdispatch⟩ := h
  rw [hdispatch]
  split <;> exact nofun

theorem relayed_iff (h : m.Relays) (hframed : Framed p) (htarget : targetOf p = 0) :
    Relayed m card t now limit p ↔ (t.leaf? (portOf p)).isSome = true := by
  constructor
  · rintro ⟨leaf, leaf', response, hreach, -⟩
    rw [hreach.found]
    rfl
  · intro hsome
    obtain ⟨leaf, hleaf⟩ := Option.isSome_iff_exists.mp hsome
    exact ⟨leaf, _, _, ⟨hframed, htarget, hleaf, rfl⟩,
      dispatch_tunnel_of_leaf h (ofPayload_of_framed_port hframed htarget) hleaf rfl⟩

theorem refused_iff (h : m.Relays) (hframed : Framed p) (htarget : targetOf p = 0) :
    (switch m card t).dispatch now limit .tunnel p =
        (switch m card t, .refusal .invalidInput) ↔
      ¬ Relayed m card t now limit p := by
  constructor
  · intro hrefused hrelayed
    exact hrelayed.status_ne (congrArg (·.2.status) hrefused)
  · intro hnot
    have hnone : t.leaf? (portOf p) = none := by
      rw [relayed_iff h hframed htarget] at hnot
      exact Option.not_isSome_iff_eq_none.mp hnot
    exact dispatch_tunnel_of_no_leaf h (ofPayload_of_framed_port hframed htarget) hnone

/-- A port is told to have a device exactly if requests to it are passed on. -/
theorem attached_iff_relayed (h : m.Relays) (hupstream : t.upstream ∉ t.downstream)
    (hstate : t.portState? (portOf p) = some s) (hframed : Framed p) (htarget : targetOf p = 0) :
    s.block.attached = true ↔ Relayed m card t now limit p := by
  rw [s.attached_block, Topology.role_eq_iff hupstream hstate, relayed_iff h hframed htarget]

/-! ## The states of ports -/

/-- The states of ports are told exactly if all of them have their bits set. -/
theorem status_portStates (hknows : m.Knows .portStates) (hids : ids.length ≤ 255)
    (hroom : 4 + 16 * ids.length ≤ m.room limit) :
    ((switch m card t).dispatch now limit .portStates (portListRequest ids)).2.status = .success ↔
      ∀ id ∈ ids, SwitchInfo.showsPort (t.info card.ingressPort).toPayload id = true := by
  have hshown (id : UInt8) :
      SwitchInfo.showsPort (t.info card.ingressPort).toPayload id = true ↔
        (t.portState? id).isSome = true := by
    rw [SwitchInfo.showsPort_toPayload, Topology.isSome_portState?_iff]
  simp only [hshown]
  rw [dispatch_portStates hknows hids hroom, ← Topology.isSome_portStates?_iff]
  cases t.portStates? ids with
  | some states => exact iff_of_true rfl rfl
  | none => exact iff_of_false nofun nofun

/-- There is one block for each port that was asked about, with the state of that port. -/
theorem blocks_portStates (hknows : m.Knows .portStates) (hids : ids.length ≤ 255)
    (hroom : 4 + 16 * ids.length ≤ m.room limit)
    (hanswer : ((switch m card t).dispatch now limit .portStates (portListRequest ids)).2 =
      ⟨.success, payload⟩) :
    ∃ blocks, PortBlock.listOfPayload? payload = some blocks ∧ blocks.map (·.id) = ids ∧
      ∀ block ∈ blocks, ∃ s, t.portState? block.id = some s ∧ block = s.block := by
  rw [dispatch_portStates hknows hids hroom] at hanswer
  cases hstates : t.portStates? ids with
  | none =>
    rw [hstates] at hanswer
    cases hanswer
  | some states =>
    rw [hstates] at hanswer
    obtain rfl : portStatesPayload states = payload := congrArg Response.payload hanswer
    obtain ⟨hmap, hstate⟩ := Topology.of_portStates? hstates
    have hlength : states.length ≤ 255 := by rwa [Topology.length_of_portStates? hstates]
    refine ⟨states.map PortState.block, PortState.listOfPayload?_portStatesPayload hlength, ?_,
      fun block hblock => ?_⟩
    · rw [List.map_map]
      exact hmap
    · obtain ⟨s, hs, rfl⟩ := List.mem_map.mp hblock
      exact ⟨s, hstate s hs, rfl⟩

/-! ## Switches of both kinds -/

/-- An endpoint of a switch keeps the commands that it starts with. -/
theorem knows_of_switchWith {commands : List Command} {command : StandardCommand}
    {c : SwitchConfig} {t₀ : Topology Endpoint} (hnew : switchWith commands c t₀ = .ok e)
    (hknows : (Mailbox.ofCommands commands c.payloadMax).Knows command)
    (hreach : Reachable e (switch m card t)) : m.Knows command := by
  obtain ⟨-, card₀, rfl⟩ := switchWith_eq_ok hnew
  exact hreach.sameTable.knows hknows

/-- What a switch tells of itself always fits into its messages. -/
theorem room_of_switchWith {commands : List Command} {c : SwitchConfig} {t₀ : Topology Endpoint}
    (hnew : switchWith commands c t₀ = .ok e) (hreach : Reachable e (switch m card t)) :
    73 ≤ m.room none := by
  obtain ⟨⟨hmin, -⟩, card₀, rfl⟩ := switchWith_eq_ok hnew
  have hmax : m.payloadMax = c.payloadMax := hreach.sameTable.payloadMax
  show 73 ≤ m.payloadMax
  omega

/-- Both endpoints of a switch can tell of its ports, whatever has happened to them, and its
manager can pass requests on. -/
theorem knows_of_reachable {c : SwitchConfig} {t₀ : Topology Endpoint}
    (hnew : switchManager c t₀ = .ok e ∨ switchMctp c t₀ = .ok e)
    (hreach : Reachable e (switch m card t)) :
    m.Knows .identifySwitch ∧ m.Knows .portStates ∧ 73 ≤ m.room none ∧
      (switchManager c t₀ = .ok e → m.Relays) := by
  have hrelays (h : switchManager c t₀ = .ok e) : m.Relays :=
    show m.Knows .tunnel from knows_of_switchWith h rfl hreach
  rcases hnew with h | h <;>
    exact ⟨knows_of_switchWith h rfl hreach, knows_of_switchWith h rfl hreach,
      room_of_switchWith h hreach, hrelays⟩

/-- **What a switch shows of its ports agrees.** The states of a list of ports are told exactly if
the bits of all of them are set in what the switch tells of itself. There is one block for each, in
their order. It shows a device exactly if requests to that port are passed on to one; otherwise they
are turned down as invalid. The requests are those to any manager of these ports, so to the endpoint
itself if it is one; the MCTP endpoint of a switch passes nothing on. -/
theorem ports_agree {c : SwitchConfig} {t₀ : Topology Endpoint}
    (hnew : switchManager c t₀ = .ok e ∨ switchMctp c t₀ = .ok e)
    (hreach : Reachable e (switch m card t)) (hupstream : t.upstream ∉ t.downstream) :
    73 ≤ m.room none ∧ (switchManager c t₀ = .ok e → m.Relays) ∧
    ∃ info,
      (∀ now limit, 73 ≤ m.room limit →
        (switch m card t).dispatch now limit .identifySwitch [] =
          (switch m card t, ⟨.success, info⟩)) ∧
      ∀ now limit ids, ids.length ≤ 255 → 4 + 16 * ids.length ≤ m.room limit →
        (((switch m card t).dispatch now limit .portStates (portListRequest ids)).2.status =
            .success ↔
          ∀ id ∈ ids, SwitchInfo.showsPort info id = true) ∧
        ∀ payload,
          ((switch m card t).dispatch now limit .portStates (portListRequest ids)).2 =
            ⟨.success, payload⟩ →
          ∃ blocks, PortBlock.listOfPayload? payload = some blocks ∧ blocks.map (·.id) = ids ∧
            ∀ block ∈ blocks, ∀ (manager : Mailbox) (card' : SwitchCard) (now : Nat)
              (limit : Option Nat) (p : Payload), manager.Relays → Framed p → targetOf p = 0 →
              portOf p = block.id →
              (block.attached = true ↔ Relayed manager card' t now limit p) ∧
              (block.attached = false ↔
                (switch manager card' t).dispatch now limit .tunnel p =
                  (switch manager card' t, .refusal .invalidInput)) := by
  obtain ⟨hidentify, hstates, hsize, hrelays⟩ := knows_of_reachable hnew hreach
  refine ⟨hsize, hrelays, _, fun now limit => dispatch_identifySwitch hidentify,
    fun now limit ids hids hroom => ⟨status_portStates hstates hids hroom,
      fun payload hanswer => ?_⟩⟩
  obtain ⟨blocks, hread, hmap, hblocks⟩ := blocks_portStates hstates hids hroom hanswer
  refine ⟨blocks, hread, hmap, fun block hblock manager card' now limit p h hframed htarget hport =>
    ?_⟩
  obtain ⟨s, hstate, hs⟩ := hblocks block hblock
  have hattached : block.attached = true ↔ Relayed manager card' t now limit p := by
    rw [hs]
    exact attached_iff_relayed h hupstream (by rw [hport, hstate]) hframed htarget
  refine ⟨hattached, ?_⟩
  rw [refused_iff h hframed htarget, ← hattached, Bool.not_eq_true]

/-- A switch with a device below port 1 shows both of its ports and no port 2, as often as it is
asked about them, and the device. The requests for the device reach it. -/
theorem ports_agree_memoryBehind :
    ∃ m card t info payload blocks,
      t = memoryBehind 2048 .fresh ∧ switchManager {} t = .ok (switch m card t) ∧
      t.upstream ∉ t.downstream ∧
      (switch m card t).dispatch 0 none .identifySwitch [] =
        (switch m card t, ⟨.success, info⟩) ∧
      SwitchInfo.showsPort info 0 = true ∧ SwitchInfo.showsPort info 1 = true ∧
      SwitchInfo.showsPort info 2 = false ∧
      ((switch m card t).dispatch 0 none .portStates (portListRequest [1, 0, 1])).2 =
        ⟨.success, payload⟩ ∧
      PortBlock.listOfPayload? payload = some blocks ∧ blocks.map (·.id) = [1, 0, 1] ∧
      Relayed m card t 0 none tunnelledInjection ∧
      ∀ block ∈ blocks, block.id = 1 → block.attached = true := by
  let m : Mailbox := .ofCommands switchCommands 2048
  let card : SwitchCard :=
    ⟨{ ({} : SwitchConfig).identity with subsystemVendor := 0, subsystem := 0 }, 0⟩
  let t : Topology Endpoint := memoryBehind 2048 .fresh
  have hnew : switchManager {} t = .ok (switch m card t) := rfl
  have hupstream : t.upstream ∉ t.downstream := by decide
  obtain ⟨hroom, hrelays, info, hinfo, hagree⟩ := ports_agree (.inl hnew) .new hupstream
  have hknows : m.Knows .portStates := rfl
  have hstates : ((switch m card t).dispatch 0 none .portStates (portListRequest [1, 0, 1])).2 =
      ⟨.success, portStatesPayload
        [⟨1, .downstream true⟩, ⟨0, .upstream⟩, ⟨1, .downstream true⟩]⟩ := by
    rw [dispatch_portStates hknows (by decide) (show _ ≤ 2048 by decide)]
    rfl
  have hother : ((switch m card t).dispatch 0 none .portStates (portListRequest [2])).2 =
      .refusal .invalidInput := by
    rw [dispatch_portStates hknows (by decide) (show _ ≤ 2048 by decide)]
    rfl
  have hreach : Relayed m card t 0 none tunnelledInjection :=
    (relayed_iff (hrelays hnew) (by decide) rfl).mpr rfl
  obtain ⟨hshown, hblocks⟩ := hagree 0 none [1, 0, 1] (by decide) (by decide)
  have hshown := hshown.mp (congrArg Response.status hstates)
  obtain ⟨blocks, hread, hids, hblocks⟩ := hblocks _ hstates
  have hhidden : SwitchInfo.showsPort info 2 ≠ true := by
    intro hshown
    have hstatus := (hagree 0 none [2] (by decide) (by decide)).1.mpr (by simpa using hshown)
    rw [hother] at hstatus
    cases hstatus
  refine ⟨m, card, t, info, _, blocks, rfl, hnew, hupstream, hinfo 0 none hroom,
    hshown 0 (by decide), hshown 1 (by decide), Bool.eq_false_iff.mpr hhidden, hstates, hread, hids,
    hreach, fun block hblock hid => ?_⟩
  exact (hblocks block hblock m card 0 none tunnelledInjection (hrelays hnew) (by decide) rfl
    hid.symm).1.mpr hreach

end CxlEndpoint.Endpoint
