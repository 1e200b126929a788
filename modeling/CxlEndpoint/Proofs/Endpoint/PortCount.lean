import CxlEndpoint.Proofs.Endpoint.Ports

/-!
# How many ports a switch says it has

A switch shows each of its ports by a bit and tells how many they are in three fields. All three
hold the low byte of the number, so nothing is left of it when there is a port for every id.

* `length_shownPorts`: the number of bits is the number of ports.
* `portCounts_iff`: the fields hold this number exactly if there are fewer than 256 ports.
* `not_portCounts`: a switch with a port for every id says that it has none.
-/

namespace CxlEndpoint.Endpoint

variable {m : Mailbox} {card : SwitchCard} {t : Topology Endpoint} {e : Endpoint}

theorem length_shownPorts (hdistinct : t.downstream.Nodup) (hupstream : t.upstream ∉ t.downstream)
    (ingressPort : UInt8) :
    (SwitchInfo.shownPorts (t.info ingressPort).toPayload).length = t.downstream.length + 1 := by
  have hnodup := Topology.nodup_ports hdistinct hupstream ingressPort
  rw [(SwitchInfo.shownPorts_perm hnodup).length_eq, Topology.length_ports]
  simp [Topology.info, Topology.downstream]

/-- **The numbers of ports that a switch tells are right exactly if it has fewer than 256 ports.**
Whatever has happened to either endpoint of a switch, if the ids of its ports are distinct it shows
its upstream port and its downstream ports, so as many as there are. The three numbers that it tells
are this number if there are fewer than 255 downstream ports, and zero if there are more. -/
theorem portCounts_iff {c : SwitchConfig} {t₀ : Topology Endpoint}
    (hnew : switchManager c t₀ = .ok e ∨ switchMctp c t₀ = .ok e)
    (hreach : Reachable e (switch m card t)) (hdistinct : t.downstream.Nodup)
    (hupstream : t.upstream ∉ t.downstream) :
    73 ≤ m.room none ∧ ∃ info counts,
      (∀ now limit, 73 ≤ m.room limit →
        (switch m card t).dispatch now limit .identifySwitch [] =
          (switch m card t, ⟨.success, info⟩)) ∧
      (∀ id, SwitchInfo.showsPort info id = true ↔ id = t.upstream ∨ id ∈ t.downstream) ∧
      (SwitchInfo.shownPorts info).length = t.downstream.length + 1 ∧
      PortCounts.ofPayload? info = some counts ∧
      (counts = .same (SwitchInfo.shownPorts info).length ↔ t.downstream.length < 255) ∧
      (255 ≤ t.downstream.length →
        (SwitchInfo.shownPorts info).length = 256 ∧ counts = .same 0) := by
  obtain ⟨hidentify, -, hsize, -⟩ := knows_of_reachable hnew hreach
  have hlength := length_shownPorts hdistinct hupstream card.ingressPort
  have hids : (SwitchInfo.shownPorts (t.info card.ingressPort).toPayload).length ≤ 256 :=
    Nat.le_trans (List.length_filter_le ..) (Nat.le_of_eq (by simp))
  have hcount : (t.info card.ingressPort).portCount = t.downstream.length + 1 := by
    simp [Topology.info, Topology.downstream]
  refine ⟨hsize, _, _, fun now limit => dispatch_identifySwitch hidentify, fun id => ?_, hlength,
    PortCounts.ofPayload?_toPayload _, ?_, fun hmany => ?_⟩
  · rw [SwitchInfo.showsPort_toPayload, Topology.mem_ports_iff]
  · rw [hlength, hcount, PortCounts.same_inj]
    omega
  · rw [hlength, hcount, PortCounts.same_inj]
    omega

/-- A switch with ports all over the range of ids, the first and the last of them included. -/
def scatteredPorts : Topology Endpoint :=
  ⟨255, [⟨64, none⟩, ⟨7, some (memoryMctp {})⟩, ⟨0, none⟩, ⟨254, none⟩]⟩

theorem portCounts_iff_scattered :
    ∃ m card info, switchMctp {} scatteredPorts = .ok (switch m card scatteredPorts) ∧
      scatteredPorts.downstream.Nodup ∧ scatteredPorts.upstream ∉ scatteredPorts.downstream ∧
      (switch m card scatteredPorts).dispatch 0 none .identifySwitch [] =
        (switch m card scatteredPorts, ⟨.success, info⟩) ∧
      SwitchInfo.showsPort info 254 = true ∧ SwitchInfo.showsPort info 8 = false ∧
      (SwitchInfo.shownPorts info).length = 5 ∧ PortCounts.ofPayload? info = some (.same 5) := by
  let m : Mailbox := .ofCommands switchMctpCommands 2048
  let card : SwitchCard :=
    ⟨{ ({} : SwitchConfig).identity with subsystemVendor := 0, subsystem := 0 }, 0⟩
  have hnew : switchMctp {} scatteredPorts = .ok (switch m card scatteredPorts) := rfl
  have hdistinct : scatteredPorts.downstream.Nodup := by decide
  have hupstream : scatteredPorts.upstream ∉ scatteredPorts.downstream := by decide
  obtain ⟨hroom, info, counts, hinfo, hshown, hlength, hcounts, hright, -⟩ :=
    portCounts_iff (.inr hnew) .new hdistinct hupstream
  have hhidden : ¬ SwitchInfo.showsPort info 8 = true := by
    rw [hshown]
    decide
  refine ⟨m, card, info, hnew, hdistinct, hupstream, hinfo 0 none hroom,
    (hshown 254).mpr (by decide), Bool.eq_false_iff.mpr hhidden, hlength, ?_⟩
  rw [hcounts, hright.mpr (by decide), hlength]
  rfl

/-- A switch with a port for every id. -/
def fullSwitch : Topology Endpoint :=
  ⟨0, (List.range 255).map fun i => ⟨UInt8.ofNat (i + 1), none⟩⟩

theorem nodup_fullSwitch : (fullSwitch.upstream :: fullSwitch.downstream).Nodup := by
  have hids : fullSwitch.upstream :: fullSwitch.downstream =
      (List.range 256).map UInt8.ofNat := by
    rw [List.range_succ_eq_map, List.map_cons, List.map_map, Topology.downstream, fullSwitch,
      List.map_map]
    rfl
  rw [hids]
  exact nodup_ids

/-- The numbers of ports that a switch tells need not be right: it shows 256 ports and says that it
has none. -/
theorem not_portCounts :
    ¬ ∀ (c : SwitchConfig) (t : Topology Endpoint) (e : Endpoint) (info : Payload),
      switchManager c t = .ok e → t.downstream.Nodup → t.upstream ∉ t.downstream →
      (e.dispatch 0 none .identifySwitch []).2 = ⟨.success, info⟩ →
      PortCounts.ofPayload? info = some (.same (SwitchInfo.shownPorts info).length) := by
  intro h
  obtain ⟨hupstream, hdistinct⟩ := List.nodup_cons.mp nodup_fullSwitch
  have hnew : switchManager {} fullSwitch = .ok (switch (.ofCommands switchCommands 2048)
      ⟨{ ({} : SwitchConfig).identity with subsystemVendor := 0, subsystem := 0 }, 0⟩
      fullSwitch) := rfl
  have hknows : (Mailbox.ofCommands switchCommands 2048).Knows .identifySwitch := rfl
  have hroom : 73 ≤ (Mailbox.ofCommands switchCommands 2048).room none :=
    show 73 ≤ 2048 by decide
  have hcounts := h {} fullSwitch _ (fullSwitch.info 0).toPayload hnew hdistinct hupstream
    (congrArg Prod.snd (dispatch_identifySwitch hknows hroom))
  have hnumber : (fullSwitch.info 0).portCount = 256 := by simp [Topology.info, fullSwitch]
  have hshown : (SwitchInfo.shownPorts (fullSwitch.info 0).toPayload).length = 256 := by
    rw [length_shownPorts hdistinct hupstream]
    simp [Topology.downstream, fullSwitch]
  rw [PortCounts.ofPayload?_toPayload, hnumber, hshown] at hcounts
  exact absurd (Option.some.inj hcounts) (by decide)

end CxlEndpoint.Endpoint
