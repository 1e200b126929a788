import CxlEndpoint.Topology

/-!
# The ports of a switch

* `Topology.isSome_portState?_iff`, `Topology.isSome_portStates?_iff`: a switch knows the states of
  its own ports and of no others.
* `Topology.of_portStates?`: it tells one for each port that it is asked about, in the same order.
* `Topology.nodup_ports`, `Topology.length_ports`: a switch tells the ids of its ports, each once,
  and their number.
* `Topology.role_eq_iff`: a port with an attached device is a port with a device below it, unless
  the upstream port has the id of a downstream port.
-/

namespace CxlEndpoint.Topology

variable {δ : Type} {t : Topology δ} {id : UInt8} {ids : List UInt8} {s : PortState}
  {states : List PortState}

theorem id_of_portState? (h : t.portState? id = some s) : s.id = id := by
  unfold portState? at h
  split at h
  · cases h
    rfl
  · split at h
    · cases h
      rfl
    · cases h

theorem mem_ports_iff (t : Topology δ) (ingressPort id : UInt8) :
    id ∈ (t.info ingressPort).ports ↔ id = t.upstream ∨ id ∈ t.downstream := by
  rw [info, List.mem_append, List.mem_singleton, or_comm]

theorem nodup_ports (hdistinct : t.downstream.Nodup) (hupstream : t.upstream ∉ t.downstream)
    (ingressPort : UInt8) : (t.info ingressPort).ports.Nodup := by
  refine List.nodup_append.mpr ⟨hdistinct, List.pairwise_singleton _ _, fun id hid up hup => ?_⟩
  rw [List.mem_singleton.mp hup]
  exact ne_of_mem_of_not_mem hid hupstream

theorem length_ports (t : Topology δ) (ingressPort : UInt8) :
    (t.info ingressPort).ports.length = (t.info ingressPort).portCount := by
  simp [info, downstream]

theorem isSome_portState?_iff (t : Topology δ) (ingressPort id : UInt8) :
    (t.portState? id).isSome = true ↔ id ∈ (t.info ingressPort).ports := by
  rw [mem_ports_iff, portState?]
  split
  next hup => exact iff_of_true rfl (Or.inl hup)
  next hup =>
    split
    next hdown => exact iff_of_true rfl (Or.inr hdown)
    next hdown => exact iff_of_false nofun (not_or.mpr ⟨hup, hdown⟩)

theorem isSome_portStates?_iff :
    (t.portStates? ids).isSome = true ↔ ∀ id ∈ ids, (t.portState? id).isSome = true := by
  induction ids with
  | nil => simp [portStates?]
  | cons id ids ih =>
    rw [List.forall_mem_cons, ← ih, portStates?]
    cases t.portState? id <;> cases t.portStates? ids <;> simp

theorem of_portStates? (h : t.portStates? ids = some states) :
    states.map (·.id) = ids ∧ ∀ s ∈ states, t.portState? s.id = some s := by
  induction ids generalizing states with
  | nil =>
    cases h
    exact ⟨rfl, nofun⟩
  | cons id ids ih =>
    unfold portStates? at h
    split at h
    next s rest hs hrest =>
      cases h
      obtain ⟨hids, hstates⟩ := ih hrest
      have hid := id_of_portState? hs
      refine ⟨?_, List.forall_mem_cons.mpr ⟨?_, hstates⟩⟩
      · rw [List.map_cons, hid, hids]
      · rw [hid, hs]
    · cases h

theorem length_of_portStates? (h : t.portStates? ids = some states) :
    states.length = ids.length := by
  rw [← (of_portStates? h).1, List.length_map]

/-- A switch tells of its upstream port as often as it is asked to. -/
theorem portStates?_upstream (t : Topology δ) (n : Nat) :
    t.portStates? (List.replicate n t.upstream) =
      some (List.replicate n ⟨t.upstream, .upstream⟩) := by
  induction n with
  | zero => rfl
  | succ n ih =>
    have hstate : t.portState? t.upstream = some ⟨t.upstream, .upstream⟩ := if_pos rfl
    rw [List.replicate_succ, portStates?, ih, hstate, List.replicate_succ]

theorem leaf?_of_not_mem (h : id ∉ t.downstream) : t.leaf? id = none := by
  have hnone : t.ports.find? (·.id == id) = none := by
    rw [List.find?_eq_none]
    intro p hp hid
    exact h (List.mem_map.mpr ⟨p, hp, beq_iff_eq.mp hid⟩)
  rw [leaf?, Port.leaf?, hnone]
  rfl

/-- What a switch tells of attached devices agrees with where it finds devices. -/
theorem role_eq_iff (hupstream : t.upstream ∉ t.downstream) (h : t.portState? id = some s) :
    s.role = .downstream true ↔ (t.leaf? id).isSome = true := by
  unfold portState? at h
  split at h
  next hup =>
    cases h
    rw [hup, leaf?_of_not_mem hupstream]
    exact iff_of_false nofun nofun
  next hup =>
    split at h
    · cases h
      exact ⟨fun hrole => PortRole.downstream.inj hrole, fun hleaf => congrArg _ hleaf⟩
    · cases h

end CxlEndpoint.Topology
