import CxlEndpoint.Message.Switch

/-!
# Switch topologies

A switch has an upstream port and some downstream ports, below each of which a device may be
attached. Of two ports with one id the first counts.

* `Topology.leaf?`: the device below a port.
* `Topology.relay`: what passing something on to that device yields, and the topology with the
  device after it (`Port.relay_eq_none_iff`, `Port.relay_eq_some`).
* `Topology.portState?`, `Topology.info`: how a switch presents its ports.
-/

namespace CxlEndpoint

/-- A downstream port and the device below it. -/
structure Port (δ : Type) where
  id : UInt8
  leaf : Option δ

namespace Port

variable {δ α : Type}

/-- The device below the first port with the id. -/
def leaf? (id : UInt8) (ports : List (Port δ)) : Option δ :=
  (ports.find? (·.id == id)).bind (·.leaf)

/-- Lets `f` act on the device below the first port with the id. -/
def relay (f : δ → δ × α) (id : UInt8) : List (Port δ) → Option (List (Port δ) × α)
  | [] => none
  | p :: rest =>
    if p.id = id then
      match p.leaf with
      | none => none
      | some leaf =>
        match f leaf with
        | (leaf, a) => some (⟨id, some leaf⟩ :: rest, a)
    else
      match relay f id rest with
      | none => none
      | some (rest, a) => some (p :: rest, a)

theorem leaf?_cons (id : UInt8) (p : Port δ) (rest : List (Port δ)) :
    leaf? id (p :: rest) = if p.id = id then p.leaf else leaf? id rest := by
  by_cases h : p.id = id <;> simp [leaf?, h]

theorem relay_eq_none_iff {f : δ → δ × α} {id : UInt8} {ports : List (Port δ)} :
    relay f id ports = none ↔ leaf? id ports = none := by
  induction ports with
  | nil => simp [relay, leaf?]
  | cons p rest ih =>
    rw [leaf?_cons, relay]
    split
    · cases p.leaf <;> simp
    · rw [← ih]
      cases relay f id rest <;> simp

/-- Passing something on changes the device below that port and no other. -/
theorem relay_eq_some {f : δ → δ × α} {id : UInt8} {ports ports' : List (Port δ)} {a : α}
    (h : relay f id ports = some (ports', a)) :
    ∃ leaf, leaf? id ports = some leaf ∧ a = (f leaf).2 ∧
      ports'.map (·.id) = ports.map (·.id) ∧
      ∀ other, leaf? other ports' = if other = id then some (f leaf).1 else leaf? other ports := by
  induction ports generalizing ports' with
  | nil => simp [relay] at h
  | cons p rest ih =>
    rw [relay] at h
    split at h
    · next hid =>
      cases hp : p.leaf with
      | none => simp [hp] at h
      | some leaf =>
        simp only [hp, Option.some.injEq, Prod.mk.injEq] at h
        obtain ⟨rfl, rfl⟩ := h
        refine ⟨leaf, by simp [leaf?_cons, hid, hp], rfl, by simp [hid], fun other => ?_⟩
        simp only [leaf?_cons, hid]
        grind
    · next hid =>
      cases hr : relay f id rest with
      | none => simp [hr] at h
      | some r =>
        obtain ⟨rest', b⟩ := r
        simp only [hr, Option.some.injEq, Prod.mk.injEq] at h
        obtain ⟨rfl, rfl⟩ := h
        obtain ⟨leaf, hl, ha, hm, ho⟩ := ih hr
        refine ⟨leaf, by simp [leaf?_cons, hid, hl], ha, by simp [hm], fun other => ?_⟩
        simp only [leaf?_cons, ho]
        grind

end Port

/-- The ports of a switch. -/
structure Topology (δ : Type) where
  upstream : UInt8
  ports : List (Port δ)

namespace Topology

variable {δ α : Type}

/-- The ids of the downstream ports. -/
def downstream (t : Topology δ) : List UInt8 := t.ports.map (·.id)

/-- The device below a port. -/
def leaf? (t : Topology δ) (id : UInt8) : Option δ := Port.leaf? id t.ports

/-- Lets `f` act on the device below a port. -/
def relay (f : δ → δ × α) (t : Topology δ) (id : UInt8) : Option (Topology δ × α) :=
  match Port.relay f id t.ports with
  | none => none
  | some (ports, a) => some (⟨t.upstream, ports⟩, a)

/-- The state of a port of the switch. -/
def portState? (t : Topology δ) (id : UInt8) : Option PortState :=
  if id = t.upstream then some ⟨id, .upstream⟩
  else if id ∈ t.downstream then some ⟨id, .downstream (t.leaf? id).isSome⟩
  else none

/-- The states of several ports, all of which the switch must have. -/
def portStates? (t : Topology δ) : List UInt8 → Option (List PortState)
  | [] => some []
  | id :: rest =>
    match t.portState? id, portStates? t rest with
    | some s, some states => some (s :: states)
    | _, _ => none

/-- What the switch tells of its ports. -/
def info (t : Topology δ) (ingressPort : UInt8) : SwitchInfo :=
  ⟨ingressPort, t.ports.length + 1, t.downstream ++ [t.upstream]⟩

end Topology

end CxlEndpoint
