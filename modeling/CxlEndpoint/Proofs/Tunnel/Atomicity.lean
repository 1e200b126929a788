import CxlEndpoint.Proofs.Tunnel.Relay

/-!
# Relayed requests that fail

A switch that turns a tunnelled request down should have changed nothing. But it can turn a request
down late, when the device below the port has answered and the answer cannot be wrapped.

* `TunnelAtomic`: a request that does not succeed changes nothing.
* `tunnelAtomic_iff`: the exact condition. It is met whenever there is room for the wrapping and not
  so much of it that the length of a response may be no 16-bit number.
* `not_tunnelAtomic`: scan results that are taken off the queue and lost.
-/

namespace CxlEndpoint.Endpoint

open TunnelRequest

variable {m : Mailbox} {card : SwitchCard} {t : Topology Endpoint} {now : Nat} {limit : Option Nat}
  {p : Payload} {leaf leaf' : Endpoint} {response : Response}

/-- If the tunnelled request `p` does not succeed, then the endpoint, with all devices behind it,
is as it was. -/
def TunnelAtomic (e : Endpoint) (now : Nat) (limit : Option Nat) (p : Payload) : Prop :=
  (e.dispatch now limit .tunnel p).2.status ≠ .success → (e.dispatch now limit .tunnel p).1 = e

/-- The request `p` finds the device `leaf`, which answers with `response` and becomes `leaf'`. -/
structure Reaches (m : Mailbox) (t : Topology Endpoint) (now : Nat) (limit : Option Nat)
    (p : Payload) (leaf leaf' : Endpoint) (response : Response) : Prop where
  framed : Framed p
  target : targetOf p = 0
  found : t.leaf? (portOf p) = some leaf
  answer : leaf.dispatch now (some (m.room limit - tunnelOverhead)) (.of (setOf p) (commandOf p))
    (innerOf p) = (leaf', response)

/-- A request that finds no device changes nothing. -/
theorem tunnelAtomic_of_not_reaches (h : m.Relays)
    (hreach : ¬ ∃ leaf leaf' response, Reaches m t now limit p leaf leaf' response) :
    TunnelAtomic (switch m card t) now limit p := by
  intro _
  by_cases hframed : Framed p
  · by_cases htarget : targetOf p = 0
    · cases hleaf : t.leaf? (portOf p) with
      | none =>
        rw [dispatch_tunnel_of_no_leaf h (ofPayload_of_framed_port hframed htarget) hleaf]
      | some leaf => exact absurd ⟨leaf, _, _, hframed, htarget, hleaf, rfl⟩ hreach
    · rw [dispatch_tunnel_of_target h hframed htarget]
  · rw [dispatch_tunnel_of_not_framed h hframed]

/-- If the answer of the device cannot be wrapped, it must not have come with a change. -/
theorem Reaches.tunnelAtomic (h : m.Relays)
    (hreach : Reaches m t now limit p leaf leaf' response) :
    TunnelAtomic (switch m card t) now limit p ↔
      (Unwrappable m limit response → leaf' = leaf) := by
  obtain ⟨hframed, htarget, hfound, hanswer⟩ := hreach
  have hdispatch : (switch m card t).dispatch now limit .tunnel p = _ :=
    dispatch_tunnel_of_leaf h (ofPayload_of_framed_port hframed htarget) hfound hanswer
  by_cases hlost : Unwrappable m limit response
  · rw [if_pos hlost] at hdispatch
    have hchange :
        switch m card (t.withLeaf (portOf p) leaf') = switch m card t ↔ leaf' = leaf := by
      rw [Endpoint.switch.injEq, ← Topology.withLeaf_eq_self_iff hfound]
      simp
    have hfailed : Status.internalError ≠ .success := by decide
    rw [TunnelAtomic, hdispatch]
    exact ⟨fun hatomic _ => hchange.mp (hatomic hfailed), fun hsame _ =>
      hchange.mpr (hsame hlost)⟩
  · rw [if_neg hlost] at hdispatch
    rw [TunnelAtomic, hdispatch]
    exact ⟨fun _ h => absurd h hlost, fun _ hfailed => absurd rfl hfailed⟩

theorem tunnelAtomic_iff_unchanged (h : m.Relays) :
    TunnelAtomic (switch m card t) now limit p ↔
      ∀ leaf leaf' response, Reaches m t now limit p leaf leaf' response →
        Unwrappable m limit response → leaf' = leaf := by
  constructor
  · intro hatomic leaf leaf' response hreach
    exact (hreach.tunnelAtomic h).mp hatomic
  · intro hsame
    by_cases hreach : ∃ leaf leaf' response, Reaches m t now limit p leaf leaf' response
    · obtain ⟨leaf, leaf', response, hreach⟩ := hreach
      exact (hreach.tunnelAtomic h).mpr (hsame leaf leaf' response hreach)
    · exact tunnelAtomic_of_not_reaches h hreach

/-- There is room for the wrapping and for no more than a 16-bit number of bytes behind the size. -/
theorem Reaches.wrappable (hreach : Reaches m t now limit p leaf leaf' response)
    (hroom : tunnelOverhead ≤ m.room limit) (hshort : m.room limit ≤ 65535 + 4) :
    ¬ Unwrappable m limit response := by
  have hlength := length_le_of_dispatch hreach.answer
  rintro (hfits | hnumber)
  · exact absurd hfits (Nat.not_lt.mpr hroom)
  · rw [tunnelOverhead] at hroom hlength
    omega

/-- **When a tunnelled request that fails changes nothing**: exactly when no device has changed to
give an answer that cannot be wrapped. Every answer can be wrapped when there is room for the
wrapping and for no more than a 16-bit number of bytes behind the size. -/
theorem tunnelAtomic_iff (h : m.Relays) (card : SwitchCard) (t : Topology Endpoint) (now : Nat)
    (limit : Option Nat) (p : Payload) :
    (TunnelAtomic (switch m card t) now limit p ↔
      ∀ leaf leaf' response, Reaches m t now limit p leaf leaf' response →
        Unwrappable m limit response → leaf' = leaf) ∧
    (tunnelOverhead ≤ m.room limit → m.room limit ≤ 65535 + 4 →
      TunnelAtomic (switch m card t) now limit p) := by
  refine ⟨tunnelAtomic_iff_unchanged h, fun hroom hshort => ?_⟩
  refine (tunnelAtomic_iff_unchanged h).mpr fun leaf leaf' response hreach hlost => ?_
  exact absurd hlost (hreach.wrappable hroom hshort)

/-- An injection without room for the wrapping is carried out and reported as failed. With room it
is not reported as failed. -/
theorem tunnelAtomic_iff_injection :
    ∃ m card,
      switchManager {} (memoryBehind 2048 .fresh) =
        .ok (switch m card (memoryBehind 2048 .fresh)) ∧
      ¬ TunnelAtomic (switch m card (memoryBehind 2048 .fresh)) 0 (some 8)
        tunnelledInjection ∧
      TunnelAtomic (switch m card (memoryBehind 2048 .fresh)) 0 none tunnelledInjection := by
  let m : Mailbox := .ofCommands switchCommands 2048
  let card : SwitchCard :=
    ⟨{ ({} : SwitchConfig).identity with subsystemVendor := 0, subsystem := 0 }, 0⟩
  have hrelays : m.Relays := rfl
  have hreach : Reaches m (memoryBehind 2048 .fresh) 0 (some 8) tunnelledInjection
      (memory (.ofCommands memoryCommands 2048) .fresh) _ _ :=
    ⟨by decide, rfl, rfl, dispatch_injection _⟩
  refine ⟨m, card, rfl, fun hatomic => ?_, ?_⟩
  · have hsame := (tunnelAtomic_iff hrelays card _ 0 (some 8) tunnelledInjection).1.mp hatomic
      _ _ _ hreach (Or.inl (by decide))
    have hlive := congrArg (fun e => e.device?.map fun d => d.poison.live.length) hsame
    exact absurd hlive (by decide)
  · exact (tunnelAtomic_iff hrelays card _ 0 none tunnelledInjection).2 (by decide) (by decide)

/-! ## Lost scan results -/

/-- Asks the device below port 1, under tag 9, for scan results. -/
def tunnelledFetch : Payload := [1, 0, 12, 0] ++ [0, 9, 0, 0x05, 0x43, 0, 0, 0, 0, 0, 0, 0]

/-- The device has 4094 results, which fit into its own response, but not into a wrapping of which
the length is a 16-bit number. -/
theorem not_tunnelAtomic :
    ¬ ∀ (c : SwitchConfig) (t : Topology Endpoint) (e : Endpoint) (now : Nat) (limit : Option Nat)
      (p : Payload), switchManager c t = .ok e → TunnelAtomic e now limit p := by
  intro hall
  let c : SwitchConfig := { payloadMax := 1048576 }
  let d : MemoryDevice := .scanned 4094
  let mailbox : Mailbox := .ofCommands memoryCommands 1048576
  let conditions := mailbox.conditions 0 (mailbox.room (some 1048560))
  have hatomic := hall c (memoryBehind 1048576 d) _ 0 none tunnelledFetch rfl
  have hanswer : (memory mailbox d).dispatch 0 (some 1048560) (.of 0x43 0x05) [] =
      (memory mailbox (d.takeResults conditions).1,
        ⟨.success, (d.takeResults conditions).2.toPayload⟩) := by
    have hread : Request.ofPayload .scanResults [] = .ok (.direct (.memory .scanResults)) := rfl
    rw [dispatch_of_serve (c := .standard .scanResults) rfl rfl hread
      (MemoryDevice.serve_scanResults rfl)]
    exact settle_of_done (MemoryDevice.length_takeResults_le (by decide)) rfl
  have hlength : (d.takeResults conditions).2.toPayload.length = 65536 := by
    rw [MemoryDevice.length_takeResults, MemoryDevice.results_scanned, List.length_replicate]
    decide
  have hreach : Reaches (.ofCommands switchCommands 1048576) (memoryBehind 1048576 d) 0 none
      tunnelledFetch (memory mailbox d) _ _ := ⟨by decide, rfl, rfl, hanswer⟩
  have hrelays : (Mailbox.ofCommands switchCommands 1048576).Relays := rfl
  have hlost : 65535 < 12 + (d.takeResults conditions).2.toPayload.length := by
    rw [hlength]
    decide
  have hsame := (hreach.tunnelAtomic hrelays).mp hatomic (Or.inr hlost)
  have hqueue : d.poison.results.drop (Poison.recordLimit conditions.room) = d.poison.results :=
    congrArg (·.poison.results) (Endpoint.memory.inj hsame).2
  rw [MemoryDevice.results_scanned] at hqueue
  have hcount := congrArg List.length hqueue
  rw [List.length_drop, List.length_replicate] at hcount
  exact absurd hcount (by decide)

end CxlEndpoint.Endpoint
