import CxlEndpoint.Proofs.Endpoint.Completion
import CxlEndpoint.Proofs.Endpoint.LogRequests
import CxlEndpoint.Proofs.Switch.Message
import CxlEndpoint.Proofs.Switch.Ports
import Mathlib.Algebra.Group.Nat.Defs

/-!
# How long responses are

An endpoint tells the size of its messages as a power of two, rounded down, but answers with
messages of the size itself.

* `HasOnly.payload_dispatch`: what a response says is what one of the commands had to say.
* `dispatch_identify`, `dispatch_identifySwitch`, `dispatch_portStates`: what endpoints tell of
  themselves. `length_dispatch_getLog`, `length_dispatch_portStates`: responses that become as long
  as the requester wants.
* `Built`: a new endpoint of any kind, with the length of its longest responses.
* `Reachable`: what has become of an endpoint. `Built.length_le`, `Built.attained` bound what it
  answers from both sides.
* `fits_advertised_iff`: when every response has the size that the endpoint tells.
-/

namespace CxlEndpoint

/-! ## The lengths of messages -/

theorem ComponentInfo.length_toPayload (c : ComponentInfo) : c.toPayload.length = 18 := by
  simp [toPayload]

theorem ComponentInfo.getElem?_toPayload (c : ComponentInfo) :
    c.toPayload[16]? = some (UInt8.ofNat c.sizeShift) := by
  rw [toPayload, List.getElem?_append_right (by simp)]
  simp

namespace Endpoint

variable {e e' : Endpoint} {now : Nat} {limit : Option Nat} {op : Opcode} {p : Payload}
  {longest : Nat}

/-! ## What responses say -/

theorem payload_settle (e : Endpoint) (c : Command) (now room : Nat) (reply : Reply) :
    (e.settle c now room reply).2.payload = [] ∨
      (e.settle c now room reply).2.payload = reply.payload := by
  unfold settle
  split
  · exact Or.inl rfl
  · split
    · exact Or.inr rfl
    · split
      · exact Or.inr rfl
      · exact Or.inl rfl

/-- The endpoint has the given standard commands and no others. -/
def HasOnly (e : Endpoint) (commands : List StandardCommand) : Prop :=
  ∀ c ∈ e.mailbox.commands, ∃ command ∈ commands, c = .standard command

/-- A response is empty or says what one of the commands had to say. -/
theorem HasOnly.payload_dispatch {commands : List StandardCommand} (h : e.HasOnly commands)
    (htunnel : .tunnel ∉ commands) (now : Nat) (limit : Option Nat) (op : Opcode) (p : Payload) :
    (e.dispatch now limit op p).2.payload = [] ∨
      ∃ command ∈ commands, ∃ request e' reply, DirectRequest.ofPayload command p = .ok request ∧
        e.serve now (e.mailbox.room limit) request = .ok (e', reply) ∧
        (e.dispatch now limit op p).2.payload = reply.payload := by
  cases haccept : e.mailbox.accept op p with
  | error s =>
    rw [dispatch_of_refused haccept]
    exact Or.inl rfl
  | ok c =>
    obtain ⟨command, hcommand, rfl⟩ :=
      h c (CommandTable.of_find? (Mailbox.accept_eq_ok_iff.mp haccept).1).1
    have hrequest : Request.ofPayload command p =
        (DirectRequest.ofPayload command p).map .direct := by
      rw [Request.ofPayload, if_neg (ne_of_mem_of_not_mem hcommand htunnel)]
    cases hread : DirectRequest.ofPayload command p with
    | error s =>
      rw [hread] at hrequest
      rw [dispatch_of_unreadable haccept rfl hrequest]
      exact Or.inl rfl
    | ok request =>
      rw [hread] at hrequest
      rw [dispatch_of_direct haccept rfl hrequest]
      cases hserve : e.serve now (e.mailbox.room limit) request with
      | error s => exact Or.inl rfl
      | ok served =>
        exact (payload_settle ..).imp_right fun hpayload =>
          ⟨command, hcommand, request, served.1, served.2, hread, hserve, hpayload⟩

section Told

variable {request : DirectRequest} {room : Nat} {reply : Reply}

theorem length_of_identify (hread : DirectRequest.ofPayload .identify p = .ok request)
    (hserve : e.serve now room request = .ok (e', reply)) : reply.payload.length = 18 := by
  cases hread
  cases hserve
  exact ComponentInfo.length_toPayload _

theorem length_of_identifySwitch (hread : DirectRequest.ofPayload .identifySwitch p = .ok request)
    (hserve : e.serve now room request = .ok (e', reply)) : reply.payload.length = 73 := by
  cases hread
  simp only [serve] at hserve
  split at hserve
  · cases hserve
    exact SwitchInfo.length_toPayload _
  · cases hserve

theorem length_of_portStates (hread : DirectRequest.ofPayload .portStates p = .ok request)
    (hserve : e.serve now room request = .ok (e', reply)) :
    ∃ n ≤ 255, reply.payload.length = 4 + 16 * n := by
  simp only [DirectRequest.ofPayload] at hread
  cases hids : portListOfPayload p with
  | error s =>
    rw [hids] at hread
    cases hread
  | ok ids =>
    rw [hids] at hread
    obtain rfl : .switch (.portStates ids) = request := Except.ok.inj hread
    simp only [serve] at hserve
    split at hserve
    · split at hserve
      next states hstates =>
        cases hserve
        refine ⟨ids.length, length_of_portListOfPayload hids, ?_⟩
        rw [← Topology.length_of_portStates? hstates]
        exact PortState.length_portStatesPayload states
      · cases hserve
    · cases hserve

end Told

/-! ## Commands whose responses are known -/

/-- A known command tells something of the endpoint. -/
theorem dispatch_of_told (command : StandardCommand) {request : DirectRequest} {payload : Payload}
    (haccept : e.mailbox.accept command.opcode p = .ok (.standard command))
    (htunnel : command ≠ .tunnel) (hread : DirectRequest.ofPayload command p = .ok request)
    (hserve : e.serve now (e.mailbox.room limit) request = .ok (e, { payload }))
    (hroom : payload.length ≤ e.mailbox.room limit) :
    e.dispatch now limit command.opcode p = (e, ⟨.success, payload⟩) := by
  have hrequest : Request.ofPayload command p = .ok (.direct request) := by
    rw [Request.ofPayload, if_neg htunnel, hread]
    rfl
  rw [dispatch_of_direct haccept rfl hrequest, hserve, conclude]
  exact settle_of_done hroom rfl

/-- An endpoint tells what it is and the size of its messages, at any time. -/
theorem dispatch_identify (hknows : e.mailbox.Knows .identify)
    (hroom : 18 ≤ e.mailbox.room limit) :
    e.dispatch now limit .identify [] =
      (e, ⟨.success, (ComponentInfo.mk e.component.1 e.mailbox.payloadMax.log2
        e.component.2).toPayload⟩) := by
  have haccept : e.mailbox.accept .identify [] = .ok (.standard .identify) :=
    hknows.accept_of_foreground rfl rfl fun _ => by decide
  refine dispatch_of_told .identify haccept (by decide) rfl rfl ?_
  rw [ComponentInfo.length_toPayload]
  exact hroom

/-- Asks for the start of the effects log. -/
def logRequest (length : Nat) : Payload :=
  effectsLogUuid.toList ++ (littleEndian 4 0 ++ littleEndian 4 length)

/-- The part of a log beyond its end is zeros, so the response is as long as the messages are. -/
theorem length_dispatch_getLog (hknows : e.mailbox.Knows .getLog)
    (hidle : e.mailbox.background.isRunningOp .sanitize = false)
    (hsize : e.mailbox.payloadMax < 1 <<< 32) :
    (e.dispatch now none .getLog (logRequest e.mailbox.payloadMax)).2.payload.length =
      e.mailbox.payloadMax := by
  have hmedia : e.mailbox.background.opcode? ≠ some .sanitize := by
    intro hsanitize
    rw [Background.isRunningOp_iff.mpr hsanitize] at hidle
    cases hidle
  have hroom : 0 + e.mailbox.payloadMax ≤ e.mailbox.room none :=
    Nat.le_of_eq (Nat.zero_add e.mailbox.payloadMax)
  have hdispatch : e.dispatch now none .getLog (logRequest e.mailbox.payloadMax) = _ :=
    dispatch_getLog (hknows.handles rfl) hmedia (by decide) hsize
  rw [hdispatch, if_pos hroom]
  exact Payload.length_fit ..

section Switch

variable {m : Mailbox} {card : SwitchCard} {t : Topology Endpoint} {ids : List UInt8}

/-- A switch tells of its ports. -/
theorem dispatch_identifySwitch (hknows : m.Knows .identifySwitch) (hroom : 73 ≤ m.room limit) :
    (switch m card t).dispatch now limit .identifySwitch [] =
      (switch m card t, ⟨.success, (t.info card.ingressPort).toPayload⟩) := by
  have haccept : m.accept .identifySwitch [] = .ok (.standard .identifySwitch) :=
    hknows.accept_of_foreground rfl rfl fun _ => by decide
  refine dispatch_of_told .identifySwitch haccept (by decide) rfl rfl ?_
  rw [SwitchInfo.length_toPayload]
  exact hroom

/-- A switch tells the states of ports if all of them are its own. -/
theorem dispatch_portStates (hknows : m.Knows .portStates) (hids : ids.length ≤ 255)
    (hroom : 4 + 16 * ids.length ≤ m.room limit) :
    (switch m card t).dispatch now limit .portStates (portListRequest ids) =
      match t.portStates? ids with
      | some states => (switch m card t, ⟨.success, portStatesPayload states⟩)
      | none => (switch m card t, .refusal .invalidInput) := by
  have haccept : (switch m card t).mailbox.accept .portStates (portListRequest ids) =
      .ok (.standard .portStates) :=
    hknows.accept_of_foreground rfl trivial fun _ => by decide
  have hread : DirectRequest.ofPayload .portStates (portListRequest ids) =
      .ok (.switch (.portStates ids)) := by
    rw [DirectRequest.ofPayload, portListOfPayload_portListRequest hids]
    rfl
  cases hstates : t.portStates? ids with
  | some states =>
    have hlength : (portStatesPayload states).length ≤ m.room limit := by
      rw [PortState.length_portStatesPayload, Topology.length_of_portStates? hstates]
      exact hroom
    exact dispatch_of_told .portStates haccept (by decide) hread
      (by simp only [serve, hstates]) hlength
  | none =>
    have hrequest : Request.ofPayload .portStates (portListRequest ids) =
        .ok (.direct (.switch (.portStates ids))) := by
      rw [Request.ofPayload, if_neg (by decide), hread]
      rfl
    rw [dispatch_of_direct haccept rfl hrequest]
    simp only [serve, hstates, conclude]

/-- Asks a switch for the state of its upstream port, `n` times. -/
def portRequest (upstream : UInt8) (n : Nat) : Payload :=
  UInt8.ofNat n :: List.replicate n upstream

theorem length_dispatch_portStates {n : Nat} (hknows : m.Knows .portStates) (hn : n ≤ 255)
    (hroom : 4 + 16 * n ≤ m.payloadMax) :
    ((switch m card t).dispatch now none .portStates (portRequest t.upstream n)).2.payload.length =
      4 + 16 * n := by
  have hlength : (List.replicate n t.upstream).length = n := List.length_replicate
  have hrequest : portRequest t.upstream n = portListRequest (List.replicate n t.upstream) := by
    rw [portRequest, portListRequest, hlength]
  rw [hrequest, dispatch_portStates hknows (by rwa [hlength]) (by rwa [hlength]),
    Topology.portStates?_upstream]
  exact (PortState.length_portStatesPayload _).trans (by rw [List.length_replicate])

end Switch

/-! ## Endpoints of all kinds -/

/-- `Built e longest`: the new endpoint `e` gives responses of up to `longest` bytes. -/
inductive Built : Endpoint → (longest : Nat) → Prop
  | memoryDevice (c : MemoryConfig) (m : Memory) (e : Endpoint) (h : memoryDevice c m = .ok e) :
    Built e c.payloadMax
  | memoryMctp (id : Identity) : Built (memoryMctp id) 18
  | switchManager (c : SwitchConfig) (t : Topology Endpoint) (e : Endpoint)
    (h : switchManager c t = .ok e) : Built e c.payloadMax
  /-- As many ports as one request names and one message holds. -/
  | switchMctp (c : SwitchConfig) (t : Topology Endpoint) (e : Endpoint)
    (h : switchMctp c t = .ok e) : Built e (4 + 16 * min 255 ((c.payloadMax - 4) / 16))

/-- What has become of an endpoint. -/
inductive Reachable (e : Endpoint) : Endpoint → Prop
  | new : Reachable e e
  | step (e' : Endpoint) (op : Op) (h : Reachable e e') : Reachable e (e'.step op)
  /-- Something has happened to the devices behind a switch. -/
  | behind (m : Mailbox) (card : SwitchCard) (t t' : Topology Endpoint)
    (h : Reachable e (switch m card t)) : Reachable e (switch m card t')

theorem Reachable.sameTable (h : Reachable e e') : SameTable e e' := by
  induction h with
  | new => exact .refl e
  | step e' op _ ih => exact ih.trans (sameTable_step e' op)
  | behind m card t t' _ ih => exact ih.trans ⟨rfl, rfl⟩

theorem switchWith_eq_ok {commands : List Command} {c : SwitchConfig} {t : Topology Endpoint}
    (h : switchWith commands c t = .ok e) :
    (256 ≤ c.payloadMax ∧ c.payloadMax ≤ mebibyte) ∧
      ∃ card, e = switch (.ofCommands commands c.payloadMax) card t := by
  unfold switchWith at h
  split at h
  · cases h
  next hcheck =>
    cases h
    exact ⟨payloadMax_of_check hcheck, _, rfl⟩

theorem hasOnly_memoryMctp (id : Identity) : (memoryMctp id).HasOnly [.identify] := by
  intro c hc
  exact ⟨.identify, List.mem_cons_self, List.mem_singleton.mp hc⟩

theorem hasOnly_switchWith {commands : List StandardCommand} {c : SwitchConfig}
    {t : Topology Endpoint} (h : switchWith (commands.map .standard) c t = .ok e) :
    e.HasOnly commands := by
  obtain ⟨-, card, rfl⟩ := switchWith_eq_ok h
  intro command hcommand
  rcases CommandTable.mem_of_mem_merge hcommand with hnil | hcommand
  · cases hnil
  · obtain ⟨standard, hmem, rfl⟩ := List.mem_map.mp hcommand
    exact ⟨standard, hmem, rfl⟩

theorem hasOnly_switchMctp {c : SwitchConfig} {t : Topology Endpoint}
    (h : switchMctp c t = .ok e) : e.HasOnly [.identify, .identifySwitch, .portStates] :=
  hasOnly_switchWith h

theorem SameTable.hasOnly {commands : List StandardCommand} (h : SameTable e e')
    (honly : e.HasOnly commands) : e'.HasOnly commands := by
  intro c hc
  rw [h.commands] at hc
  exact honly c hc

namespace Built

/-- The longest response fits into a message, and the endpoint can give its account of itself. -/
theorem size_le (h : Built e longest) :
    longest ≤ e.mailbox.payloadMax ∧ 18 ≤ longest ∧ e.mailbox.payloadMax ≤ mebibyte := by
  cases h with
  | memoryDevice c m e h =>
    obtain ⟨hsize, hmax, -⟩ := payloadMax_of_memoryDevice h
    omega
  | memoryMctp id =>
    exact ⟨show 18 ≤ 2048 by decide, Nat.le_refl _, show 2048 ≤ mebibyte by decide⟩
  | switchManager c t e h =>
    obtain ⟨hsize, card, rfl⟩ := switchWith_eq_ok h
    exact ⟨Nat.le_refl _, by omega, hsize.2⟩
  | switchMctp c t e h =>
    obtain ⟨hsize, card, rfl⟩ := switchWith_eq_ok h
    show _ ≤ c.payloadMax ∧ _ ∧ c.payloadMax ≤ mebibyte
    omega

/-- The shift is one byte. -/
theorem toNat_shift (h : Built e longest) :
    (UInt8.ofNat e.mailbox.payloadMax.log2).toNat = e.mailbox.payloadMax.log2 := by
  obtain ⟨hlongest, hinfo, hmax⟩ := h.size_le
  have hlog : e.mailbox.payloadMax.log2 < 21 :=
    (Nat.log2_lt (by omega)).mpr (Nat.lt_of_le_of_lt hmax (by decide))
  rw [UInt8.toNat_ofNat']
  omega

theorem knows_identify (h : Built e longest) : e.mailbox.Knows .identify := by
  cases h with
  | memoryDevice c m e h => exact knows_memoryDevice h (by decide)
  | memoryMctp id => rfl
  | switchManager c t e h | switchMctp c t e h =>
    obtain ⟨-, card, rfl⟩ := switchWith_eq_ok h
    rfl

/-- No response is longer, whatever has happened before. -/
theorem length_le (h : Built e longest) (hreach : Reachable e e') (now : Nat)
    (limit : Option Nat) (op : Opcode) (p : Payload) :
    (e'.dispatch now limit op p).2.payload.length ≤ longest := by
  have hsame := hreach.sameTable
  have hroom : (e'.dispatch now limit op p).2.payload.length ≤ e.mailbox.payloadMax := by
    refine Nat.le_trans (length_dispatch_le e' now limit op p) ?_
    rw [← hsame.payloadMax]
    cases limit with
    | none => exact Nat.le_refl _
    | some limit => exact Nat.min_le_right _ _
  cases h with
  | memoryDevice c m e h =>
    rwa [(payloadMax_of_memoryDevice h).2.1] at hroom
  | memoryMctp id =>
    rcases (hsame.hasOnly (hasOnly_memoryMctp id)).payload_dispatch (by decide) now limit op p with
      hempty | ⟨command, hcommand, request, e'', reply, hread, hserve, hpayload⟩
    · rw [hempty]
      exact Nat.zero_le _
    · obtain rfl := List.mem_singleton.mp hcommand
      rw [hpayload, length_of_identify hread hserve]
  | switchManager c t e h =>
    obtain ⟨-, card, rfl⟩ := switchWith_eq_ok h
    exact hroom
  | switchMctp c t e h =>
    have honly := hsame.hasOnly (hasOnly_switchMctp h)
    obtain ⟨hsize, card, rfl⟩ := switchWith_eq_ok h
    have hroom : (e'.dispatch now limit op p).2.payload.length ≤ c.payloadMax := hroom
    rcases honly.payload_dispatch (by decide) now limit op p with
      hempty | ⟨command, hcommand, request, e'', reply, hread, hserve, hpayload⟩
    · rw [hempty]
      exact Nat.zero_le _
    · rw [hpayload] at hroom ⊢
      simp only [List.mem_cons, List.not_mem_nil, or_false] at hcommand
      rcases hcommand with rfl | rfl | rfl
      · have hlength := length_of_identify hread hserve
        omega
      · have hlength := length_of_identifySwitch hread hserve
        omega
      · obtain ⟨n, hn, hlength⟩ := length_of_portStates hread hserve
        omega

/-- Some response is that long. -/
theorem attained (h : Built e longest) (now : Nat) :
    ∃ op p, (e.dispatch now none op p).2.payload.length = longest := by
  have hlog {size : Nat} (hsize : size ≤ mebibyte) : size < 1 <<< 32 :=
    Nat.lt_of_le_of_lt hsize (by decide)
  cases h with
  | memoryDevice c m e h =>
    obtain ⟨hsize, hmax, hidle⟩ := payloadMax_of_memoryDevice h
    refine ⟨.getLog, logRequest e.mailbox.payloadMax, ?_⟩
    rw [← hmax]
    exact length_dispatch_getLog (knows_memoryDevice h (by decide)) (by rw [hidle]; rfl)
      (hlog (by rw [hmax]; exact hsize.2))
  | memoryMctp id =>
    have hknows : (Endpoint.memoryMctp id).mailbox.Knows .identify := rfl
    have hroom : 18 ≤ (Endpoint.memoryMctp id).mailbox.room none := show 18 ≤ 2048 by decide
    refine ⟨.identify, [], ?_⟩
    rw [dispatch_identify hknows hroom]
    exact ComponentInfo.length_toPayload _
  | switchManager c t e h =>
    obtain ⟨hsize, card, rfl⟩ := switchWith_eq_ok h
    exact ⟨.getLog, _, length_dispatch_getLog rfl rfl (hlog hsize.2)⟩
  | switchMctp c t e h =>
    obtain ⟨hsize, card, rfl⟩ := switchWith_eq_ok h
    refine ⟨.portStates, _, length_dispatch_portStates rfl (Nat.min_le_left _ _) ?_⟩
    show _ ≤ c.payloadMax
    omega

end Built

/-- **Responses have the size that the endpoint tells exactly if the longest of them has.** An
endpoint of any kind always tells the same shift `s`, the size of its messages rounded down to a
power of two. Its responses have up to `longest` bytes, and there is one of that length; so no
response is longer than `2 ^ s` exactly if `longest` is not. -/
theorem fits_advertised_iff (h : Built e longest) :
    ∃ s : UInt8, s.toNat = e.mailbox.payloadMax.log2 ∧
      (∀ e' now, Reachable e e' → ∃ info,
        (e'.dispatch now none .identify []).2 = ⟨.success, info⟩ ∧ info[16]? = some s) ∧
      (∀ e' now limit op p, Reachable e e' →
        (e'.dispatch now limit op p).2.payload.length ≤ longest) ∧
      (∃ op p, (e.dispatch 0 none op p).2.payload.length = longest) ∧
      ((∀ e' now limit op p, Reachable e e' →
        (e'.dispatch now limit op p).2.payload.length ≤ 2 ^ s.toNat) ↔ longest ≤ 2 ^ s.toNat) := by
  refine ⟨UInt8.ofNat e.mailbox.payloadMax.log2, h.toNat_shift, fun e' now hreach => ?_,
    fun e' now limit op p hreach => h.length_le hreach now limit op p, h.attained 0,
    fun hfits => ?_, fun hfits e' now limit op p hreach =>
      Nat.le_trans (h.length_le hreach now limit op p) hfits⟩
  · have hsame := hreach.sameTable
    obtain ⟨hlongest, hinfo, -⟩ := h.size_le
    have hroom : 18 ≤ e'.mailbox.room none := by
      rw [show e'.mailbox.room none = e'.mailbox.payloadMax from rfl, hsame.payloadMax]
      exact Nat.le_trans hinfo hlongest
    rw [dispatch_identify (hsame.knows h.knows_identify) hroom, hsame.payloadMax]
    exact ⟨_, rfl, ComponentInfo.getElem?_toPayload _⟩
  · obtain ⟨op, p, hlength⟩ := h.attained 0
    rw [← hlength]
    exact hfits e 0 none op p .new

/-- A new device with messages of 2048 bytes tells this size, and no response is longer. -/
theorem fits_advertised_newDevice :
    Built newDevice 2048 ∧
      (∃ info, (newDevice.dispatch 0 none .identify []).2 = ⟨.success, info⟩ ∧
        info[16]? = some 11) ∧
      ∀ e' now limit op p, Reachable newDevice e' →
        (e'.dispatch now limit op p).2.payload.length ≤ 2 ^ 11 := by
  have hbuilt : Built newDevice 2048 :=
    .memoryDevice {} ({} : MemoryConfig).memory newDevice rfl
  obtain ⟨s, hs, htold, -, -, hfits⟩ := fits_advertised_iff hbuilt
  obtain rfl : s = 11 := UInt8.toNat_inj.mp (hs.trans (show (2048).log2 = 11 by decide))
  exact ⟨hbuilt, htold newDevice 0 .new, hfits.mpr (Nat.le_refl _)⟩

/-- A new device with messages of 300 bytes. -/
def oddDevice : Endpoint := .memory (.ofCommands memoryCommands 300) .fresh

/-- It tells a shift of 8, but sends 300 bytes of its effects log. -/
theorem not_fits_advertised :
    ¬ ∀ (e : Endpoint) (longest : Nat) (info : Payload) (s : UInt8), Built e longest →
      (e.dispatch 0 none .identify []).2 = ⟨.success, info⟩ → info[16]? = some s →
      ∀ e' now limit op p, Reachable e e' →
        (e'.dispatch now limit op p).2.payload.length ≤ 2 ^ s.toNat := by
  intro h
  have hbuilt : Built oddDevice 300 :=
    .memoryDevice { payloadMax := 300 } ({} : MemoryConfig).memory oddDevice rfl
  have hidentify : oddDevice.mailbox.Knows .identify := rfl
  have hroom : 18 ≤ oddDevice.mailbox.room none := show 18 ≤ 300 by decide
  have htold : (oddDevice.dispatch 0 none .identify []).2 = _ :=
    congrArg Prod.snd (dispatch_identify hidentify hroom)
  have hshift := h oddDevice 300 _ 8 hbuilt htold (ComponentInfo.getElem?_toPayload _)
    oddDevice 0 none .getLog (logRequest 300) .new
  have hlength : (oddDevice.dispatch 0 none .getLog (logRequest 300)).2.payload.length = 300 :=
    length_dispatch_getLog rfl rfl (by decide)
  rw [hlength] at hshift
  exact absurd hshift (by decide)

end Endpoint

end CxlEndpoint
