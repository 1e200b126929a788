import CxlEndpoint.Proofs.Endpoint.History

/-!
# The poison of a device in the course of a history

The poison list has a history of its own, made of what the host and the device do to it.

* `MemoryDevice.poisonOp?`: what a request does to the list if it is carried out
  (`MemoryDevice.poison_of_serve`).
* `carriedOut?`: the request that a memory device has accepted, and so carried out
  (`exists_carries_of_carriedOut?`).
* `poisonOp?`, `poisonOps`: what an operation of an endpoint does to the list, and what a history
  of them has done. `poison_step`, `poison_after`: nothing else changes the list.
* `completes_poisonOps`: scans are completed exactly by the looks at the clock that end one.
-/

namespace CxlEndpoint

/-- The operation completes a scan. -/
def Poison.Op.completes : Poison.Op → Bool
  | .completeScan => true
  | _ => false

namespace MemoryDevice

variable {d d' : MemoryDevice} {c : Conditions} {request : MemoryRequest} {reply : Reply}

/-- What a request does to the poison list if it is carried out. -/
def poisonOp? (c : Conditions) : MemoryRequest → Option Poison.Op
  | .injectPoison address => some (.inject address c.scanning)
  | .clearPoison address _ => some (.clear (lineStart address) c.scanning c.time)
  | .scan r => some (.beginScan r.start (r.lines * lineBytes) c.time)
  | .scanResults => some (.takeResults (Poison.recordLimit c.room))
  | _ => none

theorem scanLength_eq_ok {r : Poison.Range} {length : Nat} (h : d.scanLength r = .ok length) :
    length = r.lines * lineBytes := by
  unfold scanLength at h
  dsimp only at h
  split at h
  · cases h
  · split at h <;> cases h
    rfl

/-- Nothing else that is done on request touches the list. -/
theorem poison_of_serve (h : d.serve c request = .ok (d', reply)) :
    d'.poison = (poisonOp? c request).elim d.poison d.poison.step := by
  cases request with
  | injectPoison address =>
    simp only [serve] at h
    split at h
    next poison hpoison =>
      cases h
      show poison = (d.poison.inject? address c.scanning).getD d.poison
      rw [hpoison]
      rfl
    · cases h
  | clearPoison address data =>
    obtain ⟨memory, -, rfl, -⟩ := serve_clearPoison_eq_ok h
    rfl
  | scan r =>
    simp only [serve] at h
    split at h
    next length hlength =>
      cases h
      rw [scanLength_eq_ok hlength]
      rfl
    · cases h
  | scanResults =>
    simp only [serve] at h
    split at h <;> cases h
    rfl
  | _ => cases serves_of_serve h <;> rfl

theorem completes_poisonOp? {op : Poison.Op} (h : poisonOp? c request = some op) :
    op.completes = false := by
  cases request <;> cases h <;> rfl

end MemoryDevice

namespace Endpoint

variable {m m' : Mailbox} {d d' : MemoryDevice} {now : Nat} {limit : Option Nat} {op : Opcode}
  {p : Payload} {request : MemoryRequest} {reply : Reply} {response : Response} {e : Endpoint}

/-- The request that a memory device is asked for and accepts. -/
def carriedOut? (e : Endpoint) (now : Nat) (limit : Option Nat) (op : Opcode) (p : Payload) :
    Option MemoryRequest :=
  match e.mailbox.accept op p with
  | .error _ => none
  | .ok c =>
    match c.action with
    | .extension _ => none
    | .standard command =>
      match DirectRequest.ofPayload command p with
      | .ok (.memory request) =>
        if (e.dispatch now limit op p).2.status.accepted then some request else none
      | _ => none

/-- What an operation does to the poison list. -/
def poisonOp? (e : Endpoint) : Op → Option Poison.Op
  | .request now limit op p =>
    (e.carriedOut? now limit op p).bind
      (MemoryDevice.poisonOp? (e.mailbox.conditions now (e.mailbox.room limit)))
  | .tick now => if e.overAt? now = some .scanMedia then some .completeScan else none
  | .mediaError now start length kind =>
    some (.mediaError start length kind (e.mailbox.hostTime.now now))
  | .event .. | .provision _ => none

/-- What has been done to the poison list in the course of `past`, the latest first. -/
def poisonOps (e : Endpoint) : List Op → List Poison.Op
  | [] => []
  | op :: past => ((e.after past).poisonOp? op).toList ++ e.poisonOps past

/-! ## Requests -/

theorem Carries.carriedOut?_eq (h : Carries m d now (m.room limit) op p request d' reply)
    (haccepted : ((memory m d).dispatch now limit op p).2.status.accepted = true) :
    (memory m d).carriedOut? now limit op p = some request := by
  have haccept : (memory m d).mailbox.accept op p = .ok (.standard request.command) := h.accepted
  rw [carriedOut?, haccept]
  simp only [Command.standard, h.read, if_pos haccepted]

/-- The device has carried out what it is said to have. -/
theorem exists_carries_of_carriedOut? (hcommands : m.HasMemoryCommands)
    (h : (memory m d).carriedOut? now limit op p = some request) :
    ∃ d' reply, Carries m d now (m.room limit) op p request d' reply := by
  unfold carriedOut? at h
  split at h
  · cases h
  next c haccept =>
    obtain ⟨command, -, rfl, rfl, -⟩ := hcommands.of_accept haccept
    simp only [Command.standard] at h
    split at h
    next request' hread =>
      obtain rfl := eq_command_of_ofPayload hread
      split at h
      next haccepted =>
        cases h
        rcases refuses_or_carries (m := m) d now limit request haccept hread with
          ⟨s, -, hs, hrefused⟩ | hcarries
        · rw [hrefused, show (Response.refusal s).status = s from rfl, hs] at haccepted
          cases haccepted
        · exact hcarries
      · cases h
    · cases h

/-- What the checks on a reply do to an endpoint leaves its device alone. -/
theorem exists_settle (m : Mailbox) (d : MemoryDevice) (c : Command) (now room : Nat)
    (reply : Reply) : ∃ m', ((memory m d).settle c now room reply).1 = memory m' d := by
  unfold settle
  split
  · exact ⟨m, rfl⟩
  · split
    · exact ⟨m, rfl⟩
    · split
      · exact ⟨_, rfl⟩
      · exact ⟨m, rfl⟩

theorem poison_dispatch (hcommands : m.HasMemoryCommands)
    (h : (memory m d).dispatch now limit op p = (memory m' d', response)) :
    d'.poison = ((memory m d).poisonOp? (.request now limit op p)).elim d.poison
      d.poison.step := by
  simp only [poisonOp?]
  cases hcarried : (memory m d).carriedOut? now limit op p with
  | some request =>
    obtain ⟨d₁, reply, hcarries⟩ := exists_carries_of_carriedOut? hcommands hcarried
    obtain ⟨m₁, hsettled⟩ := exists_settle m d₁ (.standard request.command) now (m.room limit) reply
    rw [hcarries.dispatch_eq] at h
    rw [h] at hsettled
    cases hsettled
    exact MemoryDevice.poison_of_serve hcarries.served
  | none =>
    have houtcome := outcome_dispatch hcommands d now limit op p
    rw [h] at houtcome
    have hnothing {request : MemoryRequest} {reply : Reply}
        (hcarries : Carries m d now (m.room limit) op p request d' reply)
        (haccepted : response.status.accepted = true) : d'.poison = d.poison := by
      have hsome := hcarries.carriedOut?_eq (by rw [h]; exact haccepted)
      rw [hcarried] at hsome
      cases hsome
    cases houtcome with
    | refused | told | timeSet => rfl
    | served request d' reply hcarries => exact hnothing hcarries rfl
    | started request d' runtime hcarries => exact hnothing hcarries rfl

/-! ## Histories -/

theorem poison_tick (h : (memory m d).tick now = memory m' d') :
    d'.poison = ((memory m d).poisonOp? (.tick now)).elim d.poison d.poison.step := by
  simp only [poisonOp?]
  cases hover : (memory m d).overAt? now with
  | none =>
    obtain ⟨background, htick⟩ := tick_of_overAt?_eq_none hover
    rw [h] at htick
    cases htick
    rfl
  | some op =>
    have htick : (memory m d).tick now = _ := tick_of_overAt? hover
    rw [h] at htick
    cases htick
    rw [MemoryDevice.poison_finish]
    by_cases hscan : op = .scanMedia
    · simp only [hscan, if_true]
      rfl
    · rw [if_neg hscan, if_neg (fun heq => hscan (Option.some.inj heq))]
      rfl

/-- Nothing else changes the list. -/
theorem poison_step (hcommands : m.HasMemoryCommands) {op : Op}
    (h : (memory m d).step op = memory m' d') :
    d'.poison = ((memory m d).poisonOp? op).elim d.poison d.poison.step := by
  cases op with
  | request now limit op p => exact poison_dispatch hcommands (Prod.ext h rfl)
  | tick now => exact poison_tick h
  | mediaError | event =>
    cases h
    rfl
  | provision extent =>
    obtain ⟨m₁, d₁, hafter, hsteps⟩ := steps_step hcommands d (.provision extent)
    rw [h] at hafter
    cases hafter
    cases hsteps <;> rfl

theorem poison_cons {op : Op} {past : List Op} (hcommands : m.HasMemoryCommands)
    (hreached : e.after past = memory m d) (hpoison : d.poison = .after (e.poisonOps past))
    (hafter : e.after (op :: past) = memory m' d') :
    d'.poison = .after (e.poisonOps (op :: past)) := by
  rw [after, hreached] at hafter
  rw [poison_step hcommands hafter, hpoison, poisonOps, hreached]
  cases (memory m d).poisonOp? op <;> rfl

/-- The list of a device is what its history has made of it. -/
theorem poison_after (hcommands : m.HasMemoryCommands) (hempty : d.poison = .empty)
    (past : List Op) :
    ∃ m' d', (memory m d).after past = memory m' d' ∧ m'.HasMemoryCommands ∧
      d'.poison = .after ((memory m d).poisonOps past) := by
  induction past with
  | nil => exact ⟨m, d, rfl, hcommands, hempty⟩
  | cons op past ih =>
    obtain ⟨m₁, d₁, hreached, hcommands₁, hpoison⟩ := ih
    obtain ⟨m', d', hstep, hsteps⟩ := steps_step hcommands₁ d₁ op
    have hafter : (memory m d).after (op :: past) = memory m' d' := by rw [after, hreached, hstep]
    exact ⟨m', d', hafter, hsteps.hasMemoryCommands hcommands₁,
      poison_cons hcommands₁ hreached hpoison hafter⟩

theorem completes_poisonOp? (e : Endpoint) (op : Op) :
    (e.poisonOp? op).toList.countP (·.completes) = (e.endedBy? op).toList.count .scanMedia := by
  cases op with
  | request now limit op p =>
    simp only [poisonOp?]
    cases hop : (e.carriedOut? now limit op p).bind
      (MemoryDevice.poisonOp? (e.mailbox.conditions now (e.mailbox.room limit))) with
    | none => rfl
    | some op =>
      obtain ⟨request, -, hrequest⟩ := Option.bind_eq_some_iff.mp hop
      exact List.countP_cons_of_neg (by simp [MemoryDevice.completes_poisonOp? hrequest])
  | tick now =>
    simp only [poisonOp?, endedBy?]
    cases e.overAt? now with
    | none => rfl
    | some op => by_cases hscan : op = .scanMedia <;> simp [hscan, Poison.Op.completes]
  | mediaError | event | provision => rfl

/-- The list takes in a scan for each one that ends, and no other. -/
theorem completes_poisonOps (e : Endpoint) (past : List Op) :
    (e.poisonOps past).countP (·.completes) = (e.ended past).count .scanMedia := by
  induction past with
  | nil => rfl
  | cons op past ih =>
    rw [poisonOps, ended, List.countP_append, List.count_append, ih, completes_poisonOp?,
      Nat.add_comm]

end Endpoint

end CxlEndpoint
