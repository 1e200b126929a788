import CxlEndpoint.Endpoint.Dispatch

/-!
# Responses

What the checks on a reply make of it, whatever the command was.

* `settle_of_long`, `settle_of_done`, `settle_of_background`: the cases of `settle`.
* `length_dispatch_le`: no response is longer than the room there is for it, so none is longer than
  the requester's limit (`length_le_of_dispatch`).
* `sameTable_dispatch`: no request changes which commands there are or how long messages may be.
-/

namespace CxlEndpoint.Endpoint

variable {e : Endpoint} {c : Command} {now room : Nat} {reply : Reply}

theorem settle_of_long (h : room < reply.payload.length) :
    e.settle c now room reply = (e, .refusal .internalError) := by
  rw [settle, if_pos h]

theorem settle_of_done (h : reply.payload.length ≤ room) (hdone : reply.completion = .done) :
    e.settle c now room reply = (e, ⟨.success, reply.payload⟩) := by
  rw [settle, if_neg (Nat.not_lt.mpr h), hdone]

theorem settle_of_background {runtime : Nat} (h : reply.payload.length ≤ room)
    (hruns : reply.completion = .background runtime) (hc : c.runsInBackground = true) :
    e.settle c now room reply =
      (e.withMailbox { e.mailbox with background := .start c.opcode now runtime },
        ⟨.backgroundStarted, reply.payload⟩) := by
  rw [settle, if_neg (Nat.not_lt.mpr h), hruns]
  exact if_pos hc

theorem status_settle_of_done (hdone : reply.completion = .done) :
    (e.settle c now room reply).2.status = .success ∨
      (e.settle c now room reply).2.status = .internalError := by
  by_cases hlong : room < reply.payload.length
  · rw [settle_of_long hlong]
    exact Or.inr rfl
  · rw [settle_of_done (Nat.le_of_not_lt hlong) hdone]
    exact Or.inl rfl

theorem length_settle_le : (e.settle c now room reply).2.payload.length ≤ room := by
  unfold settle
  split
  · exact Nat.zero_le _
  next hfits =>
    have hle := Nat.le_of_not_lt hfits
    split
    · exact hle
    · split
      · exact hle
      · exact Nat.zero_le _

theorem length_conclude_le (result : Except Status (Endpoint × Reply)) :
    (e.conclude c now room result).2.payload.length ≤ room := by
  cases result with
  | error s => exact Nat.zero_le _
  | ok done => exact length_settle_le

theorem length_pass_le (t : TunnelRequest) (ask : Endpoint → Endpoint × Response) :
    (e.pass c now room t ask).2.payload.length ≤ room := by
  unfold pass
  split
  · split
    · exact Nat.zero_le _
    · dsimp only
      split
      · exact Nat.zero_le _
      · exact length_settle_le
  · exact Nat.zero_le _

theorem length_dispatch_le (e : Endpoint) (now : Nat) (limit : Option Nat) (op : Opcode)
    (p : Payload) :
    (e.dispatch now limit op p).2.payload.length ≤ e.mailbox.room limit := by
  cases haccept : e.mailbox.accept op p with
  | error s =>
    rw [dispatch_of_refused haccept]
    exact Nat.zero_le _
  | ok c =>
    cases haction : c.action with
    | extension run =>
      rw [dispatch_of_extension haccept haction]
      exact length_conclude_le _
    | standard command =>
      cases hrequest : Request.ofPayload command p with
      | error s =>
        rw [dispatch_of_unreadable haccept haction hrequest]
        exact Nat.zero_le _
      | ok request =>
        cases request with
        | direct request =>
          rw [dispatch_of_direct haccept haction hrequest]
          exact length_conclude_le _
        | tunnel t =>
          rw [dispatch_of_tunnel haccept haction hrequest]
          exact length_pass_le t _

theorem length_le_of_dispatch {e e' : Endpoint} {limit : Nat} {op : Opcode} {p : Payload}
    {response : Response} (h : e.dispatch now (some limit) op p = (e', response)) :
    response.payload.length ≤ limit := by
  have hle := length_dispatch_le e now (some limit) op p
  rw [h] at hle
  exact Nat.le_trans hle (Nat.min_le_left _ _)

/-! ## Commands and the size of messages -/

/-- `e'` has the commands of `e`, and messages of the same size. -/
structure SameTable (e e' : Endpoint) : Prop where
  commands : e'.mailbox.commands = e.mailbox.commands
  payloadMax : e'.mailbox.payloadMax = e.mailbox.payloadMax

variable {e' : Endpoint}

theorem SameTable.refl (e : Endpoint) : SameTable e e := ⟨rfl, rfl⟩

theorem SameTable.trans {e'' : Endpoint} (h : SameTable e e') (h' : SameTable e' e'') :
    SameTable e e'' :=
  ⟨h'.commands.trans h.commands, h'.payloadMax.trans h.payloadMax⟩

@[simp] theorem mailbox_withMailbox (e : Endpoint) (m : Mailbox) :
    (e.withMailbox m).mailbox = m := by
  cases e <;> rfl

theorem sameTable_withMailbox {m : Mailbox} (hcommands : m.commands = e.mailbox.commands)
    (hpayload : m.payloadMax = e.mailbox.payloadMax) : SameTable e (e.withMailbox m) := by
  constructor
  · rw [mailbox_withMailbox, hcommands]
  · rw [mailbox_withMailbox, hpayload]

theorem sameTable_settle (e : Endpoint) (c : Command) (now room : Nat) (reply : Reply) :
    SameTable e (e.settle c now room reply).1 := by
  unfold settle
  split
  · exact .refl e
  · split
    · exact .refl e
    · split
      · exact sameTable_withMailbox rfl rfl
      · exact .refl e

theorem sameTable_serve {request : DirectRequest} (h : e.serve now room request = .ok (e', reply)) :
    SameTable e e' := by
  cases request with
  | identify | backgroundStatus | getTimestamp | supportedLogs | securityState | nothing =>
    cases h
    exact .refl e
  | setTimestamp host =>
    cases h
    exact sameTable_withMailbox rfl rfl
  | getLog w =>
    simp only [serve] at h
    split at h <;> cases h
    exact .refl e
  | memory request =>
    simp only [serve] at h
    split at h
    · split at h <;> cases h
      exact ⟨rfl, rfl⟩
    · cases h
  | switch request =>
    cases request <;> simp only [serve] at h <;> split at h
    · cases h
      exact .refl _
    · cases h
    · split at h <;> cases h
      exact .refl _
    · cases h

theorem sameTable_conclude {result : Except Status (Endpoint × Reply)}
    (h : ∀ e' reply, result = .ok (e', reply) → SameTable e e') :
    SameTable e (e.conclude c now room result).1 := by
  cases result with
  | error s => exact .refl e
  | ok done => exact (h done.1 done.2 rfl).trans (sameTable_settle ..)

theorem sameTable_pass (e : Endpoint) (c : Command) (now room : Nat) (t : TunnelRequest)
    (ask : Endpoint → Endpoint × Response) : SameTable e (e.pass c now room t ask).1 := by
  unfold pass
  split
  next m card topology =>
    split
    · exact .refl _
    next topology' response _ =>
      have hbehind : SameTable (.switch m card topology) (.switch m card topology') := ⟨rfl, rfl⟩
      dsimp only
      split
      · exact hbehind
      · exact hbehind.trans (sameTable_settle ..)
  · exact .refl _

theorem sameTable_dispatch (e : Endpoint) (now : Nat) (limit : Option Nat) (op : Opcode)
    (p : Payload) : SameTable e (e.dispatch now limit op p).1 := by
  cases haccept : e.mailbox.accept op p with
  | error s =>
    rw [dispatch_of_refused haccept]
    exact .refl e
  | ok c =>
    cases haction : c.action with
    | extension run =>
      rw [dispatch_of_extension haccept haction]
      refine sameTable_conclude fun e' reply h => ?_
      cases hrun : run p with
      | error s =>
        rw [hrun] at h
        cases h
      | ok reply' =>
        rw [hrun] at h
        cases h
        exact .refl e
    | standard command =>
      cases hrequest : Request.ofPayload command p with
      | error s =>
        rw [dispatch_of_unreadable haccept haction hrequest]
        exact .refl e
      | ok request =>
        cases request with
        | direct request =>
          rw [dispatch_of_direct haccept haction hrequest]
          exact sameTable_conclude fun _ _ => sameTable_serve
        | tunnel t =>
          rw [dispatch_of_tunnel haccept haction hrequest]
          exact sameTable_pass ..

end CxlEndpoint.Endpoint
