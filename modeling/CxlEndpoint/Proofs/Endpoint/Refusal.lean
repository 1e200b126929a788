import CxlEndpoint.Endpoint.Dispatch

/-!
# Refusals

A request that is turned down is told so: nothing that turns a request down does it with the status
of a success or of a command that runs on in the background.

* `Candid`: a computation that is turned down only with such a status. `OnMerits`: nor is it turned
  down for the length of a payload.
* `candid_direct`, `candid_accept`: reading a request, and finding the command for it.
* `MemoryDevice.onMerits_serve`, `Endpoint.onMerits_serve`: carrying it out.
-/

namespace CxlEndpoint

/-- If the computation is turned down, the status says so. -/
def Candid {α : Type} (x : Except Status α) : Prop := ∀ s, x = .error s → s.accepted = false

/-- If the computation is turned down, the status says so, and it is not the one for a payload of
the wrong length. -/
def OnMerits {α : Type} (x : Except Status α) : Prop :=
  ∀ s, x = .error s → s.accepted = false ∧ s ≠ .invalidPayloadLength

section Statuses

variable {α β : Type} {x : Except Status α} {f : α → Except Status β} {s : Status}
  {P : Status → Prop}

theorem refused_map (g : α → β) (h : ∀ s, x = .error s → P s) : ∀ s, x.map g = .error s → P s := by
  cases x with
  | error s =>
    intro t ht
    cases ht
    exact h s rfl
  | ok a => exact nofun

theorem refused_bind (h : ∀ s, x = .error s → P s) (hf : ∀ a s, f a = .error s → P s) :
    ∀ s, x >>= f = .error s → P s := by
  cases x with
  | error s =>
    intro t ht
    cases ht
    exact h s rfl
  | ok a => exact hf a

@[simp] theorem candid_ok (a : α) : Candid (.ok a : Except Status α) := nofun

@[simp] theorem candid_pure (a : α) : Candid (pure a : Except Status α) := nofun

@[simp] theorem candid_error_iff : Candid (.error s : Except Status α) ↔ s.accepted = false :=
  ⟨fun h => h s rfl, fun h _ hs => Except.error.inj hs ▸ h⟩

@[simp] theorem candid_throw_iff : Candid (throw s : Except Status α) ↔ s.accepted = false :=
  candid_error_iff

theorem Candid.map (g : α → β) (h : Candid x) : Candid (x.map g) := refused_map g h

theorem Candid.bind (h : Candid x) (hf : ∀ a, Candid (f a)) : Candid (x >>= f) := refused_bind h hf

theorem Candid.rethrow (h : Candid x) (hs : x = .error s) : Candid (.error s : Except Status β) :=
  candid_error_iff.mpr (h s hs)

@[simp] theorem onMerits_ok (a : α) : OnMerits (.ok a : Except Status α) := nofun

@[simp] theorem onMerits_pure (a : α) : OnMerits (pure a : Except Status α) := nofun

@[simp] theorem onMerits_error_iff :
    OnMerits (.error s : Except Status α) ↔ s.accepted = false ∧ s ≠ .invalidPayloadLength :=
  ⟨fun h => h s rfl, fun h _ hs => Except.error.inj hs ▸ h⟩

@[simp] theorem onMerits_throw_iff :
    OnMerits (throw s : Except Status α) ↔ s.accepted = false ∧ s ≠ .invalidPayloadLength :=
  onMerits_error_iff

theorem OnMerits.candid (h : OnMerits x) : Candid x := fun s hs => (h s hs).1

theorem OnMerits.map (g : α → β) (h : OnMerits x) : OnMerits (x.map g) := refused_map g h

theorem OnMerits.bind (h : OnMerits x) (hf : ∀ a, OnMerits (f a)) : OnMerits (x >>= f) :=
  refused_bind h hf

theorem OnMerits.rethrow (h : OnMerits x) (hs : x = .error s) :
    OnMerits (.error s : Except Status β) :=
  onMerits_error_iff.mpr (h s hs)

end Statuses

/-! ## Reading requests -/

section Readers

variable (p : Payload)

theorem candid_word (offset width : Nat) : Candid (p.word offset width) := by
  unfold Payload.word
  split <;> simp [Status.accepted]

theorem candid_bytes (offset n : Nat) : Candid (p.bytes offset n) := by
  unfold Payload.bytes
  dsimp only
  split <;> simp [Status.accepted]

theorem onMerits_kind (b : UInt8) : OnMerits (EventLog.Kind.ofByte b) := by
  unfold EventLog.Kind.ofByte
  split <;> simp [Status.accepted]

theorem candid_kind (b : UInt8) : Candid (EventLog.Kind.ofByte b) := (onMerits_kind b).candid

theorem candid_clearance : Candid (EventClearance.ofPayload p) := by
  unfold EventClearance.ofPayload
  split
  · next log _ _ _ _ _ _ =>
    dsimp only
    split
    · simp [Status.accepted]
    · have hlog := candid_kind log
      split
      · next hs => exact hlog.rethrow hs
      · exact candid_ok _
  · simp [Status.accepted]

theorem candid_interruptSettings : Candid (interruptSettingsOf p) := by
  unfold interruptSettingsOf
  split <;> simp [Status.accepted]

theorem candid_labelWrite : Candid (LabelWrite.ofPayload p) := by
  unfold LabelWrite.ofPayload
  split <;> simp [Status.accepted]

theorem candid_range : Candid (Poison.Range.ofPayload p) :=
  (candid_word p 0 8).bind fun _ => (candid_word p 8 8).bind fun _ => candid_pure _

theorem candid_alignedRange : Candid (Poison.Range.alignedOfPayload p) := by
  refine (candid_range p).bind fun range => ?_
  split <;> simp [Status.accepted]

theorem candid_batch : Candid (AddressRange.batchOfPayload p) := by
  unfold AddressRange.batchOfPayload
  dsimp only
  split
  · simp [Status.accepted]
  · split <;> simp [Status.accepted]

theorem candid_portList : Candid (portListOfPayload p) := by
  unfold portListOfPayload
  split
  · split <;> simp [Status.accepted]
  · simp [Status.accepted]

theorem onMerits_tunnelledMessage (port targetType : UInt8) :
    OnMerits (TunnelRequest.ofMessage port targetType p) := by
  unfold TunnelRequest.ofMessage
  split
  · dsimp only
    split
    · simp [Status.accepted]
    · split <;> simp [Status.accepted]
  · simp [Status.accepted]

theorem onMerits_tunnelled : OnMerits (TunnelRequest.ofPayload p) := by
  unfold TunnelRequest.ofPayload
  split
  · dsimp only
    split
    · simp [Status.accepted]
    · exact onMerits_tunnelledMessage _ _ _
  · simp [Status.accepted]

theorem candid_direct (command : StandardCommand) : Candid (DirectRequest.ofPayload command p) := by
  cases command with
  | getEventRecords => exact ((candid_word p 0 1).bind fun _ => candid_kind _).map _
  | clearEventRecords => exact (candid_clearance p).map _
  | setInterruptPolicy => exact (candid_interruptSettings p).map _
  | setTimestamp | injectPoison => exact (candid_word p 0 8).map _
  | getLog =>
    exact Candid.map _ ((candid_bytes p 0 16).bind fun _ => (candid_word p 16 4).bind fun _ =>
      (candid_word p 20 4).bind fun _ => candid_pure _)
  | getLabels =>
    exact Candid.map _ ((candid_word p 0 4).bind fun _ => (candid_word p 4 4).bind fun _ =>
      candid_pure _)
  | setLabels =>
    simp only [DirectRequest.ofPayload]
    split
    · exact candid_ok _
    · exact (candid_labelWrite p).map _
  | getPoisonList => exact (candid_alignedRange p).map _
  | clearPoison =>
    exact (candid_word p 0 8).bind fun _ => (candid_bytes p 8 lineBytes).bind fun _ => candid_pure _
  | scanCapabilities | scanMedia => exact (candid_range p).map _
  | capacityConfig =>
    exact Candid.map _ ((candid_word p 0 1).bind fun _ => (candid_word p 1 1).bind fun _ =>
      candid_pure _)
  | extentList =>
    exact Candid.map _ ((candid_word p 0 4).bind fun _ => (candid_word p 4 4).bind fun _ =>
      candid_pure _)
  | addCapacity | releaseCapacity => exact (candid_batch p).map _
  | portStates => exact (candid_portList p).map _
  | tunnel => exact candid_error_iff.mpr rfl
  | identify | backgroundStatus | getInterruptPolicy | firmwareInfo | getTimestamp | supportedLogs
  | identifyMemory | partitionInfo | scanResults | sanitize | securityState | identifySwitch =>
    exact candid_ok _

end Readers

/-! ## Carrying out requests -/

theorem Refusal.onMerits_status (refusal : Refusal) :
    refusal.status.accepted = false ∧ refusal.status ≠ .invalidPayloadLength := by
  cases refusal <;> decide

namespace MemoryDevice

variable (d : MemoryDevice) (c : Conditions)

theorem onMerits_scanLength (r : Poison.Range) : OnMerits (d.scanLength r) := by
  unfold scanLength
  dsimp only
  split
  · simp [Status.accepted]
  · split <;> simp [Status.accepted]

theorem onMerits_clearPoison (address : Nat) (data : CacheLine) :
    OnMerits (d.clearPoison c address data) := by
  unfold clearPoison
  dsimp only
  split
  · simp [Status.accepted]
  · split <;> simp [Status.accepted]

theorem onMerits_withLedger (changed : Except Refusal Ledger) :
    OnMerits (d.withLedger changed) := by
  cases changed with
  | error refusal => exact onMerits_error_iff.mpr refusal.onMerits_status
  | ok ledger => exact onMerits_ok _

theorem onMerits_serve (request : MemoryRequest) : OnMerits (d.serve c request) := by
  cases request with
  | eventRecords | interruptPolicy | setInterruptPolicy | poisonList => exact onMerits_ok _
  | sanitize =>
    simp only [serve]
    split <;> exact onMerits_ok _
  | clearEvents clearance =>
    obtain ⟨log, _ | handles⟩ := clearance
    · exact onMerits_ok _
    · simp only [serve]
      split <;> simp [Status.accepted]
  | clearPoison address data =>
    have hclear := d.onMerits_clearPoison c address data
    simp only [serve]
    split
    · exact onMerits_ok _
    · next hs => exact hclear.rethrow hs
  | scanCapabilities r | scan r =>
    have hlength := d.onMerits_scanLength r
    simp only [serve]
    split
    · exact onMerits_ok _
    · next hs => exact hlength.rethrow hs
  | addCapacity batch =>
    have hledger := d.onMerits_withLedger (d.ledger.add batch)
    simp only [serve]
    split
    · exact onMerits_ok _
    · next hs => exact hledger.rethrow hs
  | releaseCapacity batch =>
    have hledger := d.onMerits_withLedger (d.ledger.release batch)
    simp only [serve]
    split
    · exact onMerits_ok _
    · next hs => exact hledger.rethrow hs
  | firmware | identify | partition | getLabels | setLabels | injectPoison | scanResults | regions
  | extents =>
    simp only [serve]
    split <;> simp [Status.accepted]

theorem candid_serve (request : MemoryRequest) : Candid (d.serve c request) :=
  (d.onMerits_serve c request).candid

end MemoryDevice

theorem Mailbox.candid_accept (m : Mailbox) (op : Opcode) (p : Payload) :
    Candid (m.accept op p) := by
  unfold accept
  split
  · simp [Status.accepted]
  · split
    · simp [Status.accepted]
    · split
      · simp [Status.accepted]
      · split <;> simp [Status.accepted]

theorem Mailbox.onMerits_logPart (m : Mailbox) (room : Nat) (w : LogWindow) :
    OnMerits (m.logPart room w) := by
  unfold logPart
  split
  · simp [Status.accepted]
  · split <;> simp [Status.accepted]

theorem Mailbox.candid_logPart (m : Mailbox) (room : Nat) (w : LogWindow) :
    Candid (m.logPart room w) :=
  (m.onMerits_logPart room w).candid

theorem Endpoint.onMerits_serve (e : Endpoint) (now room : Nat) (request : DirectRequest) :
    OnMerits (e.serve now room request) := by
  cases request with
  | identify | backgroundStatus | getTimestamp | setTimestamp | supportedLogs | securityState
  | nothing => exact onMerits_ok _
  | getLog w =>
    have hpart := e.mailbox.onMerits_logPart room w
    simp only [serve]
    split
    · exact onMerits_ok _
    · next hs => exact hpart.rethrow hs
  | memory request =>
    simp only [serve]
    split
    next m d =>
      have hserve := d.onMerits_serve (m.conditions now room) request
      split
      · exact onMerits_ok _
      · next hs => exact hserve.rethrow hs
    · simp [Status.accepted]
  | switch request =>
    cases request <;> simp only [serve] <;> split
    · exact onMerits_ok _
    · simp [Status.accepted]
    · split <;> simp [Status.accepted]
    · simp [Status.accepted]

end CxlEndpoint
