import CxlEndpoint.Proofs.Command.Table
import CxlEndpoint.Proofs.Device.Service
import CxlEndpoint.Proofs.Endpoint.Refusal
import CxlEndpoint.Proofs.Endpoint.Response

/-!
# What a memory device answers

* `Mailbox.HasMemoryCommands`: the mailbox has commands of memory devices and no others, as that of
  every new memory device has (`exists_memory`).
* `Mailbox.Knows`: the mailbox has a command and carries it out as the standard says. Requests for
  it are let through under the conditions of `Knows.accept_eq_ok_iff`.
* `MemoryRequest.command`: the one command by which a request is made (`eq_command_of_ofPayload`).
* `Carries`: the device carries out a request. What comes of it is told by `Carries.dispatch_eq`,
  and `refuses_or_carries` says that otherwise nothing does.
* `Outcome`: an answer of a memory device to a request and the device after it, with the command
  that was accepted and what was read from the payload. `outcome_dispatch` says that there are no
  others. `Answers` is the same without the request.
* `unchanged_of_refused`: a request that is turned down changes nothing.
-/

namespace CxlEndpoint

/-! ## Commands of memory devices -/

namespace Mailbox

variable {m : Mailbox} {op : Opcode} {p : Payload} {c : Command}

/-- The mailbox has commands of memory devices and no others. -/
def HasMemoryCommands (m : Mailbox) : Prop :=
  ∀ c ∈ m.commands, c ∈ memoryCommands ++ capacityCommands

theorem hasMemoryCommands_ofCommands {commands : List Command} {payloadMax : Nat}
    (h : ∀ c ∈ commands, c ∈ memoryCommands ++ capacityCommands) :
    (ofCommands commands payloadMax).HasMemoryCommands := by
  intro c hc
  rcases CommandTable.mem_of_mem_merge hc with hnil | hc
  · cases hnil
  · exact h c hc

theorem ordered_ofCommands (commands : List Command) (payloadMax : Nat) :
    (ofCommands commands payloadMax).commands.Ordered :=
  CommandTable.Ordered.merge List.Pairwise.nil commands

/-- The standard commands of a memory device. -/
def memoryStandard : List StandardCommand :=
  [.identify, .backgroundStatus, .getEventRecords, .clearEventRecords, .getInterruptPolicy,
    .setInterruptPolicy, .firmwareInfo, .getTimestamp, .setTimestamp, .supportedLogs, .getLog,
    .identifyMemory, .partitionInfo, .getLabels, .setLabels, .getPoisonList, .injectPoison,
    .clearPoison, .scanCapabilities, .scanMedia, .scanResults, .sanitize, .securityState,
    .capacityConfig, .extentList, .addCapacity, .releaseCapacity]

/-- All of them are standard commands, and none passes requests on. -/
theorem HasMemoryCommands.standard (h : m.HasMemoryCommands) (hc : c ∈ m.commands) :
    ∃ command, command ≠ .tunnel ∧ c = .standard command := by
  have hmap : c ∈ memoryStandard.map Command.standard := h c hc
  obtain ⟨command, hmem, rfl⟩ := List.mem_map.mp hmap
  have htunnel : StandardCommand.tunnel ∉ memoryStandard := by decide
  exact ⟨command, fun heq => htunnel (heq ▸ hmem), rfl⟩

/-- The mailbox has the command, to be carried out as the standard says. -/
def Knows (m : Mailbox) (command : StandardCommand) : Prop :=
  m.commands.find? command.opcode = some (.standard command)

/-- The commands of a memory device, without or with those for dynamic capacity. -/
def DeviceCommands (commands : List Command) : Prop :=
  commands = memoryCommands ∨ commands = memoryCommands ++ capacityCommands

theorem knows_ofCommands {commands : List Command} (h : DeviceCommands commands)
    {command : StandardCommand} (hcommand : command.opcode ∈ memoryCommands.map (·.opcode))
    (payloadMax : Nat) : (ofCommands commands payloadMax).Knows command := by
  revert hcommand
  rcases h with rfl | rfl <;> cases command <;>
    first
    | exact fun _ => rfl
    | exact fun hcommand => absurd hcommand (by decide)

/-- When a request reaches a command. -/
theorem accept_eq_ok_iff :
    m.accept op p = .ok c ↔
      m.commands.find? op = some c ∧ c.input.Accepts p.length ∧
        (c.runsInBackground = true → m.background.isRunning = false) ∧
        (m.background.isRunningOp .sanitize = true → op ∉ mediaCommands) := by
  unfold accept
  cases m.commands.find? op with
  | none => simp
  | some command =>
    dsimp only
    split
    next hlength =>
      refine ⟨nofun, ?_⟩
      rintro ⟨hfind, hinput, -⟩
      cases hfind
      exact absurd hinput hlength
    next hlength =>
      split
      next hbusy =>
        refine ⟨nofun, ?_⟩
        rintro ⟨hfind, -, hidle, -⟩
        cases hfind
        exact absurd (hidle hbusy.1) (by simp [hbusy.2])
      next hbusy =>
        split
        next hmedia => exact ⟨nofun, fun h => absurd hmedia.2 (h.2.2.2 hmedia.1)⟩
        next hmedia =>
          constructor
          · intro h
            cases h
            refine ⟨rfl, Decidable.not_not.mp hlength, fun hruns => ?_, fun hsanitize hop => ?_⟩
            · simpa [hruns] using hbusy
            · exact hmedia ⟨hsanitize, hop⟩
          · rintro ⟨hfind, -⟩
            rw [Option.some.inj hfind]

/-- While nothing runs in the background, only the length of the payload is checked. -/
theorem accept_of_idle (hfind : m.commands.find? op = some c)
    (hidle : m.background.isRunning = false) :
    m.accept op p =
      if c.input.Accepts p.length then .ok c else .error .invalidPayloadLength := by
  rw [accept, hfind]
  simp [hidle, Background.isRunningOp_of_idle hidle]

/-- A command that the mailbox has is reached by every request that is let through. -/
theorem Knows.accept_eq_ok_iff {command : StandardCommand} (h : m.Knows command) :
    m.accept command.opcode p = .ok (.standard command) ↔
      command.input.Accepts p.length ∧
        ((Command.standard command).runsInBackground = true → m.background.isRunning = false) ∧
        (m.background.isRunningOp .sanitize = true → command.opcode ∉ mediaCommands) := by
  rw [Mailbox.accept_eq_ok_iff]
  exact and_iff_right h

/-- What does not run on in the background is kept out by a sanitize at most. -/
theorem Knows.accept_of_foreground {command : StandardCommand} (h : m.Knows command)
    (hruns : (Command.standard command).runsInBackground = false)
    (hinput : command.input.Accepts p.length)
    (hmedia : m.background.isRunningOp .sanitize = true → command.opcode ∉ mediaCommands) :
    m.accept command.opcode p = .ok (.standard command) :=
  h.accept_eq_ok_iff.mpr ⟨hinput, by simp [hruns], hmedia⟩

/-- While nothing runs in the background, every payload of a right length is let through. -/
theorem Knows.accept_of_idle {command : StandardCommand} (h : m.Knows command)
    (hidle : m.background.isRunning = false) (hinput : command.input.Accepts p.length) :
    m.accept command.opcode p = .ok (.standard command) := by
  rw [Mailbox.accept_of_idle h hidle]
  exact if_pos hinput

theorem Knows.eq_of_accept {command : StandardCommand} (h : m.Knows command)
    (hc : m.accept command.opcode p = .ok c) : c = .standard command :=
  Option.some.inj ((Mailbox.accept_eq_ok_iff.mp hc).1.symm.trans h)

theorem HasMemoryCommands.of_accept (h : m.HasMemoryCommands) (hc : m.accept op p = .ok c) :
    ∃ command, command ≠ .tunnel ∧ c = .standard command ∧ command.opcode = op ∧
      (c.runsInBackground = true → m.background.isRunning = false) := by
  obtain ⟨hfind, -, hidle, -⟩ := accept_eq_ok_iff.mp hc
  obtain ⟨hmem, hop⟩ := CommandTable.of_find? hfind
  obtain ⟨command, htunnel, rfl⟩ := h.standard hmem
  exact ⟨command, htunnel, rfl, hop, hidle⟩

end Mailbox

/-! ## The command of a request -/

/-- The command by which the host makes a request of a memory device. -/
def MemoryRequest.command : MemoryRequest → StandardCommand
  | eventRecords _ => .getEventRecords
  | clearEvents _ => .clearEventRecords
  | interruptPolicy => .getInterruptPolicy
  | setInterruptPolicy _ => .setInterruptPolicy
  | firmware => .firmwareInfo
  | identify => .identifyMemory
  | partition => .partitionInfo
  | getLabels _ => .getLabels
  | setLabels _ => .setLabels
  | poisonList _ => .getPoisonList
  | injectPoison _ => .injectPoison
  | clearPoison _ _ => .clearPoison
  | scanCapabilities _ => .scanCapabilities
  | scan _ => .scanMedia
  | scanResults => .scanResults
  | sanitize => .sanitize
  | regions _ => .capacityConfig
  | extents _ => .extentList
  | addCapacity _ => .addCapacity
  | releaseCapacity _ => .releaseCapacity

theorem MemoryRequest.command_ne_tunnel (request : MemoryRequest) : request.command ≠ .tunnel := by
  cases request <;> exact nofun

section Command

variable {α β : Type} {x : Except Status α} {command : StandardCommand} {p : Payload}
  {request : MemoryRequest}

theorem exists_of_map {f : α → β} {b : β} (h : x.map f = .ok b) : ∃ a, f a = b := by
  cases x with
  | error s => cases h
  | ok a => exact ⟨a, Except.ok.inj h⟩

theorem exists_of_bind {f : α → Except Status β} {b : β} (h : x >>= f = .ok b) :
    ∃ a, f a = .ok b := by
  cases x with
  | error s => cases h
  | ok a => exact ⟨a, h⟩

/-- No request is made by another command. -/
theorem eq_command_of_ofPayload
    (h : DirectRequest.ofPayload command p = .ok (.memory request)) :
    command = request.command := by
  cases command with
  | setLabels =>
    simp only [DirectRequest.ofPayload] at h
    split at h
    · cases h
    · obtain ⟨_, ha⟩ := exists_of_map h
      cases ha
      rfl
  | clearPoison =>
    obtain ⟨_, h⟩ := exists_of_bind h
    obtain ⟨_, h⟩ := exists_of_bind h
    cases h
    rfl
  | getEventRecords | clearEventRecords | setInterruptPolicy | getLabels | getPoisonList
  | injectPoison | scanCapabilities | scanMedia | capacityConfig | extentList | addCapacity
  | releaseCapacity =>
    obtain ⟨_, ha⟩ := exists_of_map h
    cases ha
    rfl
  | setTimestamp | getLog | portStates =>
    obtain ⟨_, ha⟩ := exists_of_map h
    cases ha
  | getInterruptPolicy | firmwareInfo | identifyMemory | partitionInfo | scanResults | sanitize =>
    cases h
    rfl
  | identify | backgroundStatus | getTimestamp | supportedLogs | securityState | identifySwitch
  | tunnel => cases h

/-- A scan or a sanitize is asked for by a command that may run on in the background. -/
theorem runsInBackground_command (h : request = .sanitize ∨ ∃ r, request = .scan r) :
    (Command.standard request.command).runsInBackground = true := by
  have hscan : (Command.standard .scanMedia).runsInBackground = true := by decide
  rcases h with rfl | ⟨r, rfl⟩
  · decide
  · exact hscan

end Command

/-! ## Answers -/

namespace Endpoint

/-- A new memory device has the regions of its layout, commands for them if there are any, and no
history. -/
theorem exists_layout_of_memoryDevice {c : MemoryConfig} {memory : Memory} {e : Endpoint}
    (h : memoryDevice c memory = .ok e) :
    ∃ regions, c.layout memory.staticCapacity = .ok regions ∧
      Ledger.ofRegions regions = .ok { regions } ∧
      e = .memory
        (.ofCommands
          (if regions.isEmpty then memoryCommands else memoryCommands ++ capacityCommands)
          c.payloadMax)
        { identity := c.identity, memory, ledger := { regions } } := by
  unfold memoryDevice at h
  split at h
  · cases h
  next regions hlayout =>
    split at h
    · cases h
    next ledger hledger =>
      cases h
      obtain ⟨rfl, -⟩ := Ledger.ofRegions_eq_ok hledger
      exact ⟨regions, hlayout, hledger, rfl⟩

/-- A memory device can be made of every layout that a ledger accepts. -/
theorem memoryDevice_of_layout {c : MemoryConfig} {media : Memory} {regions : RegionTable}
    (hlayout : c.layout media.staticCapacity = .ok regions)
    (hledger : Ledger.ofRegions regions = .ok { regions }) :
    memoryDevice c media = .ok (.memory
      (.ofCommands
        (if regions.isEmpty then memoryCommands else memoryCommands ++ capacityCommands)
        c.payloadMax)
      { identity := c.identity, memory := media, ledger := { regions } }) := by
  unfold memoryDevice
  simp only [hlayout, hledger]

/-- A new memory device has been checked, has the commands of one, and no history. -/
theorem memoryDevice_eq_ok {c : MemoryConfig} {memory : Memory} {e : Endpoint}
    (h : memoryDevice c memory = .ok e) :
    ∃ commands ledger, Mailbox.DeviceCommands commands ∧ c.check = .ok () ∧
      e = .memory (.ofCommands commands c.payloadMax)
        { identity := c.identity, memory, ledger } := by
  obtain ⟨regions, hlayout, -, rfl⟩ := exists_layout_of_memoryDevice h
  refine ⟨_, _, ?_, (MemoryConfig.layout_eq_ok hlayout).1, rfl⟩
  split
  · exact Or.inl rfl
  · exact Or.inr rfl

theorem payloadMax_of_check {size : Nat} (h : checkPayloadMax size = .ok ()) :
    256 ≤ size ∧ size ≤ mebibyte := by
  unfold checkPayloadMax at h
  split at h
  next hsize => exact hsize
  · cases h

theorem payloadMax_of_memoryDevice {c : MemoryConfig} {memory : Memory} {e : Endpoint}
    (h : memoryDevice c memory = .ok e) :
    (256 ≤ c.payloadMax ∧ c.payloadMax ≤ mebibyte) ∧ e.mailbox.payloadMax = c.payloadMax ∧
      e.mailbox.background = .idle := by
  obtain ⟨commands, ledger, -, hcheck, rfl⟩ := memoryDevice_eq_ok h
  refine ⟨?_, rfl, rfl⟩
  unfold MemoryConfig.check at hcheck
  split at hcheck
  · cases hcheck
  next hsize => exact payloadMax_of_check hsize

theorem exists_memory {c : MemoryConfig} {memory : Memory} {e : Endpoint}
    (h : memoryDevice c memory = .ok e) :
    ∃ m d, e = .memory m d ∧ m.HasMemoryCommands ∧ m.background = .idle ∧ d.memory = memory ∧
      d.poison = .empty := by
  obtain ⟨commands, ledger, hcommands, -, rfl⟩ := memoryDevice_eq_ok h
  refine ⟨_, _, rfl, Mailbox.hasMemoryCommands_ofCommands fun c hc => ?_, rfl, rfl, rfl⟩
  rcases hcommands with rfl | rfl
  · exact List.mem_append_left _ hc
  · exact hc

/-- A request for `op` with the payload `p` asks for `request`. The device carries it out, becomes
`d'` and replies `reply`. -/
structure Carries (m : Mailbox) (d : MemoryDevice) (now room : Nat) (op : Opcode) (p : Payload)
    (request : MemoryRequest) (d' : MemoryDevice) (reply : Reply) : Prop where
  opcode : request.command.opcode = op
  accepted : m.accept op p = .ok (.standard request.command)
  read : DirectRequest.ofPayload request.command p = .ok (.memory request)
  served : d.serve (m.conditions now room) request = .ok (d', reply)

/-- `Outcome m d now room op p e response`: a memory device with mailbox `m` and state `d` answers
the request for `op` with the payload `p` by `response` and becomes `e`. -/
inductive Outcome (m : Mailbox) (d : MemoryDevice) (now room : Nat) (op : Opcode) (p : Payload) :
    Endpoint → Response → Prop
  | refused (s : Status) (h : s.accepted = false) :
    Outcome m d now room op p (memory m d) (.refusal s)
  /-- The endpoint tells something of its mailbox. -/
  | told (payload : Payload) : Outcome m d now room op p (memory m d) ⟨.success, payload⟩
  | timeSet (host : Timestamp) :
    Outcome m d now room op p (memory { m with hostTime := .set host now } d) ⟨.success, []⟩
  | served (request : MemoryRequest) (d' : MemoryDevice) (reply : Reply)
    (h : Carries m d now room op p request d' reply) (hdone : reply.completion = .done) :
    Outcome m d now room op p (memory m d') ⟨.success, reply.payload⟩
  /-- A scan or a sanitize has been started. -/
  | started (request : MemoryRequest) (d' : MemoryDevice) (runtime : Nat)
    (h : Carries m d now room op p request d' { completion := .background runtime })
    (hidle : m.background.isRunning = false) :
    Outcome m d now room op p (memory { m with background := .start op now runtime } d')
      ⟨.backgroundStarted, []⟩

variable {m : Mailbox} {d d' : MemoryDevice} {now room : Nat} {op : Opcode} {p : Payload}
  {command : StandardCommand} {request : MemoryRequest} {reply : Reply}

/-- The device itself carries out the request. -/
theorem dispatch_of_serve {limit : Option Nat} {p : Payload} {c : Command} {request : MemoryRequest}
    {d' : MemoryDevice} {reply : Reply} (haccept : m.accept op p = .ok c)
    (hc : c.action = .standard command)
    (hread : Request.ofPayload command p = .ok (.direct (.memory request)))
    (hserve : d.serve (m.conditions now (m.room limit)) request = .ok (d', reply)) :
    (memory m d).dispatch now limit op p =
      (memory m d').settle c now (m.room limit) reply := by
  have haccept' : (memory m d).mailbox.accept op p = .ok c := haccept
  rw [dispatch_of_direct haccept' hc hread]
  simp only [serve, mailbox, hserve, conclude]

/-- The device itself turns the request down. -/
theorem dispatch_of_serve_error {limit : Option Nat} {p : Payload} {c : Command}
    {request : MemoryRequest} {s : Status} (haccept : m.accept op p = .ok c)
    (hc : c.action = .standard command)
    (hread : Request.ofPayload command p = .ok (.direct (.memory request)))
    (hserve : d.serve (m.conditions now (m.room limit)) request = .error s) :
    (memory m d).dispatch now limit op p = (memory m d, .refusal s) := by
  have haccept' : (memory m d).mailbox.accept op p = .ok c := haccept
  rw [dispatch_of_direct haccept' hc hread]
  simp only [serve, mailbox, hserve, conclude]

theorem ofPayload_of_direct
    (h : DirectRequest.ofPayload request.command p = .ok (.memory request)) :
    Request.ofPayload request.command p = .ok (.direct (.memory request)) := by
  rw [Request.ofPayload, if_neg request.command_ne_tunnel, h]
  rfl

theorem Carries.dispatch_eq {limit : Option Nat}
    (h : Carries m d now (m.room limit) op p request d' reply) :
    (memory m d).dispatch now limit op p =
      (memory m d').settle (.standard request.command) now (m.room limit) reply :=
  dispatch_of_serve h.accepted rfl (ofPayload_of_direct h.read) h.served

theorem Carries.dispatch_of_fits {limit : Option Nat}
    (h : Carries m d now (m.room limit) op p request d' reply) (hdone : reply.completion = .done)
    (hfits : reply.payload.length ≤ m.room limit) :
    (memory m d).dispatch now limit op p = (memory m d', ⟨.success, reply.payload⟩) :=
  h.dispatch_eq.trans (settle_of_done hfits hdone)

theorem Carries.dispatch_of_success {limit : Option Nat}
    (h : Carries m d now (m.room limit) op p request d' reply) (hdone : reply.completion = .done)
    (hsuccess : ((memory m d).dispatch now limit op p).2.status = .success) :
    (memory m d).dispatch now limit op p = (memory m d', ⟨.success, reply.payload⟩) := by
  by_cases hlong : m.room limit < reply.payload.length
  · rw [h.dispatch_eq, settle_of_long hlong] at hsuccess
    cases hsuccess
  · exact h.dispatch_of_fits hdone (Nat.le_of_not_lt hlong)

/-- A request that is accepted has reached a command. -/
theorem exists_accept {e : Endpoint} {limit : Option Nat}
    (h : (e.dispatch now limit op p).2.status.accepted = true) :
    ∃ c, e.mailbox.accept op p = .ok c := by
  cases haccept : e.mailbox.accept op p with
  | error s =>
    have hrefused := e.mailbox.candid_accept op p s haccept
    rw [dispatch_of_refused haccept] at h
    rw [show s.accepted = true from h] at hrefused
    cases hrefused
  | ok c => exact ⟨c, rfl⟩

theorem exists_accept_of_success {e : Endpoint} {limit : Option Nat}
    (h : (e.dispatch now limit op p).2.status = .success) : ∃ c, e.mailbox.accept op p = .ok c :=
  exists_accept (congrArg Status.accepted h)

/-- A request that reaches the device is turned down or carried out. -/
theorem refuses_or_carries (d : MemoryDevice) (now : Nat) (limit : Option Nat)
    (request : MemoryRequest)
    (haccept : m.accept request.command.opcode p = .ok (.standard request.command))
    (hread : DirectRequest.ofPayload request.command p = .ok (.memory request)) :
    (∃ s, d.serve (m.conditions now (m.room limit)) request = .error s ∧ s.accepted = false ∧
      (memory m d).dispatch now limit request.command.opcode p = (memory m d, .refusal s)) ∨
    ∃ d' reply, Carries m d now (m.room limit) request.command.opcode p request d' reply := by
  cases hserve : d.serve (m.conditions now (m.room limit)) request with
  | error s =>
    exact Or.inl ⟨s, rfl, d.candid_serve _ request s hserve,
      dispatch_of_serve_error haccept rfl (ofPayload_of_direct hread) hserve⟩
  | ok served => exact Or.inr ⟨served.1, served.2, rfl, haccept, hread, hserve⟩

theorem outcome_settle_told (payload : Payload) (c : Command) :
    Outcome m d now room op p ((memory m d).settle c now room { payload }).1
      ((memory m d).settle c now room { payload }).2 := by
  by_cases hlong : room < payload.length
  · rw [settle_of_long hlong]
    exact .refused _ rfl
  · rw [settle_of_done (Nat.le_of_not_lt hlong) rfl]
    exact .told payload

theorem Carries.outcome (h : Carries m d now room op p request d' reply) :
    Outcome m d now room op p
      ((memory m d').settle (.standard request.command) now room reply).1
      ((memory m d').settle (.standard request.command) now room reply).2 := by
  have hserves := MemoryDevice.serves_of_serve h.served
  by_cases hlong : room < reply.payload.length
  · rw [settle_of_long hlong, hserves.unchanged_of_long hlong]
    exact .refused _ rfl
  · have hfits := Nat.le_of_not_lt hlong
    cases hcompletion : reply.completion with
    | done =>
      rw [settle_of_done hfits hcompletion]
      exact .served request d' reply h hcompletion
    | background runtime =>
      obtain ⟨hrequest, hempty, -⟩ := hserves.of_background hcompletion
      have hruns := runsInBackground_command hrequest
      have hidle := (Mailbox.accept_eq_ok_iff.mp h.accepted).2.2.1 hruns
      have hopcode : (Command.standard request.command).opcode = op := h.opcode
      obtain ⟨payload, completion⟩ := reply
      obtain rfl : payload = [] := hempty
      obtain rfl : completion = .background runtime := hcompletion
      rw [settle_of_background hfits rfl hruns, hopcode]
      exact .started request d' runtime h hidle

theorem outcome_conclude_refused {s : Status} (h : s.accepted = false) (c : Command) :
    Outcome m d now room op p ((memory m d).conclude c now room (.error s)).1
      ((memory m d).conclude c now room (.error s)).2 :=
  .refused s h

/-- What a memory device itself does for a command of its mailbox. -/
theorem outcome_conclude_serve {request : DirectRequest}
    (haccept : m.accept op p = .ok (.standard command)) (hop : command.opcode = op)
    (hread : DirectRequest.ofPayload command p = .ok request) :
    Outcome m d now room op p
      ((memory m d).conclude (.standard command) now room ((memory m d).serve now room request)).1
      ((memory m d).conclude (.standard command) now room
        ((memory m d).serve now room request)).2 := by
  cases request with
  | identify | backgroundStatus | getTimestamp | supportedLogs | securityState | nothing =>
    exact outcome_settle_told _ (.standard command)
  | setTimestamp host =>
    simp only [serve, conclude]
    rw [settle_of_done (Nat.zero_le room) rfl]
    exact .timeSet host
  | getLog w =>
    have hcandid := m.candid_logPart room w
    simp only [serve]
    split
    · exact outcome_settle_told _ (.standard command)
    · next s hs => exact outcome_conclude_refused (hcandid s hs) (.standard command)
  | memory request =>
    have hcandid := d.candid_serve (m.conditions now room) request
    simp only [serve]
    cases hserve : d.serve (m.conditions now room) request with
    | error s => exact outcome_conclude_refused (hcandid s hserve) _
    | ok served =>
      obtain rfl := eq_command_of_ofPayload hread
      exact Carries.outcome ⟨hop, haccept, hread, hserve⟩
  | switch request => cases request <;> exact outcome_conclude_refused rfl _

/-- A memory device answers in no other way. -/
theorem outcome_dispatch (h : m.HasMemoryCommands) (d : MemoryDevice) (now : Nat)
    (limit : Option Nat) (op : Opcode) (p : Payload) :
    Outcome m d now (m.room limit) op p ((memory m d).dispatch now limit op p).1
      ((memory m d).dispatch now limit op p).2 := by
  cases haccept : (memory m d).mailbox.accept op p with
  | error s =>
    rw [dispatch_of_refused haccept]
    exact .refused s (m.candid_accept op p s haccept)
  | ok c =>
    obtain ⟨command, htunnel, rfl, hop, -⟩ := h.of_accept haccept
    have hrequest : Request.ofPayload command p =
        (DirectRequest.ofPayload command p).map .direct := by
      rw [Request.ofPayload, if_neg htunnel]
    cases hread : DirectRequest.ofPayload command p with
    | error s =>
      rw [hread] at hrequest
      rw [dispatch_of_unreadable haccept rfl hrequest]
      exact .refused s (candid_direct p command s hread)
    | ok request =>
      rw [hread] at hrequest
      rw [dispatch_of_direct haccept rfl hrequest]
      exact outcome_conclude_serve haccept hop hread

theorem Outcome.exists_memory {e : Endpoint} {response : Response}
    (h : Outcome m d now room op p e response) : ∃ m' d', e = memory m' d' := by
  cases h <;> exact ⟨_, _, rfl⟩

theorem exists_outcome (h : m.HasMemoryCommands) (d : MemoryDevice) (now : Nat)
    (limit : Option Nat) (op : Opcode) (p : Payload) :
    ∃ m' d' response, (memory m d).dispatch now limit op p = (memory m' d', response) ∧
      Outcome m d now (m.room limit) op p (memory m' d') response := by
  have houtcome := outcome_dispatch h d now limit op p
  obtain ⟨m', d', hmemory⟩ := houtcome.exists_memory
  rw [hmemory] at houtcome
  exact ⟨m', d', _, Prod.ext hmemory rfl, houtcome⟩

/-- `Answers m d now room op e response`: a memory device with mailbox `m` and state `d` may answer
a request for `op` by `response` and become `e`. -/
inductive Answers (m : Mailbox) (d : MemoryDevice) (now room : Nat) (op : Opcode) :
    Endpoint → Response → Prop
  | refused (s : Status) (h : s.accepted = false) :
    Answers m d now room op (memory m d) (.refusal s)
  /-- The endpoint tells something of itself. -/
  | told (payload : Payload) : Answers m d now room op (memory m d) ⟨.success, payload⟩
  | timeSet (host : Timestamp) :
    Answers m d now room op (memory { m with hostTime := .set host now } d) ⟨.success, []⟩
  | served (request : MemoryRequest) (d' : MemoryDevice) (reply : Reply)
    (h : d.Serves (m.conditions now room) request d' reply) (hdone : reply.completion = .done) :
    Answers m d now room op (memory m d') ⟨.success, reply.payload⟩
  /-- A scan or a sanitize has been started. -/
  | started (request : MemoryRequest) (d' : MemoryDevice) (runtime : Nat)
    (h : d.Serves (m.conditions now room) request d' { completion := .background runtime })
    (hidle : m.background.isRunning = false) :
    Answers m d now room op (memory { m with background := .start op now runtime } d')
      ⟨.backgroundStarted, []⟩

theorem answers_dispatch (h : m.HasMemoryCommands) (d : MemoryDevice) (now : Nat)
    (limit : Option Nat) (op : Opcode) (p : Payload) :
    Answers m d now (m.room limit) op ((memory m d).dispatch now limit op p).1
      ((memory m d).dispatch now limit op p).2 := by
  have houtcome := outcome_dispatch h d now limit op p
  generalize (memory m d).dispatch now limit op p = answer at *
  obtain ⟨e, response⟩ := answer
  cases houtcome with
  | refused s hs => exact .refused s hs
  | told payload => exact .told payload
  | timeSet host => exact .timeSet host
  | served request d' reply hcarries hdone =>
    exact .served request d' reply (MemoryDevice.serves_of_serve hcarries.served) hdone
  | started request d' runtime hcarries hidle =>
    exact .started request d' runtime (MemoryDevice.serves_of_serve hcarries.served) hidle

/-- **A memory device that turns a request down is as it was**, whatever the request and however
little room there was for the response. -/
theorem unchanged_of_refused (h : m.HasMemoryCommands) (d : MemoryDevice) (now : Nat)
    (limit : Option Nat) (op : Opcode) (p : Payload)
    (hsuccess : ((memory m d).dispatch now limit op p).2.status ≠ .success)
    (hstarted : ((memory m d).dispatch now limit op p).2.status ≠ .backgroundStarted) :
    ((memory m d).dispatch now limit op p).2.payload = [] ∧
      ((memory m d).dispatch now limit op p).1 = memory m d := by
  have hanswers := answers_dispatch h d now limit op p
  generalize (memory m d).dispatch now limit op p = answer at *
  obtain ⟨e, response⟩ := answer
  cases hanswers with
  | refused s => exact ⟨rfl, rfl⟩
  | told | timeSet | served => exact absurd rfl hsuccess
  | started => exact absurd rfl hstarted

/-- A memory device with a scan behind it, of which the host has not fetched the results. -/
def scannedEndpoint : Endpoint := memory (.ofCommands memoryCommands 2048) (.scanned 3)

theorem unchanged_of_refused_results :
    (scannedEndpoint.dispatch 0 (some 8) .scanResults []).2.status = .internalError ∧
      (scannedEndpoint.dispatch 0 (some 8) .scanResults []).2.payload = [] ∧
      (scannedEndpoint.dispatch 0 (some 8) .scanResults []).1 = scannedEndpoint := by
  have hcommands : (Mailbox.ofCommands memoryCommands 2048).HasMemoryCommands :=
    Mailbox.hasMemoryCommands_ofCommands fun c hc => List.mem_append_left _ hc
  have hstatus :
      (scannedEndpoint.dispatch 0 (some 8) .scanResults []).2.status = .internalError := by
    have hread : Request.ofPayload .scanResults [] = .ok (.direct (.memory .scanResults)) := rfl
    rw [scannedEndpoint, dispatch_of_serve (c := .standard .scanResults) rfl rfl hread
      (MemoryDevice.serve_scanResults rfl)]
    rfl
  refine ⟨hstatus, unchanged_of_refused hcommands _ 0 (some 8) .scanResults [] ?_ ?_⟩
  · exact hstatus ▸ by decide
  · exact hstatus ▸ by decide

end Endpoint

end CxlEndpoint
