import CxlEndpoint.Proofs.Command.PayloadLength
import CxlEndpoint.Proofs.Endpoint.ExtentList
import CxlEndpoint.Proofs.Endpoint.MessageSize

/-!
# Requests that are turned down for their length

* `status_settle_ne`, `status_conclude_ne`, `status_pass_ne`: what happens behind the reading of a
  payload is never answered with a length error.
* `Built.hasOnly`: an endpoint of any kind has standard commands only.
* `invalidPayloadLength_iff`: while nothing runs in the background, a request is turned down for its
  length exactly if the command does not take a payload of that length.
-/

namespace CxlEndpoint.Endpoint

variable {e e₀ : Endpoint} {longest now room : Nat} {limit : Option Nat} {op : Opcode}
  {p : Payload} {command : StandardCommand}

/-! ## Behind the reading of a payload -/

theorem status_settle_ne (e : Endpoint) (c : Command) (now room : Nat) (reply : Reply) :
    (e.settle c now room reply).2.status ≠ .invalidPayloadLength := by
  unfold settle
  split
  · exact nofun
  · split
    · exact nofun
    · split <;> exact nofun

theorem status_conclude_ne {result : Except Status (Endpoint × Reply)} (h : OnMerits result)
    (c : Command) : (e.conclude c now room result).2.status ≠ .invalidPayloadLength := by
  cases result with
  | error s => exact (onMerits_error_iff.mp h).2
  | ok served => exact status_settle_ne _ _ _ _ _

/-- Whatever the device below the port answers. -/
theorem status_pass_ne (e : Endpoint) (c : Command) (now room : Nat) (t : TunnelRequest)
    (ask : Endpoint → Endpoint × Response) :
    (e.pass c now room t ask).2.status ≠ .invalidPayloadLength := by
  cases e with
  | memory | identity =>
    show Status.unsupported ≠ .invalidPayloadLength
    decide
  | switch m card topology =>
    cases hrelay : topology.relay ask t.port with
    | none =>
      simp only [pass, hrelay]
      show Status.invalidInput ≠ .invalidPayloadLength
      decide
    | some relayed =>
      simp only [pass, hrelay]
      split
      · show Status.internalError ≠ .invalidPayloadLength
        decide
      · exact status_settle_ne _ _ _ _ _

/-! ## Standard commands -/

theorem Built.hasOnly (h : Built e longest) : ∃ commands, e.HasOnly commands := by
  cases h with
  | memoryDevice c m e h =>
    obtain ⟨m, d, rfl, hcommands, -⟩ := exists_memory h
    refine ⟨Mailbox.memoryStandard, fun command hcommand => ?_⟩
    have hmap : command ∈ Mailbox.memoryStandard.map Command.standard := hcommands command hcommand
    obtain ⟨standard, hmem, rfl⟩ := List.mem_map.mp hmap
    exact ⟨standard, hmem, rfl⟩
  | memoryMctp id => exact ⟨_, hasOnly_memoryMctp id⟩
  | switchManager c t e h =>
    have hswitch : switchWith ([StandardCommand.identify, .backgroundStatus, .getTimestamp,
      .setTimestamp, .supportedLogs, .getLog, .identifySwitch, .portStates, .tunnel].map .standard)
        c t = .ok e := h
    exact ⟨_, hasOnly_switchWith hswitch⟩
  | switchMctp c t e h => exact ⟨_, hasOnly_switchMctp h⟩

theorem status_of_misfit (hknows : e.mailbox.Knows command)
    (hidle : e.mailbox.background.isRunning = false) (h : command.Misfit p) :
    (e.dispatch now limit command.opcode p).2.status = .invalidPayloadLength := by
  -- a fixed length is checked before the command is reached, any other when the payload is read
  cases hinput : command.input with
  | fixed bytes =>
    have hlength : ¬ (Command.standard command).input.Accepts p.length := by
      show ¬ command.input.Accepts p.length
      rw [hinput]
      exact (StandardCommand.misfit_of_fixed hinput).mp h
    have haccept : e.mailbox.accept command.opcode p = .error .invalidPayloadLength := by
      rw [Mailbox.accept_of_idle hknows hidle, if_neg hlength]
    rw [dispatch_of_refused haccept]
    rfl
  | free =>
    have hlength : (Command.standard command).input.Accepts p.length := by
      show command.input.Accepts p.length
      rw [hinput]
      trivial
    rw [dispatch_of_unreadable (hknows.accept_of_idle hidle hlength) rfl
      (StandardCommand.ofPayload_of_misfit hinput h)]
    rfl

theorem status_ne_of_not_misfit (hknows : e.mailbox.Knows command)
    (hidle : e.mailbox.background.isRunning = false) (h : ¬ command.Misfit p) :
    (e.dispatch now limit command.opcode p).2.status ≠ .invalidPayloadLength := by
  have haccept : e.mailbox.accept command.opcode p = .ok (.standard command) :=
    hknows.accept_of_idle hidle (StandardCommand.accepts_of_not_misfit h)
  have hread := StandardCommand.onMerits_ofPayload h
  cases hrequest : Request.ofPayload command p with
  | error s =>
    rw [dispatch_of_unreadable haccept rfl hrequest]
    exact (hread s hrequest).2
  | ok request =>
    cases request with
    | direct request =>
      rw [dispatch_of_direct haccept rfl hrequest]
      exact status_conclude_ne (e.onMerits_serve now _ request) _
    | tunnel t =>
      rw [dispatch_of_tunnel haccept rfl hrequest]
      exact status_pass_ne _ _ _ _ _ _

/-- **Length errors are reported exactly for wrong lengths.** An endpoint of any kind that has kept
its own commands has standard commands only, and while nothing runs in the background it turns a
request down for its length exactly if the command does not take such a payload. A payload of a
right length has all the fields that are read off it. -/
theorem invalidPayloadLength_iff (h : Built e₀ longest)
    (htable : e.mailbox.commands = e₀.mailbox.commands)
    (hidle : e.mailbox.background.isRunning = false) (now : Nat) (limit : Option Nat) (op : Opcode)
    (p : Payload) :
    (∀ c, e.mailbox.commands.find? op = some c →
      ∃ command, c = .standard command ∧ command.opcode = op ∧
        ((e.dispatch now limit op p).2.status = .invalidPayloadLength ↔ command.Misfit p) ∧
        (¬ command.Misfit p → Request.ofPayload command p ≠ .error .invalidPayloadLength)) ∧
      (e.mailbox.commands.find? op = none → (e.dispatch now limit op p).2.status = .unsupported) ∧
      FieldsInside p := by
  refine ⟨fun c hfind => ?_, fun hfind => ?_, fieldsInside p⟩
  · obtain ⟨hmem, hop⟩ := CommandTable.of_find? hfind
    obtain ⟨commands, honly⟩ := h.hasOnly
    obtain ⟨command, -, rfl⟩ := honly c (htable ▸ hmem)
    obtain rfl : command.opcode = op := hop
    refine ⟨command, rfl, rfl, ⟨fun hstatus => ?_, status_of_misfit hfind hidle⟩, fun hfits hread =>
      (StandardCommand.onMerits_ofPayload hfits _ hread).2 rfl⟩
    by_contra hfits
    exact status_ne_of_not_misfit hfind hidle hfits hstatus
  · have hunknown : e.mailbox.accept op p = .error .unsupported := by
      rw [Mailbox.accept, hfind]
    rw [dispatch_of_refused hunknown]
    rfl

/-- The host gives back two ranges and names only the first of them. -/
def cutRelease : Payload :=
  littleEndian 4 2 ++ zeros 4 ++ littleEndian 8 0x40000000 ++ littleEndian 8 0x40000000 ++ zeros 8

theorem invalidPayloadLength_iff_mixed :
    Built mixedDevice 2048 ∧
      (mixedDevice.after mixedProvisions).mailbox.commands = mixedDevice.mailbox.commands ∧
      (mixedDevice.after mixedProvisions).mailbox.background.isRunning = false ∧
      ((mixedDevice.after mixedProvisions).dispatch 0 none .releaseCapacity cutRelease).2.status =
        .invalidPayloadLength ∧
      ((mixedDevice.after mixedProvisions).dispatch 0 none .identifySwitch []).2.status =
        .unsupported := by
  have hbuilt : Built mixedDevice 2048 := .memoryDevice _ _ _ memoryDevice_mixedConfig
  have htable := (sameTable_after mixedDevice mixedProvisions).commands
  have hidle : (mixedDevice.after mixedProvisions).mailbox.background.isRunning = false := by
    rw [after_mixedProvisions]
    rfl
  obtain ⟨hlaw, -, -⟩ :=
    invalidPayloadLength_iff hbuilt htable hidle 0 none .releaseCapacity cutRelease
  obtain ⟨-, hunknown, -⟩ := invalidPayloadLength_iff hbuilt htable hidle 0 none .identifySwitch []
  have hknows : (mixedDevice.after mixedProvisions).mailbox.Knows .releaseCapacity := by
    rw [after_mixedProvisions]
    rfl
  have hnone : (mixedDevice.after mixedProvisions).mailbox.commands.find? .identifySwitch =
      none := by
    rw [after_mixedProvisions]
    rfl
  obtain ⟨command, hcommand, -, hstatus, -⟩ := hlaw _ hknows
  obtain rfl := Action.standard.inj (congrArg Command.action hcommand)
  exact ⟨hbuilt, htable, hidle, hstatus.mpr (Or.inr (by decide)), hunknown hnone⟩

end CxlEndpoint.Endpoint
