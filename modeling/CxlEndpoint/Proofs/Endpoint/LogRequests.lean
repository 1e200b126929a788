import CxlEndpoint.Proofs.Command.EffectsLog
import CxlEndpoint.Proofs.Endpoint.MemoryDevice

/-!
# Requests for the command effects log

* `Mailbox.Handles`: the mailbox carries out a command as the standard says.
* `logBytes`, `partRequest`: the bytes of the log, and the request for a part of them.
* `dispatch_getLog`, `dispatch_supportedLogs`: what the host gets for a part of the log, and for the
  list of logs.
-/

namespace CxlEndpoint

namespace Mailbox

variable {m : Mailbox} {command : StandardCommand} {p : Payload}

/-- The mailbox carries out the command as the standard says: at once, and for every payload of the
standard length. -/
def Handles (m : Mailbox) (command : StandardCommand) : Prop :=
  ∃ c, m.commands.find? command.opcode = some c ∧ c.action = .standard command ∧
    (∀ length, command.input.Accepts length → c.input.Accepts length) ∧ c.runsInBackground = false

theorem Knows.handles (h : m.Knows command)
    (hruns : (Command.standard command).runsInBackground = false) : m.Handles command :=
  ⟨.standard command, h, rfl, fun _ haccepts => haccepts, hruns⟩

theorem Handles.exists_accept (h : m.Handles command) (hp : command.input.Accepts p.length)
    (hmedia : m.background.opcode? ≠ some .sanitize) :
    ∃ c, m.accept command.opcode p = .ok c ∧ c.action = .standard command := by
  obtain ⟨c, hfind, haction, hinput, hruns⟩ := h
  refine ⟨c, accept_eq_ok_iff.mpr ⟨hfind, hinput _ hp, ?_, ?_⟩, haction⟩
  · intro hbackground
    rw [hruns] at hbackground
    cases hbackground
  · intro hsanitize
    exact absurd (Background.isRunningOp_iff.mp hsanitize) hmedia

end Mailbox

namespace Endpoint

variable {e : Endpoint} {now offset length : Nat} {limit : Option Nat}

/-- The bytes of the effects log. -/
def logBytes (e : Endpoint) : Payload := effectsLogPayload e.mailbox.commands.effectsLog

/-- The request for `length` bytes of the effects log from `offset` on. -/
def partRequest (offset length : Nat) : Payload :=
  LogWindow.request ⟨effectsLogUuid, offset, length⟩

theorem ofPayload_partRequest (hoffset : offset < 1 <<< 32) (hlength : length < 1 <<< 32) :
    Request.ofPayload .getLog (partRequest offset length) =
      .ok (.direct (.getLog ⟨effectsLogUuid, offset, length⟩)) := by
  have hwindow : LogWindow.ofPayload (partRequest offset length) =
      .ok ⟨effectsLogUuid, offset, length⟩ := LogWindow.ofPayload_request hoffset hlength
  rw [Request.ofPayload, if_neg (by decide), DirectRequest.ofPayload, hwindow]
  rfl

/-- A part of the log is told if it ends within the room for the response, and nothing changes. -/
theorem dispatch_getLog (hhandles : e.mailbox.Handles .getLog)
    (hmedia : e.mailbox.background.opcode? ≠ some .sanitize) (hoffset : offset < 1 <<< 32)
    (hlength : length < 1 <<< 32) :
    e.dispatch now limit .getLog (partRequest offset length) =
      if offset + length ≤ e.mailbox.room limit then
        (e, ⟨.success, Payload.fit length (e.logBytes.drop offset)⟩)
      else (e, .refusal .invalidInput) := by
  obtain ⟨c, haccept, haction⟩ := hhandles.exists_accept (LogWindow.length_request _) hmedia
  have hdispatch : e.dispatch now limit .getLog (partRequest offset length) = _ :=
    dispatch_of_direct haccept haction (ofPayload_partRequest hoffset hlength)
  rw [hdispatch]
  by_cases hfits : offset + length ≤ e.mailbox.room limit
  · have hpart : e.mailbox.logPart (e.mailbox.room limit) ⟨effectsLogUuid, offset, length⟩ =
        .ok (Payload.fit length (e.logBytes.drop offset)) := by
      rw [Mailbox.logPart, if_neg (Nat.not_lt.mpr hfits), if_neg (not_not_intro rfl)]
      rfl
    have hroom : (Payload.fit length (e.logBytes.drop offset)).length ≤ e.mailbox.room limit := by
      rw [Payload.length_fit]
      omega
    rw [if_pos hfits, serve, hpart]
    show e.settle c now (e.mailbox.room limit) _ = _
    exact settle_of_done hroom rfl
  · have hpart : e.mailbox.logPart (e.mailbox.room limit) ⟨effectsLogUuid, offset, length⟩ =
        .error .invalidInput := by
      rw [Mailbox.logPart, if_pos (Nat.lt_of_not_le hfits)]
    rw [if_neg hfits, serve, hpart]
    rfl

/-- The list of logs is told if there is room for it, and nothing changes. -/
theorem dispatch_supportedLogs (hhandles : e.mailbox.Handles .supportedLogs)
    (hmedia : e.mailbox.background.opcode? ≠ some .sanitize) :
    e.dispatch now limit .supportedLogs [] =
      if 28 ≤ e.mailbox.room limit then
        (e, ⟨.success, supportedLogsPayload (4 * e.mailbox.commands.effectsLog.length)⟩)
      else (e, .refusal .internalError) := by
  have hinput : StandardCommand.supportedLogs.input.Accepts ([] : Payload).length := rfl
  obtain ⟨c, haccept, haction⟩ := hhandles.exists_accept hinput hmedia
  have hread : Request.ofPayload .supportedLogs [] = .ok (.direct .supportedLogs) := rfl
  have hdispatch : e.dispatch now limit .supportedLogs [] = _ :=
    dispatch_of_direct haccept haction hread
  rw [hdispatch, serve, conclude]
  split
  next hfits => exact settle_of_done (by rw [length_supportedLogsPayload]; exact hfits) rfl
  next hfits =>
    refine settle_of_long ?_
    rw [length_supportedLogsPayload]
    exact Nat.lt_of_not_le hfits

end Endpoint

end CxlEndpoint
