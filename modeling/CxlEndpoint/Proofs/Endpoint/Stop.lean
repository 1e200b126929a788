import CxlEndpoint.Endpoint.Stop
import CxlEndpoint.Proofs.Endpoint.MemoryDevice
import CxlEndpoint.Proofs.Poison.LastLine

/-!
# When the program stops

* `MemoryDevice.stopsAt_iff`: a device gets through with everything but an injection at the last
  line with something poisoned.
* `Endpoint.stops_iff`: the requests that stop a memory device. `stops_injectPoison_iff` says it of
  an injection that is let through.
* `Endpoint.stopsOnTick_iff`: the looks at the clock that do.
-/

namespace CxlEndpoint

theorem MemoryDevice.stopsAt_iff {d : MemoryDevice} {request : MemoryRequest} :
    d.stopsAt request = true ↔
      ∃ address, request = .injectPoison address ∧ lastLine ≤ address ∧ d.poison.live ≠ [] := by
  cases request with
  | injectPoison address =>
    rw [stopsAt, Poison.Store.injectChecked_eq]
    split
    next hlast => simpa using hlast
    next hlast => simpa using hlast
  | sanitize => simp [stopsAt, sanitizeSyncSeconds_lt]
  | _ => simp [stopsAt]

namespace Endpoint

variable {m : Mailbox} {d : MemoryDevice} {op : Opcode} {p : Payload} {now : Nat}

/-- The address of an injection. -/
theorem ofPayload_injectPoison (hp : p.length = 8) :
    DirectRequest.ofPayload .injectPoison p = .ok (.memory (.injectPoison (ofLittleEndian p))) := by
  rw [DirectRequest.ofPayload, Payload.word, if_pos (by omega), List.drop_zero,
    List.take_of_length_le (Nat.le_of_eq hp)]
  rfl

/-- A memory device stops the program on what it is asked itself. -/
theorem stops_eq_true_iff :
    (memory m d).stops op p = true ↔ ∃ c command request, m.accept op p = .ok c ∧
      c.action = .standard command ∧
      Request.ofPayload command p = .ok (.direct (.memory request)) ∧
      d.stopsAt request = true := by
  rw [stops]
  constructor
  · intro h
    split at h
    · cases h
    next c haccept =>
      split at h
      · cases h
      next command hc =>
        split at h
        next request hread => exact ⟨c, command, request, haccept, hc, hread, h⟩
        · cases h
        · cases h
  · rintro ⟨c, command, request, haccept, hc, hread, hstops⟩
    have haccept' : (memory m d).mailbox.accept op p = .ok c := haccept
    rw [haccept']
    simp only [hc]
    split <;> simp_all [device?]

/-- **The one request that stops a memory device** is an injection at the last line with something
poisoned. Only a sanitize keeps it out. -/
theorem stops_iff (hcommands : m.HasMemoryCommands) (hknows : m.Knows .injectPoison) :
    (memory m d).stops op p = true ↔
      op = .injectPoison ∧ p.length = 8 ∧ m.background.opcode? ≠ some .sanitize ∧
        lastLine ≤ ofLittleEndian p ∧ d.poison.live ≠ [] := by
  have hmedia : (m.background.isRunningOp .sanitize = true → Opcode.injectPoison ∉ mediaCommands) ↔
      m.background.opcode? ≠ some .sanitize := by
    rw [Background.isRunningOp_iff]
    exact imp_congr_right fun _ => iff_of_false (not_not_intro (by decide)) not_false
  rw [stops_eq_true_iff]
  constructor
  · rintro ⟨c, command, request, haccept, hc, hread, hstops⟩
    obtain ⟨command', htunnel, rfl, rfl, -⟩ := hcommands.of_accept haccept
    obtain rfl : command' = command := by simpa [Command.standard] using hc
    obtain ⟨address, rfl, hlast⟩ := MemoryDevice.stopsAt_iff.mp hstops
    rw [Request.ofPayload, if_neg htunnel] at hread
    cases hdirect : DirectRequest.ofPayload command' p with
    | error status =>
      rw [hdirect] at hread
      cases hread
    | ok request =>
      rw [hdirect] at hread
      cases hread
      obtain rfl : command' = .injectPoison := eq_command_of_ofPayload hdirect
      obtain ⟨hp, -, hfree⟩ := hknows.accept_eq_ok_iff.mp haccept
      rw [ofPayload_injectPoison hp] at hdirect
      cases hdirect
      exact ⟨rfl, hp, hmedia.mp hfree, hlast⟩
  · rintro ⟨rfl, hp, hsanitize, hlast⟩
    have haccept : m.accept .injectPoison p = .ok (.standard .injectPoison) :=
      hknows.accept_of_foreground rfl hp (hmedia.mpr hsanitize)
    have hread : DirectRequest.ofPayload (MemoryRequest.injectPoison (ofLittleEndian p)).command p =
        .ok (.memory (.injectPoison (ofLittleEndian p))) := ofPayload_injectPoison hp
    exact ⟨_, _, _, haccept, rfl, ofPayload_of_direct hread,
      MemoryDevice.stopsAt_iff.mpr ⟨_, rfl, hlast⟩⟩

/-- An injection that is let through stops the program only at the last line. -/
theorem stops_injectPoison_iff (hcommands : m.HasMemoryCommands) (hknows : m.Knows .injectPoison)
    (hp : p.length = 8) (hmedia : m.background.opcode? ≠ some .sanitize) :
    (memory m d).stops .injectPoison p = true ↔
      lastLine ≤ ofLittleEndian p ∧ d.poison.live ≠ [] := by
  rw [stops_iff hcommands hknows, and_iff_right rfl, and_iff_right hp, and_iff_right hmedia]

/-- A sanitize that is over is counted, unless the count is at its greatest number. -/
theorem stopsOnTick_iff :
    (memory m d).stopsOnTick now = true ↔
      (memory m d).overAt? now = some .sanitize ∧ Word.last32 ≤ d.memory.sanitizeCount := by
  simp [stopsOnTick, device?, Memory.sanitizeChecked_eq_none_iff]

end Endpoint

end CxlEndpoint
