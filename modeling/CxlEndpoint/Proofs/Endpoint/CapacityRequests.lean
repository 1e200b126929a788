import CxlEndpoint.Proofs.Command.PayloadLength
import CxlEndpoint.Proofs.Endpoint.ExtentList

/-!
# Requests that change the extents

* `dispatch_change`: a request to accept or to give back capacity is the change of the ledger that
  it asks for, whatever is running in the background.
* `dispatch_of_missing`: a batch that does not have all the ranges that it promises changes nothing.
* `changes_of_batches`: what a memory device with regions makes of every batch that the host writes.
-/

namespace CxlEndpoint.Endpoint

variable {m : Mailbox} {d : MemoryDevice} {c : MemoryConfig} {media : Memory} {e₀ : Endpoint}
  {command : StandardCommand} {request : MemoryRequest} {change : Ledger.Op} {p : Payload}

/-- Neither runs on in the background, and neither needs the media. -/
theorem accept_change (hknows : m.Knows command)
    (hcommand : command = .addCapacity ∨ command = .releaseCapacity) :
    m.accept command.opcode p = .ok (.standard command) := by
  rcases hcommand with rfl | rfl <;>
    exact hknows.accept_of_foreground rfl trivial fun _ => by decide

theorem dispatch_change (hknows : m.Knows request.command)
    (hchange : change.request? = some request)
    (hread : DirectRequest.ofPayload request.command p = .ok (.memory request)) (now : Nat)
    (limit : Option Nat) :
    (memory m d).dispatch now limit request.command.opcode p =
      answered m d (d.ledger.attempt change) := by
  have hcommand : request.command = .addCapacity ∨ request.command = .releaseCapacity := by
    cases change with
    | add batch =>
      obtain rfl := Option.some.inj hchange
      exact Or.inl rfl
    | release batch =>
      obtain rfl := Option.some.inj hchange
      exact Or.inr rfl
    | provision e => cases hchange
  have haccept : (memory m d).mailbox.accept request.command.opcode p =
      .ok (.standard request.command) := accept_change hknows hcommand
  rw [dispatch_of_direct haccept rfl (ofPayload_of_direct hread)]
  exact conclude_attempt hchange m _ now _

theorem dispatch_of_missing (hknows : m.Knows command)
    (hcommand : command = .addCapacity ∨ command = .releaseCapacity)
    (h : p.length < 8 + 24 * ofLittleEndian (p.take 4)) (now : Nat) (limit : Option Nat) :
    (memory m d).dispatch now limit command.opcode p =
      (memory m d, .refusal .invalidPayloadLength) := by
  have haccept : (memory m d).mailbox.accept command.opcode p = .ok (.standard command) :=
    accept_change hknows hcommand
  have hread : Request.ofPayload command p = .error .invalidPayloadLength := by
    rcases hcommand with rfl | rfl <;>
      exact StandardCommand.ofPayload_of_misfit rfl (Or.inr h)
  exact dispatch_of_unreadable haccept rfl hread

/-- **The batch that the host writes is the batch that the ledger gets.** A memory device with
regions, in whatever state it is, takes a request to accept or to give back capacity for the change
of its ledger by the ranges that stand in it, whatever the host has put into the bytes that say
nothing. A request that promises more ranges than it has is turned down for its length. -/
theorem changes_of_batches (hnew : memoryDevice c media = .ok e₀) (hregions : c.regions ≠ [])
    (htable : m.commands = e₀.mailbox.commands) (d : MemoryDevice) (now : Nat)
    (limit : Option Nat) :
    (∀ message : BatchMessage,
      (memory m d).dispatch now limit .addCapacity message.toPayload =
          answered m d (d.ledger.add message.ranges) ∧
        (memory m d).dispatch now limit .releaseCapacity message.toPayload =
          answered m d (d.ledger.release message.ranges)) ∧
      ∀ p : Payload, p.length < 8 + 24 * ofLittleEndian (p.take 4) →
        (memory m d).dispatch now limit .addCapacity p =
            (memory m d, .refusal .invalidPayloadLength) ∧
          (memory m d).dispatch now limit .releaseCapacity p =
            (memory m d, .refusal .invalidPayloadLength) := by
  rw [mailbox_of_regions hnew hregions] at htable
  have hadd : m.Knows .addCapacity := by
    rw [Mailbox.Knows, htable]
    rfl
  have hrelease : m.Knows .releaseCapacity := by
    rw [Mailbox.Knows, htable]
    rfl
  refine ⟨fun message => ?_, fun p hp => ⟨dispatch_of_missing hadd (Or.inl rfl) hp now limit,
    dispatch_of_missing hrelease (Or.inr rfl) hp now limit⟩⟩
  have hbatch := message.batchOfPayload_toPayload
  have hreadAdd : DirectRequest.ofPayload .addCapacity message.toPayload =
      .ok (.memory (.addCapacity message.ranges)) := by
    rw [DirectRequest.ofPayload, hbatch]
    rfl
  have hreadRelease : DirectRequest.ofPayload .releaseCapacity message.toPayload =
      .ok (.memory (.releaseCapacity message.ranges)) := by
    rw [DirectRequest.ofPayload, hbatch]
    rfl
  have haccept : (Ledger.Op.add message.ranges).request? = some (.addCapacity message.ranges) := rfl
  have hreturn : (Ledger.Op.release message.ranges).request? =
      some (.releaseCapacity message.ranges) := rfl
  exact ⟨dispatch_change hadd haccept hreadAdd now limit,
    dispatch_change hrelease hreturn hreadRelease now limit⟩

/-- Two ranges of the second region, with something in all the bytes that say nothing. -/
def noisyBatch : BatchMessage where
  reserved := Vector.replicate 4 255
  entries := [⟨0x94000000, 0x800000, Vector.replicate 8 7⟩,
    ⟨0x90800000, 0x400000, Vector.replicate 8 9⟩]
  trailing := [1, 2, 3]
  few := by decide

theorem changes_of_batches_noisy :
    memoryDevice mixedConfig mixedConfig.memory = .ok mixedDevice ∧ mixedConfig.regions ≠ [] ∧
      ∃ m d, mixedDevice.after mixedProvisions = memory m d ∧
        m.commands = mixedDevice.mailbox.commands ∧
        (∃ ledger, ledger.extents = d.ledger.extents ++ noisyBatch.ranges.map .untagged ∧
          (memory m d).dispatch 0 none .addCapacity noisyBatch.toPayload =
            (memory m { d with ledger }, ⟨.success, []⟩)) ∧
        (memory m d).dispatch 0 none .releaseCapacity noisyBatch.toPayload =
          (memory m d, .refusal .invalidPhysicalAddress) ∧
        -- the second range is cut off
        (memory m d).dispatch 0 none .addCapacity (noisyBatch.toPayload.take 40) =
          (memory m d, .refusal .invalidPayloadLength) := by
  have hnew := memoryDevice_mixedConfig
  have hregions : mixedConfig.regions ≠ [] := by decide
  obtain ⟨m, d, hreached, htable, hledger⟩ : ∃ m d, mixedDevice.after mixedProvisions = memory m d ∧
      m.commands = mixedDevice.mailbox.commands ∧ d.ledger = ⟨mixedTable, mixedExtents, 2⟩ :=
    ⟨_, _, after_mixedProvisions, rfl, rfl⟩
  have hadd : d.ledger.add noisyBatch.ranges =
      .ok ⟨mixedTable, mixedExtents ++ noisyBatch.ranges.map .untagged, 3⟩ := by
    rw [hledger]
    decide
  have hrelease : d.ledger.release noisyBatch.ranges = .error .notHeld := by
    rw [hledger]
    decide
  have hcut : (noisyBatch.toPayload.take 40).length <
      8 + 24 * ofLittleEndian ((noisyBatch.toPayload.take 40).take 4) := by decide
  obtain ⟨hbatches, hmissing⟩ := changes_of_batches hnew hregions htable d 0 none
  obtain ⟨hadded, hreleased⟩ := hbatches noisyBatch
  rw [hadd] at hadded
  rw [hrelease] at hreleased
  refine ⟨hnew, hregions, m, d, hreached, htable, ⟨_, ?_, hadded⟩, hreleased, (hmissing _ hcut).1⟩
  rw [hledger]

end CxlEndpoint.Endpoint
