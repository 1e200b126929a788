import CxlEndpoint.Proofs.Endpoint.Refusal
import CxlEndpoint.Proofs.Event.Message

/-!
# The lengths of payloads

* `StandardCommand.Misfit`: a payload has a length that the command does not take. Where the length
  is not fixed, the first bytes may tell how long the rest has to be.
* `ofPayload_of_misfit`, `onMerits_ofPayload`: when a payload is read, a wrong length that is not
  fixed is told first of all, and a right length is no reason to turn the payload down.
* `FieldsInside`: what is read off a payload without a check of its own is what a checked read
  finds.
-/

namespace CxlEndpoint

variable {p : Payload}

/-! ## What a length may be -/

namespace StandardCommand

/-- The payload has a wrong length for a command that looks at the length itself. -/
def WrongLength : StandardCommand → Payload → Prop
  | clearEventRecords, p => p.length < 6 ∨ p.length < 6 + 2 * (p.getD 2 0).toNat
  | setInterruptPolicy, p => p.length < 4
  | setLabels, p => 1 ≤ p.length ∧ p.length ≤ 7
  | addCapacity, p | releaseCapacity, p =>
    p.length < 8 ∨ p.length < 8 + 24 * ofLittleEndian (p.take 4)
  | portStates, p => p = [] ∨ p.length ≠ 1 + (p.getD 0 0).toNat
  | _, _ => False

/-- The payload has a length that the command does not take. -/
def Misfit (command : StandardCommand) (p : Payload) : Prop :=
  match command.input with
  | .fixed bytes => p.length ≠ bytes
  | .free => command.WrongLength p

theorem misfit_of_fixed {command : StandardCommand} {bytes : Nat}
    (h : command.input = .fixed bytes) : command.Misfit p ↔ p.length ≠ bytes := by
  rw [Misfit, h]

theorem misfit_of_free {command : StandardCommand} (h : command.input = .free) :
    command.Misfit p ↔ command.WrongLength p := by
  rw [Misfit, h]

/-- A length that the command takes passes the check of a fixed length. -/
theorem accepts_of_not_misfit {command : StandardCommand} (h : ¬ command.Misfit p) :
    command.input.Accepts p.length := by
  cases hinput : command.input with
  | fixed bytes => exact Decidable.not_not.mp (mt (misfit_of_fixed hinput).mpr h)
  | free => trivial

end StandardCommand

/-! ## Reading -/

theorem onMerits_word {offset width : Nat} (h : offset + width ≤ p.length) :
    OnMerits (p.word offset width) := by
  rw [Payload.word, if_pos h]
  exact onMerits_ok _

theorem onMerits_bytes {offset n : Nat} (h : offset + n ≤ p.length) :
    OnMerits (p.bytes offset n) := by
  have hfield : ((p.drop offset).take n).length = n := by
    rw [List.length_take, List.length_drop]
    omega
  unfold Payload.bytes
  dsimp only
  rw [dif_pos hfield]
  exact onMerits_ok _

namespace EventClearance

theorem handles_missing_iff {rest : Payload} {count : Nat} :
    ((handlesOf rest).take count).length < count ↔ rest.length < 2 * count := by
  rw [List.length_take, length_handlesOf]
  omega

theorem ofPayload_of_short (h : p.length < 6 ∨ p.length < 6 + 2 * (p.getD 2 0).toNat) :
    ofPayload p = .error .invalidPayloadLength := by
  unfold ofPayload
  split
  next log flags count _ _ _ rest =>
    simp only [List.length_cons, List.getD_cons_succ, List.getD_cons_zero] at h
    exact if_pos (handles_missing_iff.mpr (by omega))
  · rfl

theorem onMerits_ofPayload (h : ¬ (p.length < 6 ∨ p.length < 6 + 2 * (p.getD 2 0).toNat)) :
    OnMerits (ofPayload p) := by
  unfold ofPayload
  split
  next log flags count _ _ _ rest =>
    simp only [List.length_cons, List.getD_cons_succ, List.getD_cons_zero] at h
    dsimp only
    rw [if_neg (mt handles_missing_iff.mp (by omega))]
    have hlog := onMerits_kind log
    split
    next hs => exact hlog.rethrow hs
    next => exact onMerits_ok _
  next hshort =>
    match p with
    | [] | [_] | [_, _] | [_, _, _] | [_, _, _, _] | [_, _, _, _, _] => simp at h
    | a :: b :: c :: d :: e :: f :: rest => exact absurd rfl (hshort a b c d e f rest)

end EventClearance

theorem onMerits_range (h : p.length = 16 ∨ p.length = 17) :
    OnMerits (Poison.Range.ofPayload p) :=
  (onMerits_word (by omega)).bind fun _ => (onMerits_word (by omega)).bind fun _ => onMerits_pure _

theorem onMerits_batch
    (h : ¬ (p.length < 8 ∨ p.length < 8 + 24 * ofLittleEndian (p.take 4))) :
    OnMerits (AddressRange.batchOfPayload p) := by
  unfold AddressRange.batchOfPayload AddressRange.batchHeader AddressRange.batchEntry
  dsimp only
  rw [if_neg (by omega), if_neg (by omega)]
  exact onMerits_ok _

theorem batch_of_short (h : p.length < 8 ∨ p.length < 8 + 24 * ofLittleEndian (p.take 4)) :
    AddressRange.batchOfPayload p = .error .invalidPayloadLength := by
  unfold AddressRange.batchOfPayload AddressRange.batchHeader AddressRange.batchEntry
  dsimp only
  split
  · rfl
  · exact if_pos (by omega)

theorem portList_of_wrongLength (h : p = [] ∨ p.length ≠ 1 + (p.getD 0 0).toNat) :
    portListOfPayload p = .error .invalidPayloadLength := by
  cases p with
  | nil => rfl
  | cons count ids =>
    simp only [List.length_cons, List.getD_cons_zero, reduceCtorEq, false_or] at h
    exact if_neg (by omega)

theorem onMerits_portList (h : ¬ (p = [] ∨ p.length ≠ 1 + (p.getD 0 0).toNat)) :
    OnMerits (portListOfPayload p) := by
  cases p with
  | nil => exact absurd (Or.inl rfl) h
  | cons count ids =>
    simp only [List.length_cons, List.getD_cons_zero, reduceCtorEq, false_or] at h
    rw [portListOfPayload, if_pos (by omega)]
    exact onMerits_ok _

/-- A payload that is too long or too short for a command that looks at the length itself is turned
down for that, whatever else is wrong with it. -/
theorem DirectRequest.ofPayload_of_wrongLength {command : StandardCommand}
    (h : command.WrongLength p) :
    DirectRequest.ofPayload command p = .error .invalidPayloadLength := by
  cases command with
  | clearEventRecords =>
    rw [ofPayload, EventClearance.ofPayload_of_short h]
    rfl
  | setInterruptPolicy =>
    have hshort : p.length < 4 := h
    rw [ofPayload, interruptSettingsOf, if_pos hshort]
    rfl
  | setLabels =>
    obtain ⟨hsome, hshort⟩ := h
    have hne : ¬ p.isEmpty = true := by
      rw [List.isEmpty_iff_length_eq_zero]
      omega
    rw [ofPayload, if_neg hne, LabelWrite.ofPayload, if_pos (by omega)]
    rfl
  | addCapacity | releaseCapacity =>
    rw [ofPayload, batch_of_short h]
    rfl
  | portStates =>
    rw [ofPayload, portList_of_wrongLength h]
    rfl
  | _ => exact h.elim

namespace StandardCommand

variable {command : StandardCommand}

theorem onMerits_direct (h : ¬ command.Misfit p) :
    OnMerits (DirectRequest.ofPayload command p) := by
  -- for a fixed length, every field that is read ends where the payload does or before
  have hlength := accepts_of_not_misfit h
  cases command with
  | getEventRecords =>
    have hp : p.length = 1 := hlength
    exact OnMerits.map _ ((onMerits_word (by omega)).bind fun _ => onMerits_kind _)
  | setTimestamp | injectPoison =>
    have hp : p.length = 8 := hlength
    exact (onMerits_word (by omega)).map _
  | getLog =>
    have hp : p.length = 24 := hlength
    exact OnMerits.map _ ((onMerits_bytes (by omega)).bind fun _ =>
      (onMerits_word (by omega)).bind fun _ => (onMerits_word (by omega)).bind fun _ =>
        onMerits_pure _)
  | getLabels | extentList =>
    have hp : p.length = 8 := hlength
    exact OnMerits.map _ ((onMerits_word (by omega)).bind fun _ =>
      (onMerits_word (by omega)).bind fun _ => onMerits_pure _)
  | capacityConfig =>
    have hp : p.length = 2 := hlength
    exact OnMerits.map _ ((onMerits_word (by omega)).bind fun _ =>
      (onMerits_word (by omega)).bind fun _ => onMerits_pure _)
  | getPoisonList =>
    refine OnMerits.map _ ((onMerits_range (Or.inl hlength)).bind fun range => ?_)
    split <;> simp [Status.accepted]
  | scanCapabilities => exact (onMerits_range (Or.inl hlength)).map _
  | scanMedia => exact (onMerits_range (Or.inr hlength)).map _
  | clearPoison =>
    have hp : p.length = 8 + lineBytes := hlength
    exact (onMerits_word (by omega)).bind fun _ => (onMerits_bytes (by omega)).bind fun _ =>
      onMerits_pure _
  | clearEventRecords => exact (EventClearance.onMerits_ofPayload h).map _
  | setInterruptPolicy =>
    have hlong : ¬ p.length < 4 := h
    rw [DirectRequest.ofPayload, interruptSettingsOf, if_neg hlong]
    exact onMerits_ok _
  | setLabels =>
    rw [DirectRequest.ofPayload]
    split
    · exact onMerits_ok _
    next hne =>
      have hlong : ¬ p.length < 8 := fun hshort => h
        ⟨List.length_pos_iff.mpr (mt List.isEmpty_iff.mpr hne), Nat.le_of_lt_succ hshort⟩
      rw [LabelWrite.ofPayload, if_neg hlong]
      exact onMerits_ok _
  | addCapacity | releaseCapacity => exact (onMerits_batch h).map _
  | portStates => exact (onMerits_portList h).map _
  | tunnel => exact onMerits_error_iff.mpr ⟨rfl, by decide⟩
  | identify | backgroundStatus | getInterruptPolicy | firmwareInfo | getTimestamp | supportedLogs
  | identifyMemory | partitionInfo | scanResults | sanitize | securityState | identifySwitch =>
    exact onMerits_ok _

/-- A payload of the right length is not turned down for its length any more. -/
theorem onMerits_ofPayload (h : ¬ command.Misfit p) : OnMerits (Request.ofPayload command p) := by
  unfold Request.ofPayload
  split
  · exact (onMerits_tunnelled p).map _
  · exact (onMerits_direct h).map _

/-- A wrong length that is not fixed is found out when the payload is read. -/
theorem ofPayload_of_misfit (hfree : command.input = .free) (h : command.Misfit p) :
    Request.ofPayload command p = .error .invalidPayloadLength := by
  have hwrong := (misfit_of_free hfree).mp h
  have htunnel : command ≠ .tunnel := by
    rintro rfl
    exact hwrong
  rw [Request.ofPayload, if_neg htunnel, DirectRequest.ofPayload_of_wrongLength hwrong]
  rfl

end StandardCommand

/-! ## Fields -/

namespace AddressRange

variable {batch : List AddressRange} {r : AddressRange} {i : Nat}

/-- Range number `i` of a batch, with a check that it is there. -/
def checkedEntry (p : Payload) (i : Nat) : Except Status AddressRange := do
  return ⟨← p.word (batchHeader + batchEntry * i) 8, ← p.word (batchHeader + batchEntry * i + 8) 8⟩

theorem length_batchEntries (count : Nat) (p : Payload) :
    (batchEntries count p).length = count := by
  induction count generalizing p with
  | zero => rfl
  | succ n ih => rw [batchEntries, List.length_cons, ih]

theorem eq_of_getElem?_batchEntries {count : Nat} {p : Payload}
    (h : (batchEntries count p)[i]? = some r) :
    i < count ∧ r = ⟨ofLittleEndian ((p.drop (batchEntry * i)).take 8),
      ofLittleEndian ((p.drop (batchEntry * i + 8)).take 8)⟩ := by
  induction count generalizing p i with
  | zero => cases h
  | succ n ih =>
    cases i with
    | zero =>
      cases h
      exact ⟨Nat.succ_pos n, rfl⟩
    | succ i =>
      obtain ⟨hi, hr⟩ := ih h
      rw [List.drop_drop, List.drop_drop, ← Nat.add_assoc] at hr
      exact ⟨Nat.succ_lt_succ hi, by rw [hr, Nat.mul_succ, Nat.add_comm (batchEntry * i)]⟩

theorem batchOfPayload_eq_ok (h : batchOfPayload p = .ok batch) :
    batchHeader + batchEntry * ofLittleEndian (p.take 4) ≤ p.length ∧
      batch = batchEntries (ofLittleEndian (p.take 4)) (p.drop batchHeader) := by
  unfold batchOfPayload at h
  dsimp only at h
  split at h
  · cases h
  · split at h
    · cases h
    · cases h
      rw [Nat.mul_comm]
      exact ⟨by omega, rfl⟩

theorem checkedEntry_of_batch (h : batchOfPayload p = .ok batch) (hr : batch[i]? = some r) :
    checkedEntry p i = .ok r := by
  obtain ⟨hlong, rfl⟩ := batchOfPayload_eq_ok h
  obtain ⟨hi, rfl⟩ := eq_of_getElem?_batchEntries hr
  have hend : batchEntry * (i + 1) ≤ batchEntry * ofLittleEndian (p.take 4) :=
    Nat.mul_le_mul_left _ hi
  rw [Nat.mul_succ] at hend
  have hwidth : batchEntry = 24 := rfl
  rw [checkedEntry, Payload.word, Payload.word, if_pos (by omega), if_pos (by omega)]
  simp only [List.drop_drop, Nat.add_assoc]
  rfl

end AddressRange

/-- What is read off the payload without a check of its own is what a checked read finds. -/
structure FieldsInside (p : Payload) : Prop where
  labelOffset : ∀ w, LabelWrite.ofPayload p = .ok w → p.word 0 4 = .ok w.offset
  portCount : ∀ ids, portListOfPayload p = .ok ids → p.word 0 1 = .ok ids.length
  rangeCount : ∀ batch, AddressRange.batchOfPayload p = .ok batch → p.word 0 4 = .ok batch.length
  range : ∀ batch, AddressRange.batchOfPayload p = .ok batch →
    ∀ i r, batch[i]? = some r → AddressRange.checkedEntry p i = .ok r

theorem fieldsInside (p : Payload) : FieldsInside p := by
  constructor
  case labelOffset =>
    intro w h
    unfold LabelWrite.ofPayload at h
    split at h
    · cases h
    · cases h
      exact if_pos (by omega)
  case portCount =>
    intro ids h
    cases p with
    | nil => cases h
    | cons count rest =>
      rw [portListOfPayload] at h
      split at h
      next hcount =>
        cases h
        rw [hcount]
        exact Payload.word_append_byte List.length_nil
      · cases h
  case rangeCount =>
    intro batch h
    obtain ⟨hlong, rfl⟩ := AddressRange.batchOfPayload_eq_ok h
    have hheader : AddressRange.batchHeader = 8 := rfl
    rw [AddressRange.length_batchEntries]
    exact if_pos (by omega)
  case range => exact fun batch h i r => AddressRange.checkedEntry_of_batch h

end CxlEndpoint
