import CxlEndpoint.Proofs.Event.Message

/-!
# What the host receives of a log

* `ReceivedEvent.ofPayload?`, `ReceivedEvents.ofPayload?`: the fields of a record and of a page,
  read at fixed offsets. The page must have as many records as it says.
* `StoredEvent.received`, `EventPage.received`: what there is to read of a stored record and of a
  page.
* `ofPayload?_toPayload`: it is read. The flags of a record lose their high byte on the way.
-/

namespace CxlEndpoint

/-! ## Records -/

/-- The fields of a record, as the host reads them. -/
structure ReceivedEvent where
  uuid : Vector UInt8 16
  /-- The bytes that the record says it has. -/
  length : Nat
  flags : Nat
  handle : UInt16
  relatedHandle : UInt16
  timestamp : Timestamp
  maintenanceClass : UInt8
  data : Vector UInt8 80
  deriving DecidableEq, Repr

/-- Reads the fields. Fifteen bytes before the data are reserved. -/
def ReceivedEvent.ofPayload? (p : Payload) : Option ReceivedEvent := do
  let uuid ← (p.bytes 0 16).toOption
  let length ← (p.word 16 1).toOption
  let flags ← (p.word 17 3).toOption
  let handle ← (p.word 20 2).toOption
  let relatedHandle ← (p.word 22 2).toOption
  let timestamp ← (p.word 24 8).toOption
  let maintenanceClass ← (p.word 32 1).toOption
  let data ← (p.bytes 48 80).toOption
  return {
    uuid, length, flags
    handle := UInt16.ofNat handle
    relatedHandle := UInt16.ofNat relatedHandle
    timestamp := UInt64.ofNat timestamp
    maintenanceClass := UInt8.ofNat maintenanceClass
    data }

namespace StoredEvent

/-- What there is to read of a record: all of it, but no more than 24 bits of the flags. -/
def received (e : StoredEvent) : ReceivedEvent where
  uuid := e.record.uuid
  length := wireLength
  flags := e.record.flags.toNat % 1 <<< 24
  handle := e.handle
  relatedHandle := e.record.relatedHandle
  timestamp := e.timestamp
  maintenanceClass := e.record.maintenanceClass
  data := e.record.data

theorem ofPayload?_toPayload (e : StoredEvent) :
    ReceivedEvent.ofPayload? e.toPayload = some e.received := by
  have huuid : e.toPayload.bytes 0 16 = .ok e.record.uuid := by
    simp only [toPayload, List.append_assoc]
    exact Payload.bytes_append List.length_nil
  have hlength : e.toPayload.word 16 1 = .ok wireLength := by
    simp only [toPayload, List.append_assoc]
    exact Payload.word_append_byte e.record.uuid.length_toList
  have hflags : e.toPayload.word 17 3 = .ok (e.record.flags.toNat % 1 <<< 24) := by
    rw [toPayload, List.append_assoc, List.append_assoc, List.append_assoc, List.append_assoc,
      List.append_assoc, List.append_assoc]
    exact Payload.word_append_mod (by simp)
  have hhandle : e.toPayload.word 20 2 = .ok e.handle.toNat := by
    rw [toPayload, List.append_assoc, List.append_assoc, List.append_assoc, List.append_assoc,
      List.append_assoc]
    exact Payload.word_append (by simp) e.handle.toNat_lt
  have hrelated : e.toPayload.word 22 2 = .ok e.record.relatedHandle.toNat := by
    rw [toPayload, List.append_assoc, List.append_assoc, List.append_assoc, List.append_assoc]
    exact Payload.word_append (by simp) e.record.relatedHandle.toNat_lt
  have htimestamp : e.toPayload.word 24 8 = .ok e.timestamp.toNat := by
    rw [toPayload, List.append_assoc, List.append_assoc, List.append_assoc]
    exact Payload.word_append (by simp) e.timestamp.toNat_lt
  have hclass : e.toPayload.word 32 1 = .ok e.record.maintenanceClass.toNat := by
    rw [toPayload, List.append_assoc, List.append_assoc]
    exact Payload.word_append_byte (by simp)
  have hdata : e.toPayload.bytes 48 80 = .ok e.record.data :=
    Payload.bytes_concat (by simp)
  simp [ReceivedEvent.ofPayload?, huuid, hlength, hflags, hhandle, hrelated, htimestamp, hclass,
    hdata, Except.toOption, received]

end StoredEvent

/-! ## Pages -/

/-- The fields of a page of a log, as the host reads them. -/
structure ReceivedEvents where
  /-- The log has further records. -/
  more : Bool
  /-- Records were lost: how many, and when the first and the latest of them came. -/
  overflowed : Bool
  lost : Nat
  firstLost : Timestamp
  latestLost : Timestamp
  count : Nat
  records : List ReceivedEvent
  deriving DecidableEq, Repr

/-- Reads a page that is as long as the number of its records says. -/
def ReceivedEvents.ofPayload? (p : Payload) : Option ReceivedEvents := do
  let flags ← (p.word 0 1).toOption
  let lost ← (p.word 2 2).toOption
  let firstLost ← (p.word 4 8).toOption
  let latestLost ← (p.word 12 8).toOption
  let count ← (p.word 20 2).toOption
  if p.length = 32 + 128 * count then
    let records ← Payload.readRecords 128 ReceivedEvent.ofPayload? count (p.drop 32)
    return {
      more := flags.testBit 1
      overflowed := flags.testBit 0
      lost
      firstLost := UInt64.ofNat firstLost
      latestLost := UInt64.ofNat latestLost
      count, records }
  else none

namespace EventPage

/-- What there is to read of a page. Where nothing was lost, the fields for it are zero. -/
def received (p : EventPage) : ReceivedEvents where
  more := p.more
  overflowed := p.overflow.isSome
  lost := p.overflow.elim 0 (·.count)
  firstLost := p.overflow.elim 0 (·.first)
  latestLost := p.overflow.elim 0 (·.latest)
  count := p.records.length
  records := p.records.map (·.received)

/-- The flags of a page say whether records were lost, and whether there are more of them. -/
theorem testBit_flags (lost more : Bool) :
    ((if lost then 1 else 0) + if more then 2 else 0 : Nat).testBit 0 = lost ∧
      ((if lost then 1 else 0) + if more then 2 else 0 : Nat).testBit 1 = more := by
  cases lost <;> cases more <;> decide

theorem ofPayload?_toPayload (p : EventPage) (hrecords : p.records.length < 1 <<< 16)
    (hlost : ∀ lost, p.overflow = some lost → lost.count ≤ 65535) :
    ReceivedEvents.ofPayload? p.toPayload = some p.received := by
  obtain ⟨hoverflowed, hmore⟩ := testBit_flags p.overflow.isSome p.more
  have hcount : p.overflow.elim 0 (·.count) < 1 <<< 16 := by
    cases hoverflow : p.overflow with
    | none => decide
    | some lost => exact Nat.lt_succ_of_le (hlost lost hoverflow)
  have htime (time : EventOverflow → Timestamp) :
      p.overflow.elim 0 (fun lost => (time lost).toNat) = (p.overflow.elim 0 time).toNat := by
    cases p.overflow <;> rfl
  have hflags : p.toPayload.word 0 1 =
      .ok ((if p.overflow.isSome then 1 else 0) + if p.more then 2 else 0) := by
    simp only [toPayload, List.append_assoc, List.cons_append, List.nil_append]
    refine (Payload.word_append_byte List.length_nil).trans (congrArg Except.ok ?_)
    cases p.overflow.isSome <;> cases p.more <;> rfl
  have hnumber : p.toPayload.word 2 2 = .ok (p.overflow.elim 0 (·.count)) := by
    simp only [toPayload, List.append_assoc]
    exact Payload.word_append rfl hcount
  have hfirst : p.toPayload.word 4 8 = .ok (p.overflow.elim 0 (·.first)).toNat := by
    rw [toPayload, List.append_assoc, List.append_assoc, List.append_assoc, List.append_assoc,
      htime (·.first)]
    exact Payload.word_append (by simp) (UInt64.toNat_lt _)
  have hlatest : p.toPayload.word 12 8 = .ok (p.overflow.elim 0 (·.latest)).toNat := by
    rw [toPayload, List.append_assoc, List.append_assoc, List.append_assoc, htime (·.latest)]
    exact Payload.word_append (by simp) (UInt64.toNat_lt _)
  have hlength : p.toPayload.word 20 2 = .ok p.records.length := by
    rw [toPayload, List.append_assoc, List.append_assoc]
    exact Payload.word_append (by simp) hrecords
  have hbody : p.toPayload.drop 32 = p.records.flatMap (·.toPayload) := by
    rw [toPayload]
    exact List.drop_left' (by simp)
  have hread : Payload.readRecords 128 ReceivedEvent.ofPayload? p.records.length
      (p.toPayload.drop 32) = some (p.records.map (·.received)) := by
    rw [hbody]
    exact Payload.readRecords_flatMap_map StoredEvent.length_toPayload
      fun e _ => e.ofPayload?_toPayload
  have hsize : p.toPayload.length = 32 + 128 * p.records.length := length_toPayload p
  generalize (if p.overflow.isSome then 1 else 0) + (if p.more then 2 else 0) = flags at *
  simp only [ReceivedEvents.ofPayload?, hflags, hnumber, hfirst, hlatest, hlength, hsize, hread,
    Except.toOption, Option.bind_eq_bind, Option.bind_some, if_true, hoverflowed, hmore,
    UInt64.ofNat_toNat]
  rfl

end EventPage

end CxlEndpoint
