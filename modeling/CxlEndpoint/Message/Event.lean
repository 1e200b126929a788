import CxlEndpoint.Event.Logs

/-!
# Messages about event logs

* `EventPage`: the oldest records of a log, with what it has lost.
* `EventClearance`: which records the host has dealt with.
* `InterruptPolicy`: the interrupt settings of the logs.
-/

namespace CxlEndpoint

/-- The kind of log that a request names. -/
def EventLog.Kind.ofByte (b : UInt8) : Except Status EventLog.Kind :=
  match EventLog.Kind.ofNumber? b.toNat with
  | some k => .ok k
  | none => .error .invalidInput

/-- The kind of log at the start of a request. -/
def EventLog.Kind.ofPayload (p : Payload) : Except Status EventLog.Kind := do
  ofByte (UInt8.ofNat (← p.word 0 1))

/-- The oldest records of a log. -/
structure EventPage where
  /-- The log has further records. -/
  more : Bool
  overflow : Option EventOverflow
  records : List StoredEvent
  deriving DecidableEq, Repr

namespace EventPage

/-- Bytes before the records. -/
def headerLength : Nat := 32

/-- As many of the oldest records as `room` bytes hold. -/
def ofLog (l : EventLog) (room : Nat) : EventPage :=
  let limit := min ((room - headerLength) / StoredEvent.wireLength) 65535
  ⟨decide (limit < l.records.length), l.overflow, l.records.take limit⟩

/-- A flag byte, the overflow, the number of records, and the records. -/
def toPayload (p : EventPage) : Payload :=
  [UInt8.ofNat ((if p.overflow.isSome then 1 else 0) + if p.more then 2 else 0), 0] ++
    littleEndian 2 (p.overflow.elim 0 (·.count)) ++
    littleEndian 8 (p.overflow.elim 0 (·.first.toNat)) ++
    littleEndian 8 (p.overflow.elim 0 (·.latest.toNat)) ++
    littleEndian 2 p.records.length ++ zeros 10 ++ p.records.flatMap (·.toPayload)

end EventPage

/-- Which records of a log the host has dealt with. -/
structure EventClearance where
  log : EventLog.Kind
  /-- The handles of the oldest records in order, or `none` for all records. -/
  handles : Option (List UInt16)
  deriving DecidableEq, Repr

namespace EventClearance

/-- The handles that are written one after another. -/
def handlesOf : Payload → List UInt16
  | low :: high :: rest => UInt16.ofNat (ofLittleEndian [low, high]) :: handlesOf rest
  | _ => []

/-- Reads the log, a flag byte, the number of handles, and the handles behind three more bytes.
Too few handles are a length error even when the flag asks for all records. -/
def ofPayload : Payload → Except Status EventClearance
  | log :: flags :: count :: _ :: _ :: _ :: rest =>
    let handles := (handlesOf rest).take count.toNat
    if handles.length < count.toNat then .error .invalidPayloadLength
    else
      match EventLog.Kind.ofByte log with
      | .error s => .error s
      | .ok log => .ok ⟨log, if flags &&& 1 = 0 then some handles else none⟩
  | _ => .error .invalidPayloadLength

end EventClearance

/-- The interrupt settings of a request, for the logs in order. The last log may be left out, and
further bytes say nothing. -/
def interruptSettingsOf (p : Payload) : Except Status (List UInt8) :=
  if p.length < 4 then .error .invalidPayloadLength else .ok (p.take 5)

end CxlEndpoint
