import CxlEndpoint.MemoryDevice
import CxlEndpoint.Request

/-!
# What a memory device does on request

* `Conditions`: what the device has to know of its mailbox.
* `MemoryDevice.serve`: the reply to a request and the device after it. A request that is turned
  down has no device after it, so it changes nothing.
-/

namespace CxlEndpoint

/-- What a device has to know of its mailbox to answer a request. -/
structure Conditions where
  /-- The bytes that the response may have. -/
  room : Nat
  time : Timestamp
  /-- A scan is running. -/
  scanning : Bool
  deriving DecidableEq, Repr

namespace MemoryDevice

/-- The length in bytes of a range that a scan can be asked for. The range starts at a cache line
and lies inside the provisioned capacity. -/
def scanLength (d : MemoryDevice) (r : Poison.Range) : Except Status Nat :=
  let length := r.lines * lineBytes
  if Word.last < length ∨ ¬ LineAligned r.start then .error .invalidInput
  else if d.provisionedCapacity < r.start + length then .error .invalidPhysicalAddress
  else .ok length

/-- The part of the poison list in a range that fits. -/
def poisonPage (d : MemoryDevice) (c : Conditions) (r : Poison.Range) : Poison.ListPage :=
  let listing :=
    d.poison.query r.start (Word.mulSat r.lines lineBytes) (Poison.recordLimit c.room)
  ⟨listing.more, d.poison.overflowedAt, c.scanning, listing.records⟩

/-- Takes the next results that fit off the queue. -/
def takeResults (d : MemoryDevice) (c : Conditions) : MemoryDevice × Poison.ResultPage :=
  match d.poison.takeResults (Poison.recordLimit c.room) with
  | (poison, listing) =>
    ({ d with poison },
      ⟨listing.records, if listing.more then poison.nextResultRange? else none⟩)

/-- Writes a cache line and takes it off the poison list. -/
def clearPoison (d : MemoryDevice) (c : Conditions) (address : Nat) (data : CacheLine) :
    Except Status MemoryDevice :=
  let line := lineStart address
  if d.provisionedCapacity < line + lineBytes then .error .invalidPhysicalAddress
  else
    match d.memory.writeLine? line data with
    | none => .error .internalError
    | some memory => .ok { d with memory, poison := (d.poison.clear line c.scanning c.time).1 }

/-- The device with another ledger, or the status for the refusal. -/
def withLedger (d : MemoryDevice) : Except Refusal Ledger → Except Status MemoryDevice
  | .ok ledger => .ok { d with ledger }
  | .error e => .error e.status

/-- The part of the ledger from an extent on that fits. -/
def extentPage? (d : MemoryDevice) (c : Conditions) (p : PageRequest) : Option ExtentPage :=
  (d.ledger.extentPage? p.first (min p.count (ExtentPage.extentLimit c.room))).map fun extents =>
    ⟨extents, d.ledger.extents.length, d.ledger.generation⟩

/-- Carries out a request. -/
def serve (d : MemoryDevice) (c : Conditions) :
    MemoryRequest → Except Status (MemoryDevice × Reply)
  | .eventRecords log =>
    .ok (d, { payload := (EventPage.ofLog (d.events.get log) c.room).toPayload })
  | .clearEvents ⟨log, none⟩ => .ok ({ d with events := d.events.clearAll log }, {})
  | .clearEvents ⟨log, some handles⟩ =>
    match d.events.clear? log handles with
    | some events => .ok ({ d with events }, {})
    | none => .error .invalidInput
  | .interruptPolicy => .ok (d, { payload := d.events.interruptSettings })
  | .setInterruptPolicy settings => .ok ({ d with events := d.events.setInterrupts settings }, {})
  | .firmware =>
    match d.memory.partition? with
    | some _ => .ok (d, { payload := firmwarePayload })
    | none => .error .internalError
  | .identify =>
    match d.memory.partition? with
    | some p => .ok (d, { payload := (MemoryInfo.mk p d.memory.labelSize).toPayload })
    | none => .error .internalError
  | .partition =>
    match d.memory.partition? with
    | some p => .ok (d, { payload := p.toPayload })
    | none => .error .internalError
  | .getLabels w =>
    if w.offset + w.length ≤ d.memory.labelSize ∧ w.length ≤ c.room then
      .ok (d, { payload := d.memory.readLabels w.offset w.length })
    else .error .invalidInput
  | .setLabels w =>
    if w.offset + w.data.length ≤ d.memory.labelSize then
      .ok ({ d with memory := d.memory.writeLabels w.offset w.data }, {})
    else .error .invalidInput
  | .poisonList r => .ok (d, { payload := (d.poisonPage c r).toPayload })
  | .injectPoison address =>
    match d.poison.inject? address c.scanning with
    | some poison => .ok ({ d with poison }, {})
    | none => .error .injectPoisonLimit
  | .clearPoison address data =>
    match d.clearPoison c address data with
    | .ok d => .ok (d, {})
    | .error s => .error s
  | .scanCapabilities r =>
    match d.scanLength r with
    | .ok length =>
      .ok (d, { payload := littleEndian 4 (min (scanMilliseconds length) Word.last32) })
    | .error s => .error s
  | .scan r =>
    match d.scanLength r with
    | .ok length =>
      .ok ({ d with poison := d.poison.beginScan r.start length c.time },
        { completion := .background (scanMilliseconds length) })
    | .error s => .error s
  | .scanResults =>
    if d.poison.scanned then
      match d.takeResults c with
      | (d, page) => .ok (d, { payload := page.toPayload })
    else .error .unsupported
  | .sanitize =>
    let seconds := sanitizeSeconds (d.memory.staticCapacity / mebibyte)
    if seconds ≤ sanitizeSyncSeconds then .ok ({ d with memory := d.memory.sanitize }, {})
    else
      .ok ({ d with memory := { d.memory with mediaEnabled := false } },
        { completion := .background (seconds * 1000) })
  | .regions p =>
    match d.ledger.regionPage? p.first p.count with
    | some regions => .ok (d, { payload := regionPagePayload regions })
    | none => .error .invalidInput
  | .extents p =>
    match d.extentPage? c p with
    | some page => .ok (d, { payload := page.toPayload })
    | none => .error .invalidInput
  | .addCapacity batch =>
    match d.withLedger (d.ledger.add batch) with
    | .ok d => .ok (d, {})
    | .error s => .error s
  | .releaseCapacity batch =>
    match d.withLedger (d.ledger.release batch) with
    | .ok d => .ok (d, {})
    | .error s => .error s

end MemoryDevice

end CxlEndpoint
