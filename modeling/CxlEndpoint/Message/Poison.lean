import CxlEndpoint.Payload
import CxlEndpoint.Poison.Scan

/-!
# Messages about poison

* `Poison.Record.toPayload`: the sixteen bytes of a record. `recordLimit` is how many of them fit.
* `Poison.Range`: a range that the host names by its start and a number of cache lines.
* `Poison.ListPage`, `Poison.ResultPage`: parts of the poison list and of the scan results.
-/

namespace CxlEndpoint.Poison

/-- The start of a record with the kind in the low bits, and its length in cache lines, held at
the greatest 32-bit number. -/
def Record.toPayload (r : Record) : Payload :=
  littleEndian 8 (lineStart r.start + r.kind.code) ++
    littleEndian 4 (min (r.length / lineBytes) Word.last32) ++ zeros 4

/-- Bytes before the records. -/
def headerLength : Nat := 32

/-- Bytes of a record. -/
def recordLength : Nat := 16

/-- The records that a response of `room` bytes holds. -/
def recordLimit (room : Nat) : Nat := (room - headerLength) / recordLength

/-- A range of device addresses, as the host names it. -/
structure Range where
  start : Nat
  lines : Nat
  deriving DecidableEq, Repr

/-- Reads the start and the number of cache lines. -/
def Range.ofPayload (p : Payload) : Except Status Range := do
  return ⟨← p.word 0 8, ← p.word 8 8⟩

/-- Reads a range that must start at a cache line. -/
def Range.alignedOfPayload (p : Payload) : Except Status Range := do
  let range ← ofPayload p
  if LineAligned range.start then return range else throw .invalidInput

/-- A part of the poison list. -/
structure ListPage where
  /-- The list has further records in the range. -/
  more : Bool
  overflowedAt : Option Timestamp
  /-- A scan is rebuilding the list. -/
  scanning : Bool
  records : List Record
  deriving DecidableEq, Repr

/-- A flag byte, the time of the overflow, the number of records, and the records. -/
def ListPage.toPayload (p : ListPage) : Payload :=
  [UInt8.ofNat ((if p.more then 1 else 0) + (if p.overflowedAt.isSome then 2 else 0) +
      if p.scanning then 4 else 0), 0] ++
    littleEndian 8 (p.overflowedAt.elim 0 (·.toNat)) ++ littleEndian 2 p.records.length ++
    zeros 20 ++ p.records.flatMap (·.toPayload)

/-- A part of the scan results. -/
structure ResultPage where
  records : List Record
  /-- Where the results lie that are left, as start and length, if any are. -/
  rest : Option (Nat × Nat)
  deriving DecidableEq, Repr

/-- Where the rest lies, a flag byte, the number of records, and the records. -/
def ResultPage.toPayload (p : ResultPage) : Payload :=
  littleEndian 8 (p.rest.elim 0 (·.1)) ++ littleEndian 8 (p.rest.elim 0 (·.2)) ++
    [if p.rest.isSome then 1 else 0, 0] ++ littleEndian 2 p.records.length ++ zeros 12 ++
    p.records.flatMap (·.toPayload)

end CxlEndpoint.Poison
