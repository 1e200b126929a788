import CxlEndpoint.Capacity.Ledger
import CxlEndpoint.Payload

/-!
# Messages about dynamic capacity

* `PageRequest`: which regions or extents the host wants to see.
* `Region.toPayload`, `Extent.toPayload`: forty bytes each. `regionPagePayload` and `ExtentPage`
  put a header before them.
* `AddressRange.batchOfPayload`: the ranges that the host accepts or gives back.
-/

namespace CxlEndpoint

/-- Up to `count` entries from number `first` on. -/
structure PageRequest where
  first : Nat
  count : Nat
  deriving DecidableEq, Repr

/-- Reads the number of regions and the first of them, a byte each. -/
def PageRequest.regionsOfPayload (p : Payload) : Except Status PageRequest := do
  let count ← p.word 0 1
  return ⟨← p.word 1 1, count⟩

/-- Reads the number of extents and the first of them, four bytes each. -/
def PageRequest.extentsOfPayload (p : Payload) : Except Status PageRequest := do
  let count ← p.word 0 4
  return ⟨← p.word 4 4, count⟩

/-- Where a region lies; the decoded size in capacity units. -/
def Region.toPayload (r : Region) : Payload :=
  littleEndian 8 r.base ++ littleEndian 8 (r.decodeLength / capacityUnit) ++
    littleEndian 8 r.length ++ littleEndian 8 r.blockSize ++
    littleEndian 4 r.dsmadHandle.toNat ++ [r.flags] ++ zeros 3

/-- The number of regions and the regions. -/
def regionPagePayload (regions : List Region) : Payload :=
  [UInt8.ofNat regions.length] ++ zeros 7 ++ regions.flatMap (·.toPayload)

/-- Where an extent lies, its tag and its sequence number. -/
def Extent.toPayload (e : Extent) : Payload :=
  littleEndian 8 e.start ++ littleEndian 8 e.length ++ e.tag.toList ++
    littleEndian 2 e.sequenceNumber.toNat ++ zeros 6

/-- A part of the ledger. -/
structure ExtentPage where
  extents : List Extent
  /-- How many extents the ledger has. -/
  total : Nat
  generation : UInt32
  deriving DecidableEq, Repr

namespace ExtentPage

/-- Bytes before the extents. -/
def headerLength : Nat := 16

/-- Bytes of an extent. -/
def extentLength : Nat := 40

/-- The extents that a response of `room` bytes holds. -/
def extentLimit (room : Nat) : Nat := (room - headerLength) / extentLength

/-- The numbers of extents here and in the ledger, the generation, and the extents. -/
def toPayload (p : ExtentPage) : Payload :=
  littleEndian 4 p.extents.length ++ littleEndian 4 p.total ++
    littleEndian 4 p.generation.toNat ++ zeros 4 ++ p.extents.flatMap (·.toPayload)

end ExtentPage

namespace AddressRange

/-- Bytes before the ranges of a batch. -/
def batchHeader : Nat := 8

/-- Bytes of a range in a batch. -/
def batchEntry : Nat := 24

/-- The first `count` ranges: start, length, and eight more bytes each. -/
def batchEntries : (count : Nat) → Payload → List AddressRange
  | 0, _ => []
  | count + 1, p =>
    ⟨ofLittleEndian (p.take 8), ofLittleEndian ((p.drop 8).take 8)⟩ ::
      batchEntries count (p.drop batchEntry)

/-- Reads a batch: the number of ranges, four more bytes, and the ranges. What follows them says
nothing. -/
def batchOfPayload (p : Payload) : Except Status (List AddressRange) :=
  if p.length < batchHeader then .error .invalidPayloadLength
  else
    let count := ofLittleEndian (p.take 4)
    if p.length < batchHeader + count * batchEntry then .error .invalidPayloadLength
    else .ok (batchEntries count (p.drop batchHeader))

end AddressRange

end CxlEndpoint
