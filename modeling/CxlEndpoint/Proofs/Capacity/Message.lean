import CxlEndpoint.Message.Capacity

/-!
# The host's side of extent messages

* `PageRequest.extentRequest`: the request for a part of the ledger, which
  `extentsOfPayload_extentRequest` says is read as such.
* `Extent.ofPayload?`, `ExtentPage.ofPayload?`: what the host reads of forty bytes, and of a page.
  The number of extents that the page names must be the number of extents that are there.
* `ExtentPage.ofPayload?_toPayload`: the host reads the page that was written.
* `BatchMessage`: a batch of ranges that the host writes, with what it puts into the bytes that say
  nothing. `BatchMessage.batchOfPayload_toPayload`: the device reads these ranges.
-/

namespace CxlEndpoint

/-! ## Requests -/

namespace PageRequest

variable {r : PageRequest}

/-- The request for a part of the ledger. -/
def extentRequest (r : PageRequest) : Payload := littleEndian 4 r.count ++ littleEndian 4 r.first

theorem length_extentRequest (r : PageRequest) : r.extentRequest.length = 8 := by
  simp [extentRequest]

theorem extentsOfPayload_extentRequest (hfirst : r.first < 1 <<< 32) (hcount : r.count < 1 <<< 32) :
    extentsOfPayload r.extentRequest = .ok r := by
  have hnumber : r.extentRequest.word 0 4 = .ok r.count :=
    Payload.word_append List.length_nil hcount
  have hstart : r.extentRequest.word 4 4 = .ok r.first :=
    Payload.word_concat (length_littleEndian ..) hfirst
  rw [extentsOfPayload, hnumber]
  simp only [bind, Except.bind, hstart]
  rfl

end PageRequest

/-! ## Extents -/

namespace Extent

variable {e : Extent}

/-- Reads a start, a length, a tag and a sequence number. -/
def ofPayload? (p : Payload) : Option Extent :=
  (p.bytes 16 16).toOption.map fun tag =>
    { start := ofLittleEndian (p.take 8)
      length := ofLittleEndian ((p.drop 8).take 8)
      tag
      sequenceNumber := UInt16.ofNat (ofLittleEndian ((p.drop 32).take 2)) }

theorem length_toPayload (e : Extent) : e.toPayload.length = ExtentPage.extentLength := by
  simp only [toPayload, List.length_append, length_littleEndian, length_zeros, Vector.length_toList,
    ExtentPage.extentLength]

theorem ofPayload?_toPayload (hstart : e.start ≤ Word.last) (hlength : e.length ≤ Word.last) :
    ofPayload? e.toPayload = some e := by
  have hword : Word.last < 1 <<< (8 * 8) := by decide
  have hfirst : e.toPayload.take 8 = littleEndian 8 e.start := by
    simp only [toPayload, List.append_assoc]
    exact List.take_left' (length_littleEndian ..)
  have hsecond : (e.toPayload.drop 8).take 8 = littleEndian 8 e.length := by
    simp only [toPayload, List.append_assoc]
    exact take_drop_append (length_littleEndian ..) (length_littleEndian ..)
  have htag : e.toPayload.bytes 16 16 = .ok e.tag := by
    rw [toPayload, List.append_assoc, List.append_assoc]
    exact Payload.bytes_append (by simp)
  have hsequence : (e.toPayload.drop 32).take 2 = littleEndian 2 e.sequenceNumber.toNat := by
    rw [toPayload, List.append_assoc]
    exact take_drop_append (by simp) (length_littleEndian ..)
  have hnumber : e.sequenceNumber.toNat < 1 <<< (8 * 2) := e.sequenceNumber.toNat_lt
  rw [ofPayload?, hfirst, hsecond, htag, hsequence,
    ofLittleEndian_of_lt (Nat.lt_of_le_of_lt hstart hword),
    ofLittleEndian_of_lt (Nat.lt_of_le_of_lt hlength hword), ofLittleEndian_of_lt hnumber]
  simp [Except.toOption]

end Extent

/-! ## Pages -/

namespace ExtentPage

variable {p : ExtentPage}

/-- Reads a page that is as long as the number of its extents says. -/
def ofPayload? (p : Payload) : Option ExtentPage :=
  let count := ofLittleEndian (p.take 4)
  if p.length = headerLength + extentLength * count then
    (Payload.readRecords extentLength Extent.ofPayload? count (p.drop headerLength)).map
      fun extents =>
        { extents
          total := ofLittleEndian ((p.drop 4).take 4)
          generation := UInt32.ofNat (ofLittleEndian ((p.drop 8).take 4)) }
  else none

theorem length_toPayload (p : ExtentPage) :
    p.toPayload.length = headerLength + extentLength * p.extents.length := by
  simp only [toPayload, List.length_append, length_littleEndian, length_zeros,
    Payload.length_flatMap Extent.length_toPayload, headerLength]

theorem ofPayload?_toPayload (htotal : p.total < 1 <<< 32) (hcount : p.extents.length ≤ p.total)
    (h : ∀ e ∈ p.extents, e.start ≤ Word.last ∧ e.length ≤ Word.last) :
    ofPayload? p.toPayload = some p := by
  have hfirst : p.toPayload.take 4 = littleEndian 4 p.extents.length := by
    simp only [toPayload, List.append_assoc]
    exact List.take_left' (length_littleEndian ..)
  have hsecond : (p.toPayload.drop 4).take 4 = littleEndian 4 p.total := by
    simp only [toPayload, List.append_assoc]
    exact take_drop_append (length_littleEndian ..) (length_littleEndian ..)
  have hthird : (p.toPayload.drop 8).take 4 = littleEndian 4 p.generation.toNat := by
    rw [toPayload, List.append_assoc, List.append_assoc]
    exact take_drop_append (by simp) (length_littleEndian ..)
  have hextents : p.toPayload.drop headerLength = p.extents.flatMap (·.toPayload) := by
    rw [toPayload, List.drop_left' (by simp [headerLength])]
  have hread := Payload.readRecords_flatMap Extent.length_toPayload fun e he =>
    Extent.ofPayload?_toPayload (h e he).1 (h e he).2
  have hgeneration : p.generation.toNat < 1 <<< (8 * 4) := p.generation.toNat_lt
  have hnumber : ofLittleEndian (littleEndian 4 p.extents.length) = p.extents.length :=
    ofLittleEndian_of_lt (Nat.lt_of_le_of_lt hcount htotal)
  have hall : ofLittleEndian (littleEndian 4 p.total) = p.total := ofLittleEndian_of_lt htotal
  simp only [ofPayload?, hfirst, hsecond, hthird, hextents, hnumber, hall,
    ofLittleEndian_of_lt hgeneration, length_toPayload, UInt32.ofNat_toNat, hread, if_true,
    Option.map_some]

end ExtentPage

/-! ## Batches -/

/-- A range of a batch as the host writes it, with eight bytes that say nothing. -/
structure BatchEntry where
  start : UInt64
  length : UInt64
  reserved : Vector UInt8 8
  deriving DecidableEq

namespace BatchEntry

/-- The range that the host means. -/
def range (e : BatchEntry) : AddressRange := ⟨e.start.toNat, e.length.toNat⟩

def toPayload (e : BatchEntry) : Payload :=
  littleEndian 8 e.start.toNat ++ littleEndian 8 e.length.toNat ++ e.reserved.toList

theorem length_toPayload (e : BatchEntry) : e.toPayload.length = AddressRange.batchEntry := by
  simp only [toPayload, List.length_append, length_littleEndian, Vector.length_toList,
    AddressRange.batchEntry]

/-- Each entry is read as its range, whatever follows. -/
theorem batchEntries_flatMap (entries : List BatchEntry) (rest : Payload) :
    AddressRange.batchEntries entries.length (entries.flatMap (·.toPayload) ++ rest) =
      entries.map (·.range) := by
  induction entries with
  | nil => rfl
  | cons e entries ih =>
    have hstart : (e.toPayload ++ (entries.flatMap (·.toPayload) ++ rest)).take 8 =
        littleEndian 8 e.start.toNat := by
      simp only [toPayload, List.append_assoc]
      exact List.take_left' (length_littleEndian ..)
    have hlength : ((e.toPayload ++ (entries.flatMap (·.toPayload) ++ rest)).drop 8).take 8 =
        littleEndian 8 e.length.toNat := by
      simp only [toPayload, List.append_assoc]
      exact take_drop_append (length_littleEndian ..) (length_littleEndian ..)
    rw [List.length_cons, AddressRange.batchEntries, List.flatMap_cons, List.append_assoc, hstart,
      hlength, List.drop_left' e.length_toPayload, ih, ofLittleEndian_of_lt e.start.toNat_lt,
      ofLittleEndian_of_lt e.length.toNat_lt]
    rfl

end BatchEntry

/-- A batch of ranges as the host writes it. -/
structure BatchMessage where
  reserved : Vector UInt8 4
  entries : List BatchEntry
  /-- What follows the ranges. -/
  trailing : Payload
  few : entries.length < 1 <<< 32

namespace BatchMessage

/-- The ranges that the host means. -/
def ranges (m : BatchMessage) : List AddressRange := m.entries.map (·.range)

/-- The number of ranges, four bytes that say nothing, the ranges, and what follows. -/
def toPayload (m : BatchMessage) : Payload :=
  littleEndian 4 m.entries.length ++ m.reserved.toList ++
    (m.entries.flatMap (·.toPayload) ++ m.trailing)

theorem batchOfPayload_toPayload (m : BatchMessage) :
    AddressRange.batchOfPayload m.toPayload = .ok m.ranges := by
  have hheader : (littleEndian 4 m.entries.length ++ m.reserved.toList).length =
      AddressRange.batchHeader := by
    simp [AddressRange.batchHeader]
  have hcount : ofLittleEndian (m.toPayload.take 4) = m.entries.length := by
    rw [toPayload, List.append_assoc, List.take_left' (length_littleEndian ..),
      ofLittleEndian_of_lt m.few]
  have hlength : m.toPayload.length = AddressRange.batchHeader +
      (AddressRange.batchEntry * m.entries.length + m.trailing.length) := by
    rw [toPayload, List.length_append, hheader, List.length_append,
      Payload.length_flatMap BatchEntry.length_toPayload]
  have hlong : ¬ m.toPayload.length <
      AddressRange.batchHeader + m.entries.length * AddressRange.batchEntry := by
    rw [hlength, Nat.mul_comm]
    omega
  unfold AddressRange.batchOfPayload
  simp only [hcount]
  rw [if_neg (by omega), if_neg hlong, toPayload, List.drop_left' hheader,
    BatchEntry.batchEntries_flatMap]
  rfl

end BatchMessage

end CxlEndpoint
