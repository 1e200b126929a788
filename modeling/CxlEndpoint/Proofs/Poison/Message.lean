import CxlEndpoint.Message.Poison
import CxlEndpoint.Proofs.Poison.Lines

/-!
# The host's side of poison messages

* `Range.request`: the request to list a range. If the range is `Readable`, it is read as such.
* `Record.ofPayload?`: what the host reads of sixteen bytes. `ofPayload?_toPayload`: it is the
  record that was written, if that is `Encodable`. Of a record with too many lines it is `told`.
* `ListPage.ofPayload?`: a page of the poison list. The number of records that it names must be the
  number of records that are there. `ListPage.ofPayload?_toPayload`: the page that was written.
* `ResultPage.ofPayload?`, `ResultPage.ofPayload?_toPayload`: the same for a page of scan results.
-/

namespace CxlEndpoint.Poison

/-! ## Requests -/

/-- The request for the part of the poison list in a range. -/
def Range.request (r : Range) : Payload := littleEndian 8 r.start ++ littleEndian 8 r.lines

theorem Range.length_request (r : Range) : r.request.length = 16 := by simp [request]

/-- A range that the host can ask for. It may be empty, and it may reach over the last word. -/
structure Range.Readable (r : Range) : Prop where
  aligned : LineAligned r.start
  start_le : r.start ≤ Word.last
  lines_le : r.lines ≤ Word.last

/-- A range of two words is read, whatever follows it. -/
theorem Range.ofPayload_request_append {r : Range} (hstart : r.start ≤ Word.last)
    (hlines : r.lines ≤ Word.last) (back : Payload) : ofPayload (r.request ++ back) = .ok r := by
  have hfirst : (r.request ++ back).word 0 8 = .ok r.start := by
    rw [request, List.append_assoc]
    exact Payload.word_append List.length_nil (Nat.lt_of_le_of_lt hstart (by decide))
  have hsecond : (r.request ++ back).word 8 8 = .ok r.lines := by
    rw [request, List.append_assoc]
    exact Payload.word_append (length_littleEndian ..) (Nat.lt_of_le_of_lt hlines (by decide))
  rw [ofPayload, hfirst]
  simp only [bind, Except.bind, hsecond]
  rfl

theorem Range.Readable.alignedOfPayload_request {r : Range} (h : r.Readable) :
    alignedOfPayload r.request = .ok r := by
  have hread := ofPayload_request_append h.start_le h.lines_le []
  rw [List.append_nil] at hread
  rw [alignedOfPayload, hread]
  exact if_pos h.aligned

/-! ## Records -/

/-- The kind that three bits stand for. -/
def Kind.ofCode? : Nat → Option Kind
  | 1 => some external
  | 2 => some internal
  | 3 => some injected
  | 7 => some vendor
  | _ => none

theorem Kind.ofCode?_code (k : Kind) : ofCode? k.code = some k := by cases k <;> rfl

theorem Kind.code_lt (k : Kind) : k.code < 8 := by cases k <;> decide

namespace Record

variable {r : Record}

/-- Reads an address with a kind in its low bits, and a number of cache lines. -/
def ofPayload? (p : Payload) : Option Record :=
  let address := ofLittleEndian (p.take 8)
  let lines := ofLittleEndian ((p.drop 8).take 4)
  (Kind.ofCode? (address % 8)).map fun kind => ⟨lineStart address, lines * lineBytes, kind⟩

/-- As much of a record as its sixteen bytes tell: no more lines than the number has bits for. -/
def told (r : Record) : Record :=
  { r with length := min (r.length / lineBytes) Word.last32 * lineBytes }

/-- Whole lines, whose number and address fit into their fields. -/
structure Encodable (r : Record) : Prop where
  start_aligned : LineAligned r.start
  length_aligned : LineAligned r.length
  start_le : r.start ≤ lastLine
  lines_le : r.length / lineBytes ≤ Word.last32

theorem Encodable.ofPayload?_toPayload (h : r.Encodable) : ofPayload? r.toPayload = some r := by
  have hcode := r.kind.code_lt
  have haddress : ofLittleEndian (littleEndian 8 (lineStart r.start + r.kind.code)) =
      r.start + r.kind.code := by
    have hle := h.start_le
    rw [h.start_aligned.lineStart_eq]
    refine ofLittleEndian_of_lt (Nat.lt_of_le_of_lt (Nat.add_le_add_left (Nat.le_of_lt hcode) _) ?_)
    exact Nat.lt_of_le_of_lt (Nat.add_le_add_right hle 8) (by decide)
  have hlines : ofLittleEndian (littleEndian 4 (min (r.length / lineBytes) Word.last32)) =
      r.length / lineBytes := by
    rw [Nat.min_eq_left h.lines_le]
    exact ofLittleEndian_of_lt (Nat.lt_of_le_of_lt h.lines_le (by decide))
  have hfirst : r.toPayload.take 8 = littleEndian 8 (lineStart r.start + r.kind.code) := by
    rw [toPayload, List.append_assoc, List.take_left' (length_littleEndian ..)]
  have hsecond : (r.toPayload.drop 8).take 4 =
      littleEndian 4 (min (r.length / lineBytes) Word.last32) := by
    rw [toPayload, List.append_assoc]
    exact take_drop_append (length_littleEndian ..) (length_littleEndian ..)
  have hstart : lineStart (r.start + r.kind.code) = r.start := by
    have haligned := h.start_aligned
    simp only [LineAligned, lineStart, lineBytes] at *
    omega
  have hkind : (r.start + r.kind.code) % 8 = r.kind.code := by
    have haligned := h.start_aligned
    simp only [LineAligned, lineBytes] at haligned
    omega
  have hlength : r.length / lineBytes * lineBytes = r.length :=
    Nat.div_mul_cancel (Nat.dvd_of_mod_eq_zero h.length_aligned)
  simp only [ofPayload?, hfirst, hsecond, haddress, hlines, hkind, Kind.ofCode?_code, hstart,
    hlength, Option.map_some]

theorem lines_told (r : Record) :
    r.told.length / lineBytes = min (r.length / lineBytes) Word.last32 :=
  Nat.mul_div_cancel _ (by decide)

/-- On the wire there is no difference. -/
theorem toPayload_told (r : Record) : r.told.toPayload = r.toPayload := by
  rw [toPayload, toPayload, lines_told, Nat.min_eq_left (Nat.min_le_right _ _)]
  rfl

theorem encodable_told (haligned : LineAligned r.start) (hstart : r.start ≤ lastLine) :
    r.told.Encodable :=
  ⟨haligned, Nat.mul_mod_left _ _, hstart, by
    rw [lines_told]
    exact Nat.min_le_right _ _⟩

end Record

theorem length_toPayload_record (r : Record) : r.toPayload.length = recordLength := by
  simp only [Record.toPayload, List.length_append, length_littleEndian, length_zeros, recordLength]

/-! ## Pages -/

namespace ListPage

/-- Reads a page that is as long as the number of its records says. -/
def ofPayload? (p : Payload) : Option ListPage :=
  let flags := (p.headD 0).toNat
  let count := ofLittleEndian ((p.drop 10).take 2)
  if p.length = headerLength + recordLength * count then
    (Payload.readRecords recordLength Record.ofPayload? count (p.drop headerLength)).map
      fun records =>
        { more := flags.testBit 0
          overflowedAt :=
            if flags.testBit 1 then some (UInt64.ofNat (ofLittleEndian ((p.drop 2).take 8)))
            else none
          scanning := flags.testBit 2
          records }
  else none

theorem length_toPayload (p : ListPage) :
    p.toPayload.length = headerLength + recordLength * p.records.length := by
  simp only [toPayload, List.length_append, length_littleEndian, length_zeros, List.length_cons,
    List.length_nil, Payload.length_flatMap length_toPayload_record, headerLength]

/-- The flag byte has a bit for each of three flags. -/
theorem testBit_flags (more overflowed scanning : Bool) :
    let flags := UInt8.ofNat
      ((if more then 1 else 0) + (if overflowed then 2 else 0) + if scanning then 4 else 0)
    flags.toNat.testBit 0 = more ∧ flags.toNat.testBit 1 = overflowed ∧
      flags.toNat.testBit 2 = scanning := by
  cases more <;> cases overflowed <;> cases scanning <;> decide

theorem ofPayload?_toPayload {p : ListPage} (h : ∀ r ∈ p.records, r.Encodable)
    (hcount : p.records.length < 1 <<< 16) : ofPayload? p.toPayload = some p := by
  obtain ⟨hmore, hoverflowed, hscanning⟩ :=
    testBit_flags p.more p.overflowedAt.isSome p.scanning
  have hflags : p.toPayload.headD 0 = UInt8.ofNat ((if p.more then 1 else 0) +
      (if p.overflowedAt.isSome then 2 else 0) + if p.scanning then 4 else 0) := rfl
  have hnumber : ofLittleEndian ((p.toPayload.drop 10).take 2) = p.records.length := by
    rw [toPayload, List.append_assoc, List.append_assoc,
      take_drop_append (by simp) (length_littleEndian ..), ofLittleEndian_of_lt hcount]
  have htime : (if p.overflowedAt.isSome then
      some (UInt64.ofNat (ofLittleEndian ((p.toPayload.drop 2).take 8))) else none) =
        p.overflowedAt := by
    have hfield : (p.toPayload.drop 2).take 8 =
        littleEndian 8 (p.overflowedAt.elim 0 (·.toNat)) := by
      rw [toPayload, List.append_assoc, List.append_assoc, List.append_assoc]
      exact take_drop_append (by simp) (length_littleEndian ..)
    rw [hfield]
    cases p.overflowedAt with
    | none => rfl
    | some time =>
      have hword : time.toNat < 1 <<< (8 * 8) := time.toNat_lt
      simp [ofLittleEndian_of_lt hword]
  have hrecords : p.toPayload.drop headerLength = p.records.flatMap (·.toPayload) := by
    rw [toPayload, List.drop_left' (by simp [headerLength])]
  have hread := Payload.readRecords_flatMap length_toPayload_record fun r hr =>
    (h r hr).ofPayload?_toPayload
  simp only [ofPayload?, hflags, hmore, hoverflowed, hscanning, hnumber, htime, hrecords, hread,
    length_toPayload, if_true, Option.map_some]

/-- As much of a page as its bytes tell. -/
def told (p : ListPage) : ListPage := { p with records := p.records.map (·.told) }

/-- Of records that are too long, the host reads as much as it is told. -/
theorem ofPayload?_toPayload_told {p : ListPage}
    (h : ∀ r ∈ p.records, LineAligned r.start ∧ r.start ≤ lastLine)
    (hcount : p.records.length < 1 <<< 16) : ofPayload? p.toPayload = some p.told := by
  have hcut : p.told.records.length = p.records.length := List.length_map ..
  have hrecords : p.told.records.flatMap (·.toPayload) = p.records.flatMap (·.toPayload) := by
    simp only [told, List.flatMap_map, Record.toPayload_told]
  have hsame : p.told.toPayload = p.toPayload := by
    rw [toPayload, hcut, hrecords]
    rfl
  rw [← hsame]
  apply ofPayload?_toPayload
  · intro t ht
    obtain ⟨r, hr, rfl⟩ := List.mem_map.mp ht
    exact Record.encodable_told (h r hr).1 (h r hr).2
  · rwa [hcut]

end ListPage

namespace ResultPage

/-- The number of records that a page names. -/
def countOf (p : Payload) : Nat := ofLittleEndian ((p.drop 18).take 2)

/-- The page says that results are left. -/
def moreOf (p : Payload) : Bool := (p.getD 16 0).toNat.testBit 0

/-- Reads a page that is as long as the number of its records says. -/
def ofPayload? (p : Payload) : Option ResultPage :=
  if p.length = headerLength + recordLength * countOf p then
    (Payload.readRecords recordLength Record.ofPayload? (countOf p) (p.drop headerLength)).map
      fun records =>
        { records
          rest :=
            if moreOf p then some (ofLittleEndian (p.take 8), ofLittleEndian ((p.drop 8).take 8))
            else none }
  else none

theorem length_toPayload (p : ResultPage) :
    p.toPayload.length = headerLength + recordLength * p.records.length := by
  simp only [toPayload, List.length_append, length_littleEndian, length_zeros, List.length_cons,
    List.length_nil, Payload.length_flatMap length_toPayload_record, headerLength]

theorem countOf_toPayload {p : ResultPage} (h : p.records.length < 1 <<< 16) :
    countOf p.toPayload = p.records.length := by
  rw [countOf, toPayload, List.append_assoc, List.append_assoc,
    take_drop_append (by simp) (length_littleEndian ..), ofLittleEndian_of_lt h]

theorem moreOf_toPayload (p : ResultPage) : moreOf p.toPayload = p.rest.isSome := by
  have hflag : p.toPayload.getD 16 0 = if p.rest.isSome then 1 else 0 := by
    simp only [toPayload, List.append_assoc]
    rw [← List.append_assoc, List.getD_eq_getElem?_getD, List.getElem?_append_right (by simp)]
    simp
  rw [moreOf, hflag]
  generalize p.rest.isSome = more
  cases more <;> decide

theorem ofPayload?_toPayload {p : ResultPage} (h : ∀ r ∈ p.records, r.Encodable)
    (hcount : p.records.length < 1 <<< 16)
    (hrest : ∀ range, p.rest = some range → range.1 ≤ Word.last ∧ range.2 ≤ Word.last) :
    ofPayload? p.toPayload = some p := by
  have hstart : p.toPayload.take 8 = littleEndian 8 (p.rest.elim 0 (·.1)) := by
    simp only [toPayload, List.append_assoc]
    exact List.take_left' (length_littleEndian ..)
  have hlength : (p.toPayload.drop 8).take 8 = littleEndian 8 (p.rest.elim 0 (·.2)) := by
    simp only [toPayload, List.append_assoc]
    exact take_drop_append (length_littleEndian ..) (length_littleEndian ..)
  have hrange : (if p.rest.isSome then
      some (ofLittleEndian (p.toPayload.take 8), ofLittleEndian ((p.toPayload.drop 8).take 8))
        else none) = p.rest := by
    rw [hstart, hlength]
    cases hsome : p.rest with
    | none => rfl
    | some range =>
      obtain ⟨hfirst, hsecond⟩ := hrest range hsome
      have hword : Word.last < 1 <<< (8 * 8) := by decide
      simp only [Option.isSome_some, if_true, Option.elim_some,
        ofLittleEndian_of_lt (Nat.lt_of_le_of_lt hfirst hword),
        ofLittleEndian_of_lt (Nat.lt_of_le_of_lt hsecond hword)]
  have hrecords : p.toPayload.drop headerLength = p.records.flatMap (·.toPayload) := by
    rw [toPayload, List.drop_left' (by simp [headerLength])]
  have hread := Payload.readRecords_flatMap length_toPayload_record fun r hr =>
    (h r hr).ofPayload?_toPayload
  rw [ofPayload?, countOf_toPayload hcount, if_pos p.length_toPayload, hrecords, hread,
    Option.map_some, moreOf_toPayload, hrange]

end ResultPage

end CxlEndpoint.Poison
