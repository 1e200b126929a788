import CxlEndpoint.Status

/-!
# Payloads and their little-endian fields

A payload is a list of bytes. A message is written as the concatenation of its fields and read by
offset and width.

* `littleEndian width n`: the low `width` bytes of `n`, the least first; `ofLittleEndian` reads
  them back (`ofLittleEndian_littleEndian`).
* `Payload.word`, `Payload.bytes`: the field at an offset. A field that reaches past the end is a
  length error. `word_append`, `word_concat`, `bytes_append`, `bytes_concat`: what was written
  there is read.
* `Payload.readRecords`: records of the same length, one behind the other.
-/

namespace CxlEndpoint

/-- The bytes of a request or of a response. -/
abbrev Payload := List UInt8

/-- The number whose bytes are given, the least significant first. -/
def ofLittleEndian : List UInt8 → Nat
  | [] => 0
  | b :: rest => b.toNat + 256 * ofLittleEndian rest

/-- The low `width` bytes of `n`, the least significant first. -/
def littleEndian : (width n : Nat) → Payload
  | 0, _ => []
  | width + 1, n => UInt8.ofNat n :: littleEndian width (n / 256)

@[simp] theorem length_littleEndian (width n : Nat) : (littleEndian width n).length = width := by
  induction width generalizing n with
  | zero => rfl
  | succ w ih => simp [littleEndian, ih]

theorem ofLittleEndian_littleEndian (width n : Nat) :
    ofLittleEndian (littleEndian width n) = n % 1 <<< (8 * width) := by
  induction width generalizing n with
  | zero => simp [littleEndian, ofLittleEndian, Nat.mod_one]
  | succ w ih =>
    rw [littleEndian, ofLittleEndian, ih, Nat.one_shiftLeft, Nat.one_shiftLeft, Nat.mul_succ,
      Nat.pow_add', Nat.mod_mul]
    simp

theorem ofLittleEndian_of_lt {width n : Nat} (h : n < 1 <<< (8 * width)) :
    ofLittleEndian (littleEndian width n) = n := by
  rw [ofLittleEndian_littleEndian, Nat.mod_eq_of_lt h]

/-- The field between what comes before it and what comes behind it. -/
theorem take_drop_append {front field back : Payload} {offset width : Nat}
    (hfront : front.length = offset) (hfield : field.length = width) :
    ((front ++ (field ++ back)).drop offset).take width = field := by
  rw [List.drop_left' hfront, List.take_left' hfield]

/-- `n` zero bytes. -/
def zeros (n : Nat) : Payload := List.replicate n 0

@[simp] theorem length_zeros (n : Nat) : (zeros n).length = n := List.length_replicate

namespace Payload

/-- The `width` bytes at `offset` as a number. -/
def word (p : Payload) (offset width : Nat) : Except Status Nat :=
  if offset + width ≤ p.length then .ok (ofLittleEndian ((p.drop offset).take width))
  else .error .invalidPayloadLength

/-- The `n` bytes at `offset`. -/
def bytes (p : Payload) (offset n : Nat) : Except Status (Vector UInt8 n) :=
  let field := (p.drop offset).take n
  if h : field.length = n then .ok ⟨field.toArray, by simpa using h⟩
  else .error .invalidPayloadLength

/-- The field has the low bytes of a number that is too great for it. -/
theorem word_append_mod {front back : Payload} {offset width n : Nat}
    (hfront : front.length = offset) :
    (front ++ (littleEndian width n ++ back)).word offset width = .ok (n % 1 <<< (8 * width)) := by
  have hfits : offset + width ≤ (front ++ (littleEndian width n ++ back)).length := by
    simp [hfront]
  rw [word, if_pos hfits, take_drop_append hfront (length_littleEndian ..),
    ofLittleEndian_littleEndian]

theorem word_append {front back : Payload} {offset width n : Nat} (hfront : front.length = offset)
    (hn : n < 1 <<< (8 * width)) :
    (front ++ (littleEndian width n ++ back)).word offset width = .ok n := by
  rw [word_append_mod hfront, Nat.mod_eq_of_lt hn]

/-- A field of one byte. -/
theorem word_append_byte {front back : Payload} {offset : Nat} {b : UInt8}
    (hfront : front.length = offset) :
    (front ++ (b :: back)).word offset 1 = .ok b.toNat := by
  have hbyte : b :: back = littleEndian 1 b.toNat ++ back := by simp [littleEndian]
  rw [hbyte]
  exact word_append hfront b.toNat_lt

theorem bytes_append {front back : Payload} {offset n : Nat} {field : Vector UInt8 n}
    (hfront : front.length = offset) :
    (front ++ (field.toList ++ back)).bytes offset n = .ok field := by
  have hfield : ((front ++ (field.toList ++ back)).drop offset).take n = field.toList :=
    take_drop_append hfront field.length_toList
  unfold bytes
  simp only [hfield]
  rw [dif_pos field.length_toList]
  simp [Vector.toList]

/-- The last field. -/
theorem word_concat {front : Payload} {offset width n : Nat} (hfront : front.length = offset)
    (hn : n < 1 <<< (8 * width)) : (front ++ littleEndian width n).word offset width = .ok n := by
  have h : (front ++ (littleEndian width n ++ [])).word offset width = .ok n :=
    word_append hfront hn
  rwa [List.append_nil] at h

theorem bytes_concat {front : Payload} {offset n : Nat} {field : Vector UInt8 n}
    (hfront : front.length = offset) : (front ++ field.toList).bytes offset n = .ok field := by
  have h : (front ++ (field.toList ++ [])).bytes offset n = .ok field := bytes_append hfront
  rwa [List.append_nil] at h

/-- `p` followed by zeros, or cut, so that it is `n` bytes long. -/
def fit (n : Nat) (p : Payload) : Payload := p.take n ++ zeros (n - p.length)

@[simp] theorem length_fit (n : Nat) (p : Payload) : (p.fit n).length = n := by
  simp [fit]; omega

/-- Records of the same length, one behind the other. -/
theorem length_flatMap {α : Type} {write : α → Payload} {width : Nat}
    (h : ∀ a, (write a).length = width) (records : List α) :
    (records.flatMap write).length = width * records.length := by
  have hwidths : records.map (fun a => (write a).length) = List.replicate records.length width :=
    (List.map_congr_left fun a _ => h a).trans (List.map_const' ..)
  rw [List.length_flatMap, hwidths, List.sum_replicate_nat, Nat.mul_comm]

/-- As many records as there is room for behind a header. -/
theorem records_fit {header width room n : Nat} (h : header ≤ room)
    (hn : n ≤ (room - header) / width) : header + width * n ≤ room := by
  have hrecords := Nat.mul_le_mul_left width hn
  have hroom : width * ((room - header) / width) ≤ room - header := Nat.mul_div_le _ _
  omega

/-- Reads `n` records of `width` bytes each, one behind the other. -/
def readRecords {α : Type} (width : Nat) (read : Payload → Option α) :
    (n : Nat) → Payload → Option (List α)
  | 0, _ => some []
  | n + 1, p => do
    let a ← read (p.take width)
    return a :: (← readRecords width read n (p.drop width))

/-- Of every record is read what there is to read of it. -/
theorem readRecords_flatMap_map {α β : Type} {write : α → Payload} {read : Payload → Option β}
    {width : Nat} {told : α → β} (hwidth : ∀ a, (write a).length = width) {records : List α}
    (hread : ∀ a ∈ records, read (write a) = some (told a)) :
    readRecords width read records.length (records.flatMap write) = some (records.map told) := by
  induction records with
  | nil => rfl
  | cons a rest ih =>
    obtain ⟨ha, hrest⟩ := List.forall_mem_cons.mp hread
    rw [List.length_cons, readRecords, List.flatMap_cons, List.take_left' (hwidth a),
      List.drop_left' (hwidth a), ha, ih hrest]
    rfl

theorem readRecords_flatMap {α : Type} {write : α → Payload} {read : Payload → Option α}
    {width : Nat} (hwidth : ∀ a, (write a).length = width) {records : List α}
    (hread : ∀ a ∈ records, read (write a) = some a) :
    readRecords width read records.length (records.flatMap write) = some records := by
  have htold : readRecords width read records.length (records.flatMap write) =
      some (records.map id) := readRecords_flatMap_map hwidth hread
  rwa [List.map_id] at htold

/-- The characters of an ASCII text, zero padded to `n` bytes. -/
def ofText (n : Nat) (s : String) : Payload := fit n (s.toList.map fun c => UInt8.ofNat c.toNat)

end Payload

end CxlEndpoint
