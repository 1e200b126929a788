import CxlEndpoint.Proofs.Endpoint.MemoryDevice

/-!
# Label storage is an array of bytes

* `overlay`: an array of bytes of which some are given anew.
* `LabelWrite.byte?`: what a write has for an address. `Memory.labels_writeLabels`: a write gives
  it. `Memory.getElem?_readLabels`: what a read tells.
* `LabelWindow.request`, `LabelWrite.request`: how the host asks for them.
* `MemoryDevice.Serves.labels_of_ne`: nothing but a write of labels changes labels on request.
-/

namespace CxlEndpoint

/-- An array of bytes after some of them have been given anew. -/
def overlay (given : Nat → Option UInt8) (bytes : List UInt8) : List UInt8 :=
  bytes.mapIdx fun address old => (given address).getD old

section Overlay

variable (given : Nat → Option UInt8) (bytes : List UInt8)

theorem getElem?_overlay (address : Nat) :
    (overlay given bytes)[address]? =
      bytes[address]?.map fun old => (given address).getD old :=
  List.getElem?_mapIdx

theorem overlay_none : overlay (fun _ => none) bytes = bytes := by
  apply List.ext_getElem?
  intro address
  rw [getElem?_overlay]
  cases bytes[address]? <;> rfl

theorem overlay_some (byte : UInt8) :
    overlay (fun _ => some byte) bytes = List.replicate bytes.length byte := by
  apply List.ext_getElem?
  intro address
  rw [getElem?_overlay, List.getElem?_replicate]
  split
  next h => rw [List.getElem?_eq_getElem h]; rfl
  next h => rw [List.getElem?_eq_none (Nat.le_of_not_lt h)]; rfl

end Overlay

/-- The byte that the write has for an address, if it covers it. -/
def LabelWrite.byte? (w : LabelWrite) (address : Nat) : Option UInt8 :=
  if w.offset ≤ address then w.data[address - w.offset]? else none

namespace Memory

variable {m : Memory} {offset length : Nat}

theorem length_writeLabels (m : Memory) (offset : Nat) (data : Payload) :
    (m.writeLabels offset data).labels.length = m.labels.length := by
  simp only [writeLabels, List.length_append, List.length_take, List.length_drop]
  omega

/-- The labels that a write covers are what it gives, and the others are as they were. -/
theorem labels_writeLabels (m : Memory) (w : LabelWrite) :
    (m.writeLabels w.offset w.data).labels = overlay w.byte? m.labels := by
  apply List.ext_getElem?
  intro a
  rw [getElem?_overlay]
  rcases Nat.lt_or_ge a m.labels.length with hin | hout
  · simp only [writeLabels, List.append_assoc, List.getElem?_append, List.length_take,
      List.getElem?_take, List.getElem?_drop, LabelWrite.byte?, List.getElem?_eq_getElem hin,
      Option.map_some]
    rcases Nat.lt_or_ge a w.offset with hbefore | hfrom
    · rw [if_pos (by omega), if_pos (by omega), if_neg (by omega)]
      rfl
    · have hstart : min w.offset m.labels.length = w.offset := Nat.min_eq_left (by omega)
      simp only [hstart, if_pos hfrom, if_neg (Nat.not_lt_of_le hfrom)]
      rcases Nat.lt_or_ge a (w.offset + w.data.length) with hcovered | hbehind
      · have hgiven : a - w.offset < w.data.length := by omega
        rw [if_pos (by omega), if_pos (by omega), List.getElem?_eq_getElem hgiven]
        rfl
      · have hindex : w.offset + min w.data.length (m.labels.length - w.offset) +
            (a - w.offset - min (m.labels.length - w.offset) w.data.length) = a := by omega
        rw [if_neg (by omega), List.getElem?_eq_none (by omega : w.data.length ≤ a - w.offset)]
        rw [hindex, List.getElem?_eq_getElem hin]
        rfl
  · rw [List.getElem?_eq_none hout, List.getElem?_eq_none (by rwa [length_writeLabels])]
    rfl

theorem getElem?_readLabels (m : Memory) {i : Nat} (h : i < length) :
    (m.readLabels offset length)[i]? = m.labels[offset + i]? := by
  rw [readLabels, List.getElem?_take, if_pos h, List.getElem?_drop]

theorem length_readLabels (h : offset + length ≤ m.labels.length) :
    (m.readLabels offset length).length = length := by
  rw [readLabels, List.length_take, List.length_drop]
  omega

end Memory

/-! ## The host's requests -/

/-- The request to read labels. -/
def LabelWindow.request (w : LabelWindow) : Payload :=
  littleEndian 4 w.offset ++ littleEndian 4 w.length

theorem LabelWindow.length_request (w : LabelWindow) : w.request.length = 8 := by simp [request]

/-- A window whose offset and length fit into their fields. -/
structure LabelWindow.Readable (w : LabelWindow) : Prop where
  offset_le : w.offset ≤ Word.last32
  length_le : w.length ≤ Word.last32

theorem LabelWindow.Readable.ofPayload_request {w : LabelWindow} (h : w.Readable) :
    ofPayload w.request = .ok w := by
  have hoffset : w.request.word 0 4 = .ok w.offset :=
    Payload.word_append List.length_nil (Nat.lt_of_le_of_lt h.offset_le (by decide))
  have hlength : w.request.word 4 4 = .ok w.length :=
    Payload.word_concat (length_littleEndian ..) (Nat.lt_of_le_of_lt h.length_le (by decide))
  rw [ofPayload, hoffset]
  simp only [bind, Except.bind, hlength]
  rfl

/-- The request to write labels. Four bytes before the data are reserved. -/
def LabelWrite.request (w : LabelWrite) : Payload := littleEndian 4 w.offset ++ (zeros 4 ++ w.data)

theorem LabelWrite.length_request (w : LabelWrite) : w.request.length = 8 + w.data.length := by
  simp [request]
  omega

theorem LabelWrite.ofPayload_request {w : LabelWrite} (h : w.offset ≤ Word.last32) :
    ofPayload w.request = .ok w := by
  have hlength : ¬ w.request.length < 8 := by
    rw [length_request]
    omega
  have hoffset : w.request.take 4 = littleEndian 4 w.offset :=
    List.take_left' (length_littleEndian ..)
  have hdata : w.request.drop 8 = w.data := by
    rw [request, ← List.append_assoc]
    exact List.drop_left' (by simp)
  rw [ofPayload, if_neg hlength, hoffset, hdata,
    ofLittleEndian_of_lt (Nat.lt_of_le_of_lt h (by decide))]

namespace MemoryDevice

/-- On request, labels are changed only by a write of labels. -/
theorem Serves.labels_of_ne {d d' : MemoryDevice} {c : Conditions} {request : MemoryRequest}
    {reply : Reply} (h : d.Serves c request d' reply) (hne : request.command ≠ .setLabels) :
    d'.memory.labels = d.memory.labels := by
  cases h with
  | labels => exact absurd rfl hne
  | cleared address data memory hmemory => rw [Memory.eq_of_writeLine? hmemory]
  | told | events | injected | scanning | results | sanitizing | ledger => rfl

end MemoryDevice

end CxlEndpoint
