import CxlEndpoint.Message.Event

/-!
# The host's side of event messages

* `EventPage.recordsOf`, `StoredEvent.handleOf`: what the host reads of a response: its records,
  and the handle of a record. `recordsOf_toPayload`, `handleOf_toPayload` say that these are the
  records and the handles that were written.
* `EventClearance.request`: the request to clear some records of a log.
  `ofPayload_request` says that it is read as such.
* `EventClearance.head?_of_ofPayload`: a request to clear records starts with the number of the log.
-/

namespace CxlEndpoint

/-! ## The number of a log -/

namespace EventLog.Kind

/-- The byte that stands for a log. -/
def number : Kind → UInt8
  | informational => 0
  | warning => 1
  | failure => 2
  | fatal => 3
  | dynamicCapacity => 4

theorem ofByte_number (k : Kind) : ofByte k.number = .ok k := by cases k <;> rfl

theorem ofPayload_number (k : Kind) : ofPayload [k.number] = .ok k := by cases k <;> rfl

/-- No other byte stands for the log. -/
theorem eq_number_of_ofByte {b : UInt8} {k : Kind} (h : ofByte b = .ok k) : b = k.number := by
  unfold ofByte ofNumber? at h
  split at h
  next k' hfind =>
    cases h
    have hlt : b.toNat < 5 := (List.getElem?_eq_some_iff.mp hfind).1
    have hb : b = UInt8.ofNat b.toNat := (UInt8.ofNat_toNat).symm
    generalize b.toNat = n at *
    subst hb
    obtain rfl | rfl | rfl | rfl | rfl : n = 0 ∨ n = 1 ∨ n = 2 ∨ n = 3 ∨ n = 4 := by omega
    all_goals
      cases hfind
      rfl
  · cases h

end EventLog.Kind

/-! ## Records -/

/-- The handle that stands in a record on the wire. -/
def StoredEvent.handleOf (record : Payload) : UInt16 :=
  UInt16.ofNat (ofLittleEndian ((record.drop 20).take 2))

theorem ofNat_ofLittleEndian_toNat (h : UInt16) :
    UInt16.ofNat (ofLittleEndian (littleEndian 2 h.toNat)) = h := by
  have hlt : h.toNat < 1 <<< (8 * 2) := h.toNat_lt
  rw [ofLittleEndian_littleEndian, Nat.mod_eq_of_lt hlt, UInt16.ofNat_toNat]

theorem StoredEvent.handleOf_toPayload (e : StoredEvent) : handleOf e.toPayload = e.handle := by
  have hfield : (e.toPayload.drop 20).take 2 = littleEndian 2 e.handle.toNat := by
    rw [toPayload, List.append_assoc, List.append_assoc, List.append_assoc, List.append_assoc,
      List.append_assoc]
    exact take_drop_append (by simp) (length_littleEndian ..)
  rw [handleOf, hfield, ofNat_ofLittleEndian_toNat]

namespace EventPage

/-- The first `n` records of some that stand one behind the other. -/
def splitRecords : (n : Nat) → Payload → List Payload
  | 0, _ => []
  | n + 1, p => p.take StoredEvent.wireLength :: splitRecords n (p.drop StoredEvent.wireLength)

/-- The records in a response. -/
def recordsOf (p : Payload) : List Payload :=
  splitRecords (ofLittleEndian ((p.drop 20).take 2)) (p.drop headerLength)

theorem length_toPayload (p : EventPage) :
    p.toPayload.length = headerLength + StoredEvent.wireLength * p.records.length := by
  simp only [toPayload, List.length_append, length_littleEndian, length_zeros, List.length_cons,
    List.length_nil, Payload.length_flatMap StoredEvent.length_toPayload, headerLength]

/-- A page is no longer than the room there is for it. -/
theorem length_ofLog_le (l : EventLog) {room : Nat} (h : headerLength ≤ room) :
    (ofLog l room).toPayload.length ≤ room := by
  rw [length_toPayload]
  apply Payload.records_fit h
  show (l.records.take _).length ≤ _
  rw [List.length_take]
  omega

theorem splitRecords_flatMap (records : List StoredEvent) :
    splitRecords records.length (records.flatMap (·.toPayload)) = records.map (·.toPayload) := by
  induction records with
  | nil => rfl
  | cons e rest ih =>
    rw [List.length_cons, splitRecords, List.flatMap_cons, List.take_left' e.length_toPayload,
      List.drop_left' e.length_toPayload, ih, List.map_cons]

theorem recordsOf_toPayload (p : EventPage) (h : p.records.length < 1 <<< 16) :
    recordsOf p.toPayload = p.records.map (·.toPayload) := by
  have hcount : (p.toPayload.drop 20).take 2 = littleEndian 2 p.records.length := by
    rw [toPayload, List.append_assoc, List.append_assoc]
    exact take_drop_append (by simp) (length_littleEndian ..)
  have hrecords : p.toPayload.drop headerLength = p.records.flatMap (·.toPayload) := by
    rw [toPayload, List.drop_left' (by simp [headerLength])]
  rw [recordsOf, hcount, hrecords, ofLittleEndian_littleEndian, Nat.mod_eq_of_lt h]
  exact splitRecords_flatMap p.records

/-- The host reads the oldest records off a page of a log. -/
theorem recordsOf_ofLog {l : EventLog} (room : Nat) (h : l.records.length ≤ logCapacity) :
    recordsOf (ofLog l room).toPayload =
      (l.records.take (min ((room - headerLength) / StoredEvent.wireLength) 65535)).map
        (·.toPayload) := by
  have hle : (ofLog l room).records.length ≤ logCapacity :=
    Nat.le_trans (List.length_take_le' ..) h
  exact recordsOf_toPayload _ (Nat.lt_of_le_of_lt hle (by decide))

end EventPage

/-! ## Clearing -/

namespace EventClearance

/-- The request to clear the records of log `k` that have the given handles. -/
def request (k : EventLog.Kind) (handles : List UInt16) : Payload :=
  [k.number, 0, UInt8.ofNat handles.length, 0, 0, 0] ++
    handles.flatMap fun h => littleEndian 2 h.toNat

/-- A last byte that is left over stands for no handle. -/
theorem length_handlesOf (p : Payload) : (handlesOf p).length = p.length / 2 := by
  induction p using handlesOf.induct with
  | case1 low high rest ih =>
    rw [handlesOf, List.length_cons, ih, List.length_cons, List.length_cons]
    omega
  | case2 p hshort =>
    match p with
    | [] | [_] => simp [handlesOf]
    | low :: high :: rest => exact absurd rfl (hshort low high rest)

theorem handlesOf_flatMap (handles : List UInt16) :
    handlesOf (handles.flatMap fun h => littleEndian 2 h.toNat) = handles := by
  induction handles with
  | nil => rfl
  | cons h rest ih =>
    have hread : handlesOf ((h :: rest).flatMap fun h => littleEndian 2 h.toNat) =
        UInt16.ofNat (ofLittleEndian (littleEndian 2 h.toNat)) ::
          handlesOf (rest.flatMap fun h => littleEndian 2 h.toNat) := rfl
    rw [hread, ofNat_ofLittleEndian_toNat, ih]

theorem ofPayload_request (k : EventLog.Kind) {handles : List UInt16} (h : handles.length ≤ 255) :
    ofPayload (request k handles) = .ok ⟨k, some handles⟩ := by
  have hcount : (UInt8.ofNat handles.length).toNat = handles.length := by
    rw [UInt8.toNat_ofNat']
    omega
  simp only [request, List.cons_append, List.nil_append, ofPayload, handlesOf_flatMap, hcount,
    List.take_length, EventLog.Kind.ofByte_number]
  rw [if_neg (Nat.lt_irrefl _)]
  rfl

theorem head?_of_ofPayload {p : Payload} {c : EventClearance} (h : ofPayload p = .ok c) :
    p.head? = some c.log.number := by
  unfold ofPayload at h
  split at h
  next log _ _ _ _ _ _ =>
    dsimp only at h
    split at h
    · cases h
    · split at h
      · cases h
      next k hk =>
        cases h
        exact congrArg some (EventLog.Kind.eq_number_of_ofByte hk)
  · cases h

end EventClearance

end CxlEndpoint
