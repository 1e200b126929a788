import CxlEndpoint.Message.Switch

/-!
# The host's side of messages about ports

* `getElem?_littleEndian`, `testBit_littleEndian`: the bytes and the bits of a field.
* `SwitchInfo.showsPort`: the bit of a port in what a switch tells of itself. `showsPort_toPayload`:
  it is set for the ports of the switch and for no others.
* `SwitchInfo.shownPorts`: the ports with their bits set. `shownPorts_perm`: these are the ports of
  the switch, once each.
* `PortCounts.ofPayload?`: the numbers of ports that a switch tells. `ofPayload?_toPayload`: each of
  them is the low byte of the number of ports.
* `PortBlock.ofPayload?`, `PortBlock.listOfPayload?`: the states of ports, as the host reads them.
  `listOfPayload?_portStatesPayload`: there is one block for each port that was asked about.
-/

namespace CxlEndpoint

/-! ## Bits of a field -/

theorem getElem?_littleEndian {width k : Nat} (h : k < width) (n : Nat) :
    (littleEndian width n)[k]? = some (UInt8.ofNat (n >>> (8 * k))) := by
  induction k generalizing width n with
  | zero =>
    obtain ⟨width, rfl⟩ := Nat.exists_eq_add_one.mpr h
    rfl
  | succ k ih =>
    obtain ⟨width, rfl⟩ := Nat.exists_eq_add_one.mpr (Nat.zero_lt_of_lt h)
    rw [littleEndian, List.getElem?_cons_succ, ih (Nat.lt_of_succ_lt_succ h), Nat.mul_succ,
      Nat.add_comm, Nat.shiftRight_add, Nat.shiftRight_eq_div_pow n 8]

theorem testBit_littleEndian {width i : Nat} (h : i < 8 * width) (n : Nat) :
    ((littleEndian width n).getD (i / 8) 0).toNat.testBit (i % 8) = n.testBit i := by
  have hbyte : i / 8 < width := by omega
  have hbit : i % 8 < 8 := Nat.mod_lt i (by decide)
  rw [List.getD_eq_getElem?_getD, getElem?_littleEndian hbyte, Option.getD_some,
    UInt8.toNat_ofNat', Nat.testBit_mod_two_pow, decide_eq_true hbit, Bool.true_and,
    Nat.testBit_shiftRight, Nat.div_add_mod]

/-! ## The bitmap of ports -/

theorem testBit_portBits {ids : List UInt8} {i : Nat} :
    (portBits ids).testBit i = true ↔ ∃ id ∈ ids, id.toNat = i := by
  have hfold (bits : Nat) :
      (ids.foldl (fun bits id => bits ||| 1 <<< id.toNat) bits).testBit i = true ↔
        bits.testBit i = true ∨ ∃ id ∈ ids, id.toNat = i := by
    induction ids generalizing bits with
    | nil => simp
    | cons id ids ih =>
      rw [List.foldl_cons, ih, Nat.testBit_or, Nat.one_shiftLeft, Nat.testBit_two_pow]
      simp [or_assoc]
  rw [portBits, hfold]
  simp

theorem SwitchInfo.length_toPayload (s : SwitchInfo) : s.toPayload.length = 73 := by
  simp [toPayload]

/-- The bit of a port, in the 32 bytes behind the first four. -/
def SwitchInfo.showsPort (p : Payload) (id : UInt8) : Bool :=
  (p.getD (4 + id.toNat / 8) 0).toNat.testBit (id.toNat % 8)

theorem SwitchInfo.showsPort_toPayload (s : SwitchInfo) (id : UInt8) :
    showsPort s.toPayload id = true ↔ id ∈ s.ports := by
  have hid := id.toNat_lt
  have hbyte : s.toPayload.getD (4 + id.toNat / 8) 0 =
      (littleEndian 32 (portBits s.ports)).getD (id.toNat / 8) 0 := by
    have hinside : id.toNat / 8 < (littleEndian 32 (portBits s.ports)).length := by
      rw [length_littleEndian]
      omega
    simp only [toPayload, List.append_assoc, List.getD_eq_getElem?_getD]
    rw [List.getElem?_append_right (Nat.le_add_right 4 _), List.length_cons, List.length_cons,
      List.length_cons, List.length_singleton, Nat.add_sub_cancel_left,
      List.getElem?_append_left hinside]
  rw [showsPort, hbyte, testBit_littleEndian (by omega), testBit_portBits]
  constructor
  · rintro ⟨port, hport, hsame⟩
    rwa [UInt8.toNat_inj.mp hsame] at hport
  · exact fun hid => ⟨id, hid, rfl⟩

/-- The ports whose bits are set, in ascending order. -/
def SwitchInfo.shownPorts (p : Payload) : List UInt8 :=
  ((List.range 256).map UInt8.ofNat).filter (showsPort p)

theorem nodup_ids : ((List.range 256).map UInt8.ofNat).Nodup := by
  refine List.pairwise_map.mpr (List.pairwise_lt_range.imp_of_mem fun {i j} hi hj hlt heq => ?_)
  have hnumbers := congrArg UInt8.toNat heq
  rw [UInt8.toNat_ofNat_of_lt' (List.mem_range.mp hi),
    UInt8.toNat_ofNat_of_lt' (List.mem_range.mp hj)] at hnumbers
  exact Nat.ne_of_lt hlt hnumbers

theorem SwitchInfo.shownPorts_perm {s : SwitchInfo} (h : s.ports.Nodup) :
    (shownPorts s.toPayload).Perm s.ports := by
  have hshown : (shownPorts s.toPayload).Nodup := List.Pairwise.filter _ nodup_ids
  refine (List.perm_ext_iff_of_nodup hshown h).mpr fun id => ?_
  have hid : id ∈ (List.range 256).map UInt8.ofNat :=
    List.mem_map.mpr ⟨id.toNat, List.mem_range.mpr id.toNat_lt, UInt8.ofNat_toNat⟩
  rw [shownPorts, List.mem_filter, showsPort_toPayload, and_iff_right hid]

/-! ## The numbers of ports -/

/-- How many ports a switch says that it has: physical ports, bridges of its virtual switch, and
bridges that are bound. -/
structure PortCounts where
  physical : Nat
  bridges : Nat
  bound : Nat
  deriving DecidableEq, Repr

namespace PortCounts

/-- One number for all three. -/
def same (n : Nat) : PortCounts := ⟨n, n, n⟩

theorem same_inj {n k : Nat} : same n = same k ↔ n = k :=
  ⟨fun h => congrArg physical h, fun h => congrArg same h⟩

/-- Reads the byte behind the ingress port, and the two words before the number of decoders. -/
def ofPayload? (p : Payload) : Option PortCounts :=
  if p.length = 73 then
    some {
      physical := (p.getD 2 0).toNat
      bridges := ofLittleEndian ((p.drop 68).take 2)
      bound := ofLittleEndian ((p.drop 70).take 2) }
  else none

theorem ofPayload?_toPayload (s : SwitchInfo) :
    ofPayload? s.toPayload = some (same (s.portCount % 256)) := by
  have hbyte : (s.toPayload.getD 2 0).toNat = s.portCount % 256 := UInt8.toNat_ofNat'
  have hword : ofLittleEndian (littleEndian 2 (s.portCount % 256)) = s.portCount % 256 :=
    ofLittleEndian_of_lt (Nat.lt_trans (Nat.mod_lt _ (by decide)) (by decide))
  have hbridges : (s.toPayload.drop 68).take 2 = littleEndian 2 (s.portCount % 256) := by
    rw [SwitchInfo.toPayload, List.append_assoc, List.append_assoc]
    exact take_drop_append (by simp) (length_littleEndian ..)
  have hbound : (s.toPayload.drop 70).take 2 = littleEndian 2 (s.portCount % 256) := by
    rw [SwitchInfo.toPayload, List.append_assoc]
    exact take_drop_append (by simp) (length_littleEndian ..)
  rw [ofPayload?, if_pos s.length_toPayload, hbyte, hbridges, hbound, hword]
  rfl

end PortCounts

/-! ## The states of ports -/

/-- What the host reads of the sixteen bytes for a port. -/
structure PortBlock where
  id : UInt8
  configState : UInt8
  deviceType : UInt8
  logicalDevices : UInt8
  deriving DecidableEq, Repr

namespace PortBlock

/-- A device is attached. -/
def attached (b : PortBlock) : Bool := b.deviceType != 0

/-- Reads the bytes for a port. -/
def ofPayload? (p : Payload) : Option PortBlock := do
  return ⟨← p[0]?, ← p[1]?, ← p[4]?, ← p[15]?⟩

/-- Reads the number of ports, and as many blocks as it says. Three bytes before the blocks are
reserved. -/
def listOfPayload? : Payload → Option (List PortBlock)
  | count :: rest =>
    if rest.length = 3 + 16 * count.toNat then
      Payload.readRecords 16 ofPayload? count.toNat (rest.drop 3)
    else none
  | [] => none

end PortBlock

namespace PortState

/-- What there is to read of the state of a port. -/
def block (s : PortState) : PortBlock :=
  ⟨s.id, s.role.configState, s.role.deviceType, s.role.logicalDevices⟩

theorem length_toPayload (s : PortState) : s.toPayload.length = 16 := rfl

theorem ofPayload?_toPayload (s : PortState) : PortBlock.ofPayload? s.toPayload = some s.block :=
  rfl

/-- A device is attached to a downstream port with a device. -/
theorem attached_block (s : PortState) :
    s.block.attached = true ↔ s.role = .downstream true := by
  obtain ⟨id, role⟩ := s
  show (role.deviceType != 0) = true ↔ role = .downstream true
  cases role with
  | upstream => decide
  | downstream attached => cases attached <;> decide

theorem length_portStatesPayload (states : List PortState) :
    (portStatesPayload states).length = 4 + 16 * states.length := by
  simp only [portStatesPayload, List.length_append, List.length_cons, List.length_nil, length_zeros,
    Payload.length_flatMap length_toPayload]

theorem listOfPayload?_portStatesPayload {states : List PortState} (h : states.length ≤ 255) :
    PortBlock.listOfPayload? (portStatesPayload states) = some (states.map block) := by
  have hcount : (UInt8.ofNat states.length).toNat = states.length := by
    rw [UInt8.toNat_ofNat']
    omega
  have hlength : (zeros 3 ++ states.flatMap (·.toPayload)).length =
      3 + 16 * (UInt8.ofNat states.length).toNat := by
    rw [List.length_append, Payload.length_flatMap length_toPayload, hcount]
    rfl
  have hbody : (zeros 3 ++ states.flatMap (·.toPayload)).drop 3 =
      states.flatMap (·.toPayload) := List.drop_left' (length_zeros 3)
  rw [portStatesPayload, List.append_assoc, List.singleton_append, PortBlock.listOfPayload?,
    if_pos hlength, hbody, hcount]
  exact Payload.readRecords_flatMap_map length_toPayload fun s _ => s.ofPayload?_toPayload

end PortState

/-! ## The host's request -/

/-- Asks for the states of ports. -/
def portListRequest (ids : List UInt8) : Payload := UInt8.ofNat ids.length :: ids

theorem portListOfPayload_portListRequest {ids : List UInt8} (h : ids.length ≤ 255) :
    portListOfPayload (portListRequest ids) = .ok ids := by
  have hcount : ids.length = (UInt8.ofNat ids.length).toNat := by
    rw [UInt8.toNat_ofNat']
    omega
  exact if_pos hcount

theorem length_of_portListOfPayload {p : Payload} {ids : List UInt8}
    (h : portListOfPayload p = .ok ids) : ids.length ≤ 255 := by
  cases p with
  | nil => cases h
  | cons count rest =>
    simp only [portListOfPayload] at h
    split at h
    next hlength =>
      cases h
      have := count.toNat_lt
      omega
    · cases h

end CxlEndpoint
