import CxlEndpoint.Proofs.Poison.Scans

/-!
# Histories of a poison store

* `Op`, `Store.step`: the operations on a store. `Store.after` is the store after a list of them,
  of which the latest comes first.
* `WellFormed.after`: every history leaves a store in order, as long as no line that the host names
  ends behind the last word (`Op.InSpace`).
* `isLiveList_after`: what this says of the live list, in unbounded arithmetic.
-/

namespace CxlEndpoint.Poison

/-- An operation on a poison store. -/
inductive Op where
  | inject (address : Nat) (frozen : Bool)
  | clear (address : Nat) (frozen : Bool) (now : Timestamp)
  | mediaError (start length : Nat) (kind : Kind) (now : Timestamp)
  | beginScan (start length : Nat) (now : Timestamp)
  | completeScan
  | takeResults (limit : Nat)

/-- The lines that the host names end at a word. -/
def Op.InSpace : Op → Prop
  | inject address _ | clear address _ _ => address < lastLine
  | _ => True

/-- A live list: whole records in strictly ascending order without a common address, and at most
`listLimit` of them. -/
structure IsLiveList (l : List Record) : Prop where
  sorted : l.Pairwise fun r s => r.start < s.start
  disjoint : l.Pairwise fun r s => r.start + r.length ≤ s.start ∨ s.start + s.length ≤ r.start
  whole : ∀ r ∈ l, r.Whole
  length_le : l.length ≤ listLimit

namespace Store

/-- The store after one more operation. An injection into a full list changes nothing. -/
def step (s : Store) : Op → Store
  | .inject address frozen => (s.inject? address frozen).getD s
  | .clear address frozen now => (s.clear address frozen now).1
  | .mediaError start length kind now => s.recordMediaError start length kind now
  | .beginScan start length now => s.beginScan start length now
  | .completeScan => s.completeScan
  | .takeResults limit => (s.takeResults limit).1

/-- The store after the operations `past`, of which the latest comes first. -/
def after : List Op → Store
  | [] => .empty
  | op :: past => (after past).step op

variable {s : Store} {op : Op} {past : List Op}

theorem WellFormed.step (h : s.WellFormed) (hop : op.InSpace) : (s.step op).WellFormed := by
  cases op with
  | inject address frozen =>
    show ((s.inject? address frozen).getD s).WellFormed
    cases hs : s.inject? address frozen with
    | none => exact h
    | some s' => exact h.inject hop hs
  | clear address frozen now => exact h.clear
  | mediaError start length kind now => exact h.recordMediaError
  | beginScan start length now => exact h.beginScan
  | completeScan => exact ⟨h.tidy, h.length_le, h.truth⟩
  | takeResults limit => exact ⟨h.tidy, h.length_le, h.truth⟩

theorem WellFormed.after (h : ∀ op ∈ past, op.InSpace) : (after past).WellFormed := by
  induction past with
  | nil => exact wellFormed_empty
  | cons op past ih =>
    obtain ⟨hop, hpast⟩ := List.forall_mem_cons.mp h
    exact (ih hpast).step hop

/-- **The live list stays in order.** -/
theorem isLiveList_after (h : ∀ op ∈ past, op.InSpace) : IsLiveList (after past).live := by
  obtain ⟨⟨hwhole, hordered⟩, hlen, -⟩ := WellFormed.after h
  refine ⟨?_, ?_, hwhole, hlen⟩
  · refine hordered.imp_of_mem fun {r t} hr _ hle => ?_
    exact Nat.lt_of_lt_of_le (hwhole r hr).start_lt_stop hle
  · refine hordered.imp_of_mem fun {r t} hr _ hle => ?_
    rw [(hwhole r hr).stop_eq] at hle
    exact Or.inl hle

/-- An error that reaches over the end of the address space, a split record, the last line that the
host can name, and a scan. -/
def edgeHistory : List Op :=
  [.completeScan, .beginScan 0x1000 0x1000 7, .clear 0x1080 false 6,
    .inject 0xffffffffffffffbf false, .inject 0 true, .mediaError 0x1000 0x100 .internal 5,
    .mediaError 0xfffffffffffff000 0xffff .vendor 4]

theorem isLiveList_after_edgeHistory :
    (∀ op ∈ edgeHistory, op.InSpace) ∧ IsLiveList (after edgeHistory).live := by
  have h : ∀ op ∈ edgeHistory, op.InSpace := by simp [edgeHistory, Op.InSpace, lastLine]
  exact ⟨h, isLiveList_after h⟩

/-! ## Scattered errors -/

/-- The `i`-th line of even number, as a media error is recorded there. -/
def scatteredRecord (i : Nat) : Record := ⟨i * 128, 64, .internal⟩

/-- The first `n` of them. -/
def scatteredRecords (n : Nat) : List Record := (List.range n).map scatteredRecord

/-- The first `n` of these errors, from below. No two of them can share a record. -/
def scattered : Nat → List Op
  | 0 => []
  | n + 1 => .mediaError (n * 128) 64 .internal 0 :: scattered n

variable {n i : Nat}

theorem mem_scattered : op ∈ scattered n ↔ ∃ i < n, op = .mediaError (i * 128) 64 .internal 0 := by
  induction n with
  | zero => simp [scattered]
  | succ n ih =>
    rw [scattered, List.mem_cons, ih]
    constructor
    · rintro (rfl | ⟨i, hi, rfl⟩)
      · exact ⟨n, by omega, rfl⟩
      · exact ⟨i, by omega, rfl⟩
    · rintro ⟨i, hi, rfl⟩
      by_cases hn : i = n
      · exact Or.inl (by rw [hn])
      · exact Or.inr ⟨i, by omega, rfl⟩

theorem length_scatteredRecords : (scatteredRecords n).length = n := by
  simp [scatteredRecords]

theorem scatteredRecords_succ :
    scatteredRecords (n + 1) = scatteredRecords n ++ [scatteredRecord n] := by
  simp [scatteredRecords, List.range_succ]

theorem whole_scatteredRecord (h : i ≤ listLimit) : (scatteredRecord i).Whole := by
  unfold listLimit at h
  constructor <;> simp only [scatteredRecord, LineAligned, lineBytes, lastLine] <;> omega

theorem mediaError?_scattered (h : i ≤ listLimit) :
    mediaError? (i * 128) 64 .internal = some (scatteredRecord i) := by
  unfold listLimit at h
  have hstart : lineStart (i * 128) = i * 128 := by
    simp only [lineStart, lineBytes]
    omega
  have hstop : Word.roundUp (i * 128 + 64) lineBytes = i * 128 + 64 := by
    simp only [Word.roundUp, Word.mulSat, lineBytes, Word.last]
    omega
  rw [mediaError?_eq (by unfold lastLine; omega), hstart, hstop, if_pos (by omega),
    Record.between, Nat.add_sub_cancel_left]
  rfl

theorem mem_scatteredRecords {r : Record} :
    r ∈ scatteredRecords n ↔ ∃ i < n, scatteredRecord i = r := by
  simp [scatteredRecords]

theorem stop_scatteredRecord (h : i ≤ listLimit) : (scatteredRecord i).stop = i * 128 + 64 :=
  (whole_scatteredRecord h).stop_eq

theorem tidy_scatteredRecords (h : n ≤ listLimit) : Tidy (scatteredRecords n) := by
  refine ⟨fun r hr => ?_, List.pairwise_map.mpr ?_⟩
  · obtain ⟨i, hi, rfl⟩ := mem_scatteredRecords.mp hr
    exact whole_scatteredRecord (by omega)
  · refine List.pairwise_lt_range.imp_of_mem fun {i j} hi hj hij => ?_
    rw [List.mem_range] at hi
    rw [stop_scatteredRecord (by omega)]
    show i * 128 + 64 ≤ j * 128
    omega

/-- The live list takes `listLimit` of the records and leaves out the next one. -/
theorem insertLive_scatteredRecord (h : n ≤ listLimit) :
    insertLive (scatteredRecord n) (scatteredRecords n) =
      if n < listLimit then (scatteredRecords (n + 1), true) else (scatteredRecords n, false) := by
  rw [(tidy_scatteredRecords h).insertLive_of_above (whole_scatteredRecord h),
    length_scatteredRecords, scatteredRecords_succ]
  intro r hr
  obtain ⟨i, hi, rfl⟩ := mem_scatteredRecords.mp hr
  rw [stop_scatteredRecord (by omega)]
  show i * 128 + 64 ≤ n * 128
  omega

theorem after_scattered (h : n ≤ listLimit) :
    after (scattered n) =
      { live := scatteredRecords n, groundTruth := scatteredRecords n } := by
  induction n with
  | zero => rfl
  | succ n ih =>
    show (after (scattered n)).recordMediaError (n * 128) 64 .internal 0 = _
    rw [ih (by omega), recordMediaError_of_some (mediaError?_scattered (by omega)),
      insertLive_scatteredRecord (by omega), if_pos (by omega), scatteredRecords_succ]
    rfl

/-- One error more than the live list has room for. -/
theorem after_scattered_full :
    after (scattered (listLimit + 1)) =
      { live := scatteredRecords listLimit, groundTruth := scatteredRecords (listLimit + 1),
        overflowedAt := some 0 } := by
  show (after (scattered listLimit)).recordMediaError (listLimit * 128) 64 .internal 0 = _
  rw [after_scattered (Nat.le_refl _),
    recordMediaError_of_some (mediaError?_scattered (Nat.le_refl _)),
    insertLive_scatteredRecord (Nat.le_refl _), if_neg (Nat.lt_irrefl _), scatteredRecords_succ]
  rfl

end Store

end CxlEndpoint.Poison
