import CxlEndpoint.Proofs.Capacity.Batch
import Mathlib.Data.List.Induction

/-!
# Extents without the ranges of a batch

* `Extent.part`: what an extent has between two addresses. Parts of parts are parts
  (`part_part`).
* `Extent.minus`: the parts of an extent in front of and behind a range. This is what `without`
  leaves (`without_eq_minus`), and the order of two ranges does not matter (`minus_comm`).
* `subtract`: the extents without the ranges of a batch. `subtract_perm`: the same for every order
  of the batch. `Remainder`: what is left of one extent, in the order of the addresses
  (`remainder_subtract`).
-/

namespace CxlEndpoint

/-- The address is in the range. -/
def AddressRange.Has (r : AddressRange) (a : Nat) : Prop := r.start ≤ a ∧ a < r.start + r.length

/-- Every address of `r` is in `s`. -/
def AddressRange.Within (r s : AddressRange) : Prop :=
  s.start ≤ r.start ∧ r.start + r.length ≤ s.start + s.length

instance (r s : AddressRange) : Decidable (r.Within s) := inferInstanceAs (Decidable (_ ∧ _))

namespace Extent

variable {e p q : Extent} {r s : AddressRange} {a lo hi lo' hi' : Nat}

/-- The addresses of the extent. -/
def range (e : Extent) : AddressRange := ⟨e.start, e.length⟩

theorem stop_eq (h : e.range.Proper) : e.stop = e.start + e.length := Word.addSat_eq_add h.fits

theorem stop_le_last (e : Extent) : e.stop ≤ Word.last := Word.addSat_le_last _ _

theorem meets_iff (he : e.range.Proper) (hr : r.Proper) : e.Meets r ↔ ¬ e.range.Apart r := by
  unfold Meets AddressRange.Apart
  rw [stop_eq he, hr.stop_eq]
  simp only [range]
  omega

theorem holds_iff (he : e.range.Proper) (hr : r.Proper) : e.Holds r ↔ r.Within e.range := by
  unfold Holds AddressRange.Within
  rw [stop_eq he, hr.stop_eq]
  rfl

/-! ## Parts -/

/-- The addresses from `start` to `stop`, with the tag of the extent. -/
def cut (e : Extent) (start stop : Nat) : Extent := { e with start, length := stop - start }

@[simp] theorem start_cut : (e.cut lo hi).start = lo := rfl

@[simp] theorem cut_cut : (e.cut lo hi).cut lo' hi' = e.cut lo' hi' := rfl

theorem stop_cut (h : lo ≤ hi) (hle : hi ≤ Word.last) : (e.cut lo hi).stop = hi := by
  unfold stop cut Word.addSat
  simp only
  omega

/-- What the extent has from `lo` up to `hi`. -/
def part (e : Extent) (lo hi : Nat) : List Extent :=
  if max e.start lo < min e.stop hi then [e.cut (max e.start lo) (min e.stop hi)] else []

/-- `p` reaches from one address to the other in `e`, with the tag of `e`. -/
structure PartOf (e : Extent) (lo hi : Nat) (p : Extent) : Prop where
  start_eq : p.start = max e.start lo
  end_eq : p.start + p.length = min e.stop hi
  length_pos : 0 < p.length
  tag_eq : p.tag = e.tag
  sequenceNumber_eq : p.sequenceNumber = e.sequenceNumber

theorem partOf_of_mem (hp : p ∈ e.part lo hi) : e.PartOf lo hi p := by
  unfold part at hp
  split at hp
  · obtain rfl := List.mem_singleton.mp hp
    refine ⟨rfl, ?_, ?_, rfl, rfl⟩ <;> simp only [cut] <;> omega
  · cases hp

theorem PartOf.proper (h : e.PartOf lo hi p) : p.range.Proper := by
  refine ⟨h.length_pos, ?_⟩
  show p.start + p.length ≤ Word.last
  rw [h.end_eq]
  exact Nat.le_trans (Nat.min_le_left _ _) (stop_le_last _)

theorem part_eq_nil (h : hi ≤ lo) : e.part lo hi = [] := by
  unfold part
  rw [if_neg (by omega)]

theorem exists_mem_part (h : max e.start lo < min e.stop hi) : ∃ p, p ∈ e.part lo hi := by
  unfold part
  rw [if_pos h]
  exact ⟨_, List.mem_singleton_self _⟩

/-- A part of a part. -/
theorem part_part (e : Extent) (lo hi lo' hi' : Nat) :
    (e.part lo hi).flatMap (fun p => p.part lo' hi') = e.part (max lo lo') (min hi hi') := by
  by_cases h : max e.start lo < min e.stop hi
  · have hstop : (e.cut (max e.start lo) (min e.stop hi)).stop = min e.stop hi :=
      stop_cut (Nat.le_of_lt h) (Nat.le_trans (Nat.min_le_left _ _) (stop_le_last _))
    conv_lhs => rw [part, if_pos h, List.flatMap_singleton]
    unfold part
    rw [hstop, start_cut, cut_cut, Nat.max_assoc, Nat.min_assoc]
  · rw [part, if_neg h, part, if_neg (by omega)]
    rfl

/-! ## Taking a range out -/

/-- What the extent has in front of the range and behind it. -/
def minus (e : Extent) (r : AddressRange) : List Extent :=
  e.part 0 r.start ++ e.part r.stop Word.last

/-- A range that meets the extent leaves these parts. -/
theorem without_eq_minus (h : e.Meets r) : e.without r = e.minus r := by
  obtain ⟨hlo, hhi⟩ := h
  have hlast := stop_le_last e
  unfold without minus part
  rw [Nat.max_eq_left (Nat.zero_le _), Nat.min_eq_right (Nat.le_of_lt hlo),
    Nat.max_eq_right (Nat.le_of_lt hhi), Nat.min_eq_left hlast]
  rfl

/-- Any other range leaves the extent. -/
theorem minus_of_apart (he : e.range.Proper) (hr : r.Proper) (h : e.range.Apart r) :
    e.minus r = [e] := by
  have hstop := stop_eq he
  have hlast := stop_le_last e
  have hpos : 0 < e.length := he.length_pos
  have hrpos := hr.length_pos
  have hself : e.cut e.start e.stop = e := by
    unfold cut
    rw [hstop, Nat.add_sub_cancel_left]
  unfold minus part
  rw [hr.stop_eq, Nat.max_eq_left (Nat.zero_le _), Nat.min_eq_left hlast]
  rcases h with h | h <;> simp only [range] at h
  · rw [Nat.min_eq_left (by omega), if_pos (by omega), if_neg (by omega), hself]
    rfl
  · rw [if_neg (by omega), Nat.max_eq_left (by omega), if_pos (by omega), hself]
    rfl

/-- The parts on both sides of a range, of a part of the extent. -/
theorem part_minus (hhi : hi ≤ Word.last) :
    (e.part lo hi).flatMap (fun p => p.minus s) =
      e.part lo (min hi s.start) ++ e.part (max lo s.stop) hi := by
  have hfront := part_part e lo hi 0 s.start
  have hback := part_part e lo hi s.stop Word.last
  rw [Nat.max_eq_left (Nat.zero_le _)] at hfront
  rw [Nat.min_eq_left hhi] at hback
  rw [← hfront, ← hback]
  unfold part
  split
  · simp only [List.flatMap_singleton]
    rfl
  · rfl

theorem minus_minus (hr : r.start ≤ Word.last) (hs : s.start ≤ Word.last) :
    (e.minus r).flatMap (fun p => p.minus s) =
      e.part 0 (min r.start s.start) ++ e.part s.stop r.start ++
        (e.part r.stop s.start ++ e.part (max r.stop s.stop) Word.last) := by
  rw [minus, List.flatMap_append, part_minus hr, part_minus (Nat.le_refl _),
    Nat.max_eq_right (Nat.zero_le _), Nat.min_eq_right hs]

/-- Two ranges leave the same parts in either order. -/
theorem minus_comm (hr : r.Proper) (hs : s.Proper) :
    (e.minus r).flatMap (fun p => p.minus s) = (e.minus s).flatMap (fun p => p.minus r) := by
  have hrpos := hr.length_pos
  have hspos := hs.length_pos
  have hrfits := hr.fits
  have hsfits := hs.fits
  rw [minus_minus (by omega) (by omega), minus_minus (by omega) (by omega),
    Nat.min_comm s.start, Nat.max_comm s.stop, hr.stop_eq, hs.stop_eq]
  -- Of the two parts in the middle one is empty.
  by_cases h : s.start + s.length < r.start
  · rw [part_eq_nil (by omega : s.start ≤ r.start + r.length)]
    simp
  · rw [part_eq_nil (by omega : r.start ≤ s.start + s.length)]
    simp

theorem ascending_minus (hr : r.Proper) :
    (e.minus r).Pairwise fun p q => p.start + p.length < q.start := by
  have hpart : ∀ lo hi, (e.part lo hi).Pairwise fun p q => p.start + p.length < q.start := by
    intro lo hi
    unfold part
    split
    · exact List.pairwise_singleton _ _
    · exact .nil
  refine List.pairwise_append.mpr ⟨hpart _ _, hpart _ _, fun p hp q hq => ?_⟩
  have h1 := (partOf_of_mem hp).end_eq
  have h2 := (partOf_of_mem hq).start_eq
  have hpos := hr.length_pos
  rw [hr.stop_eq] at h2
  omega

section Minus

variable (he : e.range.Proper) (hr : r.Proper)

theorem partOf_of_mem_minus (hp : p ∈ e.minus r) :
    e.PartOf 0 r.start p ∨ e.PartOf r.stop Word.last p :=
  (List.mem_append.mp hp).imp partOf_of_mem partOf_of_mem

theorem proper_of_mem_minus (hp : p ∈ e.minus r) : p.range.Proper :=
  (partOf_of_mem_minus hp).elim PartOf.proper PartOf.proper

theorem tag_of_mem_minus (hp : p ∈ e.minus r) :
    p.tag = e.tag ∧ p.sequenceNumber = e.sequenceNumber :=
  (partOf_of_mem_minus hp).elim (fun h => ⟨h.tag_eq, h.sequenceNumber_eq⟩)
    fun h => ⟨h.tag_eq, h.sequenceNumber_eq⟩

include he hr

/-- The ends of a piece: one of them is an end of the extent, the other lies at the range. -/
theorem ends_of_mem_minus (hp : p ∈ e.minus r) :
    0 < p.length ∧
      (p.start = e.start ∧ p.start + p.length = min (e.start + e.length) r.start ∨
        p.start = max e.start (r.start + r.length) ∧
          p.start + p.length = e.start + e.length) := by
  have hlast := stop_le_last e
  rcases partOf_of_mem_minus hp with h | h <;> have h1 := h.start_eq <;> have h2 := h.end_eq
  · rw [stop_eq he] at h2
    exact ⟨h.length_pos, Or.inl ⟨by omega, h2⟩⟩
  · rw [hr.stop_eq] at h1
    rw [stop_eq he] at h2 hlast
    exact ⟨h.length_pos, Or.inr ⟨h1, by omega⟩⟩

theorem within_of_mem_minus (hp : p ∈ e.minus r) : p.range.Within e.range := by
  have := ends_of_mem_minus he hr hp
  unfold AddressRange.Within
  simp only [range]
  omega

/-- A range apart from `r` lies in a piece exactly if it lies in the extent. -/
theorem exists_within_minus (hs : s.Proper) (hapart : r.Apart s) :
    (∃ p ∈ e.minus r, s.Within p.range) ↔ s.Within e.range := by
  have hspos := hs.length_pos
  have hfits := hs.fits
  have hstop := stop_eq he
  have hefits : e.start + e.length ≤ Word.last := he.fits
  constructor
  · rintro ⟨p, hp, hsp⟩
    have hpe := within_of_mem_minus he hr hp
    unfold AddressRange.Within at *
    omega
  · rintro ⟨hlo, hhi⟩
    simp only [range] at hlo hhi
    unfold minus AddressRange.Within
    simp only [List.mem_append, or_and_right, exists_or]
    rcases hapart with hapart | hapart
    · refine Or.inr ?_
      obtain ⟨p, hp⟩ : ∃ p, p ∈ e.part r.stop Word.last :=
        exists_mem_part (by rw [hstop, hr.stop_eq]; omega)
      have h := partOf_of_mem hp
      have h1 := h.start_eq
      have h2 := h.end_eq
      rw [hr.stop_eq] at h1
      rw [hstop] at h2
      exact ⟨p, hp, by simp only [range]; omega, by simp only [range]; omega⟩
    · refine Or.inl ?_
      obtain ⟨p, hp⟩ : ∃ p, p ∈ e.part 0 r.start := exists_mem_part (by rw [hstop]; omega)
      have h := partOf_of_mem hp
      have h1 := h.start_eq
      have h2 := h.end_eq
      rw [hstop] at h2
      exact ⟨p, hp, by simp only [range]; omega, by simp only [range]; omega⟩

/-- The pieces have the addresses of the extent that are not in the range. -/
theorem has_minus :
    (∃ p ∈ e.minus r, p.range.Has a) ↔ e.range.Has a ∧ ¬ r.Has a := by
  -- An address is a range of length one.
  have hone : ∀ {x : AddressRange}, x.Has a ↔ AddressRange.Within ⟨a, 1⟩ x := by
    intro x
    unfold AddressRange.Has AddressRange.Within
    simp only
    omega
  have hrpos := hr.length_pos
  have hefits : e.start + e.length ≤ Word.last := he.fits
  constructor
  · rintro ⟨p, hp, hpa⟩
    have hends := ends_of_mem_minus he hr hp
    unfold AddressRange.Has at *
    simp only [range] at *
    omega
  · rintro ⟨ha, hra⟩
    have hproper : AddressRange.Proper ⟨a, 1⟩ := by
      refine ⟨Nat.one_pos, ?_⟩
      unfold AddressRange.Has at ha
      simp only [range] at *
      omega
    have hapart : r.Apart ⟨a, 1⟩ := by
      unfold AddressRange.Has at hra
      unfold AddressRange.Apart
      simp only
      omega
    simp only [hone] at ha ⊢
    exact (exists_within_minus he hr hproper hapart).mpr ha

end Minus

end Extent

/-! ## Extents without a batch -/

/-- The extents without the ranges of the batch. What is left of an extent stands in its place. -/
def subtract (batch : List AddressRange) (extents : List Extent) : List Extent :=
  batch.foldl (fun extents r => extents.flatMap fun e => e.minus r) extents

section Subtract

variable {batch batch' : List AddressRange} {extents pieces : List Extent} {r : AddressRange}
  {e : Extent} {a : Nat}

theorem subtract_cons :
    subtract (r :: batch) extents = subtract batch (extents.flatMap fun e => e.minus r) := rfl

theorem subtract_concat :
    subtract (batch ++ [r]) extents = (subtract batch extents).flatMap fun e => e.minus r := by
  rw [subtract, List.foldl_append]
  rfl

/-- The order of the batch does not matter. -/
theorem subtract_perm (hp : batch.Perm batch') (hbatch : ∀ r ∈ batch, r.Proper) :
    subtract batch extents = subtract batch' extents := by
  refine hp.foldl_eq' (fun r hr s hs l => ?_) extents
  rw [List.flatMap_assoc, List.flatMap_assoc]
  exact congrArg l.flatMap (funext fun e => Extent.minus_comm (hbatch r hr) (hbatch s hs))

/-- Each extent is cut by itself. -/
theorem subtract_eq_flatMap :
    subtract batch extents = extents.flatMap fun e => subtract batch [e] := by
  induction batch generalizing extents with
  | nil => simp [subtract]
  | cons r batch ih =>
    rw [subtract_cons, ih, List.flatMap_assoc]
    refine congrArg extents.flatMap (funext fun e => ?_)
    rw [subtract_cons, List.flatMap_singleton, ih]

/-- `pieces` is what is left of `e` without the ranges of the batch, in the order of the addresses.
No two pieces touch, so there is only one such list. -/
structure Remainder (e : Extent) (batch : List AddressRange) (pieces : List Extent) : Prop where
  proper : ∀ p ∈ pieces, p.range.Proper
  within : ∀ p ∈ pieces, p.range.Within e.range
  tagged : ∀ p ∈ pieces, p.tag = e.tag ∧ p.sequenceNumber = e.sequenceNumber
  ascending : pieces.Pairwise fun p q => p.start + p.length < q.start
  has_iff : ∀ a, (∃ p ∈ pieces, p.range.Has a) ↔ e.range.Has a ∧ ∀ r ∈ batch, ¬ r.Has a

theorem remainder_self (he : e.range.Proper) : Remainder e [] [e] := by
  refine ⟨?_, ?_, ?_, List.pairwise_singleton _ _, fun a => by simp⟩ <;> intro p hp <;>
    obtain rfl := List.mem_singleton.mp hp
  · exact he
  · exact ⟨Nat.le_refl _, Nat.le_refl _⟩
  · exact ⟨rfl, rfl⟩

theorem Remainder.minus (h : Remainder e batch pieces) (hr : r.Proper) :
    Remainder e (batch ++ [r]) (pieces.flatMap fun p => p.minus r) := by
  refine ⟨fun q hq => ?_, fun q hq => ?_, fun q hq => ?_, ?_, fun a => ?_⟩
  · obtain ⟨p, hp, hq⟩ := List.mem_flatMap.mp hq
    exact Extent.proper_of_mem_minus hq
  · obtain ⟨p, hp, hq⟩ := List.mem_flatMap.mp hq
    have h1 := Extent.within_of_mem_minus (h.proper p hp) hr hq
    have h2 := h.within p hp
    unfold AddressRange.Within at *
    omega
  · obtain ⟨p, hp, hq⟩ := List.mem_flatMap.mp hq
    obtain ⟨h1, h2⟩ := Extent.tag_of_mem_minus hq
    obtain ⟨h3, h4⟩ := h.tagged p hp
    exact ⟨h1.trans h3, h2.trans h4⟩
  · refine List.pairwise_flatMap.mpr
      ⟨fun p _ => Extent.ascending_minus hr, ?_⟩
    refine h.ascending.imp_of_mem fun {p p'} hp hp' hlt q hq q' hq' => ?_
    have h1 := Extent.within_of_mem_minus (h.proper p hp) hr hq
    have h2 := Extent.within_of_mem_minus (h.proper p' hp') hr hq'
    unfold AddressRange.Within at h1 h2
    simp only [Extent.range] at h1 h2
    omega
  · have hcut : (∃ q ∈ pieces.flatMap fun p => p.minus r, q.range.Has a) ↔
        (∃ p ∈ pieces, p.range.Has a) ∧ ¬ r.Has a := by
      simp only [List.mem_flatMap]
      constructor
      · rintro ⟨q, ⟨p, hp, hq⟩, ha⟩
        obtain ⟨hpa, hra⟩ := (Extent.has_minus (h.proper p hp) hr).mp ⟨q, hq, ha⟩
        exact ⟨⟨p, hp, hpa⟩, hra⟩
      · rintro ⟨⟨p, hp, hpa⟩, hra⟩
        obtain ⟨q, hq, ha⟩ := (Extent.has_minus (h.proper p hp) hr).mpr ⟨hpa, hra⟩
        exact ⟨q, ⟨p, hp, hq⟩, ha⟩
    rw [hcut, h.has_iff, List.forall_mem_append, List.forall_mem_singleton, and_assoc]

theorem remainder_subtract (he : e.range.Proper) (hbatch : ∀ r ∈ batch, r.Proper) :
    Remainder e batch (subtract batch [e]) := by
  induction batch using List.reverseRecOn with
  | nil => exact remainder_self he
  | append_singleton batch r ih =>
    obtain ⟨hbatch, hr⟩ := List.forall_mem_append.mp hbatch
    rw [subtract_concat]
    exact (ih hbatch).minus (hr r (List.mem_singleton_self r))

end Subtract

end CxlEndpoint
