import CxlEndpoint.Proofs.Capacity.Layout
import Mathlib.Data.List.Perm.Basic

/-!
# Which batches pass the check

The check counts blocks of the smallest size from the base of the first region on and marks them
in a set. That base need not be a multiple of the block size.

* `RegionTable.Provides`: the range is made of whole blocks of one region. `AddressRange.Apart`: the
  ranges share no address.
* `RegionTable.Laid.checkRange_eq_ok_iff`: a range passes if a region provides it and none of its
  blocks is marked.
* `blockNumber_add`, `blockNumber_le_iff`: among multiples of the block size, block numbers are
  ordered as the addresses are, wherever the count starts. So ranges share a block exactly if they
  share an address (`fresh_insertRange?`).
* `checkBatch_iff`: a batch passes if each range is provided and no two of them share an address.
-/

namespace CxlEndpoint

/-- The ranges share no address. -/
def AddressRange.Apart (r s : AddressRange) : Prop :=
  r.start + r.length ≤ s.start ∨ s.start + s.length ≤ r.start

theorem AddressRange.Apart.symm {r s : AddressRange} (h : r.Apart s) : s.Apart r := Or.symm h

/-- The range lies in the usable part of the region. -/
def Region.Surrounds (region : Region) (r : AddressRange) : Prop :=
  region.base ≤ r.start ∧ r.start + r.length ≤ region.base + region.length

/-- The range has an address, and its end is a word. -/
structure AddressRange.Proper (r : AddressRange) : Prop where
  length_pos : 0 < r.length
  fits : r.start + r.length ≤ Word.last

theorem AddressRange.Proper.stop_eq {r : AddressRange} (h : r.Proper) :
    r.stop = r.start + r.length := Word.addSat_eq_add h.fits

/-- The range is made of whole blocks in the usable part of the region. -/
structure Region.Provides (region : Region) (r : AddressRange) : Prop extends r.Proper where
  inside : region.Surrounds r
  start_aligned : r.start % region.blockSize = 0
  length_aligned : r.length % region.blockSize = 0

/-- Some region provides the range. -/
def RegionTable.Provides (t : RegionTable) (r : AddressRange) : Prop :=
  ∃ region ∈ t, region.Provides r

section Decidable

variable (t : RegionTable) (region : Region) (r s : AddressRange)

instance : Decidable (r.Apart s) := inferInstanceAs (Decidable (_ ∨ _))

instance : Decidable (region.Surrounds r) := inferInstanceAs (Decidable (_ ∧ _))

instance : Decidable (region.Provides r) :=
  decidable_of_iff ((0 < r.length ∧ r.start + r.length ≤ Word.last) ∧ region.Surrounds r ∧
      r.start % region.blockSize = 0 ∧ r.length % region.blockSize = 0)
    ⟨fun ⟨⟨h1, h2⟩, h3, h4, h5⟩ => ⟨⟨h1, h2⟩, h3, h4, h5⟩,
      fun ⟨⟨h1, h2⟩, h3, h4, h5⟩ => ⟨⟨h1, h2⟩, h3, h4, h5⟩⟩

instance : Decidable (t.Provides r) := inferInstanceAs (Decidable (∃ region ∈ t, region.Provides r))

end Decidable

/-! ## The region of a range -/

namespace RegionTable.Laid

variable {t : RegionTable} {region other first final : Region} {r : AddressRange} {a : Nat}

/-- An address in the usable part of a region belongs to that region. -/
theorem regionAt?_eq_some (h : t.Laid) (hr : region ∈ t) (hlo : region.base ≤ a)
    (hhi : a < region.base + region.length) : t.regionAt? a = some region := by
  cases hfind : t.regionAt? a with
  | none =>
    have hnot := List.find?_eq_none.mp hfind region (List.mem_reverse.mpr hr)
    exact absurd (decide_eq_true hlo) hnot
  | some other =>
    obtain ⟨hbase, before, behind, hsplit, hbefore⟩ := List.find?_eq_some_iff_append.mp hfind
    have ht : t = behind.reverse ++ other :: before.reverse := by
      rw [← List.reverse_reverse t, hsplit]
      simp
    have hordered := h.ordered
    rw [ht] at hr hordered
    rcases List.mem_append.mp hr with hr | hr
    · -- Behind `region` lies `other`, which starts at or below `a`.
      have hle := (List.pairwise_append.mp hordered).2.2 region hr other List.mem_cons_self
      have hlen := (h.regions region (ht ▸ List.mem_append_left _ hr)).length_le
      have := of_decide_eq_true hbase
      omega
    · rcases List.mem_cons.mp hr with rfl | hr
      · rfl
      · have hnot := hbefore region (List.mem_reverse.mp hr)
        simp [hlo] at hnot

theorem mem_of_regionAt? (hr : t.regionAt? a = some region) : region ∈ t ∧ region.base ≤ a :=
  ⟨List.mem_reverse.mp (List.mem_of_find?_eq_some hr), by simpa using List.find?_some hr⟩

/-- At most one region has an address. -/
theorem eq_of_mem (h : t.Laid) (hr : region ∈ t) (ho : other ∈ t) (hlo : region.base ≤ a)
    (hhi : a < region.base + region.length) (hlo' : other.base ≤ a)
    (hhi' : a < other.base + other.length) : region = other := by
  have h1 := h.regionAt?_eq_some hr hlo hhi
  rw [h.regionAt?_eq_some ho hlo' hhi'] at h1
  exact (Option.some.inj h1).symm

/-- The last region ends last. -/
theorem end_le_final (h : t.Laid) (hf : t.getLast? = some final) (hr : region ∈ t) :
    region.base + region.length ≤ final.base + final.length := by
  obtain ⟨former, rfl⟩ := List.getLast?_eq_some_iff.mp hf
  have hlen := (h.regions region hr).length_le
  rcases List.mem_append.mp hr with hr | hr
  · have := (List.pairwise_append.mp h.ordered).2.2 region hr final List.mem_cons_self
    omega
  · obtain rfl := List.mem_singleton.mp hr
    exact Nat.le_refl _

theorem first_le (h : t.Laid) (hf : t.head? = some first) (hr : region ∈ t) :
    first.base ≤ region.base := by
  obtain ⟨rest, rfl⟩ := List.head?_eq_some_iff.mp hf
  rcases List.mem_cons.mp hr with rfl | hr
  · exact Nat.le_refl _
  · exact Nat.le_trans (Nat.le_add_right _ _) ((List.pairwise_cons.mp h.ordered).1 region hr)

theorem checkRange_eq_ok_iff (h : t.Laid) {origin granule : Nat} {seen seen' : BlockSet} :
    t.checkRange origin granule seen r = .ok seen' ↔
      t.Provides r ∧
        seen.insertRange? ((r.start - origin) / granule) (r.length / granule) = some seen' := by
  unfold checkRange
  constructor
  · intro hok
    split at hok
    · cases hok
    rename_i region hat
    obtain ⟨hmem, hbase⟩ := mem_of_regionAt? hat
    have hlaid := h.regions region hmem
    split at hok
    · cases hok
    rename_i hstop
    split at hok
    · cases hok
    split at hok
    · cases hok
    split at hok
    · cases hok
    rename_i haligned
    split at hok
    · cases hok
    rename_i hinsert
    obtain rfl := Except.ok.inj hok
    -- A range that is cut off at the last word ends behind every region.
    rw [hlaid.stop_eq] at hstop
    have hend := hlaid.end_lt
    unfold AddressRange.stop Word.addSat at hstop
    have hfits : r.start + r.length ≤ region.base + region.length := by omega
    refine ⟨⟨region, hmem, ⟨by omega, by omega⟩, ⟨hbase, hfits⟩, ?_, ?_⟩, hinsert⟩
    · omega
    · omega
  · rintro ⟨⟨region, hmem, hprov⟩, hinsert⟩
    have hlaid := h.regions region hmem
    have hpos := hprov.length_pos
    obtain ⟨hlo, hhi⟩ := hprov.inside
    have hstop := hprov.toProper.stop_eq
    rw [h.regionAt?_eq_some hmem hlo (by omega)]
    simp only
    rw [if_neg (by rw [hstop, hlaid.stop_eq]; omega), if_neg (by omega),
      if_neg (Nat.ne_of_gt hlaid.blockSize_pos),
      if_neg (by rw [hprov.start_aligned, hprov.length_aligned]; simp), hinsert]

/-! ## The smallest block size -/

theorem granule_pos : 0 < t.granule := Nat.lt_of_lt_of_le Nat.zero_lt_one (Nat.le_max_right _ _)

/-- The smallest block size divides all of them, since they are powers of two. -/
theorem granule_dvd (h : t.Laid) (hr : region ∈ t) : t.granule ∣ region.blockSize := by
  obtain ⟨other, hother, hmin, hle⟩ := exists_min?_map Region.blockSize hr
  have hlaid := h.regions other hother
  have hgranule : t.granule = other.blockSize := by
    unfold granule
    rw [hmin, Option.getD_some]
    exact Nat.max_eq_left hlaid.blockSize_pos
  rw [hgranule]
  exact dvd_of_isPowerOfTwo hlaid.block (h.regions region hr).block hle

end RegionTable.Laid

/-! ## Block numbers -/

section BlockNumbers

variable {origin granule x y n : Nat} {r s : AddressRange} {seen seen' : BlockSet}

/-- The number of the block of an address, counted from `origin` on. -/
def blockNumber (origin granule address : Nat) : Nat := (address - origin) / granule

/-- Whole blocks further on, the number is that much higher. -/
theorem blockNumber_add (hg : 0 < granule) (hn : granule ∣ n) (hx : origin ≤ x) :
    blockNumber origin granule (x + n) = blockNumber origin granule x + n / granule := by
  obtain ⟨m, rfl⟩ := hn
  unfold blockNumber
  rw [Nat.sub_add_comm hx, Nat.add_mul_div_left _ _ hg, Nat.mul_div_cancel_left _ hg]

/-- Multiples of the block size are numbered in their order, also if `origin` is none. -/
theorem blockNumber_le_iff (hg : 0 < granule) (hx : granule ∣ x) (hy : granule ∣ y)
    (ho : origin ≤ y) :
    blockNumber origin granule x ≤ blockNumber origin granule y ↔ x ≤ y := by
  constructor
  · intro hle
    by_contra hlt
    obtain ⟨n, rfl⟩ := Nat.exists_eq_add_of_lt (Nat.lt_of_not_le hlt)
    have hn : granule ∣ n + 1 := (Nat.dvd_add_right hy).mp hx
    rw [Nat.add_assoc, blockNumber_add hg hn ho] at hle
    have hpos : 0 < n + 1 := Nat.succ_pos n
    have := Nat.div_pos (Nat.le_of_dvd hpos hn) hg
    omega
  · exact fun hle => Nat.div_le_div_right (Nat.sub_le_sub_right hle origin)

/-- Whole blocks behind `origin`, on multiples of their size. -/
structure OnGrid (origin granule : Nat) (r : AddressRange) : Prop where
  origin_le : origin ≤ r.start
  start_dvd : granule ∣ r.start
  length_dvd : granule ∣ r.length
  length_pos : 0 < r.length

/-- No block of the range is marked. -/
def Fresh (origin granule : Nat) (seen : BlockSet) (r : AddressRange) : Prop :=
  ∀ i, blockNumber origin granule r.start ≤ i →
    i < blockNumber origin granule r.start + r.length / granule → seen.contains i = false

/-- Ranges have a block in common exactly if they have an address in common. -/
theorem OnGrid.apart_iff (hg : 0 < granule) (hr : OnGrid origin granule r)
    (hs : OnGrid origin granule s) :
    (∀ i, blockNumber origin granule s.start ≤ i →
        i < blockNumber origin granule s.start + s.length / granule →
        ¬ (blockNumber origin granule r.start ≤ i ∧
          i < blockNumber origin granule r.start + r.length / granule)) ↔ r.Apart s := by
  have hrpos := Nat.div_pos (Nat.le_of_dvd hr.length_pos hr.length_dvd) hg
  have hspos := Nat.div_pos (Nat.le_of_dvd hs.length_pos hs.length_dvd) hg
  have hrs := blockNumber_le_iff hg (Nat.dvd_add hr.start_dvd hr.length_dvd) hs.start_dvd
    hs.origin_le
  have hsr := blockNumber_le_iff hg (Nat.dvd_add hs.start_dvd hs.length_dvd) hr.start_dvd
    hr.origin_le
  rw [blockNumber_add hg hr.length_dvd hr.origin_le] at hrs
  rw [blockNumber_add hg hs.length_dvd hs.origin_le] at hsr
  unfold AddressRange.Apart
  rw [← hrs, ← hsr]
  constructor
  · intro hdisjoint
    have h1 := hdisjoint (blockNumber origin granule s.start) (Nat.le_refl _) (by omega)
    have h2 := hdisjoint (blockNumber origin granule r.start)
    omega
  · intro hapart i hlo hhi
    omega

/-- With the blocks of `r` marked, a range is fresh if it was so before and shares no address with
`r`. -/
theorem fresh_insertRange? (hg : 0 < granule) (hr : OnGrid origin granule r)
    (hs : OnGrid origin granule s)
    (hinsert : seen.insertRange? (blockNumber origin granule r.start) (r.length / granule) =
      some seen') :
    Fresh origin granule seen' s ↔ Fresh origin granule seen s ∧ r.Apart s := by
  rw [← hr.apart_iff hg hs]
  unfold Fresh
  simp only [BlockSet.contains_insertRange? hinsert, Bool.or_eq_false_iff, Bool.and_eq_false_iff,
    decide_eq_false_iff_not]
  constructor
  · intro h
    refine ⟨fun i hlo hhi => (h i hlo hhi).1, fun i hlo hhi hin => ?_⟩
    rcases (h i hlo hhi).2 with hout | hout
    · exact hout hin.1
    · exact hout hin.2
  · rintro ⟨hfresh, hapart⟩ i hlo hhi
    have := hapart i hlo hhi
    exact ⟨hfresh i hlo hhi, by omega⟩

end BlockNumbers

/-! ## Batches -/

namespace RegionTable.Laid

variable {t : RegionTable} {first : Region} {r : AddressRange} {batch : List AddressRange}
  {origin granule : Nat} {seen : BlockSet}

/-- The blocks of a range that a region provides are counted, and the set has room for them. -/
theorem onGrid_of_provides (h : t.Laid) (hf : t.head? = some first) (hr : t.Provides r) :
    OnGrid first.base t.granule r ∧
      blockNumber first.base t.granule (r.start + r.length) ≤ t.blockCount := by
  obtain ⟨region, hmem, hprov⟩ := hr
  obtain ⟨hlo, hhi⟩ := hprov.inside
  have hdvd := h.granule_dvd hmem
  refine ⟨⟨Nat.le_trans (h.first_le hf hmem) hlo,
    Nat.dvd_trans hdvd (Nat.dvd_of_mod_eq_zero hprov.start_aligned),
    Nat.dvd_trans hdvd (Nat.dvd_of_mod_eq_zero hprov.length_aligned), hprov.length_pos⟩, ?_⟩
  cases hl : t.getLast? with
  | none =>
    rw [List.getLast?_eq_none_iff.mp hl] at hmem
    cases hmem
  | some final =>
    have hfinal : final ∈ t := List.mem_of_getLast? hl
    have hend := h.end_le_final hl hmem
    unfold blockCount blockNumber
    rw [hf, hl]
    simp only
    rw [(h.regions final hfinal).stop_eq]
    exact Nat.div_le_div_right (Nat.sub_le_sub_right (Nat.le_trans hhi hend) _)

theorem checkRanges_eq_ok_iff (h : t.Laid) (hg : 0 < granule)
    (hgrid : ∀ r, t.Provides r → OnGrid origin granule r ∧
      blockNumber origin granule (r.start + r.length) ≤ seen.size) :
    t.checkRanges origin granule seen batch = .ok () ↔
      (∀ r ∈ batch, t.Provides r) ∧ (∀ r ∈ batch, Fresh origin granule seen r) ∧
        batch.Pairwise AddressRange.Apart := by
  induction batch generalizing seen with
  | nil => simp [checkRanges]
  | cons r rest ih =>
    rw [checkRanges, List.forall_mem_cons, List.forall_mem_cons, List.pairwise_cons]
    cases hcheck : t.checkRange origin granule seen r with
    | error e =>
      simp only [reduceCtorEq, false_iff]
      rintro ⟨⟨hr, -⟩, ⟨hfresh, -⟩, -⟩
      obtain ⟨hon, hroom⟩ := hgrid r hr
      rw [blockNumber_add hg hon.length_dvd hon.origin_le] at hroom
      have hok := h.checkRange_eq_ok_iff.mpr
        ⟨hr, BlockSet.insertRange?_eq_some_iff.mpr ⟨hroom, hfresh, rfl⟩⟩
      rw [hcheck] at hok
      cases hok
    | ok seen' =>
      obtain ⟨hr, hinsert⟩ := h.checkRange_eq_ok_iff.mp hcheck
      obtain ⟨-, hfresh, hseen'⟩ := BlockSet.insertRange?_eq_some_iff.mp hinsert
      have hsize : seen'.size = seen.size := by rw [hseen']
      have hmark : ∀ s ∈ rest, t.Provides s →
          (Fresh origin granule seen' s ↔ Fresh origin granule seen s ∧ r.Apart s) :=
        fun s _ hs => fresh_insertRange? hg (hgrid r hr).1 (hgrid s hs).1 hinsert
      rw [ih (by rwa [hsize])]
      constructor
      · rintro ⟨hrest, hnew, hapart⟩
        have hboth := fun s hs => (hmark s hs (hrest s hs)).mp (hnew s hs)
        exact ⟨⟨hr, hrest⟩, ⟨hfresh, fun s hs => (hboth s hs).1⟩, fun s hs => (hboth s hs).2,
          hapart⟩
      · rintro ⟨⟨-, hrest⟩, ⟨-, hold⟩, hr, hapart⟩
        exact ⟨hrest, fun s hs => (hmark s hs (hrest s hs)).mpr ⟨hold s hs, hr s hs⟩, hapart⟩

/-- A batch passes if each range is provided and no two of them share an address. -/
theorem checkBatch_eq_ok_iff (h : t.Laid) :
    t.checkBatch batch = .ok () ↔
      (∀ r ∈ batch, t.Provides r) ∧ batch.Pairwise AddressRange.Apart := by
  cases ht : t with
  | nil =>
    cases batch with
    | nil => simp [checkBatch]
    | cons r rest =>
      refine ⟨fun hok => (by cases hok), fun hall => ?_⟩
      obtain ⟨region, hmem, -⟩ := hall.1 r List.mem_cons_self
      cases hmem
  | cons first rest =>
    have hf : t.head? = some first := by rw [ht, List.head?_cons]
    rw [← ht]
    have hcheck : t.checkBatch batch =
        t.checkRanges first.base t.granule (.empty t.blockCount) batch := by
      rw [ht]
      rfl
    rw [hcheck, h.checkRanges_eq_ok_iff granule_pos fun r hr => h.onGrid_of_provides hf hr]
    have hempty : ∀ r ∈ batch, Fresh first.base t.granule (.empty t.blockCount) r :=
      fun r _ i _ _ => by simp [BlockSet.contains, BlockSet.empty]
    exact and_congr_right fun _ => and_iff_right hempty

/-- The order of a batch does not matter for the check. -/
theorem checkBatch_perm (h : t.Laid) {batch' : List AddressRange} (hp : batch.Perm batch') :
    t.checkBatch batch = .ok () ↔ t.checkBatch batch' = .ok () := by
  rw [h.checkBatch_eq_ok_iff, h.checkBatch_eq_ok_iff,
    hp.pairwise_iff fun hrs => AddressRange.Apart.symm hrs]
  simp only [hp.mem_iff]

end RegionTable.Laid

/-- **A batch passes exactly if regions provide its ranges and these share no address.** -/
theorem RegionTable.checkBatch_iff {c : MemoryConfig} {staticCapacity : Nat} {t : RegionTable}
    {l : Ledger} (hlayout : c.layout staticCapacity = .ok t) (hnew : Ledger.ofRegions t = .ok l)
    (batch : List AddressRange) :
    (t.checkBatch batch = .ok () ↔
      (∀ r ∈ batch, t.Provides r) ∧ batch.Pairwise AddressRange.Apart) ∧
    ∀ batch', batch.Perm batch' → (t.checkBatch batch = .ok () ↔ t.checkBatch batch' = .ok ()) :=
  have h := Ledger.laid_of_ofRegions hlayout hnew
  ⟨h.checkBatch_eq_ok_iff, fun _ hp => h.checkBatch_perm hp⟩

/-! ## Regions of different block sizes -/

/-- The base of the first region is no multiple of its block size. Behind it lies a region of
smaller blocks. -/
def mixedConfig : MemoryConfig :=
  { regions := [{ length := 0x80000000, blockSize := 0x40000000 },
      { length := 0x8000000, blockSize := 0x200000 }] }

/-- These regions behind one unit of static capacity. -/
def mixedTable : RegionTable :=
  [⟨0x10000000, 0x80000000, 0x80000000, 0x40000000, 0, 0⟩,
    ⟨0x90000000, 0x10000000, 0x8000000, 0x200000, 0, 0⟩]

theorem layout_mixedConfig : mixedConfig.layout 0x10000000 = .ok mixedTable := by decide

theorem ofRegions_mixedTable : Ledger.ofRegions mixedTable = .ok { regions := mixedTable } := by
  decide

/-- A block of the first region, and two of the second in front of it. -/
theorem RegionTable.checkBatch_iff_mixed :
    mixedConfig.layout 0x10000000 = .ok mixedTable ∧
      Ledger.ofRegions mixedTable = .ok { regions := mixedTable } ∧
      mixedTable.checkBatch [⟨0x90200000, 0x400000⟩, ⟨0x40000000, 0x40000000⟩] = .ok () ∧
      mixedTable.checkBatch [⟨0x40000000, 0x40000000⟩, ⟨0x90200000, 0x400000⟩] = .ok () ∧
      mixedTable.checkBatch [⟨0x90200000, 0x400000⟩, ⟨0x90400000, 0x200000⟩] ≠ .ok () := by
  have hiff := checkBatch_iff layout_mixedConfig ofRegions_mixedTable
  have hpass : mixedTable.checkBatch [⟨0x90200000, 0x400000⟩, ⟨0x40000000, 0x40000000⟩] = .ok () :=
    (hiff _).1.mpr (by decide)
  refine ⟨layout_mixedConfig, ofRegions_mixedTable, hpass, ?_, fun hok => ?_⟩
  · exact ((hiff _).2 _ (List.Perm.swap _ _ _)).mp hpass
  · -- The last block of the first range is named twice.
    exact absurd ((hiff _).1.mp hok).2 (by decide)

end CxlEndpoint
