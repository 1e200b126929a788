import CxlEndpoint.Proofs.Capacity.Geometry
import CxlEndpoint.Proofs.Capacity.History

/-!
# Which regions can be used in full

A region starts on the boundary of a capacity unit and has whole blocks. The check of a batch also
wants blocks to start at multiples of their size, counted from address zero, so the usable part of a
region need not be made of such blocks.

* `Region.usable`: all that can be used of a region. `RegionTable.Laid.provides_usable_iff`: it is
  made of blocks that pass the check exactly if the base is a multiple of the block size.
* `RegionTable.Laid.checkBatch_usable_of_not_dvd`: why it does not pass otherwise.
* `Ledger.add_usable_iff`: what a new ledger takes in, for one region and for all of them.
* `Ledger.not_usable_in_full`: an accepted configuration with a region that cannot be used in full.
-/

namespace CxlEndpoint

/-- All that can be used of the region. -/
def Region.usable (r : Region) : AddressRange := ⟨r.base, r.length⟩

section Usable

variable {t : RegionTable} {region : Region}

theorem Region.Laid.proper_usable (h : region.Laid) : region.usable.Proper :=
  ⟨h.length_pos, Nat.le_of_lt h.end_lt⟩

theorem Region.surrounds_usable (r : Region) : r.Surrounds r.usable :=
  ⟨Nat.le_refl _, Nat.le_refl _⟩

/-- Blocks of at most a unit fit on the boundaries of units. -/
theorem Region.Laid.blockSize_dvd_base (h : region.Laid) (hle : region.blockSize ≤ capacityUnit) :
    region.blockSize ∣ region.base :=
  Nat.dvd_trans (dvd_of_isPowerOfTwo h.block isPowerOfTwo_capacityUnit hle)
    (Nat.dvd_of_mod_eq_zero h.base_aligned)

namespace RegionTable.Laid

theorem provides_usable_iff (h : t.Laid) (hmem : region ∈ t) :
    t.Provides region.usable ↔ region.blockSize ∣ region.base := by
  have hlaid := h.regions region hmem
  have hproper := hlaid.proper_usable
  constructor
  · -- The usable part lies in no other region, so the blocks are those of this one.
    rintro ⟨other, hother, hprov⟩
    have hmeet : ¬ region.usable.Apart region.usable :=
      hproper.not_apart_of_within ⟨Nat.le_refl _, Nat.le_refl _⟩
    obtain rfl := h.eq_of_not_apart hmem hother hproper hproper region.surrounds_usable
      hprov.inside hmeet
    exact Nat.dvd_of_mod_eq_zero hprov.start_aligned
  · exact fun hdvd => ⟨region, hmem, hproper, region.surrounds_usable,
      Nat.mod_eq_zero_of_dvd hdvd, hlaid.length_aligned⟩

theorem apart_usable (h : t.Laid) : (t.map (·.usable)).Pairwise AddressRange.Apart := by
  refine List.pairwise_map.mpr (h.ordered.imp_of_mem fun {r s} hr _ hle => Or.inl ?_)
  exact Nat.le_trans (Nat.add_le_add_left (h.regions r hr).length_le _) hle

/-- Blocks that do not start at multiples of their size are turned down for that. -/
theorem checkBatch_usable_of_not_dvd (h : t.Laid) (hmem : region ∈ t)
    (hdvd : ¬ region.blockSize ∣ region.base) :
    t.checkBatch [region.usable] = .error .misaligned := by
  have hlaid := h.regions region hmem
  have hrange : ∀ origin granule seen,
      t.checkRange origin granule seen region.usable = .error .misaligned := by
    intro origin granule seen
    have hat : t.regionAt? region.usable.start = some region :=
      h.regionAt?_eq_some hmem (Nat.le_refl _) (Nat.lt_add_of_pos_right hlaid.length_pos)
    have hstop : ¬ region.stop < region.usable.stop := Nat.lt_irrefl _
    have hlength : region.usable.length ≠ 0 := Nat.ne_of_gt hlaid.length_pos
    have hmod : region.usable.start % region.blockSize ≠ 0 :=
      fun hzero => hdvd (Nat.dvd_of_mod_eq_zero hzero)
    rw [checkRange, hat]
    simp only
    rw [if_neg hstop, if_neg hlength, if_neg (Nat.ne_of_gt hlaid.blockSize_pos),
      if_pos (Or.inl hmod)]
  cases t with
  | nil => cases hmem
  | cons first rest => rw [checkBatch, checkRanges, hrange]

end RegionTable.Laid

end Usable

namespace Ledger

variable {c : MemoryConfig} {staticCapacity : Nat} {t : RegionTable} {region : Region}
  {l : Ledger} {batch : List AddressRange}

/-- A new ledger takes in every batch that passes the check. -/
theorem add_new_eq_ok_iff (hsound : Sound { regions := t }) (hnil : batch ≠ []) :
    add { regions := t } batch = .ok l ↔
      t.checkBatch batch = .ok () ∧ commit { regions := t } (batch.map .untagged) = l := by
  rw [hsound.add_eq_ok_iff hnil]
  refine and_congr_right fun _ => and_iff_right fun r _ e he => ?_
  cases he

/-- **A region can be used in full exactly if its base is a multiple of its block size.** Blocks of
up to a capacity unit are always on such a base, larger ones need not be. -/
theorem add_usable_iff (hwords : c.HasWords) (hlayout : c.layout staticCapacity = .ok t) :
    ofRegions t = .ok { regions := t } ∧
    (∀ region ∈ t, add { regions := t } [region.usable] =
      if region.blockSize ∣ region.base then
        .ok (commit { regions := t } [.untagged region.usable])
      else .error .misaligned) ∧
    ((∃ l, add { regions := t } (t.map (·.usable)) = .ok l) ↔
      ∀ region ∈ t, region.blockSize ∣ region.base) ∧
    ∀ region ∈ t, region.blockSize ≤ capacityUnit → region.blockSize ∣ region.base := by
  have hnew := MemoryConfig.ofRegions_of_layout hwords hlayout
  have hlaid := MemoryConfig.laid_of_layout hlayout hwords.regions
  obtain ⟨hsound, -⟩ := sound_of_ofRegions hlayout hnew
  refine ⟨hnew, fun region hmem => ?_, ?_,
    fun region hmem => (hlaid.regions region hmem).blockSize_dvd_base⟩
  · split
    · rename_i hdvd
      have hcheck : t.checkBatch [region.usable] = .ok () := hlaid.checkBatch_eq_ok_iff.mpr
        ⟨List.forall_mem_singleton.mpr ((hlaid.provides_usable_iff hmem).mpr hdvd),
          List.pairwise_singleton _ _⟩
      exact (add_new_eq_ok_iff hsound (List.cons_ne_nil _ _)).mpr ⟨hcheck, rfl⟩
    · rename_i hdvd
      have hcheck := hlaid.checkBatch_usable_of_not_dvd hmem hdvd
      rw [add, if_neg (by simp), hcheck]
  · have hall : t.checkBatch (t.map (·.usable)) = .ok () ↔
        ∀ region ∈ t, region.blockSize ∣ region.base := by
      rw [hlaid.checkBatch_eq_ok_iff, and_iff_left hlaid.apart_usable, List.forall_mem_map]
      exact forall₂_congr fun region hmem => hlaid.provides_usable_iff hmem
    rw [← hall]
    by_cases hnil : t = []
    · rw [hnil]
      exact iff_of_true ⟨_, add_nil⟩ rfl
    · simp only [add_new_eq_ok_iff hsound (mt List.map_eq_nil_iff.mp hnil), exists_and_left,
        exists_eq', and_true]

/-- The first region of `mixedTable` has blocks of four units and starts behind one unit. -/
theorem add_usable_iff_mixed :
    mixedConfig.HasWords ∧ mixedConfig.layout 0x10000000 = .ok mixedTable ∧
      add { regions := mixedTable } [⟨0x10000000, 0x80000000⟩] = .error .misaligned ∧
      (∃ l, add { regions := mixedTable } [⟨0x90000000, 0x8000000⟩] = .ok l) ∧
      ¬ ∃ l, add { regions := mixedTable } [⟨0x10000000, 0x80000000⟩, ⟨0x90000000, 0x8000000⟩] =
        .ok l := by
  obtain ⟨-, hone, hall, -⟩ := add_usable_iff (c := mixedConfig) (by decide) layout_mixedConfig
  refine ⟨by decide, layout_mixedConfig, ?_, ?_, fun hok => ?_⟩
  · exact hone ⟨0x10000000, 0x80000000, 0x80000000, 0x40000000, 0, 0⟩ (by decide)
  · exact ⟨_, hone ⟨0x90000000, 0x10000000, 0x8000000, 0x200000, 0, 0⟩ (by decide)⟩
  · exact absurd (hall.mp hok) (by decide)

/-- One region of a single block, which is two units large. -/
def wideConfig : MemoryConfig :=
  { regions := [{ length := 0x20000000, blockSize := 0x20000000 }] }

/-- The region lies behind one unit of static capacity. -/
def wideTable : RegionTable := [⟨0x10000000, 0x20000000, 0x20000000, 0x20000000, 0, 0⟩]

/-- Not every region of an accepted configuration can be used in full. -/
theorem not_usable_in_full :
    ¬ ∀ (c : MemoryConfig) (staticCapacity : Nat) (t : RegionTable) (l : Ledger), c.HasWords →
      c.layout staticCapacity = .ok t → ofRegions t = .ok l →
      (∀ region ∈ t, ∃ l', l.add [region.usable] = .ok l') ∧
        ∃ l', l.add (t.map (·.usable)) = .ok l' := by
  intro h
  obtain ⟨hone, -⟩ := h wideConfig 0x10000000 wideTable { regions := wideTable } (by decide)
    (by decide) (by decide)
  obtain ⟨l', hok⟩ := hone ⟨0x10000000, 0x20000000, 0x20000000, 0x20000000, 0, 0⟩ (by decide)
  have herr : add { regions := wideTable } [⟨0x10000000, 0x20000000⟩] = .error .misaligned := by
    decide
  cases herr.symm.trans hok

end Ledger

end CxlEndpoint
