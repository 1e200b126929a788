import CxlEndpoint.Capacity.Ledger
import CxlEndpoint.Config.Device
import Mathlib.Data.Nat.Basic

/-!
# Where a layout puts the regions

* `RegionConfig.Sound`: what the check of a configuration says about one region. The length is a
  whole number of blocks, and the size of a block is a power of two.
* `RegionConfig.Sound.decodeLength_mod`: rounded up to capacity units, such a length is still a
  word, because it has few enough blocks.
* `RegionTable.Laid`: regions of whole blocks at the boundaries of capacity units, one behind the
  other, that all end in front of the last word.
* `laid_of_layout`, `laid_of_ofRegions`: a layout of a checked configuration is such a table.
-/

namespace CxlEndpoint

/-! ## Rounding up -/

theorem Word.roundUp_mod {value unit : Nat} (h : roundUp value unit < last) :
    roundUp value unit % unit = 0 := by
  unfold roundUp mulSat at *
  rw [Nat.min_eq_left (by omega), Nat.mul_mod_left]

theorem Word.roundUp_lt {value unit : Nat} (hunit : 0 < unit) (h : value + unit ≤ last) :
    roundUp value unit < last := by
  refine Nat.lt_of_le_of_lt (Nat.min_le_left _ _) ?_
  have hdiv := Nat.div_mul_le_self (value + unit - 1) unit
  omega

theorem Word.le_roundUp {value unit : Nat} (hunit : 0 < unit) (h : value ≤ last) :
    value ≤ roundUp value unit := by
  refine Nat.le_min.mpr ⟨?_, h⟩
  have hdiv := Nat.lt_div_mul_add hunit (a := value + unit - 1)
  omega

theorem Word.roundUp_le_last (value unit : Nat) : roundUp value unit ≤ last := Nat.min_le_right _ _

theorem capacityUnit_eq : capacityUnit = 268435456 := rfl

/-- Of two powers of two the smaller one divides the other. -/
theorem dvd_of_isPowerOfTwo {a b : Nat} (ha : a.isPowerOfTwo) (hb : b.isPowerOfTwo) (h : a ≤ b) :
    a ∣ b := by
  obtain ⟨j, rfl⟩ := ha
  obtain ⟨k, rfl⟩ := hb
  exact Nat.pow_dvd_pow 2 ((Nat.pow_le_pow_iff_right (by decide)).mp h)

theorem isPowerOfTwo_capacityUnit : capacityUnit.isPowerOfTwo := ⟨28, rfl⟩

theorem isPowerOfTwo_lineBytes : lineBytes.isPowerOfTwo := ⟨6, rfl⟩

/-- In a list that is not empty, the minimum of a field is the field of a member. -/
theorem exists_min?_map {α : Type} (field : α → Nat) {xs : List α} {x : α} (h : x ∈ xs) :
    ∃ y ∈ xs, (xs.map field).min? = some (field y) ∧ field y ≤ field x := by
  have hmem : field x ∈ xs.map field := List.mem_map_of_mem h
  obtain ⟨m, hm⟩ := Option.isSome_iff_exists.mp (List.isSome_min?_of_mem hmem)
  obtain ⟨hin, hle⟩ := List.min?_eq_some_iff.mp hm
  obtain ⟨y, hy, rfl⟩ := List.mem_map.mp hin
  exact ⟨y, hy, hm, hle _ hmem⟩

/-! ## The configuration of a region -/

namespace RegionConfig

variable {r : RegionConfig} {rs : List RegionConfig} {index base : Nat} {t : RegionTable}

/-- A positive number of whole blocks, whose size is a power of two. -/
structure Sound (r : RegionConfig) : Prop where
  block : r.blockSize.isPowerOfTwo
  length_pos : 0 < r.length
  length_aligned : r.length % r.blockSize = 0

theorem sound_of_fault? (h : r.fault? index = none) : r.Sound := by
  unfold fault? at h
  split at h
  · cases h
  rename_i hblock
  split at h
  · cases h
  split at h
  · cases h
  refine ⟨⟨r.blockSize.log2, ?_⟩, by omega, by omega⟩
  rw [← Nat.one_shiftLeft]
  simp only [not_or, ne_eq, Classical.not_not] at hblock
  exact hblock.2

/-- A block holds whole cache lines. -/
theorem lineBytes_le_of_fault? (h : r.fault? index = none) : lineBytes ≤ r.blockSize := by
  unfold fault? at h
  split at h
  · cases h
  · omega

theorem fault?_of_firstFault? (h : firstFault? index rs = none) :
    ∀ r ∈ rs, ∃ index, r.fault? index = none := by
  induction rs generalizing index with
  | nil => simp
  | cons r rs ih =>
    obtain ⟨hr, hrs⟩ := Option.or_eq_none_iff.mp h
    exact List.forall_mem_cons.mpr ⟨⟨index, hr⟩, ih hrs⟩

theorem length_le_decodeLength (h : r.length ≤ Word.last) : r.length ≤ r.decodeLength :=
  Word.le_roundUp (by decide) h

/-- The length is a whole number of units even after rounding, as long as the region has no more
blocks than a table may span. -/
theorem Sound.decodeLength_mod (h : r.Sound) (hword : r.length ≤ Word.last)
    (hblocks : r.length / r.blockSize ≤ maxBlocks) : r.decodeLength % capacityUnit = 0 := by
  obtain ⟨k, hk⟩ := h.block
  have hlen : r.length / r.blockSize * r.blockSize = r.length :=
    Nat.div_mul_cancel (Nat.dvd_of_mod_eq_zero h.length_aligned)
  by_cases hle : k ≤ 28
  · -- Blocks up to the unit: the length is so small that nothing is cut off.
    have hpow : r.blockSize ≤ capacityUnit := by
      rw [hk]
      exact Nat.pow_le_pow_right (by decide) hle
    have hsmall := Nat.mul_le_mul hblocks hpow
    rw [hlen] at hsmall
    have hroom : maxBlocks * capacityUnit + capacityUnit ≤ Word.last := by decide
    exact Word.roundUp_mod (Word.roundUp_lt (by decide) (by omega))
  · -- Larger blocks are whole units themselves.
    have hdvd : capacityUnit ∣ r.length := by
      rw [show capacityUnit = 2 ^ 28 from rfl]
      refine Nat.dvd_trans (Nat.pow_dvd_pow 2 (by omega : 28 ≤ k)) ?_
      rw [← hk]
      exact Nat.dvd_of_mod_eq_zero h.length_aligned
    obtain ⟨n, hn⟩ := hdvd
    have hround : r.decodeLength = min r.length Word.last := by
      unfold decodeLength Word.roundUp Word.mulSat
      congr 1
      rw [hn, capacityUnit_eq]
      omega
    rw [hround, Nat.min_eq_left hword, hn]
    exact Nat.mul_mod_right _ _

theorem length_le_span (hword : ∀ r ∈ rs, r.length ≤ Word.last) (hr : r ∈ rs) :
    r.length ≤ span rs := by
  induction rs with
  | nil => cases hr
  | cons s rs ih =>
    obtain ⟨hs, hrs⟩ := List.forall_mem_cons.mp hword
    cases rs with
    | nil =>
      obtain rfl := List.mem_singleton.mp hr
      exact Nat.le_refl _
    | cons s' rs =>
      rcases List.mem_cons.mp hr with rfl | hmem
      · have := length_le_decodeLength hs
        exact Nat.le_min.mpr ⟨by omega, hs⟩
      · have := ih hrs hmem
        exact Nat.le_min.mpr ⟨by omega, hword r hr⟩

/-! ## Placing the regions -/

/-- The region at its place. -/
def placedAt (r : RegionConfig) (base : Nat) : Region :=
  ⟨base, r.decodeLength, r.length, r.blockSize, r.dsmadHandle, r.flags⟩

theorem place_cons_eq_ok_iff :
    place index base (r :: rs) = .ok t ↔
      base + r.decodeLength ≤ Word.last ∧
        ∃ rest, place (index + 1) (base + r.decodeLength) rs = .ok rest ∧
          t = r.placedAt base :: rest := by
  rw [place]
  split
  · simp only [reduceCtorEq, false_iff, not_and]
    omega
  · cases hrest : place (index + 1) (base + r.decodeLength) rs with
    | error e => simp
    | ok rest =>
      simp only [Except.ok.injEq, exists_eq_left']
      exact ⟨fun ht => ⟨by omega, ht.symm⟩, fun ht => ht.2.symm⟩

/-- Each configured region has its place. -/
theorem exists_of_place (h : place index base rs = .ok t) (hr : r ∈ rs) :
    ∃ b, r.placedAt b ∈ t := by
  induction rs generalizing index base t with
  | nil => cases hr
  | cons s rs ih =>
    obtain ⟨-, rest, hrest, rfl⟩ := place_cons_eq_ok_iff.mp h
    rcases List.mem_cons.mp hr with rfl | hr
    · exact ⟨base, List.mem_cons_self⟩
    · obtain ⟨b, hb⟩ := ih hrest hr
      exact ⟨b, List.mem_cons_of_mem _ hb⟩

end RegionConfig

/-! ## Laid out tables -/

/-- Whole blocks from the boundary of a capacity unit on, and whole units that they take up. The
last unit ends at a word. -/
structure Region.Laid (r : Region) : Prop where
  base_aligned : r.base % capacityUnit = 0
  decode_aligned : r.decodeLength % capacityUnit = 0
  block : r.blockSize.isPowerOfTwo
  length_pos : 0 < r.length
  length_aligned : r.length % r.blockSize = 0
  length_le : r.length ≤ r.decodeLength
  fits : r.base + r.decodeLength ≤ Word.last

/-- Regions of whole blocks, each behind all that the former ones take up. -/
structure RegionTable.Laid (t : RegionTable) : Prop where
  regions : ∀ r ∈ t, r.Laid
  ordered : t.Pairwise fun r s => r.base + r.decodeLength ≤ s.base

namespace Region.Laid

variable {r : Region}

theorem blockSize_pos (h : r.Laid) : 0 < r.blockSize := Nat.pos_of_isPowerOfTwo h.block

/-- The last word is no multiple of the unit, so the region ends in front of it. -/
theorem end_lt (h : r.Laid) : r.base + r.length < Word.last := by
  have h1 := h.base_aligned
  have h2 := h.decode_aligned
  have h3 := h.length_le
  have h4 := h.fits
  rw [capacityUnit_eq] at h1 h2
  simp only [Word.last] at *
  omega

theorem stop_eq (h : r.Laid) : r.stop = r.base + r.length :=
  Word.addSat_eq_add (Nat.le_of_lt h.end_lt)

end Region.Laid

theorem RegionConfig.laid_of_place {rs : List RegionConfig} {index base : Nat} {t : RegionTable}
    (hrs : ∀ r ∈ rs, r.Sound ∧ r.length ≤ r.decodeLength ∧ r.decodeLength % capacityUnit = 0)
    (hbase : base % capacityUnit = 0) (h : place index base rs = .ok t) :
    t.Laid ∧ ∀ r ∈ t, base ≤ r.base := by
  induction rs generalizing index base t with
  | nil =>
    obtain rfl : [] = t := Except.ok.inj h
    exact ⟨⟨by simp, .nil⟩, by simp⟩
  | cons r rs ih =>
    obtain ⟨⟨hr, hle, hdecode⟩, hrs⟩ := List.forall_mem_cons.mp hrs
    obtain ⟨hfits, rest, hrest, rfl⟩ := place_cons_eq_ok_iff.mp h
    have hnext : (base + r.decodeLength) % capacityUnit = 0 := by
      rw [capacityUnit_eq] at *
      omega
    obtain ⟨hlaid, hbehind⟩ := ih hrs hnext hrest
    have hregion : (r.placedAt base).Laid :=
      ⟨hbase, hdecode, hr.block, hr.length_pos, hr.length_aligned, hle, hfits⟩
    refine ⟨⟨List.forall_mem_cons.mpr ⟨hregion, hlaid.regions⟩,
      List.pairwise_cons.mpr ⟨hbehind, hlaid.ordered⟩⟩, ?_⟩
    refine List.forall_mem_cons.mpr ⟨Nat.le_refl _, fun s hs => ?_⟩
    exact Nat.le_trans (Nat.le_add_right _ _) (hbehind s hs)

namespace MemoryConfig

variable {c : MemoryConfig} {staticCapacity : Nat} {t : RegionTable}

theorem check_eq_ok (h : c.check = .ok ()) :
    (∀ r ∈ c.regions, ∃ index, r.fault? index = none) ∧ c.blockCount ≤ maxBlocks := by
  unfold check at h
  split at h
  · cases h
  split at h
  · cases h
  split at h
  · cases h
  split at h
  · cases h
  rename_i hfault
  split at h
  · cases h
  exact ⟨RegionConfig.fault?_of_firstFault? hfault, by omega⟩

theorem sound_of_check (h : c.check = .ok ()) :
    (∀ r ∈ c.regions, r.Sound) ∧ c.blockCount ≤ maxBlocks := by
  obtain ⟨hfault, hcount⟩ := check_eq_ok h
  refine ⟨fun r hr => ?_, hcount⟩
  obtain ⟨index, hnone⟩ := hfault r hr
  exact RegionConfig.sound_of_fault? hnone

theorem lineBytes_le_of_check (h : c.check = .ok ()) : ∀ r ∈ c.regions, lineBytes ≤ r.blockSize :=
  fun r hr => by
    obtain ⟨index, hnone⟩ := (check_eq_ok h).1 r hr
    exact RegionConfig.lineBytes_le_of_fault? hnone

/-- A single region has no more blocks than the whole layout spans. -/
theorem blocks_le_blockCount (hword : ∀ r ∈ c.regions, r.length ≤ Word.last)
    (hsound : ∀ r ∈ c.regions, r.Sound) {r : RegionConfig} (hr : r ∈ c.regions) :
    r.length / r.blockSize ≤ c.blockCount := by
  obtain ⟨s, hs, hmin, hle⟩ := exists_min?_map RegionConfig.blockSize hr
  unfold blockCount
  rw [hmin]
  exact Nat.div_le_div (RegionConfig.length_le_span hword hr) hle
    (Nat.ne_of_gt (Nat.pos_of_isPowerOfTwo (hsound s hs).block))

theorem layout_eq_ok (h : c.layout staticCapacity = .ok t) :
    c.check = .ok () ∧
      RegionConfig.place 0 (Word.roundUp staticCapacity capacityUnit) c.regions = .ok t := by
  unfold layout at h
  split at h
  · cases h
  · exact ⟨by assumption, h⟩

/-- A layout of regions whose lengths are words. -/
theorem laid_of_layout (h : c.layout staticCapacity = .ok t)
    (hword : ∀ r ∈ c.regions, r.length ≤ Word.last) : t.Laid := by
  obtain ⟨hcheck, hplace⟩ := layout_eq_ok h
  obtain ⟨hsound, hcount⟩ := sound_of_check hcheck
  have hrs : ∀ r ∈ c.regions,
      r.Sound ∧ r.length ≤ r.decodeLength ∧ r.decodeLength % capacityUnit = 0 := fun r hr =>
    ⟨hsound r hr, RegionConfig.length_le_decodeLength (hword r hr),
      (hsound r hr).decodeLength_mod (hword r hr)
        (Nat.le_trans (blocks_le_blockCount hword hsound hr) hcount)⟩
  cases hregions : c.regions with
  | nil =>
    rw [hregions] at hplace
    obtain rfl : [] = t := Except.ok.inj hplace
    exact ⟨by simp, .nil⟩
  | cons r rs =>
    -- The first region fits behind the base, so the base was not cut off at the last word.
    have hfirst := hplace
    rw [hregions] at hfirst
    have hfits := (RegionConfig.place_cons_eq_ok_iff.mp hfirst).1
    obtain ⟨hr, hle, -⟩ := hrs r (hregions ▸ List.mem_cons_self)
    have hpos := hr.length_pos
    exact (RegionConfig.laid_of_place hrs (Word.roundUp_mod (by omega)) hplace).1

end MemoryConfig

/-! ## Accepted tables -/

namespace Ledger

variable {l : Ledger} {t : RegionTable}

theorem length_le_of_oversized? {index : Nat} (h : RegionTable.oversized? index t = none) :
    ∀ r ∈ t, r.length ≤ r.decodeLength := by
  induction t generalizing index with
  | nil => simp
  | cons r t ih =>
    unfold RegionTable.oversized? at h
    split at h
    · cases h
    · exact List.forall_mem_cons.mpr ⟨by omega, ih h⟩

theorem ofRegions_eq_ok (h : ofRegions t = .ok l) :
    l = { regions := t } ∧ ∀ r ∈ t, r.length ≤ r.decodeLength := by
  unfold ofRegions at h
  split at h
  · cases h
  rename_i hcheck
  refine ⟨(Except.ok.inj h).symm, ?_⟩
  unfold RegionTable.check at hcheck
  split at hcheck
  · cases hcheck
  split at hcheck
  · cases hcheck
  split at hcheck
  · cases hcheck
  exact length_le_of_oversized? (by assumption)

/-- A layout that a ledger accepts. -/
theorem laid_of_ofRegions {c : MemoryConfig} {staticCapacity : Nat}
    (hlayout : c.layout staticCapacity = .ok t) (hnew : ofRegions t = .ok l) : t.Laid := by
  refine MemoryConfig.laid_of_layout hlayout fun r hr => ?_
  obtain ⟨b, hb⟩ := RegionConfig.exists_of_place (MemoryConfig.layout_eq_ok hlayout).2 hr
  exact Nat.le_trans ((ofRegions_eq_ok hnew).2 _ hb) (Word.roundUp_le_last _ _)

end Ledger

end CxlEndpoint
