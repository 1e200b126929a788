import CxlEndpoint.Proofs.Capacity.Batch
import Mathlib.Data.List.Chain

/-!
# The geometry of a layout

The addresses of the regions are computed three times: when a configuration is checked, when a
ledger takes the table, and when memory is made for the device. Each time sums and products are
held at the last word.

* `RegionConfig.tile`: the regions one behind the other, wherever they end. `place_eq_ok_iff`: so
  they are placed as long as their end is a word.
* `totalCapacity_tile`, `end_of_getLast?_tile`, `stop_of_getLast?_tile`: how far they reach. The
  span of the configuration is the span of the table.
* `ofRegions_of_layout`, `blockCount_of_layout`: a ledger accepts every layout, because it counts
  the blocks that the check of the configuration has counted.
* `RegionTable.Tiles`: regions as they are configured, in whole units and without gaps between
  them. `tiles_of_layout`: a layout is such a table.
* `BacksAll`: memory for the device is computed without overflow and ends with the last region
  (`backsAll_of_layout`).
-/

namespace CxlEndpoint

/-! ## The least multiple -/

theorem Word.roundUp_lt_add {value unit : Nat} (hunit : 0 < unit) :
    roundUp value unit < value + unit := by
  refine Nat.lt_of_le_of_lt (Nat.min_le_left _ _) ?_
  have hdiv := Nat.div_mul_le_self (value + unit - 1) unit
  omega

/-- No multiple between a value and its rounding. -/
theorem Word.roundUp_le {value unit multiple : Nat} (hunit : 0 < unit) (hle : value ≤ multiple)
    (hmod : multiple % unit = 0) : roundUp value unit ≤ multiple := by
  obtain ⟨k, rfl⟩ := Nat.dvd_of_mod_eq_zero hmod
  have hdiv : (value + unit - 1) / unit < k + 1 := by
    rw [Nat.div_lt_iff_lt_mul hunit, Nat.mul_comm, Nat.mul_succ]
    omega
  calc roundUp value unit
      ≤ (value + unit - 1) / unit * unit := Nat.min_le_left _ _
    _ ≤ k * unit := Nat.mul_le_mul_right unit (Nat.le_of_lt_succ hdiv)
    _ = unit * k := Nat.mul_comm k unit

/-! ## One behind the other -/

theorem RegionTable.totalCapacity_cons {r : Region} {t : RegionTable} :
    RegionTable.totalCapacity (r :: t) = r.decodeLength + t.totalCapacity := rfl

/-- What a region was configured as. -/
def Region.config (r : Region) : RegionConfig := ⟨r.length, r.blockSize, r.dsmadHandle, r.flags⟩

namespace RegionConfig

variable {r : RegionConfig} {rs : List RegionConfig} {index base : Nat} {t : RegionTable}
  {final : Region}

/-- The regions one behind the other from `base` on. -/
def tile (base : Nat) : List RegionConfig → RegionTable
  | [] => []
  | r :: rest => r.placedAt base :: tile (base + r.decodeLength) rest

theorem tile_singleton : tile base [r] = [r.placedAt base] := rfl

theorem getLast?_tile_cons_cons {s : RegionConfig} :
    (tile base (r :: s :: rs)).getLast? = (tile (base + r.decodeLength) (s :: rs)).getLast? := by
  rw [tile, tile, List.getLast?_cons_cons]

theorem decodedBytes_nil : decodedBytes [] = 0 := rfl

theorem decodedBytes_cons : decodedBytes (r :: rs) = r.decodeLength + decodedBytes rs := rfl

theorem place_eq_ok_iff (hbase : base ≤ Word.last) :
    place index base rs = .ok t ↔ base + decodedBytes rs ≤ Word.last ∧ t = tile base rs := by
  induction rs generalizing index base t with
  | nil =>
    have hfits : base + decodedBytes [] ≤ Word.last := hbase
    rw [place, tile, and_iff_right hfits, Except.ok.injEq, eq_comm]
  | cons r rs ih =>
    rw [place_cons_eq_ok_iff, decodedBytes_cons, ← Nat.add_assoc, tile]
    constructor
    · rintro ⟨hfits, rest, hrest, rfl⟩
      obtain ⟨hend, rfl⟩ := (ih hfits).mp hrest
      exact ⟨hend, rfl⟩
    · rintro ⟨hend, rfl⟩
      have hfits : base + r.decodeLength ≤ Word.last := Nat.le_of_add_right_le hend
      exact ⟨hfits, _, (ih hfits).mpr ⟨hend, rfl⟩, rfl⟩

theorem map_config_tile (base : Nat) (rs : List RegionConfig) :
    (tile base rs).map (·.config) = rs := by
  induction rs generalizing base with
  | nil => rfl
  | cons r rs ih => rw [tile, List.map_cons, ih, Region.config, placedAt]

theorem head?_tile : (tile base rs).head? = rs.head?.map (·.placedAt base) := by cases rs <;> rfl

theorem isChain_tile : (tile base rs).IsChain fun r s => r.base + r.decodeLength = s.base := by
  induction rs generalizing base with
  | nil => exact .nil
  | cons r rs ih =>
    rw [tile, List.isChain_cons, head?_tile]
    refine ⟨fun s hs => ?_, ih⟩
    obtain ⟨_, -, rfl⟩ := Option.map_eq_some_iff.mp hs
    rfl

theorem decodeLength_eq_of_mem_tile {s : Region} (hs : s ∈ tile base rs) :
    s.decodeLength = Word.roundUp s.length capacityUnit := by
  induction rs generalizing base with
  | nil => cases hs
  | cons r rs ih =>
    rcases List.mem_cons.mp hs with rfl | hs
    · rfl
    · exact ih hs

theorem totalCapacity_tile : (tile base rs).totalCapacity = decodedBytes rs := by
  induction rs generalizing base with
  | nil => rfl
  | cons r rs ih => rw [tile, RegionTable.totalCapacity_cons, ih, placedAt, decodedBytes_cons]

/-- The last region ends behind the decoded sizes of all. -/
theorem end_of_getLast?_tile (h : (tile base rs).getLast? = some final) :
    final.base + final.decodeLength = base + decodedBytes rs := by
  induction rs generalizing base with
  | nil => cases h
  | cons r rs ih =>
    cases rs with
    | nil =>
      rw [tile_singleton, List.getLast?_singleton, Option.some.injEq] at h
      rw [← h, decodedBytes_cons, decodedBytes_nil, Nat.add_zero, placedAt]
    | cons s rs =>
      rw [getLast?_tile_cons_cons] at h
      rw [decodedBytes_cons, ← Nat.add_assoc]
      exact ih h

/-- What can be used of the last region ends where the configuration says. -/
theorem stop_of_getLast?_tile (hwords : ∀ r ∈ rs, r.length ≤ Word.last)
    (hend : base + decodedBytes rs ≤ Word.last) (h : (tile base rs).getLast? = some final) :
    final.base + final.length = base + span rs := by
  induction rs generalizing base with
  | nil => cases h
  | cons r rs ih =>
    cases rs with
    | nil =>
      rw [tile_singleton, List.getLast?_singleton, Option.some.injEq] at h
      rw [← h, span, placedAt]
    | cons s rs =>
      rw [getLast?_tile_cons_cons] at h
      have hwords' := (List.forall_mem_cons.mp hwords).2
      rw [decodedBytes_cons, ← Nat.add_assoc] at hend
      have hlast := ih hwords' hend h
      have hdecoded := end_of_getLast?_tile h
      have hmem : final ∈ tile (base + r.decodeLength) (s :: rs) := List.mem_of_getLast? h
      have hconfig : final.config ∈ s :: rs := by
        rw [← map_config_tile (base + r.decodeLength) (s :: rs)]
        exact List.mem_map_of_mem hmem
      have hlength : final.length ≤ final.decodeLength := by
        rw [decodeLength_eq_of_mem_tile hmem]
        exact length_le_decodeLength (hwords' _ hconfig)
      -- So the sum of the sizes was not held at the last word.
      have hspan : span (r :: s :: rs) = r.decodeLength + span (s :: rs) :=
        Word.addSat_eq_add (by omega)
      omega

theorem decodedBytes_take_le (rs : List RegionConfig) (n : Nat) :
    decodedBytes (rs.take n) ≤ decodedBytes rs := by
  induction rs generalizing n with
  | nil => simp
  | cons r rs ih =>
    cases n with
    | zero => exact Nat.zero_le _
    | succ n =>
      rw [List.take_succ_cons, decodedBytes_cons, decodedBytes_cons]
      exact Nat.add_le_add_left (ih n) _

end RegionConfig

/-! ## The check of a table -/

namespace RegionTable

variable {t : RegionTable} {index : Nat}

theorem misplaced?_eq_none (h : t.IsChain fun r s => r.decodeStop ≤ s.base) :
    misplaced? index t = none := by
  induction t generalizing index with
  | nil => rfl
  | cons r t ih =>
    cases t with
    | nil => rfl
    | cons s t =>
      obtain ⟨hle, hrest⟩ := List.isChain_cons_cons.mp h
      rw [misplaced?, if_neg (Nat.not_lt.mpr hle), ih hrest]

theorem oversized?_eq_none (h : ∀ r ∈ t, r.length ≤ r.decodeLength) :
    oversized? index t = none := by
  induction t generalizing index with
  | nil => rfl
  | cons r t ih =>
    obtain ⟨hr, hrest⟩ := List.forall_mem_cons.mp h
    rw [oversized?, if_neg (Nat.not_lt.mpr hr), ih hrest]

end RegionTable

namespace MemoryConfig

/-- The sizes are 64-bit words. -/
structure HasWords (c : MemoryConfig) : Prop where
  volatileCapacity : c.volatileCapacity ≤ Word.last
  persistentCapacity : c.persistentCapacity ≤ Word.last
  regions : ∀ r ∈ c.regions, r.length ≤ Word.last

instance (c : MemoryConfig) : Decidable c.HasWords :=
  decidable_of_iff (c.volatileCapacity ≤ Word.last ∧ c.persistentCapacity ≤ Word.last ∧
      ∀ r ∈ c.regions, r.length ≤ Word.last)
    ⟨fun ⟨h1, h2, h3⟩ => ⟨h1, h2, h3⟩, fun ⟨h1, h2, h3⟩ => ⟨h1, h2, h3⟩⟩

variable {c : MemoryConfig} {staticCapacity : Nat} {t : RegionTable}

theorem layout_eq_ok_iff :
    c.layout staticCapacity = .ok t ↔
      c.check = .ok () ∧
        Word.roundUp staticCapacity capacityUnit + RegionConfig.decodedBytes c.regions ≤
          Word.last ∧
        t = RegionConfig.tile (Word.roundUp staticCapacity capacityUnit) c.regions := by
  rw [layout]
  cases c.check with
  | error e => simp
  | ok => simpa using RegionConfig.place_eq_ok_iff (Word.roundUp_le_last _ _)

/-- The configuration and the table span the same number of blocks. -/
theorem blockCount_of_layout (hwords : c.HasWords) (h : c.layout staticCapacity = .ok t) :
    t.blockCount = c.blockCount := by
  have hlaid := laid_of_layout h hwords.regions
  obtain ⟨-, hend, rfl⟩ := layout_eq_ok_iff.mp h
  generalize Word.roundUp staticCapacity capacityUnit = base at *
  have hsizes : (RegionConfig.tile base c.regions).map (·.blockSize) =
      c.regions.map (·.blockSize) := by
    conv_rhs => rw [← RegionConfig.map_config_tile base c.regions, List.map_map]
    rfl
  unfold RegionTable.blockCount blockCount
  cases hlast : (RegionConfig.tile base c.regions).getLast? with
  | none =>
    rw [List.getLast?_eq_none_iff.mp hlast] at hsizes ⊢
    rw [← hsizes]
    rfl
  | some final =>
    have hmem : final ∈ RegionConfig.tile base c.regions := List.mem_of_getLast? hlast
    obtain ⟨smallest, hsmallest, hmin, -⟩ := exists_min?_map Region.blockSize hmem
    obtain ⟨r, rs, hregions⟩ : ∃ r rs, c.regions = r :: rs := by
      refine List.exists_cons_of_ne_nil fun hnil => ?_
      rw [hnil] at hmem
      cases hmem
    have hspan := RegionConfig.stop_of_getLast?_tile hwords.regions hend hlast
    have hgranule : (RegionConfig.tile base c.regions).granule = smallest.blockSize := by
      rw [RegionTable.granule, hmin, Option.getD_some]
      exact Nat.max_eq_left (hlaid.regions _ hsmallest).blockSize_pos
    have hhead : (RegionConfig.tile base c.regions).head? = some (r.placedAt base) := by
      rw [RegionConfig.head?_tile, hregions]
      rfl
    rw [hhead, hgranule, ← hsizes, hmin]
    simp only
    rw [(hlaid.regions final hmem).stop_eq, hspan]
    simp only [RegionConfig.placedAt, Nat.add_sub_cancel_left]

/-- A ledger accepts every layout. -/
theorem ofRegions_of_layout (hwords : c.HasWords) (h : c.layout staticCapacity = .ok t) :
    Ledger.ofRegions t = .ok { regions := t } := by
  have hlaid := laid_of_layout h hwords.regions
  have hcount := blockCount_of_layout hwords h
  obtain ⟨hcheck, -, ht⟩ := layout_eq_ok_iff.mp h
  have hordered : t.IsChain fun r s => r.decodeStop ≤ s.base := by
    rw [ht]
    refine RegionConfig.isChain_tile.imp fun r s hnext => ?_
    exact Nat.le_trans (Word.addSat_le_add _ _) (Nat.le_of_eq hnext)
  have hfew : ¬ maxBlocks < t.blockCount := by
    rw [hcount]
    exact Nat.not_lt.mpr (sound_of_check hcheck).2
  have hsizes : ∀ r ∈ t, r.length ≤ r.decodeLength := fun r hr => (hlaid.regions r hr).length_le
  rw [Ledger.ofRegions, RegionTable.check, RegionTable.misplaced?_eq_none hordered]
  simp only
  rw [if_neg hfew, RegionTable.oversized?_eq_none hsizes]

end MemoryConfig

/-! ## Whole units without gaps -/

/-- The configured regions in whole units and without gaps between them. The first one starts at
the boundary of a unit behind static capacity. -/
structure RegionTable.Tiles (t : RegionTable) (c : MemoryConfig) (staticCapacity : Nat) : Prop where
  configured : t.map (·.config) = c.regions
  contiguous : t.IsChain fun r s => r.base + r.decodeLength = s.base
  aligned : ∀ r ∈ t, r.base % capacityUnit = 0 ∧ r.decodeLength % capacityUnit = 0
  decodes : ∀ r ∈ t, r.length ≤ r.decodeLength ∧ r.decodeLength < r.length + capacityUnit
  first_least : ∀ r, t.head? = some r → staticCapacity ≤ r.base ∧
    ∀ boundary, staticCapacity ≤ boundary → boundary % capacityUnit = 0 → r.base ≤ boundary

namespace MemoryConfig

variable {c : MemoryConfig} {staticCapacity : Nat} {t : RegionTable}

theorem tiles_of_layout (hwords : c.HasWords) (hstatic : staticCapacity ≤ Word.last)
    (h : c.layout staticCapacity = .ok t) : t.Tiles c staticCapacity := by
  have hlaid := laid_of_layout h hwords.regions
  obtain ⟨-, -, rfl⟩ := layout_eq_ok_iff.mp h
  refine ⟨RegionConfig.map_config_tile .., RegionConfig.isChain_tile, fun r hr => ?_,
    fun r hr => ?_, fun r hr => ?_⟩
  · exact ⟨(hlaid.regions r hr).base_aligned, (hlaid.regions r hr).decode_aligned⟩
  · refine ⟨(hlaid.regions r hr).length_le, ?_⟩
    rw [RegionConfig.decodeLength_eq_of_mem_tile hr]
    exact Word.roundUp_lt_add (by decide)
  · rw [RegionConfig.head?_tile] at hr
    obtain ⟨_, -, rfl⟩ := Option.map_eq_some_iff.mp hr
    exact ⟨Word.le_roundUp (by decide) hstatic, fun _ => Word.roundUp_le (by decide)⟩

/-! ## Memory for the device -/

/-- Memory for the device can be computed in 64-bit words: the sizes of the first regions, static
capacity, and what lies behind it. It reaches exactly to the end of the last region. -/
structure BacksAll (c : MemoryConfig) (t : RegionTable) : Prop where
  decoded : ∀ n, RegionConfig.decodedBytes (c.regions.take n) ≤ Word.last
  static : c.volatileCapacity + c.persistentCapacity ≤ Word.last
  dynamic : c.memory.dynamicCapacity ≤ Word.last
  ends : ∃ final, t.getLast? = some final ∧
    c.volatileCapacity + c.persistentCapacity + c.memory.dynamicCapacity =
      final.base + final.decodeLength ∧
    c.memory.capacity = final.base + final.decodeLength

theorem backsAll_of_layout (hwords : c.HasWords) (hregions : c.regions ≠ [])
    (h : c.layout (Word.addSat c.volatileCapacity c.persistentCapacity) = .ok t) :
    c.BacksAll t := by
  have hlaid := laid_of_layout h hwords.regions
  obtain ⟨-, hend, ht⟩ := layout_eq_ok_iff.mp h
  have hround : Word.addSat c.volatileCapacity c.persistentCapacity ≤
      Word.roundUp (Word.addSat c.volatileCapacity c.persistentCapacity) capacityUnit :=
    Word.le_roundUp (by decide) (Word.addSat_le_last _ _)
  obtain ⟨final, hfinal⟩ : ∃ final, t.getLast? = some final := by
    refine Option.ne_none_iff_exists'.mp fun hnone => hregions ?_
    rw [List.getLast?_eq_none_iff.mp hnone] at ht
    rw [← RegionConfig.map_config_tile _ c.regions, ← ht, List.map_nil]
  have hdecoded : final.base + final.decodeLength =
      Word.roundUp (Word.addSat c.volatileCapacity c.persistentCapacity) capacityUnit +
        RegionConfig.decodedBytes c.regions :=
    RegionConfig.end_of_getLast?_tile (ht ▸ hfinal)
  -- The last region is not empty, so static capacity ends in front of the last word.
  have hstatic : c.volatileCapacity + c.persistentCapacity ≤ Word.last := by
    have hfirst : 0 < RegionConfig.decodedBytes c.regions := by
      obtain ⟨r, rs, hcons⟩ := List.exists_cons_of_ne_nil hregions
      rw [hcons, RegionConfig.tile] at ht
      have hr := hlaid.regions _ (ht ▸ List.mem_cons_self)
      have hpos : 0 < r.decodeLength := Nat.lt_of_lt_of_le hr.length_pos hr.length_le
      rw [hcons, RegionConfig.decodedBytes_cons]
      exact Nat.add_pos_left hpos _
    unfold Word.addSat at *
    omega
  have heq : Word.addSat c.volatileCapacity c.persistentCapacity =
      c.volatileCapacity + c.persistentCapacity := Word.addSat_eq_add hstatic
  rw [heq] at hround hdecoded hend
  have hdynamic : c.memory.dynamicCapacity = RegionConfig.decodedBytes c.regions +
      (Word.roundUp (c.volatileCapacity + c.persistentCapacity) capacityUnit -
        (c.volatileCapacity + c.persistentCapacity)) := rfl
  have hends : c.volatileCapacity + c.persistentCapacity + c.memory.dynamicCapacity =
      final.base + final.decodeLength := by omega
  refine ⟨fun n => ?_, hstatic, by omega, final, hfinal, hends, ?_⟩
  · have hpart := RegionConfig.decodedBytes_take_le c.regions n
    omega
  · rw [Memory.capacity, Memory.staticCapacity]
    show Word.addSat (Word.addSat c.volatileCapacity c.persistentCapacity)
      c.memory.dynamicCapacity = _
    rw [heq, Word.addSat_eq_add (by omega), hends]

/-- **A configuration, the ledger over its layout and the memory behind it agree where the regions
lie.** Every layout is accepted, nothing is held at the last word on the way, and the regions follow
each other in whole units. With static capacity of its own, the memory of a device with regions ends
where the last of them does. -/
theorem layout_agrees (hwords : c.HasWords) (hstatic : staticCapacity ≤ Word.last)
    (h : c.layout staticCapacity = .ok t) :
    Ledger.ofRegions t = .ok { regions := t } ∧ t.blockCount = c.blockCount ∧
      t.totalCapacity ≤ Word.last ∧ t.Tiles c staticCapacity ∧
      (c.regions ≠ [] → staticCapacity = Word.addSat c.volatileCapacity c.persistentCapacity →
        c.BacksAll t) := by
  refine ⟨ofRegions_of_layout hwords h, blockCount_of_layout hwords h, ?_,
    tiles_of_layout hwords hstatic h, ?_⟩
  · obtain ⟨-, hend, rfl⟩ := layout_eq_ok_iff.mp h
    rw [RegionConfig.totalCapacity_tile]
    exact Nat.le_trans (Nat.le_add_left _ _) hend
  · rintro hregions rfl
    exact backsAll_of_layout hwords hregions h

/-- Static capacity that ends in the middle of a unit, and regions of different block sizes behind
it. -/
def paddedConfig : MemoryConfig := { mixedConfig with volatileCapacity := 0x1000 }

theorem layout_agrees_padded :
    paddedConfig.HasWords ∧ Word.addSat 0x1000 0x10000000 ≤ Word.last ∧
      paddedConfig.regions ≠ [] ∧
      ∃ t, paddedConfig.layout (Word.addSat 0x1000 0x10000000) = .ok t ∧
        t.map (·.base) = [0x20000000, 0xa0000000] ∧ t.blockCount = paddedConfig.blockCount ∧
        paddedConfig.memory.capacity = 0xb0000000 := by
  have hlayout : paddedConfig.layout (Word.addSat 0x1000 0x10000000) =
      .ok [⟨0x20000000, 0x80000000, 0x80000000, 0x40000000, 0, 0⟩,
        ⟨0xa0000000, 0x10000000, 0x8000000, 0x200000, 0, 0⟩] := by decide
  obtain ⟨-, hcount, -, -, hbacks⟩ := layout_agrees (by decide) (by decide) hlayout
  obtain ⟨final, hfinal, -, hends⟩ := (hbacks (by decide) rfl).ends
  obtain rfl := Option.some.inj hfinal
  exact ⟨by decide, by decide, by decide, _, hlayout, rfl, hcount, hends⟩

end MemoryConfig

end CxlEndpoint
