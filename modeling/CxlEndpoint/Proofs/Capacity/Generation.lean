import CxlEndpoint.Proofs.Capacity.Release
import Mathlib.Data.List.Perm.Subperm

/-!
# The generation of a ledger

* `Ledger.Advances`: other extents, one generation later. `Ledger.Sound.eq_or_advances`: this is
  what every change makes of a sound ledger, unless it makes no difference.
* `Ledger.Sound.length_extents_le`: there are no more extents than blocks. So the extents of a
  ledger over accepted regions can be counted in 32 bits (`Ledger.Listable`).
-/

namespace CxlEndpoint

/-- What lies behind a range is not in its first block. -/
theorem OnGrid.blockNumber_lt {origin granule a : Nat} {r : AddressRange} (hg : 0 < granule)
    (hr : OnGrid origin granule r) (h : r.start + r.length ≤ a) :
    blockNumber origin granule r.start < blockNumber origin granule a :=
  calc blockNumber origin granule r.start
      < blockNumber origin granule r.start + r.length / granule :=
        Nat.lt_add_of_pos_right (Nat.div_pos (Nat.le_of_dvd hr.length_pos hr.length_dvd) hg)
    _ = blockNumber origin granule (r.start + r.length) :=
        (blockNumber_add hg hr.length_dvd hr.origin_le).symm
    _ ≤ blockNumber origin granule a := Nat.div_le_div_right (Nat.sub_le_sub_right h _)

namespace Ledger

/-- `l'` has other extents of the same regions than `l`, one generation later. -/
structure Advances (l l' : Ledger) : Prop where
  extents_ne : l'.extents ≠ l.extents
  generation_eq : l'.generation = l.generation + 1
  regions_eq : l'.regions = l.regions

variable {l l' : Ledger} {op : Op} {batch : List AddressRange} {extents : List Extent}

theorem advances_append (hne : extents ≠ []) : l.Advances (l.commit (l.extents ++ extents)) :=
  ⟨fun heq => hne (List.append_right_eq_self.mp heq), rfl, rfl⟩

namespace Sound

/-- The ledger has the addresses of a released range before, and not afterwards. -/
theorem advances_release (h : l.Sound) (hok : l.release batch = .ok l') : l.Advances l' := by
  have hreleases := h.releases hok
  obtain ⟨⟨hne, hcheck, hwithin⟩, -⟩ := h.release_eq_ok_iff.mp hok
  refine ⟨fun hsame => ?_, hreleases.generation_eq, hreleases.regions_eq⟩
  obtain ⟨r, rest, rfl⟩ := List.exists_cons_of_ne_nil hne
  obtain ⟨e, he, hlo, hhi⟩ := hwithin r List.mem_cons_self
  have hpos := (h.proper_of_checkBatch hcheck r List.mem_cons_self).length_pos
  have hhas : r.Has r.start := ⟨Nat.le_refl _, Nat.lt_add_of_pos_right hpos⟩
  have hheld : l.HasTagged r.start e.tag e.sequenceNumber :=
    ⟨e, he, rfl, rfl, hlo, Nat.lt_of_lt_of_le hhas.2 hhi⟩
  have hkept : l'.HasTagged r.start e.tag e.sequenceNumber := by
    unfold HasTagged
    rwa [hsame]
  have hfree := ((hreleases.has_iff _ _ _).mp hkept).2
  exact hfree r List.mem_cons_self hhas

/-- Only an empty batch makes no difference. -/
theorem eq_or_advances (h : l.Sound) (hok : l.attempt op = .ok l') : l' = l ∨ l.Advances l' := by
  cases op with
  | add batch =>
    by_cases hnil : batch = []
    · rw [hnil] at hok
      exact Or.inl (Except.ok.inj hok).symm
    · obtain ⟨-, -, rfl⟩ := (add_eq_ok hnil).mp hok
      exact Or.inr (advances_append (by simpa using hnil))
  | release batch => exact Or.inr (h.advances_release hok)
  | provision e =>
    obtain ⟨-, -, rfl⟩ := provision_eq_ok.mp hok
    exact Or.inr (advances_append (List.cons_ne_nil _ _))

theorem step_eq_or_advances (h : l.Sound) (op : Op) : l.step op = l ∨ l.Advances (l.step op) := by
  cases hop : l.attempt op with
  | error refusal => exact Or.inl (step_of_error hop)
  | ok l' =>
    rw [step_of_ok hop]
    exact h.eq_or_advances hop

/-- Each extent starts in a block of its own. -/
theorem length_extents_le (h : l.Sound) : l.extents.length ≤ l.regions.blockCount := by
  cases hf : l.regions.head? with
  | none =>
    have hnone : l.extents = [] := by
      apply List.eq_nil_iff_forall_not_mem.mpr
      intro e he
      obtain ⟨region, hmem, -⟩ := h.provided e he
      rw [List.head?_eq_none_iff.mp hf] at hmem
      cases hmem
    rw [hnone]
    exact Nat.zero_le _
  | some first =>
    have hg : 0 < l.regions.granule := RegionTable.Laid.granule_pos
    have hgrid (e : Extent) (he : e ∈ l.extents) := h.laid.onGrid_of_provides hf (h.provided e he)
    have hdistinct : (l.extents.map fun e =>
        blockNumber first.base l.regions.granule e.range.start).Nodup := by
      refine List.pairwise_map.mpr (h.apart.imp_of_mem ?_)
      intro e f he hf hapart
      rcases hapart with hle | hle
      · exact Nat.ne_of_lt ((hgrid e he).1.blockNumber_lt hg hle)
      · exact Nat.ne_of_gt ((hgrid f hf).1.blockNumber_lt hg hle)
    have hrange : (l.extents.map fun e =>
        blockNumber first.base l.regions.granule e.range.start) ⊆
          List.range l.regions.blockCount := by
      intro n hn
      obtain ⟨e, he, rfl⟩ := List.mem_map.mp hn
      obtain ⟨hon, hlast⟩ := hgrid e he
      exact List.mem_range.mpr
        (Nat.lt_of_lt_of_le (hon.blockNumber_lt hg (Nat.le_refl _)) hlast)
    have hle := (List.subperm_of_subset hdistinct hrange).length_le
    rwa [List.length_map, List.length_range] at hle

end Sound

theorem blockCount_of_ofRegions {t : RegionTable} (h : ofRegions t = .ok l) :
    l.regions.blockCount ≤ maxBlocks := by
  obtain ⟨rfl, -⟩ := ofRegions_eq_ok h
  show t.blockCount ≤ maxBlocks
  by_contra hmany
  unfold ofRegions RegionTable.check at h
  rw [if_pos (Nat.lt_of_not_le hmany)] at h
  cases hmisplaced : t.misplaced? 0 <;> rw [hmisplaced] at h <;> cases h

/-- A sound ledger whose extents can be counted in 32 bits. -/
structure Listable (l : Ledger) : Prop where
  sound : l.Sound
  few : l.regions.blockCount ≤ maxBlocks

namespace Listable

theorem of_ofRegions {c : MemoryConfig} {staticCapacity : Nat} {t : RegionTable}
    (hlayout : c.layout staticCapacity = .ok t) (hnew : ofRegions t = .ok l) : l.Listable :=
  ⟨(sound_of_ofRegions hlayout hnew).1, blockCount_of_ofRegions hnew⟩

theorem attempt (h : l.Listable) (hok : l.attempt op = .ok l') : l'.Listable := by
  obtain ⟨hsound, hregions⟩ := h.sound.attempt hok
  exact ⟨hsound, hregions ▸ h.few⟩

theorem length_lt (h : l.Listable) : l.extents.length < 1 <<< 32 :=
  calc l.extents.length ≤ l.regions.blockCount := h.sound.length_extents_le
    _ ≤ maxBlocks := h.few
    _ < 1 <<< 32 := by decide

end Listable

end Ledger

end CxlEndpoint
