import CxlEndpoint.Proofs.Capacity.Release

/-!
# Adding capacity and giving it back

* `Cutting`: ranges inside those of a batch, with the addresses of the batch.
* `subtract_append_of_cutting`: taking a cutting out of extents that end with the batch leaves the
  extents in front of the batch. The pieces in between do not matter.
* `Ledger.Sound.release_add`: a release of such a cutting undoes the addition of the batch.
* `Ledger.add_iff`: when a ledger with any history accepts an addition, what it holds then, and what
  undoes the addition.
-/

namespace CxlEndpoint

/-- The ranges `cuts` are parts of the ranges of a batch, and together have the same addresses. -/
structure Cutting (batch cuts : List AddressRange) : Prop where
  within : ∀ r ∈ cuts, ∃ s ∈ batch, r.Within s
  has_iff : ∀ a, (∃ r ∈ cuts, r.Has a) ↔ ∃ s ∈ batch, s.Has a

section Subtract

variable {batch cuts : List AddressRange} {extents : List Extent} {e : Extent}

theorem AddressRange.Proper.has_start {r : AddressRange} (h : r.Proper) : r.Has r.start :=
  ⟨Nat.le_refl _, Nat.lt_add_of_pos_right h.length_pos⟩

/-- A batch with addresses is not cut into nothing. -/
theorem Cutting.ne_nil (h : Cutting batch cuts) (hnil : batch ≠ [])
    (hbatch : ∀ s ∈ batch, s.Proper) : cuts ≠ [] := by
  rintro rfl
  obtain ⟨s, hs⟩ := List.exists_mem_of_ne_nil batch hnil
  obtain ⟨r, hr, -⟩ := (h.has_iff s.start).mpr ⟨s, hs, (hbatch s hs).has_start⟩
  cases hr

theorem subtract_append {behind : List Extent} :
    subtract cuts (extents ++ behind) = subtract cuts extents ++ subtract cuts behind := by
  rw [subtract_eq_flatMap, List.flatMap_append, ← subtract_eq_flatMap, ← subtract_eq_flatMap]

/-- Extents that share no address with the ranges stay as they are. -/
theorem Spread.subtract_of_apart (h : Spread extents) (hcuts : ∀ r ∈ cuts, r.Proper)
    (hapart : ∀ r ∈ cuts, ∀ e ∈ extents, e.range.Apart r) : subtract cuts extents = extents := by
  induction cuts with
  | nil => rfl
  | cons r cuts ih =>
    obtain ⟨hr, hcuts⟩ := List.forall_mem_cons.mp hcuts
    obtain ⟨hfirst, hapart⟩ := List.forall_mem_cons.mp hapart
    rw [subtract_cons, h.flatMap_minus_of_apart hr hfirst, ih hcuts hapart]

/-- Nothing is left of an extent all of whose addresses are in the ranges. -/
theorem subtract_eq_nil_of_covered (he : e.range.Proper) (hcuts : ∀ r ∈ cuts, r.Proper)
    (hcovered : ∀ a, e.range.Has a → ∃ r ∈ cuts, r.Has a) : subtract cuts [e] = [] := by
  have hleft := remainder_subtract he hcuts
  refine List.eq_nil_iff_forall_not_mem.mpr fun p hp => ?_
  obtain ⟨hea, hfree⟩ := (hleft.has_iff p.start).mp ⟨p, hp, (hleft.proper p hp).has_start⟩
  obtain ⟨r, hr, ha⟩ := hcovered p.start hea
  exact hfree r hr ha

/-- In whatever pieces and in whatever order the batch is taken out, the extents in front of it are
left. -/
theorem subtract_append_of_cutting (h : Spread extents) (hbatch : ∀ s ∈ batch, s.Proper)
    (hcuts : ∀ r ∈ cuts, r.Proper) (hcutting : Cutting batch cuts)
    (hapart : ∀ s ∈ batch, ∀ e ∈ extents, e.range.Apart s) :
    subtract cuts (extents ++ batch.map .untagged) = extents := by
  have hold : subtract cuts extents = extents := by
    refine h.subtract_of_apart hcuts fun r hr e he => ?_
    obtain ⟨s, hs, hwithin⟩ := hcutting.within r hr
    exact hwithin.apart (hapart s hs e he).symm
  have hnew : subtract cuts (batch.map .untagged) = [] := by
    rw [subtract_eq_flatMap, List.flatMap_map]
    refine List.flatMap_eq_nil_iff.mpr fun s hs => ?_
    exact subtract_eq_nil_of_covered (hbatch s hs) hcuts fun a ha =>
      (hcutting.has_iff a).mpr ⟨s, hs, ha⟩
  rw [subtract_append, hold, hnew, List.append_nil]

end Subtract

namespace Ledger

variable {l l' : Ledger} {batch cuts : List AddressRange}

/-- Releasing a cutting of the ranges that were added brings back the extents before. -/
theorem Sound.release_add (h : l.Sound) (hnil : batch ≠ []) (hok : l.add batch = .ok l')
    (hcuts : l.regions.checkBatch cuts = .ok ()) (hcutting : Cutting batch cuts) :
    l'.release cuts = .ok { l with generation := l.generation + 2 } := by
  have hsound := h.add hok
  obtain ⟨hcheck, hapart, rfl⟩ := (h.add_eq_ok_iff hnil).mp hok
  have hbatch := h.proper_of_checkBatch hcheck
  refine hsound.release_eq_ok_iff.mpr
    ⟨⟨hcutting.ne_nil hnil hbatch, hcuts, fun r hr => ?_⟩, ?_⟩
  · obtain ⟨s, hs, hwithin⟩ := hcutting.within r hr
    exact ⟨.untagged s, List.mem_append_right _ (List.mem_map_of_mem hs), hwithin⟩
  · have hextents : subtract cuts (l.extents ++ batch.map .untagged) = l.extents :=
      subtract_append_of_cutting h.spread hbatch (h.proper_of_checkBatch hcuts) hcutting hapart
    simp only [commit, hextents, UInt32.add_assoc]
    rfl

/-- **A batch is added as a whole or not at all, and giving back the same addresses undoes it**, in
whatever pieces and in whatever order. -/
theorem add_iff {c : MemoryConfig} {staticCapacity : Nat} {t : RegionTable} {l₀ l : Ledger}
    (hlayout : c.layout staticCapacity = .ok t) (hnew : ofRegions t = .ok l₀) (past : List Op)
    (hl : l = l₀.after past) (batch : List AddressRange) :
    ((∃ l', l.add batch = .ok l') ↔
      batch = [] ∨
        t.checkBatch batch = .ok () ∧ ∀ r ∈ batch, ∀ e ∈ l.extents, e.range.Apart r) ∧
    (∀ l', l.add batch = .ok l' →
      (batch = [] → l' = l) ∧
      (batch ≠ [] →
        l' = l.commit (l.extents ++ batch.map .untagged) ∧
        ∀ cuts, t.checkBatch cuts = .ok () → Cutting batch cuts →
          l'.release cuts = .ok { l with generation := l.generation + 2 })) ∧
    ∀ refusal, l.add batch = .error refusal →
      l.step (.add batch) = l ∧
      ∀ m d command now room, d.ledger = l →
        (Endpoint.memory m d).conclude command now room
            ((Endpoint.memory m d).serve now room (.memory (.addCapacity batch))) =
          (.memory m d, .refusal refusal.status) := by
  obtain ⟨hsound, hregions⟩ := sound_after hlayout hnew past
  rw [← hl] at hsound hregions
  rw [← hregions]
  refine ⟨?_, fun l' hok => ⟨?_, fun hnil => ⟨?_, fun cuts => hsound.release_add hnil hok⟩⟩,
    fun refusal herr => ⟨step_of_error herr, ?_⟩⟩
  · by_cases hnil : batch = []
    · rw [hnil, add_nil]
      exact iff_of_true ⟨l, rfl⟩ (Or.inl rfl)
    · rw [or_iff_right hnil]
      constructor
      · rintro ⟨l', hok⟩
        obtain ⟨hcheck, hapart, -⟩ := (hsound.add_eq_ok_iff hnil).mp hok
        exact ⟨hcheck, hapart⟩
      · rintro ⟨hcheck, hapart⟩
        exact ⟨_, (hsound.add_eq_ok_iff hnil).mpr ⟨hcheck, hapart, rfl⟩⟩
  · rintro rfl
    exact (Except.ok.inj hok).symm
  · exact ((hsound.add_eq_ok_iff hnil).mp hok).2.2.symm
  · rintro m d command now room rfl
    have hattempt : d.ledger.attempt (.add batch) = .error refusal := herr
    exact Endpoint.conclude_of_attempt_error rfl hattempt m command now room

/-- Two ranges between the extents of `mixedLedger` and behind them. -/
def returnedBatch : List AddressRange := [⟨0x94000000, 0x800000⟩, ⟨0x90800000, 0x400000⟩]

/-- The same blocks in four pieces, in another order. -/
def returnedCuts : List AddressRange :=
  [⟨0x90a00000, 0x200000⟩, ⟨0x94200000, 0x600000⟩, ⟨0x90800000, 0x200000⟩, ⟨0x94000000, 0x200000⟩]

theorem cutting_returnedCuts : Cutting returnedBatch returnedCuts := by
  refine ⟨by decide, fun a => ?_⟩
  simp only [returnedBatch, returnedCuts, List.exists_mem_cons_iff, AddressRange.Has]
  simp only [List.not_mem_nil, false_and, exists_false, or_false]
  omega

theorem add_iff_returnedBatch :
    mixedConfig.layout 0x10000000 = .ok mixedTable ∧
      ofRegions mixedTable = .ok { regions := mixedTable } ∧
      mixedLedger = after { regions := mixedTable } mixedHistory ∧
      (∃ l', mixedLedger.add returnedBatch = .ok l' ∧
        l'.extents = mixedLedger.extents ++ returnedBatch.map .untagged ∧
        l'.release returnedCuts = .ok { mixedLedger with generation := 5 }) ∧
      mixedLedger.step (.add [⟨0x90400000, 0x400000⟩]) = mixedLedger := by
  have hlaw := add_iff layout_mixedConfig ofRegions_mixedTable mixedHistory
    after_mixedHistory.symm
  refine ⟨layout_mixedConfig, ofRegions_mixedTable, after_mixedHistory.symm, ?_, ?_⟩
  · obtain ⟨hwhen, hthen, -⟩ := hlaw returnedBatch
    obtain ⟨l', hok⟩ := hwhen.mpr (Or.inr ⟨by decide, by decide⟩)
    obtain ⟨-, hnonempty⟩ := hthen l' hok
    obtain ⟨hl', hundo⟩ := hnonempty (by decide)
    refine ⟨l', hok, ?_, hundo returnedCuts (by decide) cutting_returnedCuts⟩
    rw [hl']
    rfl
  · -- The second of its two blocks is held.
    have herr : mixedLedger.add [⟨0x90400000, 0x400000⟩] = .error .alreadyHeld := by decide
    exact ((hlaw _).2.2 _ herr).1

end Ledger

end CxlEndpoint
