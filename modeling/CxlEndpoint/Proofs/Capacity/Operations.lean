import CxlEndpoint.Proofs.Capacity.Pieces

/-!
# What the three changes do to a ledger

* `Ledger.add_eq_ok`, `Ledger.provision_eq_ok`, `Ledger.release_eq_ok`: when a ledger accepts a
  change, with the checks as they are made.
* `Spread`: extents that share no address. `Spread.releaseRanges_eq_ok_iff`: ranges can be taken
  out one after another exactly if each lies in one of the extents at the start, and what is left
  are the extents without the batch.
* `Ledger.Sound`: regions provide the extents, and these share no address.
* `Sound.add_eq_ok_iff`, `Sound.release_eq_ok_iff`, `Sound.provision_eq_ok_iff`: when a sound ledger
  accepts a change, and what it holds then. `Sound.add`, `Sound.release` and `Sound.provision`: it
  stays sound.
-/

namespace CxlEndpoint

namespace Ledger

variable {l l' : Ledger} {e : Extent} {extents extents' : List Extent} {r : AddressRange}
  {batch : List AddressRange}

/-! ## Accepted changes -/

theorem releaseRange_cons_of_meets (h : e.Meets r) :
    releaseRange r (e :: extents) = .ok extents' ↔
      e.Holds r ∧ e.without r ++ extents = extents' := by
  rw [releaseRange, if_pos h]
  split <;> simp [*]

theorem releaseRange_cons_of_not_meets (h : ¬ e.Meets r) :
    releaseRange r (e :: extents) = .ok extents' ↔
      ∃ rest, releaseRange r extents = .ok rest ∧ e :: rest = extents' := by
  rw [releaseRange, if_neg h]
  cases releaseRange r extents <;> simp

theorem releaseRanges_cons_eq_ok_iff :
    releaseRanges (r :: batch) extents = .ok extents' ↔
      ∃ rest, releaseRange r extents = .ok rest ∧ releaseRanges batch rest = .ok extents' := by
  rw [releaseRanges]
  cases releaseRange r extents <;> simp

theorem release_eq_ok :
    l.release batch = .ok l' ↔
      batch ≠ [] ∧ l.regions.checkBatch batch = .ok () ∧
        ∃ extents, releaseRanges batch l.extents = .ok extents ∧ l.commit extents = l' := by
  unfold release
  by_cases hnil : batch = []
  · simp [hnil]
  · rw [if_neg (mt List.isEmpty_iff.mp hnil)]
    cases l.regions.checkBatch batch with
    | error err => simp
    | ok => cases releaseRanges batch l.extents <;> simp [hnil]

/-- New extents are taken in unless the check `held` finds one of them in the ledger. -/
theorem ite_held_eq_ok {held : Bool} {Free : Prop} (h : held = true ↔ ¬ Free) :
    (if held then .error .alreadyHeld else .ok (l.commit extents)) = (.ok l' : Except Refusal _) ↔
      Free ∧ l.commit extents = l' := by
  split
  · simp only [reduceCtorEq, false_iff]
    exact fun hnew => h.mp ‹_› hnew.1
  · rw [Except.ok.injEq, and_iff_right (Classical.not_not.mp fun hn => ‹¬ _› (h.mpr hn))]

theorem add_nil : l.add [] = .ok l := rfl

theorem add_eq_ok (hnil : batch ≠ []) :
    l.add batch = .ok l' ↔
      l.regions.checkBatch batch = .ok () ∧ (∀ r ∈ batch, ∀ e ∈ l.extents, ¬ e.Meets r) ∧
        l.commit (l.extents ++ batch.map .untagged) = l' := by
  have hheld : (batch.any fun r => l.extents.any fun e => e.Meets r) = true ↔
      ¬ ∀ r ∈ batch, ∀ e ∈ l.extents, ¬ e.Meets r := by simp
  unfold add
  rw [if_neg (mt List.isEmpty_iff.mp hnil)]
  cases l.regions.checkBatch batch with
  | error err => simp
  | ok =>
    rw [and_iff_right rfl]
    exact ite_held_eq_ok hheld

theorem provision_eq_ok :
    l.provision e = .ok l' ↔
      l.regions.checkBatch [e.range] = .ok () ∧ (∀ other ∈ l.extents, ¬ other.Meets e.range) ∧
        l.commit (l.extents ++ [e]) = l' := by
  have hheld : (l.extents.any fun other => other.Meets e.range) = true ↔
      ¬ ∀ other ∈ l.extents, ¬ other.Meets e.range := by simp
  unfold provision
  simp only
  rw [show (⟨e.start, e.length⟩ : AddressRange) = e.range from rfl]
  cases l.regions.checkBatch [e.range] with
  | error err => simp
  | ok =>
    rw [and_iff_right rfl]
    exact ite_held_eq_ok hheld

end Ledger

/-! ## Extents that share no address -/

/-- Extents that have addresses, and none of them in common. -/
structure Spread (extents : List Extent) : Prop where
  proper : ∀ e ∈ extents, e.range.Proper
  apart : extents.Pairwise fun e f => e.range.Apart f.range

section Spread

variable {e : Extent} {extents extents' : List Extent} {r : AddressRange}
  {batch : List AddressRange}

theorem spread_cons :
    Spread (e :: extents) ↔
      e.range.Proper ∧ (∀ f ∈ extents, e.range.Apart f.range) ∧ Spread extents := by
  constructor
  · rintro ⟨hproper, hapart⟩
    obtain ⟨he, hrest⟩ := List.forall_mem_cons.mp hproper
    obtain ⟨h1, h2⟩ := List.pairwise_cons.mp hapart
    exact ⟨he, h1, hrest, h2⟩
  · rintro ⟨he, h1, hrest, h2⟩
    exact ⟨List.forall_mem_cons.mpr ⟨he, hrest⟩, List.pairwise_cons.mpr ⟨h1, h2⟩⟩

/-- What a range in one extent is apart from does not lie in another. -/
theorem AddressRange.Within.apart {s u : AddressRange} (h : r.Within s) (hapart : s.Apart u) :
    u.Apart r := by
  unfold Within Apart at *
  omega

theorem AddressRange.Proper.not_apart_of_within {s : AddressRange} (hr : r.Proper)
    (h : r.Within s) : ¬ s.Apart r := by
  have := hr.length_pos
  unfold Within Apart at *
  omega

theorem Spread.minus (h : Spread extents) (hr : r.Proper) :
    Spread (extents.flatMap fun e => e.minus r) := by
  refine ⟨fun p hp => ?_, List.pairwise_flatMap.mpr ⟨fun e _ => ?_, ?_⟩⟩
  · obtain ⟨e, -, hp⟩ := List.mem_flatMap.mp hp
    exact Extent.proper_of_mem_minus hp
  · exact (Extent.ascending_minus hr).imp fun hlt => Or.inl (Nat.le_of_lt hlt)
  · refine h.apart.imp_of_mem fun {e f} he hf hapart p hp q hq => ?_
    have h1 := Extent.within_of_mem_minus (h.proper e he) hr hp
    have h2 := Extent.within_of_mem_minus (h.proper f hf) hr hq
    unfold AddressRange.Within AddressRange.Apart at *
    omega

/-- A range that lies in one extent is apart from all others. -/
theorem Spread.flatMap_minus_of_apart (h : Spread extents) (hr : r.Proper)
    (hapart : ∀ f ∈ extents, f.range.Apart r) : (extents.flatMap fun e => e.minus r) = extents := by
  induction extents with
  | nil => rfl
  | cons e extents ih =>
    obtain ⟨he, -, hrest⟩ := spread_cons.mp h
    obtain ⟨hapart, hapart'⟩ := List.forall_mem_cons.mp hapart
    rw [List.flatMap_cons, Extent.minus_of_apart he hr hapart, ih hrest hapart']
    rfl

theorem Spread.releaseRange_eq_ok_iff (h : Spread extents) (hr : r.Proper) :
    Ledger.releaseRange r extents = .ok extents' ↔
      (∃ e ∈ extents, r.Within e.range) ∧ (extents.flatMap fun e => e.minus r) = extents' := by
  induction extents generalizing extents' with
  | nil => simp [Ledger.releaseRange]
  | cons e extents ih =>
    obtain ⟨he, hothers, hrest⟩ := spread_cons.mp h
    rw [List.flatMap_cons, List.exists_mem_cons_iff]
    by_cases hmeets : e.Meets r
    · -- No later extent meets the range, so none has it, and all of them stay.
      have hmeets' := (Extent.meets_iff he hr).mp hmeets
      have hlater : ¬ ∃ f ∈ extents, r.Within f.range := fun ⟨f, hf, hwithin⟩ =>
        hmeets' (hwithin.apart (hothers f hf).symm)
      rw [Ledger.releaseRange_cons_of_meets hmeets, Extent.holds_iff he hr,
        Extent.without_eq_minus hmeets, or_iff_left hlater]
      refine and_congr_right fun hwithin => ?_
      rw [hrest.flatMap_minus_of_apart hr fun f hf => hwithin.apart (hothers f hf)]
    · have hapart : e.range.Apart r := Classical.not_not.mp fun hn =>
        hmeets ((Extent.meets_iff he hr).mpr hn)
      rw [Ledger.releaseRange_cons_of_not_meets hmeets, Extent.minus_of_apart he hr hapart,
        or_iff_right fun hwithin => hr.not_apart_of_within hwithin hapart]
      simp only [ih hrest]
      constructor
      · rintro ⟨rest, ⟨hex, rfl⟩, rfl⟩
        exact ⟨hex, rfl⟩
      · rintro ⟨hex, rfl⟩
        exact ⟨_, ⟨hex, rfl⟩, rfl⟩

/-- The ranges of a batch without common addresses can be taken out one after another exactly if
each lies in one of the extents at the start. -/
theorem Spread.releaseRanges_eq_ok_iff (h : Spread extents) (hbatch : ∀ r ∈ batch, r.Proper)
    (hapart : batch.Pairwise AddressRange.Apart) :
    Ledger.releaseRanges batch extents = .ok extents' ↔
      (∀ r ∈ batch, ∃ e ∈ extents, r.Within e.range) ∧ subtract batch extents = extents' := by
  induction batch generalizing extents with
  | nil => simp [Ledger.releaseRanges, subtract]
  | cons r batch ih =>
    obtain ⟨hr, hbatch⟩ := List.forall_mem_cons.mp hbatch
    obtain ⟨hfirst, hapart⟩ := List.pairwise_cons.mp hapart
    -- A later range lies in a piece exactly if it lies in the extent of that piece.
    have hlater : (∀ s ∈ batch, ∃ p ∈ extents.flatMap fun e => e.minus r, s.Within p.range) ↔
        ∀ s ∈ batch, ∃ e ∈ extents, s.Within e.range := by
      refine forall₂_congr fun s hs => ?_
      have hpiece : ∀ e ∈ extents, (∃ p ∈ e.minus r, s.Within p.range) ↔ s.Within e.range :=
        fun e he => Extent.exists_within_minus (h.proper e he) hr (hbatch s hs) (hfirst s hs)
      simp only [List.mem_flatMap]
      constructor
      · rintro ⟨p, ⟨e, he, hp⟩, hsp⟩
        exact ⟨e, he, (hpiece e he).mp ⟨p, hp, hsp⟩⟩
      · rintro ⟨e, he, hse⟩
        obtain ⟨p, hp, hsp⟩ := (hpiece e he).mpr hse
        exact ⟨p, ⟨e, he, hp⟩, hsp⟩
    rw [Ledger.releaseRanges_cons_eq_ok_iff, List.forall_mem_cons, subtract_cons, ← hlater,
      and_assoc, ← ih (h.minus hr) hbatch hapart]
    simp only [h.releaseRange_eq_ok_iff hr]
    constructor
    · rintro ⟨_, ⟨hex, rfl⟩, hrest⟩
      exact ⟨hex, hrest⟩
    · rintro ⟨hex, hrest⟩
      exact ⟨_, ⟨hex, rfl⟩, hrest⟩

end Spread

/-! ## Sound ledgers -/

/-- Regions as a layout makes them, extents that these provide, and no address in two extents. -/
structure Ledger.Sound (l : Ledger) : Prop where
  laid : l.regions.Laid
  provided : ∀ e ∈ l.extents, l.regions.Provides e.range
  apart : l.extents.Pairwise fun e f => e.range.Apart f.range

section Pieces

variable {t : RegionTable} {region other : Region} {e p : Extent} {r s : AddressRange}

theorem RegionTable.Provides.proper (h : t.Provides r) : r.Proper := by
  obtain ⟨region, -, hprov⟩ := h
  exact hprov.toProper

theorem Region.Surrounds.of_within (h : region.Surrounds s) (hr : r.Within s) :
    region.Surrounds r :=
  ⟨Nat.le_trans h.1 hr.1, Nat.le_trans hr.2 h.2⟩

/-- Ranges with a common address lie in one region. -/
theorem RegionTable.Laid.eq_of_not_apart (h : t.Laid) (hmem : region ∈ t) (hmem' : other ∈ t)
    (hr : r.Proper) (hs : s.Proper) (hin : region.Surrounds r) (hin' : other.Surrounds s)
    (hmeet : ¬ r.Apart s) : region = other := by
  have hrpos := hr.length_pos
  have hspos := hs.length_pos
  obtain ⟨hlo, hhi⟩ := hin
  obtain ⟨hlo', hhi'⟩ := hin'
  unfold AddressRange.Apart at hmeet
  have hcommon : ∃ a, (r.start ≤ a ∧ a < r.start + r.length) ∧ s.start ≤ a ∧
      a < s.start + s.length := by
    rcases Nat.le_total r.start s.start with hle | hle
    · exact ⟨s.start, by omega, by omega⟩
    · exact ⟨r.start, by omega, by omega⟩
  obtain ⟨a, ha, ha'⟩ := hcommon
  exact h.eq_of_mem hmem hmem' (a := a) (by omega) (by omega) (by omega) (by omega)

/-- Only one region of the table has the range, if it has addresses. -/
theorem RegionTable.Laid.filter_surrounds (h : t.Laid) (hmem : region ∈ t) (hr : r.Proper)
    (hin : region.Surrounds r) :
    t.filter (fun other => other.Surrounds r) = [region] := by
  have hdistinct : t.Nodup := by
    refine h.ordered.imp_of_mem fun {first second} hfirst _ hle heq => ?_
    have hpos := (h.regions first hfirst).length_pos
    have hlen := (h.regions first hfirst).length_le
    rw [← heq] at hle
    omega
  have hmeet : ¬ r.Apart r := hr.not_apart_of_within ⟨Nat.le_refl _, Nat.le_refl _⟩
  have hsame : ∀ other ∈ t.filter (fun other => other.Surrounds r), other = region := by
    intro other hother
    obtain ⟨hmem', hin'⟩ := List.mem_filter.mp hother
    exact h.eq_of_not_apart hmem' hmem hr hr (of_decide_eq_true hin') hin hmeet
  have hone : region ∈ t.filter (fun other => other.Surrounds r) :=
    List.mem_filter.mpr ⟨hmem, decide_eq_true hin⟩
  have hnodup := hdistinct.filter fun other => decide (other.Surrounds r)
  rw [List.eq_replicate_of_mem hsame] at hnodup hone ⊢
  have hpos := List.length_pos_of_mem hone
  have hle := List.nodup_replicate.mp hnodup
  rw [List.length_replicate] at hpos
  rw [show List.length _ = 1 from by omega, List.replicate_one]

/-- Whole blocks without whole blocks are whole blocks. -/
theorem RegionTable.Laid.provides_of_mem_minus (h : t.Laid) (he : t.Provides e.range)
    (hr : t.Provides r) (hp : p ∈ e.minus r) : t.Provides p.range := by
  by_cases hapart : e.range.Apart r
  · rw [Extent.minus_of_apart he.proper hr.proper hapart] at hp
    obtain rfl := List.mem_singleton.mp hp
    exact he
  · have hends := Extent.ends_of_mem_minus he.proper hr.proper hp
    obtain ⟨region, hmem, heprov⟩ := he
    obtain ⟨other, hmem', hrprov⟩ := hr
    obtain rfl := h.eq_of_not_apart hmem hmem' heprov.toProper hrprov.toProper heprov.inside
      hrprov.inside hapart
    have hdvd : ∀ {x y : Nat}, region.blockSize ∣ x → region.blockSize ∣ y →
        region.blockSize ∣ min x y ∧ region.blockSize ∣ max x y := by
      intro x y hx hy
      rcases Nat.le_total x y with hxy | hxy
      · rw [Nat.min_eq_left hxy, Nat.max_eq_right hxy]
        exact ⟨hx, hy⟩
      · rw [Nat.min_eq_right hxy, Nat.max_eq_left hxy]
        exact ⟨hy, hx⟩
    have hestart : region.blockSize ∣ e.start := Nat.dvd_of_mod_eq_zero heprov.start_aligned
    have heend : region.blockSize ∣ e.start + e.length :=
      Nat.dvd_add hestart (Nat.dvd_of_mod_eq_zero heprov.length_aligned)
    have hrstart : region.blockSize ∣ r.start := Nat.dvd_of_mod_eq_zero hrprov.start_aligned
    have hrend : region.blockSize ∣ r.start + r.length :=
      Nat.dvd_add hrstart (Nat.dvd_of_mod_eq_zero hrprov.length_aligned)
    have hboth : region.blockSize ∣ p.start ∧ region.blockSize ∣ p.start + p.length := by
      rcases hends.2 with ⟨hstart, hend⟩ | ⟨hstart, hend⟩ <;> rw [hend, hstart]
      · exact ⟨hestart, (hdvd heend hrstart).1⟩
      · exact ⟨(hdvd hestart hrend).2, heend⟩
    have hwithin := Extent.within_of_mem_minus heprov.toProper hrprov.toProper hp
    refine ⟨region, hmem, Extent.proper_of_mem_minus hp, heprov.inside.of_within hwithin,
      Nat.mod_eq_zero_of_dvd hboth.1,
      Nat.mod_eq_zero_of_dvd ((Nat.dvd_add_right hboth.1).mp hboth.2)⟩

end Pieces

namespace Ledger.Sound

variable {l l' : Ledger} {batch : List AddressRange} {e : Extent}

theorem spread (h : l.Sound) : Spread l.extents :=
  ⟨fun e he => (h.provided e he).proper, h.apart⟩

/-- More ranges that regions provide, apart from the extents and from each other. -/
theorem append (h : l.Sound) {extents : List Extent}
    (hprov : ∀ e ∈ extents, l.regions.Provides e.range)
    (hapart : extents.Pairwise fun e f => e.range.Apart f.range)
    (hold : ∀ e ∈ l.extents, ∀ f ∈ extents, e.range.Apart f.range) :
    (l.commit (l.extents ++ extents)).Sound :=
  ⟨h.laid, List.forall_mem_append.mpr ⟨h.provided, hprov⟩,
    List.pairwise_append.mpr ⟨h.apart, hapart, hold⟩⟩

/-! ### Taking in -/

theorem forall_not_meets_iff (h : l.Sound) {r : AddressRange} (hr : r.Proper) :
    (∀ e ∈ l.extents, ¬ e.Meets r) ↔ ∀ e ∈ l.extents, e.range.Apart r :=
  forall₂_congr fun e he => by rw [Extent.meets_iff (h.spread.proper e he) hr, Classical.not_not]

theorem add_eq_ok_iff (h : l.Sound) (hnil : batch ≠ []) :
    l.add batch = .ok l' ↔
      l.regions.checkBatch batch = .ok () ∧ (∀ r ∈ batch, ∀ e ∈ l.extents, e.range.Apart r) ∧
        l.commit (l.extents ++ batch.map .untagged) = l' := by
  rw [add_eq_ok hnil]
  refine and_congr_right fun hcheck => and_congr_left fun _ => forall₂_congr fun r hr => ?_
  exact h.forall_not_meets_iff ((h.laid.checkBatch_eq_ok_iff.mp hcheck).1 r hr).proper

theorem provision_eq_ok_iff (h : l.Sound) :
    l.provision e = .ok l' ↔
      l.regions.checkBatch [e.range] = .ok () ∧ (∀ f ∈ l.extents, f.range.Apart e.range) ∧
        l.commit (l.extents ++ [e]) = l' := by
  rw [provision_eq_ok]
  refine and_congr_right fun hcheck => and_congr_left fun _ => h.forall_not_meets_iff ?_
  exact ((h.laid.checkBatch_eq_ok_iff.mp hcheck).1 _ (List.mem_singleton_self _)).proper

theorem add (h : l.Sound) (hok : l.add batch = .ok l') : l'.Sound := by
  by_cases hnil : batch = []
  · rw [hnil, add_nil] at hok
    obtain rfl := Except.ok.inj hok
    exact h
  · obtain ⟨hcheck, hnew, rfl⟩ := (h.add_eq_ok_iff hnil).mp hok
    obtain ⟨hprov, hapart⟩ := h.laid.checkBatch_eq_ok_iff.mp hcheck
    refine h.append ?_ (List.pairwise_map.mpr hapart) ?_
    · intro e he
      obtain ⟨r, hr, rfl⟩ := List.mem_map.mp he
      exact hprov r hr
    · intro e he f hf
      obtain ⟨r, hr, rfl⟩ := List.mem_map.mp hf
      exact hnew r hr e he

theorem provision (h : l.Sound) (hok : l.provision e = .ok l') : l'.Sound := by
  obtain ⟨hcheck, hnew, rfl⟩ := h.provision_eq_ok_iff.mp hok
  obtain ⟨hprov, -⟩ := h.laid.checkBatch_eq_ok_iff.mp hcheck
  refine h.append ?_ (List.pairwise_singleton _ _) ?_
  · intro f hf
    obtain rfl := List.mem_singleton.mp hf
    exact hprov _ (List.mem_singleton_self _)
  · intro f hf g hg
    obtain rfl := List.mem_singleton.mp hg
    exact hnew f hf

/-! ### Giving back -/

theorem release_eq_ok_iff (h : l.Sound) :
    l.release batch = .ok l' ↔
      (batch ≠ [] ∧ l.regions.checkBatch batch = .ok () ∧
        ∀ r ∈ batch, ∃ e ∈ l.extents, r.Within e.range) ∧
      l.commit (subtract batch l.extents) = l' := by
  rw [release_eq_ok, and_assoc, and_assoc]
  refine and_congr_right fun _ => and_congr_right fun hcheck => ?_
  obtain ⟨hprov, hapart⟩ := h.laid.checkBatch_eq_ok_iff.mp hcheck
  simp only [h.spread.releaseRanges_eq_ok_iff (fun r hr => (hprov r hr).proper) hapart]
  constructor
  · rintro ⟨_, ⟨hwithin, rfl⟩, rfl⟩
    exact ⟨hwithin, rfl⟩
  · rintro ⟨hwithin, rfl⟩
    exact ⟨_, ⟨hwithin, rfl⟩, rfl⟩

theorem provided_subtract (h : l.Sound) (hprov : ∀ r ∈ batch, l.regions.Provides r) :
    (∀ e ∈ subtract batch l.extents, l.regions.Provides e.range) ∧
      (subtract batch l.extents).Pairwise fun e f => e.range.Apart f.range := by
  obtain ⟨hlaid, hheld, -⟩ := id h
  have hspread := h.spread
  generalize l.extents = extents at hheld hspread
  induction batch generalizing extents with
  | nil => exact ⟨hheld, hspread.apart⟩
  | cons r batch ih =>
    obtain ⟨hr, hprov⟩ := List.forall_mem_cons.mp hprov
    rw [subtract_cons]
    refine ih hprov _ (fun p hp => ?_) (hspread.minus hr.proper)
    obtain ⟨e, he, hp⟩ := List.mem_flatMap.mp hp
    exact hlaid.provides_of_mem_minus (hheld e he) hr hp

theorem release (h : l.Sound) (hok : l.release batch = .ok l') : l'.Sound := by
  obtain ⟨⟨-, hcheck, -⟩, rfl⟩ := h.release_eq_ok_iff.mp hok
  obtain ⟨hprov, -⟩ := h.laid.checkBatch_eq_ok_iff.mp hcheck
  obtain ⟨hheld, hapart⟩ := h.provided_subtract hprov
  exact ⟨h.laid, hheld, hapart⟩

end Ledger.Sound

end CxlEndpoint
