import CxlEndpoint.Proofs.Capacity.Operations

/-!
# Histories of a ledger

* `Op`, `attempt`, `step`: the changes that are asked of a ledger. One that is turned down changes
  nothing. `after` is the ledger after a list of them, of which the latest comes first.
* `Sound.after`: every history of a ledger over laid out regions leaves it sound.
* `inOrder_after`: what this says of the extents, in unbounded arithmetic and with the one region
  that each of them has.
-/

namespace CxlEndpoint

namespace Ledger

/-- A change that is asked of a ledger. -/
inductive Op where
  | add (batch : List AddressRange)
  | release (batch : List AddressRange)
  | provision (e : Extent)

/-- The ledger with the change, or why it is turned down. -/
def attempt (l : Ledger) : Op → Except Refusal Ledger
  | .add batch => l.add batch
  | .release batch => l.release batch
  | .provision e => l.provision e

/-- The ledger after the change was asked for. A change that is turned down leaves it as it was. -/
def step (l : Ledger) (op : Op) : Ledger :=
  match l.attempt op with
  | .ok l' => l'
  | .error _ => l

/-- The ledger after the changes `past` were asked for, of which the latest comes first. -/
def after (l : Ledger) : List Op → Ledger
  | [] => l
  | op :: past => (l.after past).step op

variable {l l' : Ledger} {op : Op} {past : List Op}

theorem step_of_ok (h : l.attempt op = .ok l') : l.step op = l' := by
  unfold step
  rw [h]

theorem step_of_error {refusal : Refusal} (h : l.attempt op = .error refusal) : l.step op = l := by
  unfold step
  rw [h]

/-- An accepted change leaves the ledger as it was or commits other extents. -/
theorem eq_or_commit_of_attempt (h : l.attempt op = .ok l') :
    l' = l ∨ ∃ extents, l' = l.commit extents := by
  cases op with
  | add batch =>
    by_cases hnil : batch = []
    · rw [hnil] at h
      exact Or.inl (Except.ok.inj h).symm
    · obtain ⟨-, -, hl'⟩ := (add_eq_ok hnil).mp h
      exact Or.inr ⟨_, hl'.symm⟩
  | release batch =>
    obtain ⟨-, -, extents, -, hl'⟩ := release_eq_ok.mp h
    exact Or.inr ⟨extents, hl'.symm⟩
  | provision e =>
    obtain ⟨-, -, hl'⟩ := provision_eq_ok.mp h
    exact Or.inr ⟨_, hl'.symm⟩

theorem regions_of_attempt (h : l.attempt op = .ok l') : l'.regions = l.regions := by
  rcases eq_or_commit_of_attempt h with rfl | ⟨extents, rfl⟩ <;> rfl

namespace Sound

theorem attempt (h : l.Sound) (hok : l.attempt op = .ok l') :
    l'.Sound ∧ l'.regions = l.regions := by
  refine ⟨?_, regions_of_attempt hok⟩
  cases op with
  | add batch => exact h.add hok
  | release batch => exact h.release hok
  | provision e => exact h.provision hok

theorem step (h : l.Sound) (op : Op) : (l.step op).Sound ∧ (l.step op).regions = l.regions := by
  cases hop : l.attempt op with
  | error refusal =>
    rw [step_of_error hop]
    exact ⟨h, rfl⟩
  | ok l' =>
    rw [step_of_ok hop]
    exact h.attempt hop

theorem after (h : l.Sound) (past : List Op) :
    (l.after past).Sound ∧ (l.after past).regions = l.regions := by
  induction past with
  | nil => exact ⟨h, rfl⟩
  | cons op past ih =>
    obtain ⟨hsound, hregions⟩ := ih
    obtain ⟨hsound', hregions'⟩ := hsound.step op
    exact ⟨hsound', hregions'.trans hregions⟩

end Sound

section New

variable {c : MemoryConfig} {staticCapacity : Nat} {t : RegionTable}

/-- A new ledger holds nothing. -/
theorem sound_of_ofRegions (hlayout : c.layout staticCapacity = .ok t)
    (hnew : ofRegions t = .ok l) : l.Sound ∧ l.regions = t := by
  have hlaid := laid_of_ofRegions hlayout hnew
  obtain ⟨rfl, -⟩ := ofRegions_eq_ok hnew
  exact ⟨⟨hlaid, by simp, .nil⟩, rfl⟩

/-- Every history of a new ledger leaves it sound, over the same regions. -/
theorem sound_after (hlayout : c.layout staticCapacity = .ok t) (hnew : ofRegions t = .ok l)
    (past : List Op) : (l.after past).Sound ∧ (l.after past).regions = t := by
  obtain ⟨hsound, hregions⟩ := sound_of_ofRegions hlayout hnew
  obtain ⟨hsound', hregions'⟩ := hsound.after past
  exact ⟨hsound', hregions'.trans hregions⟩

/-- A ledger over the regions `t`: each extent is made of whole blocks of the only region that it
lies in, and no two extents share an address. -/
structure InOrder (t : RegionTable) (l : Ledger) : Prop where
  regions_eq : l.regions = t
  provided : ∀ e ∈ l.extents, ∃ region,
    t.filter (fun other => other.Surrounds e.range) = [region] ∧ region.Provides e.range
  apart : l.extents.Pairwise fun e f => e.range.Apart f.range

/-- **The extents stay in order, whatever is asked of the ledger.** -/
theorem inOrder_after (hlayout : c.layout staticCapacity = .ok t) (hnew : ofRegions t = .ok l)
    (past : List Op) : InOrder t (l.after past) := by
  obtain ⟨⟨hlaid, hprovided, hapart⟩, hregions⟩ := sound_after hlayout hnew past
  rw [hregions] at hlaid hprovided
  refine ⟨hregions, fun e he => ?_, hapart⟩
  obtain ⟨region, hmem, hprov⟩ := hprovided e he
  exact ⟨region, hlaid.filter_surrounds hmem hprov.toProper hprov.inside, hprov⟩

end New

/-! ## Capacity of both regions -/

/-- A range that wraps around, capacity of both regions, a tagged extent and one that meets it, and
a release from the middle of it. -/
def mixedHistory : List Op :=
  [.release [⟨0x90400000, 0x200000⟩], .provision ⟨0x90600000, 0x200000, Vector.replicate 16 9, 4⟩,
    .provision ⟨0x90200000, 0x600000, Vector.replicate 16 7, 3⟩,
    .add [⟨0x40000000, 0x40000000⟩, ⟨0x92000000, 0x1000000⟩],
    .add [⟨0x90000000, 0xffffffff70200000⟩]]

/-- What the ledger holds then. -/
def mixedLedger : Ledger :=
  { regions := mixedTable
    extents := [⟨0x40000000, 0x40000000, Vector.replicate 16 0, 0⟩,
      ⟨0x92000000, 0x1000000, Vector.replicate 16 0, 0⟩,
      ⟨0x90200000, 0x200000, Vector.replicate 16 7, 3⟩,
      ⟨0x90600000, 0x200000, Vector.replicate 16 7, 3⟩]
    generation := 3 }

theorem after_mixedHistory : after { regions := mixedTable } mixedHistory = mixedLedger := by decide

theorem inOrder_after_mixedHistory :
    mixedConfig.layout 0x10000000 = .ok mixedTable ∧
      ofRegions mixedTable = .ok { regions := mixedTable } ∧ InOrder mixedTable mixedLedger := by
  refine ⟨layout_mixedConfig, ofRegions_mixedTable, ?_⟩
  rw [← after_mixedHistory]
  exact inOrder_after layout_mixedConfig ofRegions_mixedTable mixedHistory

end Ledger

end CxlEndpoint
