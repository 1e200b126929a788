import CxlEndpoint.Endpoint.Dispatch
import CxlEndpoint.Proofs.Capacity.History

/-!
# What a release takes out

* `Ledger.Releases`: the ledger afterwards has the addresses that were not released, with their
  tags, and what is left of an extent stands in the place of that extent.
* `Ledger.Sound.releases`, `Ledger.Sound.release_perm`: so it is after a release, for every order
  of the batch.
* `Endpoint.conclude_attempt`: a device that is asked for a change has the new ledger, or it turns
  the change down and stays as it was.
* `release_iff`: when a ledger with any history accepts a release, and what it holds then.
-/

namespace CxlEndpoint

namespace Ledger

/-- An extent with this tag and sequence number has the address. -/
def HasTagged (l : Ledger) (a : Nat) (tag : Vector UInt8 16) (sequenceNumber : UInt16) : Prop :=
  ∃ e ∈ l.extents, e.tag = tag ∧ e.sequenceNumber = sequenceNumber ∧ e.range.Has a

/-- `l'` is the ledger `l` without the addresses of the batch, one generation later. -/
structure Releases (l : Ledger) (batch : List AddressRange) (l' : Ledger) : Prop where
  has_iff : ∀ a tag sequenceNumber, l'.HasTagged a tag sequenceNumber ↔
    l.HasTagged a tag sequenceNumber ∧ ∀ r ∈ batch, ¬ r.Has a
  /-- What is left of an extent stands in its place. -/
  in_place : ∃ pieces : Extent → List Extent,
    l'.extents = l.extents.flatMap pieces ∧ ∀ e ∈ l.extents, Remainder e batch (pieces e)
  generation_eq : l'.generation = l.generation + 1
  regions_eq : l'.regions = l.regions

variable {l l' : Ledger} {batch batch' : List AddressRange} {refusal : Refusal}

/-- The tagged addresses of a ledger that has the remainders of these extents. -/
theorem hasTagged_of_remainders {pieces : Extent → List Extent}
    (hextents : l'.extents = l.extents.flatMap pieces)
    (hpieces : ∀ e ∈ l.extents, Remainder e batch (pieces e)) (a : Nat) (tag : Vector UInt8 16)
    (sequenceNumber : UInt16) :
    l'.HasTagged a tag sequenceNumber ↔
      l.HasTagged a tag sequenceNumber ∧ ∀ r ∈ batch, ¬ r.Has a := by
  unfold HasTagged
  simp only [hextents, List.mem_flatMap]
  constructor
  · rintro ⟨p, ⟨e, he, hp⟩, htag, hseq, ha⟩
    obtain ⟨htag', hseq'⟩ := (hpieces e he).tagged p hp
    obtain ⟨hea, hfree⟩ := ((hpieces e he).has_iff a).mp ⟨p, hp, ha⟩
    exact ⟨⟨e, he, htag'.symm.trans htag, hseq'.symm.trans hseq, hea⟩, hfree⟩
  · rintro ⟨⟨e, he, htag, hseq, hea⟩, hfree⟩
    obtain ⟨p, hp, ha⟩ := ((hpieces e he).has_iff a).mpr ⟨hea, hfree⟩
    obtain ⟨htag', hseq'⟩ := (hpieces e he).tagged p hp
    exact ⟨p, ⟨e, he, hp⟩, htag'.trans htag, hseq'.trans hseq, ha⟩

namespace Sound

theorem proper_of_checkBatch (h : l.Sound) (hcheck : l.regions.checkBatch batch = .ok ()) :
    ∀ r ∈ batch, r.Proper := fun r hr =>
  ((h.laid.checkBatch_eq_ok_iff.mp hcheck).1 r hr).proper

theorem releases (h : l.Sound) (hok : l.release batch = .ok l') : l.Releases batch l' := by
  obtain ⟨⟨-, hcheck, -⟩, rfl⟩ := h.release_eq_ok_iff.mp hok
  have hpieces : ∀ e ∈ l.extents, Remainder e batch (subtract batch [e]) := fun e he =>
    remainder_subtract (h.spread.proper e he) (h.proper_of_checkBatch hcheck)
  have hextents : (l.commit (subtract batch l.extents)).extents =
      l.extents.flatMap fun e => subtract batch [e] := subtract_eq_flatMap
  exact ⟨hasTagged_of_remainders hextents hpieces, ⟨_, hextents, hpieces⟩, rfl, rfl⟩

/-- Every order of the batch leaves the same ledger. -/
theorem release_perm (h : l.Sound) (hp : batch.Perm batch') (hok : l.release batch = .ok l') :
    l.release batch' = .ok l' := by
  obtain ⟨⟨hne, hcheck, hwithin⟩, rfl⟩ := h.release_eq_ok_iff.mp hok
  refine h.release_eq_ok_iff.mpr ⟨⟨fun hnil => ?_, ?_, ?_⟩, ?_⟩
  · rw [hnil] at hp
    exact hne hp.eq_nil
  · exact (h.laid.checkBatch_perm hp).mp hcheck
  · exact fun r hr => hwithin r (hp.mem_iff.mpr hr)
  · rw [subtract_perm hp (h.proper_of_checkBatch hcheck)]

end Sound

end Ledger

/-- The request that asks a device for the change. Its own extents it makes unasked. -/
def Ledger.Op.request? : Ledger.Op → Option MemoryRequest
  | .add batch => some (.addCapacity batch)
  | .release batch => some (.releaseCapacity batch)
  | .provision _ => none

namespace Endpoint

/-- What becomes of a memory device that is asked for a change of its ledger, and its answer. -/
def answered (m : Mailbox) (d : MemoryDevice) : Except Refusal Ledger → Endpoint × Response
  | .ok ledger => (memory m { d with ledger }, ⟨.success, []⟩)
  | .error refusal => (memory m d, .refusal refusal.status)

variable {d : MemoryDevice} {op : Ledger.Op} {request : MemoryRequest}

theorem conclude_attempt (hrequest : op.request? = some request) (m : Mailbox) (c : Command)
    (now room : Nat) :
    (memory m d).conclude c now room ((memory m d).serve now room (.memory request)) =
      answered m d (d.ledger.attempt op) := by
  cases op with
  | add batch =>
    obtain rfl := Option.some.inj hrequest
    simp only [serve, MemoryDevice.serve, Ledger.attempt]
    cases d.ledger.add batch <;> rfl
  | release batch =>
    obtain rfl := Option.some.inj hrequest
    simp only [serve, MemoryDevice.serve, Ledger.attempt]
    cases d.ledger.release batch <;> rfl
  | provision e => cases hrequest

/-- A memory device that turns a change of its ledger down stays as it was. -/
theorem conclude_of_attempt_error {refusal : Refusal} (hrequest : op.request? = some request)
    (h : d.ledger.attempt op = .error refusal) (m : Mailbox) (c : Command) (now room : Nat) :
    (memory m d).conclude c now room ((memory m d).serve now room (.memory request)) =
      (memory m d, .refusal refusal.status) := by
  rw [conclude_attempt hrequest, h]
  rfl

/-- A memory device that turns a release down stays as it was. -/
theorem conclude_release_of_error {batch : List AddressRange} {refusal : Refusal}
    (h : d.ledger.release batch = .error refusal) (m : Mailbox) (c : Command) (now room : Nat) :
    (memory m d).conclude c now room
        ((memory m d).serve now room (.memory (.releaseCapacity batch))) =
      (memory m d, .refusal refusal.status) :=
  have herr : d.ledger.attempt (.release batch) = .error refusal := h
  conclude_of_attempt_error rfl herr m c now room

end Endpoint

namespace Ledger

/-- **A release takes out the batch and nothing else.** -/
theorem release_iff {c : MemoryConfig} {staticCapacity : Nat} {t : RegionTable} {l₀ l : Ledger}
    (hlayout : c.layout staticCapacity = .ok t) (hnew : ofRegions t = .ok l₀) (past : List Op)
    (hl : l = l₀.after past) (batch : List AddressRange) :
    ((∃ l', l.release batch = .ok l') ↔
      batch ≠ [] ∧ t.checkBatch batch = .ok () ∧ ∀ r ∈ batch, ∃ e ∈ l.extents, r.Within e.range) ∧
    (∀ l', l.release batch = .ok l' →
      l.Releases batch l' ∧ ∀ batch', batch.Perm batch' → l.release batch' = .ok l') ∧
    ∀ refusal, l.release batch = .error refusal →
      l.step (.release batch) = l ∧
      ∀ m d command now room, d.ledger = l →
        (Endpoint.memory m d).conclude command now room
            ((Endpoint.memory m d).serve now room (.memory (.releaseCapacity batch))) =
          (.memory m d, .refusal refusal.status) := by
  obtain ⟨hsound, hregions⟩ := sound_after hlayout hnew past
  rw [← hl] at hsound hregions
  refine ⟨?_, fun l' hok => ⟨hsound.releases hok, fun batch' hp => hsound.release_perm hp hok⟩,
    fun refusal herr => ⟨step_of_error herr, ?_⟩⟩
  · rw [← hregions]
    constructor
    · rintro ⟨l', hok⟩
      exact (hsound.release_eq_ok_iff.mp hok).1
    · exact fun hwhen => ⟨_, hsound.release_eq_ok_iff.mpr ⟨hwhen, rfl⟩⟩
  · rintro m d command now room rfl
    exact Endpoint.conclude_release_of_error herr m command now room

/-- Two ranges of one extent, the later one first, and all of a tagged extent. -/
def mixedBatch : List AddressRange :=
  [⟨0x92a00000, 0x200000⟩, ⟨0x90600000, 0x200000⟩, ⟨0x92400000, 0x400000⟩]

theorem release_iff_mixedBatch :
    mixedConfig.layout 0x10000000 = .ok mixedTable ∧
      ofRegions mixedTable = .ok { regions := mixedTable } ∧
      mixedLedger = after { regions := mixedTable } mixedHistory ∧
      (∃ l', mixedLedger.release mixedBatch = .ok l' ∧ mixedLedger.Releases mixedBatch l' ∧
        mixedLedger.release mixedBatch.reverse = .ok l') ∧
      mixedLedger.step (.release [⟨0x90400000, 0x200000⟩]) = mixedLedger := by
  have hlaw := release_iff layout_mixedConfig ofRegions_mixedTable mixedHistory
    after_mixedHistory.symm
  refine ⟨layout_mixedConfig, ofRegions_mixedTable, after_mixedHistory.symm, ?_, ?_⟩
  · obtain ⟨hwhen, hthen, -⟩ := hlaw mixedBatch
    obtain ⟨l', hok⟩ := hwhen.mpr ⟨by decide, by decide, by decide⟩
    obtain ⟨hreleases, hperm⟩ := hthen l' hok
    exact ⟨l', hok, hreleases, hperm _ (List.reverse_perm _).symm⟩
  · -- These blocks have been released before.
    have herr : mixedLedger.release [⟨0x90400000, 0x200000⟩] = .error .notHeld := by decide
    exact ((hlaw _).2.2 _ herr).1

end Ledger

end CxlEndpoint
