import CxlEndpoint.Capacity.BlockSet
import CxlEndpoint.Capacity.Extent
import CxlEndpoint.Capacity.Region
import CxlEndpoint.Status

/-!
# The extent ledger

The ledger lists the extents that the host holds, in the order in which it accepted them. A batch
of ranges is checked as a whole before anything changes.

* `RegionTable.checkBatch`: each range lies in one region on its block boundaries, and no block is
  named twice.
* `Ledger.add`, `Ledger.release`, `Ledger.provision`: the three ways in which the ledger changes.
  Each raises the generation by one.
* `Refusal`: why a batch is turned down; `Refusal.status` is the return code for it.
-/

namespace CxlEndpoint

/-- Why a batch of ranges is turned down. -/
inductive Refusal where
  /-- A release of nothing. -/
  | nothingNamed
  /-- A range starts below all regions or ends beyond its own. -/
  | outsideRegion
  /-- A range is empty or not on the block boundaries of its region. -/
  | misaligned
  /-- A block is named twice. -/
  | repeatedBlock
  /-- A new range meets an extent. -/
  | alreadyHeld
  /-- A released range meets no extent. -/
  | notHeld
  /-- A released range lies only partly in the extent that it meets. -/
  | straddles
  /-- A region has blocks of zero bytes, so that nothing can be aligned to them. -/
  | zeroBlockSize
  deriving DecidableEq, Repr

/-- The return code for a refusal. -/
def Refusal.status : Refusal → Status
  | nothingNamed => .invalidInput
  | outsideRegion | alreadyHeld | notHeld => .invalidPhysicalAddress
  | misaligned | repeatedBlock | straddles => .invalidExtentList
  | zeroBlockSize => .internalError

namespace RegionTable

/-- Checks one range and marks its blocks, counted from address `origin` in blocks of `granule`
bytes. -/
def checkRange (t : RegionTable) (origin granule : Nat) (seen : BlockSet) (r : AddressRange) :
    Except Refusal BlockSet :=
  match t.regionAt? r.start with
  | none => .error .outsideRegion
  | some region =>
    if region.stop < r.stop then .error .outsideRegion
    else if r.length = 0 then .error .misaligned
    else if region.blockSize = 0 then .error .zeroBlockSize
    else if r.start % region.blockSize ≠ 0 ∨ r.length % region.blockSize ≠ 0 then
      .error .misaligned
    else
      match seen.insertRange? ((r.start - origin) / granule) (r.length / granule) with
      | none => .error .repeatedBlock
      | some seen => .ok seen

/-- Checks the ranges of a batch in order. -/
def checkRanges (t : RegionTable) (origin granule : Nat) (seen : BlockSet) :
    List AddressRange → Except Refusal Unit
  | [] => .ok ()
  | r :: rest =>
    match t.checkRange origin granule seen r with
    | .error e => .error e
    | .ok seen => checkRanges t origin granule seen rest

/-- Checks a batch. Without regions only the empty batch passes. -/
def checkBatch (t : RegionTable) (batch : List AddressRange) : Except Refusal Unit :=
  match t with
  | [] => if batch.isEmpty then .ok () else .error .outsideRegion
  | first :: _ => t.checkRanges first.base t.granule (.empty t.blockCount) batch

end RegionTable

/-- The regions of a device and the extents that the host holds of them. -/
structure Ledger where
  regions : RegionTable := []
  extents : List Extent := []
  /-- Counts the changes, so that a reader of several pages notices one in between. -/
  generation : UInt32 := 0
  deriving DecidableEq, Repr

namespace Ledger

/-- A ledger over checked regions, without extents. -/
def ofRegions (t : RegionTable) : Except ConfigError Ledger :=
  match t.check with
  | .error e => .error e
  | .ok () => .ok { regions := t }

/-- Up to `count` regions from number `first` on, which must exist. -/
def regionPage? (l : Ledger) (first count : Nat) : Option (List Region) :=
  if first < l.regions.length then some ((l.regions.drop first).take count) else none

/-- Up to `count` extents from number `first` on, which may be the end of the list. -/
def extentPage? (l : Ledger) (first count : Nat) : Option (List Extent) :=
  if first ≤ l.extents.length then some ((l.extents.drop first).take count) else none

/-- The ledger with other extents, one generation later. -/
def commit (l : Ledger) (extents : List Extent) : Ledger :=
  { l with extents, generation := l.generation + 1 }

/-- Takes in a batch that passes the check and meets no extent. An empty batch changes nothing. -/
def add (l : Ledger) (batch : List AddressRange) : Except Refusal Ledger :=
  if batch.isEmpty then .ok l
  else
    match l.regions.checkBatch batch with
    | .error e => .error e
    | .ok () =>
      if batch.any fun r => l.extents.any fun e => e.Meets r then .error .alreadyHeld
      else .ok (l.commit (l.extents ++ batch.map .untagged))

/-- Takes `r` out of the first extent that it meets, which must hold all of it. -/
def releaseRange (r : AddressRange) : List Extent → Except Refusal (List Extent)
  | [] => .error .notHeld
  | e :: rest =>
    if e.Meets r then
      if e.Holds r then .ok (e.without r ++ rest) else .error .straddles
    else
      match releaseRange r rest with
      | .error err => .error err
      | .ok rest => .ok (e :: rest)

/-- Takes the ranges out one after another. -/
def releaseRanges : List AddressRange → List Extent → Except Refusal (List Extent)
  | [], extents => .ok extents
  | r :: batch, extents =>
    match releaseRange r extents with
    | .error e => .error e
    | .ok extents => releaseRanges batch extents

/-- Gives back a batch that is not empty and passes the check. Each range must lie in one extent;
the rest of that extent stays where it was in the list. -/
def release (l : Ledger) (batch : List AddressRange) : Except Refusal Ledger :=
  if batch.isEmpty then .error .nothingNamed
  else
    match l.regions.checkBatch batch with
    | .error e => .error e
    | .ok () =>
      match releaseRanges batch l.extents with
      | .error e => .error e
      | .ok extents => .ok (l.commit extents)

/-- Takes in an extent of the device's own making, under the rules for a batch of one. -/
def provision (l : Ledger) (e : Extent) : Except Refusal Ledger :=
  let range : AddressRange := ⟨e.start, e.length⟩
  match l.regions.checkBatch [range] with
  | .error e => .error e
  | .ok () =>
    if l.extents.any fun other => other.Meets range then .error .alreadyHeld
    else .ok (l.commit (l.extents ++ [e]))

end Ledger

end CxlEndpoint
