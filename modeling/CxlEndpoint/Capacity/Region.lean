import CxlEndpoint.Config.Error
import CxlEndpoint.Word

/-!
# Dynamic capacity regions

A device exposes its dynamic capacity as a table of regions, in the order of their addresses.

* `Region`: where a region lies. `stop` ends its usable part, `decodeStop` the addresses that it
  decodes.
* `RegionTable.granule`, `RegionTable.blockCount`: the smallest block size of a table and how many
  such blocks it spans.
* `RegionTable.check`: the order and size rules of a table.
* `RegionTable.regionAt?`: the region that an address belongs to, if it belongs to any.
-/

namespace CxlEndpoint

/-- Bytes in a mebibyte. -/
def mebibyte : Nat := 1024 * 1024

/-- The unit in which capacities are provisioned and reported. -/
def capacityUnit : Nat := 256 * mebibyte

/-- The most smallest-size blocks that a region table may span. -/
def maxBlocks : Nat := 16777216

/-- A range of device addresses from which extents are given out in blocks. -/
structure Region where
  base : Nat
  /-- The size of the decoded range. -/
  decodeLength : Nat
  /-- The size of the usable range. -/
  length : Nat
  blockSize : Nat
  dsmadHandle : UInt32
  flags : UInt8
  deriving DecidableEq, Repr

namespace Region

/-- The end of the usable range. -/
def stop (r : Region) : Nat := Word.addSat r.base r.length

/-- The end of the decoded range. -/
def decodeStop (r : Region) : Nat := Word.addSat r.base r.decodeLength

end Region

/-- Regions in the order of their addresses. -/
abbrev RegionTable := List Region

namespace RegionTable

/-- The smallest block size, at least one byte. -/
def granule (t : RegionTable) : Nat := max ((t.map (·.blockSize)).min?.getD 1) 1

/-- How many blocks of the smallest size lie between the first base and the last end. -/
def blockCount (t : RegionTable) : Nat :=
  match t.head?, t.getLast? with
  | some first, some final => (final.stop - first.base) / granule t
  | _, _ => 0

/-- The decoded sizes of all regions together. -/
def totalCapacity (t : RegionTable) : Nat := t.foldr (fun r total => r.decodeLength + total) 0

/-- The last region whose base is not above `address`. -/
def regionAt? (t : RegionTable) (address : Nat) : Option Region :=
  t.reverse.find? (·.base ≤ address)

/-- The first place at or after `index` where a region starts before its predecessor ends. -/
def misplaced? (index : Nat) : RegionTable → Option Nat
  | [] | [_] => none
  | a :: b :: rest =>
    if b.base < a.decodeStop then some index else misplaced? (index + 1) (b :: rest)

/-- The first region at or after `index` that is usable beyond what it decodes. -/
def oversized? (index : Nat) : RegionTable → Option (Nat × Region)
  | [] => none
  | r :: rest => if r.decodeLength < r.length then some (index, r) else oversized? (index + 1) rest

/-- What is wrong with a table: its order, then the number of its blocks, then a size. -/
def check (t : RegionTable) : Except ConfigError Unit :=
  match misplaced? 0 t with
  | some i => .error (.regionOrder i (i + 1))
  | none =>
    if maxBlocks < blockCount t then .error (.tooManyBlocks (blockCount t))
    else
      match oversized? 0 t with
      | some (i, r) => .error (.unalignedRegion i r.length r.blockSize)
      | none => .ok ()

end RegionTable

end CxlEndpoint
