import CxlEndpoint.Capacity.BlockSet
import CxlEndpoint.Word

/-!
# Sets of blocks in words, as far as they get

A set of block numbers as it is laid out in memory: words of 64 bits, with a bit for each block.
Blocks are marked one after the other. A program that marks a block for which there is no word
stops.

* `BlockWords.contains`: the view; the bit of a block is set in its word.
* `BlockWords.insertChecked`, `BlockWords.insertBlocksChecked`: one block, and several from a block
  on. The flag says that they were all new.
* `BlockWords.insertRangeChecked`: `BlockSet.insertRange?`, where `none` says that the program
  stops. A range that is turned down may have been marked in part.
-/

namespace CxlEndpoint

/-- Bits in a word. -/
def wordBits : Nat := 64

/-- How many words hold a bit for each of `size` blocks. -/
def wordCount (size : Nat) : Nat := (size + (wordBits - 1)) / wordBits

/-- A set of block numbers below `size`, in words. -/
structure BlockWords where
  size : Nat
  words : Vector UInt64 (wordCount size)
  deriving Repr

/-- The bit of block `i` in its word. -/
def blockBit (i : Nat) : UInt64 := 1 <<< UInt64.ofNat (i % wordBits)

namespace BlockWords

/-- No bit is set. -/
def empty (size : Nat) : BlockWords := { size, words := Vector.replicate _ 0 }

/-- The bit of block `i` is set. -/
def contains (w : BlockWords) (i : Nat) : Bool :=
  w.words[i / wordBits]?.any fun word => word.toNat.testBit (i % wordBits)

/-- Sets the bit of block `i`, unless it is set. -/
def insertChecked (w : BlockWords) (i : Nat) : Option (BlockWords × Bool) :=
  w.words[i / wordBits]?.map fun word =>
    if word &&& blockBit i ≠ 0 then (w, false)
    else ({ w with words := w.words.setIfInBounds (i / wordBits) (word ||| blockBit i) }, true)

/-- Sets the bits of blocks from `first` on, up to one that is set. -/
def insertBlocksChecked (w : BlockWords) (first : Nat) : Nat → Option (BlockWords × Bool)
  | 0 => some (w, true)
  | count + 1 =>
    match w.insertChecked first with
    | none => none
    | some (w, false) => some (w, false)
    | some (w, true) => insertBlocksChecked w (first + 1) count

/-- Adds `count` blocks from `first` on, if their end is a word and not above the size. -/
def insertRangeChecked (w : BlockWords) (first count : Nat) : Option (BlockWords × Bool) :=
  match Word.add? first count with
  | none => some (w, false)
  | some stop => if w.size < stop then some (w, false) else w.insertBlocksChecked first count

end BlockWords

end CxlEndpoint
