import CxlEndpoint.HostTime
import CxlEndpoint.Poison.Record

/-!
# The poison list

The live list is what the host sees. It is sorted, its records do not overlap, and it holds at
most `listLimit` of them; the store remembers when it first had to leave something out.

* `Store.isPoisoned`, `Store.query`: a line, or the records that overlap a range.
* `Store.inject?`, `Store.clear`: the host poisons or repairs one line. Both leave a list that is
  being rebuilt by a scan alone.
* `Store.recordMediaError`: the device reports a range. It goes to the ground truth as a whole and
  to the live list where the list does not cover it yet (`uncovered`, `insertPieces`).
-/

namespace CxlEndpoint.Poison

/-- The most records that the live list holds. -/
def listLimit : Nat := 256

/-- The poisoned ranges that a device knows. -/
structure Store where
  /-- The list that the host reads. -/
  live : List Record := []
  /-- Media errors that no scan has found since they were reported. -/
  groundTruth : List Record := []
  /-- What the latest scan found and the host has not fetched yet. -/
  results : List Record := []
  /-- When the live list first left something out, unless a scan has rebuilt it since. -/
  overflowedAt : Option Timestamp := none
  /-- A scan has been completed. -/
  scanned : Bool := false
  /-- The latest scan could not put everything it found into the live list. -/
  scanOverflowed : Bool := false
  deriving DecidableEq, Repr

/-- Records that overlap a range, cut to it, and whether there are more of them. -/
structure Listing where
  records : List Record
  more : Bool
  deriving DecidableEq, Repr

/-- Puts `r` in front of the first record that does not start below it. -/
def insertSorted (r : Record) : List Record → List Record
  | [] => [r]
  | s :: rest => if s.start < r.start then s :: insertSorted r rest else r :: s :: rest

/-- The parts of `[cursor, stop)` that no record covers, in order. The records are sorted and
overlap the range. -/
def uncovered (cursor stop : Nat) : List Record → List (Nat × Nat)
  | [] => if cursor < stop then [(cursor, stop)] else []
  | r :: rest =>
    let tail := uncovered (max cursor r.stop) stop rest
    if cursor < r.start then (cursor, r.start) :: tail else tail

/-- Inserts the pieces one by one while the list has room. The flag says that all went in. -/
def insertPieces (kind : Kind) : List (Nat × Nat) → List Record → List Record × Bool
  | [], live => (live, true)
  | (start, stop) :: rest, live =>
    if listLimit ≤ live.length then (live, false)
    else insertPieces kind rest (insertSorted ⟨start, stop - start, kind⟩ live)

/-- Inserts what the list does not cover of `r` yet. The flag says that all of it went in. -/
def insertLive (r : Record) (live : List Record) : List Record × Bool :=
  insertPieces r.kind (uncovered r.start r.stop (live.filter fun s => s.Overlaps r.start r.stop))
    live

namespace Store

/-- Nothing is poisoned. -/
def empty : Store := {}

/-- One live record covers the line of `address`. -/
def isPoisoned (s : Store) (address : Nat) : Bool := s.live.any fun r => r.ContainsLine address

/-- Up to `limit` live records that overlap `[start, start + length)`, cut to it. -/
def query (s : Store) (start length limit : Nat) : Listing :=
  let stop := Word.addSat start length
  let found := s.live.filter fun r => r.Overlaps start stop
  { records := (found.take limit).map (·.clip start stop), more := decide (limit < found.length) }

/-- Remembers the time of the first overflow. -/
def markOverflow (s : Store) (now : Timestamp) : Store :=
  { s with overflowedAt := s.overflowedAt.or (some now) }

/-- Poisons the line of `address`. Nothing changes if it is poisoned already or the list is
`frozen` by a scan; `none` says that the list is full. -/
def inject? (s : Store) (address : Nat) (frozen : Bool) : Option Store :=
  if s.isPoisoned address || frozen then some s
  else if listLimit ≤ s.live.length then none
  else some { s with live := insertSorted ⟨lineStart address, lineBytes, .injected⟩ s.live }

/-- Takes the line of `address` out of the record that covers it and keeps what lies before and
behind it. If the list has no room for the part behind, that part is lost and the list has
overflowed. The flag says whether a record covered the line. -/
def clear (s : Store) (address : Nat) (frozen : Bool) (now : Timestamp) : Store × Bool :=
  if frozen then (s, false)
  else
    match s.live.find? fun r => r.ContainsLine address with
    | none => (s, false)
    | some r =>
      let line := lineStart address
      let lineStop := line + lineBytes
      let others := s.live.eraseP fun r => r.ContainsLine address
      let front :=
        if r.start < line then insertSorted { r with length := line - r.start } others else others
      if r.stop ≤ lineStop then ({ s with live := front }, true)
      else if listLimit ≤ front.length then ({ s with live := front }.markOverflow now, true)
      else
        ({ s with live := insertSorted ⟨lineStop, r.stop - lineStop, r.kind⟩ front }, true)

/-- Inserts the uncovered parts of `r` into the live list; the list has overflowed if they do not
all fit. -/
def insert (s : Store) (r : Record) (now : Timestamp) : Store :=
  match insertLive r s.live with
  | (live, true) => { s with live }
  | (live, false) => { s with live }.markOverflow now

/-- The lines that the range `[start, start + length)` touches, as one record. Both ends are
words, and the end of the record is rounded up only as far as a word can be. -/
def mediaError? (start length : Nat) (kind : Kind) : Option Record :=
  let first := lineStart start
  let stop := lineStart (Word.addSat (Word.addSat start length) (lineBytes - 1))
  if first < stop then some ⟨first, stop - first, kind⟩ else none

/-- The device reports an error on `[start, start + length)`. -/
def recordMediaError (s : Store) (start length : Nat) (kind : Kind) (now : Timestamp) : Store :=
  match mediaError? start length kind with
  | none => s
  | some r => { s with groundTruth := s.groundTruth ++ [r] }.insert r now

end Store

end CxlEndpoint.Poison
