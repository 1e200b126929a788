import CxlEndpoint.Poison.Store

/-!
# Media scans

A scan moves the media errors of a range from the ground truth to the live list and queues them
for the host.

* `Store.beginScan`, `Store.completeScan`: what happens when a scan starts, and when its time is
  over. A list that had overflowed is rebuilt from what the scan finds.
* `Store.takeResults`, `Store.nextResultRange?`: the host fetches the queue in order, and is told
  where the rest of it lies.
-/

namespace CxlEndpoint.Poison.Store

/-- Takes what a scan found into the live list and the queue. -/
def addResult (now : Timestamp) (s : Store) (r : Record) : Store :=
  match insertLive r s.live with
  | (live, true) => { s with live, results := s.results ++ [r] }
  | (live, false) =>
    { s with live, results := s.results ++ [r], scanOverflowed := true }.markOverflow now

/-- Starts a scan of `[start, start + length)`. Earlier results are dropped, and so is a live list
that has overflowed. -/
def beginScan (s : Store) (start length : Nat) (now : Timestamp) : Store :=
  let stop := Word.addSat start length
  let (found, remaining) := s.groundTruth.partition fun r => r.Overlaps start stop
  found.foldl (addResult now)
    { s with
      results := [], scanOverflowed := false, groundTruth := remaining,
      live := if s.overflowedAt.isSome then [] else s.live }

/-- The scan is over. The overflow is mended if everything found went into the live list. -/
def completeScan (s : Store) : Store :=
  { s with
    overflowedAt := if s.scanOverflowed then s.overflowedAt else none, scanned := true }

/-- Takes up to `limit` results off the queue. The flag says that some are left. -/
def takeResults (s : Store) (limit : Nat) : Store × Listing :=
  let rest := s.results.drop limit
  ({ s with results := rest }, ⟨s.results.take limit, !rest.isEmpty⟩)

/-- The start of the first queued result, and the length from there to the furthest end of any. -/
def nextResultRange? (s : Store) : Option (Nat × Nat) :=
  match s.results with
  | [] => none
  | first :: rest =>
    some (first.start, rest.foldl (fun stop r => max stop r.stop) first.stop - first.start)

end CxlEndpoint.Poison.Store
