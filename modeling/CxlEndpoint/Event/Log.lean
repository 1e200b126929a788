import CxlEndpoint.Event.Record

/-!
# Event logs

A log keeps the oldest few records. What arrives when it is full is only counted.

* `EventLog.insert`: stores a record under the next handle, or counts it as lost.
* `EventLog.clear?`, `EventLog.clearAll`: the host removes the oldest records by their handles, or
  all of them. A log that becomes empty forgets what it lost.
* `EventLog.interruptSetting`, `EventLog.setInterrupt`: the interrupt vector in the form in which
  the host reads and writes it.
-/

namespace CxlEndpoint

/-- The records that a log keeps. -/
def logCapacity : Nat := 8

/-- Records that a full log has lost: how many, up to a limit, and when the first and the last
came. -/
structure EventOverflow where
  count : Nat
  first : Timestamp
  latest : Timestamp
  deriving DecidableEq, Repr

/-- The handle after `h`. Zero is no handle. -/
def nextHandle (h : UInt16) : UInt16 := if h + 1 = 0 then 1 else h + 1

/-- A log of events, the oldest record first. -/
structure EventLog where
  records : List StoredEvent := []
  /-- The handle of the next record. -/
  upcoming : UInt16 := 1
  overflow : Option EventOverflow := none
  /-- The interrupt vector, unless interrupts are off. -/
  vector : Option UInt8 := none
  deriving DecidableEq, Repr

namespace EventLog

/-- What a log is for. -/
inductive Kind where
  | informational
  | warning
  | failure
  | fatal
  | dynamicCapacity
  deriving DecidableEq, Repr

namespace Kind

/-- The kinds in the order of their numbers. -/
def all : List Kind := [informational, warning, failure, fatal, dynamicCapacity]

/-- The kind with number `n`. -/
def ofNumber? (n : Nat) : Option Kind := all[n]?

end Kind

/-- A log without records. -/
def empty : EventLog := {}

/-- The handles of the stored records, the oldest first. -/
def handles (l : EventLog) : List UInt16 := l.records.map (·.handle)

/-- Counts a record that came at `now` and found no room. The count stops at 65535. -/
def lose (l : EventLog) (now : Timestamp) : EventLog :=
  { l with
    overflow :=
      match l.overflow with
      | none => some ⟨1, now, now⟩
      | some o => some { o with count := min (o.count + 1) 65535, latest := now } }

/-- Stores a record and names its handle, or counts it as lost. -/
def insert (l : EventLog) (r : EventRecord) (now : Timestamp) : EventLog × Option UInt16 :=
  if logCapacity ≤ l.records.length then (l.lose now, none)
  else
    ({ l with records := l.records ++ [⟨l.upcoming, now, r⟩], upcoming := nextHandle l.upcoming },
      some l.upcoming)

/-- Removes the oldest records, whose handles must be the given ones in order. -/
def clear? (l : EventLog) (handles : List UInt16) : Option EventLog :=
  if handles.isPrefixOf l.handles then
    let rest := l.records.drop handles.length
    some { l with records := rest, overflow := if rest.isEmpty then none else l.overflow }
  else none

/-- Removes all records. -/
def clearAll (l : EventLog) : EventLog := { l with records := [], overflow := none }

/-- The interrupt setting: the low half of the vector above the mode bit, zero if off. -/
def interruptSetting (l : EventLog) : UInt8 :=
  match l.vector with
  | some v => (v &&& 0xf) <<< 4 ||| 1
  | none => 0

/-- Takes the vector from the high half of a setting whose low two bits ask for a message signalled
interrupt; any other setting turns interrupts off. -/
def setInterrupt (l : EventLog) (setting : UInt8) : EventLog :=
  { l with vector := if setting &&& 3 = 1 then some (setting >>> 4) else none }

end EventLog

end CxlEndpoint
