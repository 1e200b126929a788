import CxlEndpoint.Event.Log

/-!
# The event logs of a device

* `EventLogs`: one log of each `EventLog.Kind`. `get_set_self` and `get_set_of_ne` say that the logs
  do not touch each other.
* `EventLogs.insert`, `.clear?`, `.clearAll`, `.setInterrupts`: the operations on the log of a kind.
-/

namespace CxlEndpoint

/-- One log of each kind. -/
structure EventLogs where
  informational : EventLog := .empty
  warning : EventLog := .empty
  failure : EventLog := .empty
  fatal : EventLog := .empty
  dynamicCapacity : EventLog := .empty
  deriving DecidableEq, Repr

namespace EventLogs

/-- All logs are empty. -/
def empty : EventLogs := {}

/-- The log of kind `k`. -/
def get (ls : EventLogs) : EventLog.Kind → EventLog
  | .informational => ls.informational
  | .warning => ls.warning
  | .failure => ls.failure
  | .fatal => ls.fatal
  | .dynamicCapacity => ls.dynamicCapacity

/-- Puts `l` in the place of the log of kind `k`. -/
def set (ls : EventLogs) (k : EventLog.Kind) (l : EventLog) : EventLogs :=
  match k with
  | .informational => { ls with informational := l }
  | .warning => { ls with warning := l }
  | .failure => { ls with failure := l }
  | .fatal => { ls with fatal := l }
  | .dynamicCapacity => { ls with dynamicCapacity := l }

@[simp] theorem get_set_self (ls : EventLogs) (k : EventLog.Kind) (l : EventLog) :
    (ls.set k l).get k = l := by cases k <;> rfl

theorem get_set_of_ne (ls : EventLogs) {j k : EventLog.Kind} (l : EventLog) (h : j ≠ k) :
    (ls.set k l).get j = ls.get j := by cases j <;> cases k <;> simp_all [get, set]

/-- Inserts a record into the log of kind `k`. -/
def insert (ls : EventLogs) (k : EventLog.Kind) (r : EventRecord) (now : Timestamp) :
    EventLogs × Option UInt16 :=
  match (ls.get k).insert r now with
  | (l, handle) => (ls.set k l, handle)

/-- Removes the oldest records of the log of kind `k` by their handles. -/
def clear? (ls : EventLogs) (k : EventLog.Kind) (handles : List UInt16) : Option EventLogs :=
  ((ls.get k).clear? handles).map (ls.set k)

/-- Removes all records of the log of kind `k`. -/
def clearAll (ls : EventLogs) (k : EventLog.Kind) : EventLogs := ls.set k (ls.get k).clearAll

/-- Sets the interrupt of the log of kind `k`. -/
def setInterrupt (ls : EventLogs) (k : EventLog.Kind) (setting : UInt8) : EventLogs :=
  ls.set k ((ls.get k).setInterrupt setting)

/-- Sets the interrupts of the logs in order, as far as there are settings. -/
def setInterrupts (ls : EventLogs) (settings : List UInt8) : EventLogs :=
  (EventLog.Kind.all.zip settings).foldl (fun ls (k, setting) => ls.setInterrupt k setting) ls

/-- The interrupt settings of all logs in order. -/
def interruptSettings (ls : EventLogs) : List UInt8 :=
  EventLog.Kind.all.map fun k => (ls.get k).interruptSetting

end EventLogs

end CxlEndpoint
