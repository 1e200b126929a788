import CxlEndpoint.Opcode
import CxlEndpoint.Status
import CxlEndpoint.Word
import CxlEndpoint.CacheLine

/-!
# Background operations

A mailbox runs at most one command in the background. Its progress changes only when it is polled.

* `Background.start`, `Background.poll`: begin an operation; update its progress, and name it once
  its runtime is over. `poll_of_idle`, `poll_of_over` and `poll_of_lasting` are its cases.
* `Background.nextTick?`: when the next poll is due, one `tickInterval` after the last.
* `sanitizeSeconds`, `scanMilliseconds`: how long the two background commands take.
  `sanitizeSyncSeconds_lt`: no sanitize is short enough to be carried out at once.
-/

namespace CxlEndpoint

/-- Milliseconds between two progress updates. -/
def tickInterval : Nat := 1000

/-- An operation in flight. Times are in milliseconds. -/
structure RunningOperation where
  opcode : Opcode
  start : Nat
  runtime : Nat
  nextTick : Nat
  deriving DecidableEq, Repr

/-- The operation in flight, if any, and the progress of the latest one in percent. -/
structure Background where
  running : Option RunningOperation := none
  percent : Nat := 0
  deriving DecidableEq, Repr

namespace Background

/-- Nothing has been run yet. -/
def idle : Background := {}

/-- The opcode of the operation in flight. -/
def opcode? (b : Background) : Option Opcode := b.running.map (·.opcode)

/-- An operation is in flight. -/
def isRunning (b : Background) : Bool := b.running.isSome

/-- The operation in flight is `op`. -/
def isRunningOp (b : Background) (op : Opcode) : Bool := b.opcode? == some op

theorem opcode?_of_running {b : Background} {r : RunningOperation} (h : b.running = some r) :
    b.opcode? = some r.opcode := by
  rw [opcode?, h]
  rfl

theorem opcode?_eq_none_iff {b : Background} : b.opcode? = none ↔ b.isRunning = false := by
  simp [opcode?, isRunning]

theorem isSome_opcode? (b : Background) : b.opcode?.isSome = b.isRunning := Option.isSome_map

theorem isRunningOp_iff {b : Background} {op : Opcode} :
    b.isRunningOp op = true ↔ b.opcode? = some op := beq_iff_eq

theorem isRunningOp_of_idle {b : Background} (h : b.isRunning = false) (op : Opcode) :
    b.isRunningOp op = false := by
  rw [isRunningOp, opcode?_eq_none_iff.mpr h]
  rfl

/-- When the operation in flight wants to be polled again. -/
def nextTick? (b : Background) : Option Nat := b.running.map (·.nextTick)

/-- The return code of the latest operation: a background operation that starts never fails. -/
def returnCode (_ : Background) : Status := .success

/-- Begins an operation at time `now`; the first update is due one interval later. -/
def start (op : Opcode) (now runtime : Nat) : Background where
  running := some ⟨op, now, runtime, Word.addSat now tickInterval⟩
  percent := 0

/-- Updates the progress at time `now`. The opcode is returned by the poll that finds the runtime
over; the operation is then no longer in flight and its progress stays at 100. -/
def poll (b : Background) (now : Nat) : Background × Option Opcode :=
  match b.running with
  | none => (b, none)
  | some r =>
    let elapsed := now - r.start
    if r.runtime ≤ elapsed then ({ running := none, percent := 100 }, some r.opcode)
    else
      ({ running := some { r with nextTick := Word.addSat now tickInterval },
         percent := min (Word.mulSat elapsed 100 / r.runtime) 99 }, none)

section Poll

variable {b : Background} {r : RunningOperation} {now : Nat}

theorem poll_of_idle (h : b.running = none) (now : Nat) : b.poll now = (b, none) := by
  rw [poll, h]

theorem poll_of_over (h : b.running = some r) (hover : r.runtime ≤ now - r.start) :
    b.poll now = (⟨none, 100⟩, some r.opcode) := by
  rw [poll, h]
  exact if_pos hover

theorem poll_of_lasting (h : b.running = some r) (hlasting : now - r.start < r.runtime) :
    b.poll now = (⟨some { r with nextTick := Word.addSat now tickInterval },
      min (Word.mulSat (now - r.start) 100 / r.runtime) 99⟩, none) := by
  rw [poll, h]
  exact if_neg (Nat.not_le_of_lt hlasting)

end Poll

end Background

/-- The longest time in seconds that a sanitize may take, by capacity in MiB, in ascending order. -/
def sanitizeSteps : List (Nat × Nat) :=
  [(512, 4), (1024, 8), (2 * 1024, 15), (4 * 1024, 30), (8 * 1024, 60), (16 * 1024, 120),
    (32 * 1024, 240), (64 * 1024, 480), (128 * 1024, 900), (256 * 1024, 1800),
    (512 * 1024, 3600), (1024 * 1024, 7200)]

/-- Seconds that a sanitize of `mebibytes` takes: the first step that the capacity does not
exceed, four hours beyond the last. -/
def sanitizeSeconds (mebibytes : Nat) : Nat :=
  match sanitizeSteps.find? (mebibytes ≤ ·.1) with
  | some (_, seconds) => seconds
  | none => 4 * 3600

/-- A sanitize that takes no more seconds than this is carried out at once. -/
def sanitizeSyncSeconds : Nat := 2

theorem sanitizeSyncSeconds_lt (mebibytes : Nat) :
    sanitizeSyncSeconds < sanitizeSeconds mebibytes := by
  have hsteps : ∀ step ∈ sanitizeSteps, sanitizeSyncSeconds < step.2 := by decide
  unfold sanitizeSeconds
  split
  next hfind => exact hsteps _ (List.mem_of_find?_eq_some hfind)
  · decide

/-- Milliseconds that a scan of `length` bytes takes: one for 2000 cache lines, at least one. -/
def scanMilliseconds (length : Nat) : Nat := max (length / lineBytes / 2000) 1

end CxlEndpoint
