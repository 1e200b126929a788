import CxlEndpoint.CacheLine
import CxlEndpoint.Payload
import CxlEndpoint.Word

/-!
# Memory: media and label storage

Media is sparse: only lines that were written are kept. Label storage is an array of bytes of
fixed size.

* `Memory.line?`, `Memory.writeLine?`: the contents of a line; a write past the end of capacity is
  refused. `line?_of_writeLine?` says what a write changes.
* `Memory.readLabels`, `Memory.writeLabels`: both are cut at the end of label storage.
* `Memory.sanitize`: forgets all lines and zeroes the labels. It is counted in 32 bits
  (`sanitizeCount_sanitize`), and `Memory.sanitizeChecked` does not get past the last number.
-/

namespace CxlEndpoint

/-- The media and the label storage of a memory device. Capacities are in bytes. -/
structure Memory where
  volatileCapacity : Nat
  persistentCapacity : Nat
  /-- Capacity behind the static part, for dynamic capacity regions. -/
  dynamicCapacity : Nat := 0
  labels : List UInt8 := []
  /-- The written lines by address, the latest write first. -/
  lines : List (Nat × CacheLine) := []
  mediaEnabled : Bool := true
  /-- How often everything has been zeroed, as far as 32 bits can tell. -/
  sanitizes : UInt32 := 0

namespace Memory

/-- Blank media of the given capacities, with `labelBytes` zero bytes of label storage. -/
def blank (volatileCapacity persistentCapacity dynamicCapacity labelBytes : Nat) : Memory where
  volatileCapacity := volatileCapacity
  persistentCapacity := persistentCapacity
  dynamicCapacity := dynamicCapacity
  labels := zeros labelBytes

/-- Volatile and persistent capacity together. -/
def staticCapacity (m : Memory) : Nat := Word.addSat m.volatileCapacity m.persistentCapacity

/-- The end of the backed address range. -/
def capacity (m : Memory) : Nat := Word.addSat m.staticCapacity m.dynamicCapacity

/-- The size of label storage as a 32-bit number. -/
def labelSize (m : Memory) : Nat := min m.labels.length Word.last32

/-- Up to `length` bytes of label storage from `offset` on. -/
def readLabels (m : Memory) (offset length : Nat) : Payload := (m.labels.drop offset).take length

/-- Stores as much of `data` at `offset` as label storage holds. -/
def writeLabels (m : Memory) (offset : Nat) (data : Payload) : Memory :=
  let start := min offset m.labels.length
  let room := m.labels.length - start
  { m with
    labels :=
      m.labels.take start ++ data.take room ++ m.labels.drop (start + min data.length room) }

/-- The contents of the line at `address`, if it has been written. -/
def line? (m : Memory) (address : Nat) : Option CacheLine := m.lines.lookup address

/-- Writes the line that holds `address`. The 64 bytes from `address` on must be backed. -/
def writeLine? (m : Memory) (address : Nat) (data : CacheLine) : Option Memory :=
  if address + lineBytes ≤ m.capacity then
    let line := lineStart address
    some { m with lines := (line, data) :: m.lines.filter (·.1 != line) }
  else none

/-- The number of times that everything has been zeroed. It starts over behind the greatest 32-bit
number. -/
def sanitizeCount (m : Memory) : Nat := m.sanitizes.toNat

/-- Zeroes all media and label storage. -/
def sanitize (m : Memory) : Memory :=
  { m with lines := [], labels := zeros m.labels.length, sanitizes := m.sanitizes + 1 }

/-- `sanitize`, where `none` says that the program stops: there is no greater number to count to. -/
def sanitizeChecked (m : Memory) : Option Memory :=
  if m.sanitizeCount < Word.last32 then some m.sanitize else none

theorem sanitizeCount_le (m : Memory) : m.sanitizeCount ≤ Word.last32 :=
  Nat.le_of_lt_succ m.sanitizes.toNat_lt

theorem sanitizeCount_sanitize (m : Memory) :
    m.sanitize.sanitizeCount = (m.sanitizeCount + 1) % (1 <<< 32) := UInt32.toNat_add ..

theorem sanitizeChecked_eq_none_iff {m : Memory} :
    m.sanitizeChecked = none ↔ Word.last32 ≤ m.sanitizeCount := by
  unfold sanitizeChecked
  split
  next hlt => exact iff_of_false nofun (Nat.not_le_of_lt hlt)
  next hfull => exact iff_of_true rfl (Nat.le_of_not_lt hfull)

/-- Entries of another key say nothing about `a`. -/
theorem lookup_filter_ne {β : Type} {k a : Nat} (h : a ≠ k) (l : List (Nat × β)) :
    (l.filter (·.1 != k)).lookup a = l.lookup a := by
  induction l with
  | nil => rfl
  | cons x rest ih =>
    rw [List.lookup_cons, List.filter_cons]
    split
    · rw [List.lookup_cons, ih]
    · next hx =>
      have : (a == x.1) = false := by simp_all
      rw [this, ih]

theorem line?_of_writeLine? {m n : Memory} {address : Nat} {data : CacheLine}
    (h : m.writeLine? address data = some n) (a : Nat) :
    n.line? a = if a = lineStart address then some data else m.line? a := by
  unfold writeLine? at h
  split at h
  · cases h
    by_cases ha : a = lineStart address
    · simp [line?, ha]
    · simp only [line?, List.lookup_cons, beq_eq_false_iff_ne.2 ha, if_neg ha]
      exact lookup_filter_ne ha m.lines
  · cases h

end Memory

end CxlEndpoint
