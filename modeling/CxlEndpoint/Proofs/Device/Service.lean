import CxlEndpoint.Config.Device
import CxlEndpoint.MemoryDevice.Serve
import CxlEndpoint.Proofs.Capacity.History
import CxlEndpoint.Proofs.Poison.History
import CxlEndpoint.Proofs.Poison.Message

/-!
# What a request does to a memory device

* `MemoryDevice.Serves`: the device after a request that was carried out, and the reply to it, one
  case for each part of the device that can change. `serves_of_serve` says that there are no
  others.
* `Serves.unchanged_of_long`: what does not fit into a response comes with no change. Scan results
  are taken off the queue only as far as they fit.
* `Serves.of_background`: what runs on in the background.
-/

namespace CxlEndpoint

namespace Poison

/-- A media error that was reported `n` times. -/
theorem Store.groundTruth_after_replicate (n : Nat) :
    (after (List.replicate n (.mediaError 0 64 .internal 0))).groundTruth =
      List.replicate n ⟨0, 64, .internal⟩ := by
  induction n with
  | zero => rfl
  | succ n ih =>
    have hrecord : mediaError? 0 64 .internal = some ⟨0, 64, .internal⟩ := rfl
    rw [List.replicate_succ, after, Store.step,
      recordMediaError_of_some hrecord, List.replicate_succ', ih]

end Poison

theorem sanitizeSeconds_pos (mebibytes : Nat) : 0 < sanitizeSeconds mebibytes :=
  Nat.zero_lt_of_lt (sanitizeSyncSeconds_lt mebibytes)

/-- A write changes nothing but the lines. -/
theorem Memory.eq_of_writeLine? {m n : Memory} {address : Nat} {data : CacheLine}
    (h : m.writeLine? address data = some n) :
    n = { m with
      lines := (lineStart address, data) :: m.lines.filter (·.1 != lineStart address) } := by
  unfold writeLine? at h
  split at h
  · exact (Option.some.inj h).symm
  · cases h

/-- What a request makes of the event logs. -/
inductive EventLogs.Serves (ls : EventLogs) : MemoryRequest → EventLogs → Prop
  | all (log : EventLog.Kind) : Serves ls (.clearEvents ⟨log, none⟩) (ls.clearAll log)
  | oldest (log : EventLog.Kind) (handles : List UInt16) (events : EventLogs)
    (h : ls.clear? log handles = some events) :
    Serves ls (.clearEvents ⟨log, some handles⟩) events
  | interrupts (settings : List UInt8) :
    Serves ls (.setInterruptPolicy settings) (ls.setInterrupts settings)

namespace MemoryDevice

/-- `Serves d c request d' reply`: carrying out the request on `d` leaves `d'`. -/
inductive Serves (d : MemoryDevice) (c : Conditions) : MemoryRequest → MemoryDevice → Reply → Prop
  /-- The device tells something of itself. -/
  | told (request : MemoryRequest) (payload : Payload) : Serves d c request d { payload }
  | events (request : MemoryRequest) (events : EventLogs) (h : d.events.Serves request events) :
    Serves d c request { d with events } {}
  | labels (w : LabelWrite) :
    Serves d c (.setLabels w) { d with memory := d.memory.writeLabels w.offset w.data } {}
  | injected (address : Nat) (poison : Poison.Store)
    (h : d.poison.inject? address c.scanning = some poison) :
    Serves d c (.injectPoison address) { d with poison } {}
  | cleared (address : Nat) (data : CacheLine) (memory : Memory)
    (h : d.memory.writeLine? (lineStart address) data = some memory) :
    Serves d c (.clearPoison address data)
      { d with memory, poison := (d.poison.clear (lineStart address) c.scanning c.time).1 } {}
  | scanning (r : Poison.Range) (length : Nat) (h : d.scanLength r = .ok length) :
    Serves d c (.scan r) { d with poison := d.poison.beginScan r.start length c.time }
      { completion := .background (scanMilliseconds length) }
  | results (h : d.poison.scanned = true) :
    Serves d c .scanResults (d.takeResults c).1 { payload := (d.takeResults c).2.toPayload }
  | sanitizing :
    Serves d c .sanitize { d with memory := { d.memory with mediaEnabled := false } }
      { completion :=
          .background (sanitizeSeconds (d.memory.staticCapacity / mebibyte) * 1000) }
  | ledger (request : MemoryRequest) (op : Ledger.Op) (ledger : Ledger)
    (h : d.ledger.attempt op = .ok ledger) :
    Serves d c request { d with ledger } {}

variable {d d' : MemoryDevice} {c : Conditions} {request : MemoryRequest} {reply : Reply}

theorem clearPoison_eq_ok {address : Nat} {data : CacheLine}
    (h : d.clearPoison c address data = .ok d') :
    ∃ memory, d.memory.writeLine? (lineStart address) data = some memory ∧
      d' = { d with
        memory, poison := (d.poison.clear (lineStart address) c.scanning c.time).1 } := by
  unfold clearPoison at h
  dsimp only at h
  split at h
  · cases h
  · split at h
    · cases h
    next memory hmemory => exact ⟨memory, hmemory, (Except.ok.inj h).symm⟩

theorem serve_clearPoison_eq_ok {address : Nat} {data : CacheLine}
    (h : d.serve c (.clearPoison address data) = .ok (d', reply)) :
    ∃ memory, d.memory.writeLine? (lineStart address) data = some memory ∧
      d' = { d with
        memory, poison := (d.poison.clear (lineStart address) c.scanning c.time).1 } ∧
      reply = {} := by
  simp only [serve] at h
  split at h
  next d₁ hd₁ =>
    cases h
    obtain ⟨memory, hmemory, rfl⟩ := clearPoison_eq_ok hd₁
    exact ⟨memory, hmemory, rfl, rfl⟩
  · cases h

theorem withLedger_eq_ok {changed : Except Refusal Ledger} (h : d.withLedger changed = .ok d') :
    ∃ ledger, changed = .ok ledger ∧ d' = { d with ledger } := by
  cases changed with
  | error refusal => cases h
  | ok ledger => exact ⟨ledger, rfl, (Except.ok.inj h).symm⟩

/-- A sanitize always runs on in the background. -/
theorem serve_sanitize (d : MemoryDevice) (c : Conditions) :
    d.serve c .sanitize =
      .ok ({ d with memory := { d.memory with mediaEnabled := false } },
        { completion :=
            .background (sanitizeSeconds (d.memory.staticCapacity / mebibyte) * 1000) }) :=
  if_neg (Nat.not_le_of_lt (sanitizeSyncSeconds_lt _))

/-- The device does nothing else on request. -/
theorem serves_of_serve (h : d.serve c request = .ok (d', reply)) :
    d.Serves c request d' reply := by
  cases request with
  | clearEvents clearance =>
    obtain ⟨log, _ | handles⟩ := clearance
    · cases h
      exact .events _ _ (.all log)
    · simp only [serve] at h
      split at h
      next events hevents =>
        cases h
        exact .events _ _ (.oldest log handles events hevents)
      · cases h
  | setInterruptPolicy settings =>
    cases h
    exact .events _ _ (.interrupts settings)
  | setLabels w =>
    simp only [serve] at h
    split at h
    · cases h
      exact .labels w
    · cases h
  | injectPoison address =>
    simp only [serve] at h
    split at h
    next poison hpoison =>
      cases h
      exact .injected address poison hpoison
    · cases h
  | clearPoison address data =>
    obtain ⟨memory, hmemory, rfl, rfl⟩ := serve_clearPoison_eq_ok h
    exact .cleared address data memory hmemory
  | scan r =>
    simp only [serve] at h
    split at h
    next length hlength =>
      cases h
      exact .scanning r length hlength
    · cases h
  | scanResults =>
    simp only [serve] at h
    split at h
    next hscanned =>
      cases h
      exact .results hscanned
    · cases h
  | sanitize =>
    rw [serve_sanitize] at h
    cases h
    exact .sanitizing
  | addCapacity batch =>
    simp only [serve] at h
    split at h
    next d₁ hd₁ =>
      cases h
      obtain ⟨ledger, hledger, rfl⟩ := withLedger_eq_ok hd₁
      exact .ledger _ (.add batch) ledger hledger
    · cases h
  | releaseCapacity batch =>
    simp only [serve] at h
    split at h
    next d₁ hd₁ =>
      cases h
      obtain ⟨ledger, hledger, rfl⟩ := withLedger_eq_ok hd₁
      exact .ledger _ (.release batch) ledger hledger
    · cases h
  | eventRecords | interruptPolicy | poisonList =>
    cases h
    exact .told _ _
  | firmware | identify | partition | getLabels | scanCapabilities | regions | extents =>
    simp only [serve] at h
    split at h
    · cases h
      exact .told _ _
    · cases h

/-! ## Parts of the scan results -/

theorem serve_scanResults (h : d.poison.scanned = true) :
    d.serve c .scanResults =
      .ok ((d.takeResults c).1, { payload := (d.takeResults c).2.toPayload }) :=
  if_pos h

theorem length_takeResults :
    (d.takeResults c).2.toPayload.length =
      Poison.headerLength +
        Poison.recordLength * min (Poison.recordLimit c.room) d.poison.results.length := by
  rw [Poison.ResultPage.length_toPayload]
  show _ + _ * (d.poison.results.take _).length = _
  rw [List.length_take]

theorem length_takeResults_le (h : Poison.headerLength ≤ c.room) :
    (d.takeResults c).2.toPayload.length ≤ c.room := by
  rw [length_takeResults]
  exact Payload.records_fit h (Nat.min_le_left _ _)

/-- Without room for the header no results are taken. -/
theorem takeResults_of_short (h : c.room < Poison.headerLength) : (d.takeResults c).1 = d := by
  have hlimit : Poison.recordLimit c.room = 0 := by
    rw [Poison.recordLimit, Nat.sub_eq_zero_of_le (Nat.le_of_lt h), Nat.zero_div]
  rw [takeResults, Poison.Store.takeResults, hlimit, List.drop_zero]

/-- A response that is too long comes with no change. -/
theorem Serves.unchanged_of_long (h : d.Serves c request d' reply)
    (hlong : c.room < reply.payload.length) : d' = d := by
  cases h with
  | told => rfl
  | results =>
    by_cases hheader : Poison.headerLength ≤ c.room
    · exact absurd hlong (Nat.not_lt.mpr (length_takeResults_le hheader))
    · exact takeResults_of_short (Nat.lt_of_not_le hheader)
  | events | labels | injected | cleared | scanning | sanitizing | ledger =>
    exact absurd hlong (Nat.not_lt_zero _)

/-- What runs on in the background is a scan or a sanitize. It takes its time and has nothing to
tell yet. -/
theorem Serves.of_background {runtime : Nat} (h : d.Serves c request d' reply)
    (hruns : reply.completion = .background runtime) :
    (request = .sanitize ∨ ∃ r, request = .scan r) ∧ reply.payload = [] ∧ 0 < runtime := by
  cases h with
  | scanning r length =>
    cases hruns
    exact ⟨Or.inr ⟨r, rfl⟩, rfl, Nat.lt_of_lt_of_le Nat.one_pos (Nat.le_max_right _ _)⟩
  | sanitizing =>
    cases hruns
    exact ⟨Or.inl rfl, rfl, Nat.mul_pos (sanitizeSeconds_pos _) (by decide)⟩
  | told | events | labels | injected | cleared | results | ledger => cases hruns

/-! ## Two devices -/

/-- A memory device without a history. -/
def fresh : MemoryDevice :=
  { identity := ({} : MemoryConfig).identity, memory := ({} : MemoryConfig).memory }

/-- A device that was told `n` times of one media error and has scanned for it since. -/
def scanned (n : Nat) : MemoryDevice :=
  { fresh with
    poison := .after (.completeScan :: .beginScan 0 64 0 ::
      List.replicate n (.mediaError 0 64 .internal 0)) }

theorem results_scanned (n : Nat) :
    (scanned n).poison.results = List.replicate n ⟨0, 64, .internal⟩ := by
  show (Poison.Store.beginScan _ 0 64 0).results = _
  rw [Poison.Store.results_beginScan, Poison.Store.found,
    Poison.Store.groundTruth_after_replicate]
  exact List.filter_replicate_of_pos (by decide)

end MemoryDevice

end CxlEndpoint
