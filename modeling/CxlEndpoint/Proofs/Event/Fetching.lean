import CxlEndpoint.Proofs.Event.Delivery
import CxlEndpoint.Proofs.Event.Overflow
import CxlEndpoint.Proofs.Event.Received

/-!
# Fetching event records

* `EventLogs.Serves.exists_after`, `exists_logTrace_after`: what happens to a memory device makes
  its logs what some operations on them make of empty ones. So all that is known of such logs is
  true of the logs of a device.
* `EventPage.received_ofLog`: what there is to read of a page of a log.
* `fetched_getEventRecords`: what the host gets when it asks for records, at any time.
-/

namespace CxlEndpoint

/-! ## The logs of a device -/

namespace EventLogs

variable {ls : EventLogs} {k : EventLog.Kind} {trace : List Op} {lost : EventOverflow}

theorem exists_after_setInterrupts (trace : List Op) (settings : List UInt8) :
    ∃ trace', (after trace).setInterrupts settings = after trace' := by
  unfold setInterrupts
  generalize EventLog.Kind.all.zip settings = changes
  induction changes generalizing trace with
  | nil => exact ⟨trace, rfl⟩
  | cons change rest ih => exact ih (.setInterrupt change.1 change.2 :: trace)

theorem Serves.exists_after {request : MemoryRequest} (h : (after trace).Serves request ls) :
    ∃ trace', ls = after trace' := by
  cases h with
  | all log => exact ⟨.clearAll log :: trace, rfl⟩
  | oldest log handles ls hclear =>
    refine ⟨.clear log handles :: trace, ?_⟩
    rw [after, step, hclear]
    rfl
  | interrupts settings => exact exists_after_setInterrupts trace settings

/-- The number of lost records has sixteen bits. -/
theorem count_le_of_overflow (h : ((after trace).get k).overflow = some lost) :
    lost.count ≤ 65535 := by
  rw [overflow_eq_after] at h
  cases htimes : missed k trace with
  | nil =>
    rw [htimes] at h
    cases h
  | cons latest earlier =>
    rw [htimes] at h
    cases h
    exact Nat.min_le_right _ _

end EventLogs

theorem MemoryDevice.Serves.exists_logTrace {d d' : MemoryDevice} {c : Conditions}
    {request : MemoryRequest} {reply : Reply} (h : d.Serves c request d' reply)
    (htrace : ∃ trace, d.events = .after trace) : ∃ trace, d'.events = .after trace := by
  cases h with
  | events request events hevents =>
    obtain ⟨trace, htrace⟩ := htrace
    rw [htrace] at hevents
    exact hevents.exists_after
  | told | labels | injected | cleared | scanning | results | sanitizing | ledger => exact htrace

theorem MemoryDevice.events_finish (d : MemoryDevice) (op : Opcode) :
    (d.finish op).events = d.events := by
  unfold finish
  split
  · rfl
  · split <;> rfl

namespace Endpoint

variable {m m' : Mailbox} {d d' : MemoryDevice} {e : Endpoint} {op : Op}

/-- An event is one more operation on the logs. Of all else that can happen, only requests concern
them. -/
theorem exists_logTrace_step (hcommands : m.HasMemoryCommands)
    (htrace : ∃ trace, d.events = .after trace) (hstep : (memory m d).step op = memory m' d') :
    ∃ trace, d'.events = .after trace := by
  obtain ⟨m₁, d₁, hreached, hsteps⟩ := steps_step hcommands d op
  obtain ⟨rfl, rfl⟩ := Endpoint.memory.inj (hreached.symm.trans hstep)
  generalize (memory m d).begun op = begun at hsteps
  cases hsteps with
  | event now log r =>
    obtain ⟨trace, htrace⟩ := htrace
    obtain ⟨-, hdevice⟩ := Endpoint.memory.inj hstep
    refine ⟨.insert log r (m.hostTime.now now) :: trace, ?_⟩
    rw [← hdevice, htrace]
    rfl
  | served _ _ _ _ _ _ _ hserves => exact hserves.exists_logTrace htrace
  | started _ _ _ _ _ _ _ hserves => exact hserves.exists_logTrace htrace
  | finished now r =>
    rw [d.events_finish]
    exact htrace
  | idle | timeSet | polled | mediaError | provision => exact htrace

theorem exists_logTrace_after {c : MemoryConfig} {memory : Memory}
    (h : memoryDevice c memory = .ok e) (past : List Op) :
    ∃ m d, e.after past = .memory m d ∧ ∃ trace, d.events = .after trace := by
  obtain ⟨m, d, rfl, hcommands, -⟩ := exists_memory h
  have hempty : d.events = .after [] := by
    obtain ⟨commands, ledger, -, -, hnew⟩ := memoryDevice_eq_ok h
    obtain ⟨-, rfl⟩ := Endpoint.memory.inj hnew
    rfl
  obtain ⟨m, d, hreached, -, htrace⟩ := exists_after ⟨m, d, rfl, hcommands, [], hempty⟩
    (fun _ _ _ _ _ hcommands htrace hstep => exists_logTrace_step hcommands htrace hstep) past
  exact ⟨m, d, hreached, htrace⟩

end Endpoint

/-! ## Pages -/

/-- A page of a log that holds few records has as many of the oldest ones as there is room for. -/
theorem EventPage.received_ofLog {l : EventLog} (room : Nat) (h : l.records.length ≤ logCapacity) :
    (ofLog l room).received = {
      more := decide (min l.records.length ((room - 32) / 128) < l.records.length)
      overflowed := l.overflow.isSome
      lost := l.overflow.elim 0 (·.count)
      firstLost := l.overflow.elim 0 (·.first)
      latestLost := l.overflow.elim 0 (·.latest)
      count := min l.records.length ((room - 32) / 128)
      records :=
        (l.records.take (min l.records.length ((room - 32) / 128))).map (·.received) } := by
  have hlimit : min (min ((room - 32) / 128) 65535) l.records.length =
      min l.records.length ((room - 32) / 128) := by
    unfold logCapacity at h
    omega
  have htake : l.records.take (min ((room - 32) / 128) 65535) =
      l.records.take (min l.records.length ((room - 32) / 128)) := by
    rw [List.take_eq_take_iff, hlimit]
    omega
  have hmore : min ((room - 32) / 128) 65535 < l.records.length ↔
      min l.records.length ((room - 32) / 128) < l.records.length := by omega
  have hcount : (l.records.take (min l.records.length ((room - 32) / 128))).length =
      min l.records.length ((room - 32) / 128) := by
    rw [List.length_take]
    omega
  simp only [received, ofLog, headerLength, StoredEvent.wireLength, htake, hcount]
  congr 1
  exact decide_eq_decide.mpr hmore

namespace Endpoint

variable {e : Endpoint}

/-- **The host gets the oldest records of a log as they were stored**, as many as there is room for,
with an account of those that were lost. -/
theorem fetched_getEventRecords {c : MemoryConfig} {memory : Memory}
    (h : memoryDevice c memory = .ok e) (past : List Op) :
    ∃ m d, e.after past = .memory m d ∧
      (m.background.opcode? ≠ some .sanitize → ∀ k now limit, 32 ≤ m.room limit →
        ∃ page count,
          (Endpoint.memory m d).dispatch now limit .getEventRecords [k.number] =
            (.memory m d, ⟨.success, page⟩) ∧
          count = min (d.events.get k).records.length ((m.room limit - 32) / 128) ∧
          page.length = 32 + 128 * count ∧
          ReceivedEvents.ofPayload? page = some {
            more := decide (count < (d.events.get k).records.length)
            overflowed := (d.events.get k).overflow.isSome
            lost := (d.events.get k).overflow.elim 0 (·.count)
            firstLost := (d.events.get k).overflow.elim 0 (·.first)
            latestLost := (d.events.get k).overflow.elim 0 (·.latest)
            count
            records := ((d.events.get k).records.take count).map fun stored => {
              uuid := stored.record.uuid
              length := 128
              flags := stored.record.flags.toNat % 1 <<< 24
              handle := stored.handle
              relatedHandle := stored.record.relatedHandle
              timestamp := stored.timestamp
              maintenanceClass := stored.record.maintenanceClass
              data := stored.record.data } }) := by
  obtain ⟨m, d, hreached, trace, htrace⟩ := exists_logTrace_after h past
  refine ⟨m, d, hreached, fun hsanitize k now limit hroom => ?_⟩
  have hknows : m.Knows .getEventRecords := knows_after h hreached (by decide)
  have hfew : (d.events.get k).records.length ≤ logCapacity := by
    rw [htrace]
    exact (EventLogs.inTurn_after k trace).1.length_le
  have hlost : ∀ lost, (d.events.get k).overflow = some lost → lost.count ≤ 65535 := by
    rw [htrace]
    exact fun _ => EventLogs.count_le_of_overflow
  have hreceived := EventPage.received_ofLog (m.room limit) hfew
  have hrecords : (EventPage.ofLog (d.events.get k) (m.room limit)).records.length =
      min (d.events.get k).records.length ((m.room limit - 32) / 128) :=
    congrArg ReceivedEvents.count hreceived
  refine ⟨_, _, dispatch_getEventRecords hknows d k hsanitize now limit hroom, rfl, ?_, ?_⟩
  · rw [EventPage.length_toPayload, hrecords]
    rfl
  · have hshort : (EventPage.ofLog (d.events.get k) (m.room limit)).records.length < 1 <<< 16 := by
      unfold logCapacity at hfew
      rw [hrecords, show 1 <<< 16 = 65536 from rfl]
      omega
    rw [EventPage.ofPayload?_toPayload _ hshort hlost, hreceived]
    rfl

/-- An event whose flags have a high byte. -/
def loudEvent : EventRecord where
  uuid := Vector.replicate 16 0xab
  flags := 0xff010203
  relatedHandle := 9
  maintenanceClass := 4
  data := Vector.replicate 80 0x5a

/-- The host sets its time, and ten events are reported to one log, the last one a little later. -/
def loudHistory : List Op :=
  .event 4 .warning loudEvent :: List.replicate 9 (.event 3 .warning loudEvent) ++
    [.request 1 none .setTimestamp (littleEndian 8 1000)]

theorem after_loudHistory :
    ∃ m d, newDevice.after loudHistory = .memory m d ∧ m.background = .idle ∧
      m.payloadMax = 2048 ∧ d.events.get .warning = {
        records := (List.range 8).map fun i => ⟨UInt16.ofNat (i + 1), 2001000, loudEvent⟩
        upcoming := 9
        overflow := some ⟨2, 2001000, 3001000⟩ } := by
  have hread : Request.ofPayload .setTimestamp (littleEndian 8 1000) =
      .ok (.direct (.setTimestamp 1000)) := rfl
  have hset : newDevice.dispatch 1 none .setTimestamp (littleEndian 8 1000) = _ :=
    dispatch_of_direct (c := .standard .setTimestamp) rfl rfl hread
  simp only [loudHistory, List.replicate, List.cons_append, List.nil_append, after, step, hset]
  exact ⟨_, _, rfl, rfl, rfl, by decide⟩

theorem fetched_getEventRecords_loud :
    memoryDevice {} ({} : MemoryConfig).memory = .ok newDevice ∧
      ∃ m d page, newDevice.after loudHistory = .memory m d ∧
        (memory m d).dispatch 5 (some 200) .getEventRecords [1] =
          (memory m d, ⟨.success, page⟩) ∧
        ReceivedEvents.ofPayload? page = some {
          more := true
          overflowed := true
          lost := 2
          firstLost := 2001000
          latestLost := 3001000
          count := 1
          records := [{
            uuid := Vector.replicate 16 0xab
            length := 128
            flags := 0x010203
            handle := 1
            relatedHandle := 9
            timestamp := 2001000
            maintenanceClass := 4
            data := Vector.replicate 80 0x5a }] } := by
  have hnew : memoryDevice {} ({} : MemoryConfig).memory = .ok newDevice := rfl
  obtain ⟨m, d, hafter, hfetched⟩ := fetched_getEventRecords hnew loudHistory
  obtain ⟨m', d', hafter', hidle, hmax, hlog⟩ := after_loudHistory
  obtain ⟨rfl, rfl⟩ := Endpoint.memory.inj (hafter.symm.trans hafter')
  have hroom : m.room (some 200) = 200 := by rw [Mailbox.room, hmax]; rfl
  obtain ⟨page, count, hdispatch, rfl, -, hread⟩ :=
    hfetched (by rw [hidle]; decide) .warning 5 (some 200) (by rw [hroom]; decide)
  refine ⟨hnew, m, d, page, hafter, hdispatch, ?_⟩
  rw [hread, hlog, hroom]
  rfl

end Endpoint

end CxlEndpoint
