import CxlEndpoint.Proofs.Endpoint.Completion
import CxlEndpoint.Proofs.Event.History
import CxlEndpoint.Proofs.Event.Message

/-!
# Delivery of events

The host fetches the oldest records of a log and then clears them by their handles. In between the
device may report further events, and the host may ask for anything else.

* `accepts`, `Clears`: the event that an operation puts into a log; a request that clears records
  of it.
* `Session`: what the host and a device do in the course of such rounds.
* `grows_step`: what one operation makes of a log that it does not clear.
* `dispatch_getEventRecords`, `dispatch_clearEventRecords`: the two halves of a round.
* `Delivers`: the records that were cleared and those that are stored are those that the log has
  accepted. `Delivers.other`, `.read` and `.clear` keep it.
* `events_delivered`: this holds in every session with a new device.
-/

namespace CxlEndpoint

namespace MemoryDevice

variable {d d' : MemoryDevice} {c : Conditions} {request : MemoryRequest} {reply : Reply}
  {k : EventLog.Kind}

/-- Only a request to clear records of a log changes what the log holds. -/
theorem Serves.sameRecords (h : d.Serves c request d' reply)
    (hk : ∀ clearance, request = .clearEvents clearance → clearance.log ≠ k) :
    (d.events.get k).SameRecords (d'.events.get k) := by
  cases h with
  | events request events hevents =>
    cases hevents with
    | all log =>
      show (d.events.get k).SameRecords ((d.events.set log _).get k)
      rw [d.events.get_set_of_ne _ (hk _ rfl).symm]
      exact .refl _
    | oldest log handles events hclear =>
      obtain ⟨l, -, rfl⟩ := Option.map_eq_some_iff.mp hclear
      show (d.events.get k).SameRecords ((d.events.set log l).get k)
      rw [d.events.get_set_of_ne _ (hk _ rfl).symm]
      exact .refl _
    | interrupts settings => exact d.events.sameRecords_setInterrupts settings k
  | told | labels | injected | cleared | scanning | results | sanitizing | ledger => exact .refl _

end MemoryDevice

namespace Endpoint

open EventPage StoredEvent

variable {m : Mailbox} {d : MemoryDevice} {e e₀ : Endpoint} {k : EventLog.Kind} {op : Op}
  {now : Nat} {limit : Option Nat} {n : Nat} {held : Option (List Payload)}
  {consumed : List Payload} {accepted : List StoredEvent}

/-! ## Sessions -/

/-- The event that `op` puts into log `k`. -/
def accepts (e : Endpoint) (k : EventLog.Kind) : Op → Option StoredEvent
  | .event now log r =>
    if log = k then
      (e.insertEvent now log r).2.map fun handle => ⟨handle, e.mailbox.hostTime.now now, r⟩
    else none
  | _ => none

/-- `op` is a request that clears records of log `k`. -/
def Clears (e : Endpoint) (k : EventLog.Kind) : Op → Prop
  | .request now limit op p =>
    op = .clearEventRecords ∧ p.head? = some k.number ∧
      (e.dispatch now limit op p).2.status = .success
  | _ => False

/-- `Session e₀ k e held consumed accepted`: `e₀` has become `e`, the host holds the records `held`
of log `k` that it has fetched and not cleared yet, it has cleared the records `consumed`, and the
log has accepted the events `accepted`. -/
inductive Session (e₀ : Endpoint) (k : EventLog.Kind) :
    Endpoint → (held : Option (List Payload)) → (consumed : List Payload) →
      (accepted : List StoredEvent) → Prop
  | new : Session e₀ k e₀ none [] []
  /-- Anything that does not clear the log. -/
  | other (e : Endpoint) (held : Option (List Payload)) (consumed : List Payload)
    (accepted : List StoredEvent) (op : Op) (h : Session e₀ k e held consumed accepted)
    (hop : ¬ Clears e k op) :
    Session e₀ k (e.step op) held consumed (accepted ++ (accepts e k op).toList)
  /-- The host fetches the oldest records. -/
  | read (e : Endpoint) (held : Option (List Payload)) (consumed : List Payload)
    (accepted : List StoredEvent) (now : Nat) (limit : Option Nat) (page : Payload)
    (h : Session e₀ k e held consumed accepted)
    (hpage : (e.dispatch now limit .getEventRecords [k.number]).2 = ⟨.success, page⟩) :
    Session e₀ k (e.dispatch now limit .getEventRecords [k.number]).1 (some (recordsOf page))
      consumed accepted
  /-- The host clears the records that it has fetched, by their handles. -/
  | clear (e : Endpoint) (records : List Payload) (consumed : List Payload)
    (accepted : List StoredEvent) (now : Nat) (limit : Option Nat)
    (h : Session e₀ k e (some records) consumed accepted) :
    Session e₀ k
      (e.dispatch now limit .clearEventRecords
        (EventClearance.request k (records.map handleOf))).1
      none (consumed ++ records) accepted

theorem Session.sameTable (h : Session e₀ k e held consumed accepted) : SameTable e₀ e := by
  induction h with
  | new => exact .refl e₀
  | other e _ _ _ op _ _ ih => exact ih.trans (sameTable_step e op)
  | read e _ _ _ now limit _ _ _ ih => exact ih.trans (sameTable_dispatch e now limit _ _)
  | clear e _ _ _ now limit _ ih => exact ih.trans (sameTable_dispatch e now limit _ _)

section New

variable {c : MemoryConfig} {memory : Memory}

theorem Session.knows (h : Session e₀ k e held consumed accepted)
    (hnew : memoryDevice c memory = .ok e₀) {command : StandardCommand}
    (hcommand : command.opcode ∈ memoryCommands.map (·.opcode)) : e.mailbox.Knows command :=
  h.sameTable.knows (knows_memoryDevice hnew hcommand)

theorem Session.commands (h : Session e₀ k e held consumed accepted)
    (hnew : memoryDevice c memory = .ok e₀) : e.mailbox.HasMemoryCommands := by
  obtain ⟨m, d, rfl, hcommands, -⟩ := exists_memory hnew
  rw [Mailbox.HasMemoryCommands, h.sameTable.commands]
  exact hcommands

end New

/-! ## What an operation makes of a log -/

/-- A request that clears records of the log is one of those that `Clears` names. -/
theorem Carries.clears {op : Opcode} {p : Payload} {clearance : EventClearance}
    {d' : MemoryDevice} {reply : Reply}
    (h : Carries m d now (m.room limit) op p (.clearEvents clearance) d' reply)
    (hlog : clearance.log = k)
    (hsuccess : ((memory m d).dispatch now limit op p).2.status = .success) :
    Clears (memory m d) k (.request now limit op p) := by
  have hread : (EventClearance.ofPayload p).map (DirectRequest.memory ∘ .clearEvents) =
      .ok (.memory (.clearEvents clearance)) := h.read
  refine ⟨h.opcode.symm, ?_, hsuccess⟩
  cases hpayload : EventClearance.ofPayload p with
  | error s =>
    rw [hpayload] at hread
    cases hread
  | ok c =>
    rw [hpayload] at hread
    cases hread
    rw [EventClearance.head?_of_ofPayload hpayload, hlog]

theorem sameRecords_request {op : Opcode} {p : Payload} (h : m.HasMemoryCommands)
    (hop : ¬ Clears (memory m d) k (.request now limit op p)) :
    ∃ m' d', (memory m d).step (.request now limit op p) = memory m' d' ∧
      (d.events.get k).SameRecords (d'.events.get k) := by
  obtain ⟨m', d', response, hdispatch, houtcome⟩ := exists_outcome h d now limit op p
  refine ⟨m', d', congrArg Prod.fst hdispatch, ?_⟩
  cases houtcome with
  | refused | told | timeSet => exact .refl _
  | served request d' reply hcarries hdone =>
    refine (MemoryDevice.serves_of_serve hcarries.served).sameRecords ?_
    rintro clearance rfl hlog
    exact hop (hcarries.clears hlog (by rw [hdispatch]))
  | started request d' runtime hcarries hidle =>
    have hserves := MemoryDevice.serves_of_serve hcarries.served
    refine hserves.sameRecords ?_
    rintro clearance rfl -
    rcases (hserves.of_background rfl).1 with hsanitize | ⟨r, hscan⟩
    · cases hsanitize
    · cases hscan

/-- Nothing but clearing takes records out of a log, and only an event puts one in. -/
theorem grows_step (h : m.HasMemoryCommands) (hturn : (d.events.get k).InTurn n)
    (hop : ¬ Clears (memory m d) k op) :
    ∃ m' d', (memory m d).step op = memory m' d' ∧
      (d.events.get k).Grows n (d'.events.get k) (accepts (memory m d) k op) := by
  cases op with
  | request now limit op p =>
    obtain ⟨m', d', hstep, hsame⟩ := sameRecords_request h hop
    exact ⟨m', d', hstep, .same _ hsame⟩
  | tick now =>
    obtain ⟨m', d', hstep, hsteps⟩ := steps_tick m d now
    refine ⟨m', d', hstep, .same _ ?_⟩
    cases hsteps with
    | idle | polled => exact .refl _
    | finished now r =>
      unfold MemoryDevice.finish
      split
      · exact .refl _
      · split <;> exact .refl _
  | mediaError now start length kind => exact ⟨m, _, rfl, .same _ (.refl _)⟩
  | provision extent =>
    simp only [step, provision, MemoryDevice.withLedger]
    cases d.ledger.provision extent <;> exact ⟨m, _, rfl, .same _ (.refl _)⟩
  | event now log r =>
    let host := m.hostTime.now now
    refine ⟨m, { d with events := (d.events.insert log r host).1 }, rfl, ?_⟩
    show EventLog.Grows _ n ((d.events.set log ((d.events.get log).insert r host).1).get k)
      (if log = k then ((d.events.get log).insert r host).2.map (⟨·, host, r⟩) else none)
    by_cases hlog : log = k
    · subst hlog
      rw [if_pos rfl, EventLogs.get_set_self]
      rcases hturn.insert r host with ⟨hnone, hrecords, hkept⟩ | ⟨hsome, hrecords, hnext⟩
      · rw [hnone]
        exact .same _ ⟨hrecords, hkept.upcoming.trans hturn.upcoming.symm⟩
      · rw [hsome]
        exact .taken _ _ rfl hrecords hnext
    · rw [if_neg hlog, d.events.get_set_of_ne _ (Ne.symm hlog)]
      exact .same _ (.refl _)

/-! ## The two halves of a round -/

theorem carries_getEventRecords (k : EventLog.Kind) {room : Nat}
    (haccept : m.accept .getEventRecords [k.number] = .ok (.standard .getEventRecords)) :
    Carries m d now room .getEventRecords [k.number] (.eventRecords k) d
      { payload := (EventPage.ofLog (d.events.get k) room).toPayload } := by
  have hread : DirectRequest.ofPayload .getEventRecords [k.number] =
      .ok (.memory (.eventRecords k)) := by
    rw [DirectRequest.ofPayload, EventLog.Kind.ofPayload_number]
    rfl
  exact ⟨rfl, haccept, hread, rfl⟩

/-- The host gets the oldest records, as many as there is room for. -/
theorem dispatch_getEventRecords (hknows : m.Knows .getEventRecords) (d : MemoryDevice)
    (k : EventLog.Kind) (hsanitize : m.background.opcode? ≠ some .sanitize)
    (now : Nat) (limit : Option Nat) (hroom : headerLength ≤ m.room limit) :
    (memory m d).dispatch now limit .getEventRecords [k.number] =
      (memory m d, ⟨.success, (EventPage.ofLog (d.events.get k) (m.room limit)).toPayload⟩) := by
  have haccept : m.accept .getEventRecords [k.number] = .ok (.standard .getEventRecords) :=
    hknows.accept_of_foreground rfl rfl fun h => absurd (Background.isRunningOp_iff.mp h) hsanitize
  exact (carries_getEventRecords k haccept).dispatch_of_fits rfl (length_ofLog_le _ hroom)

/-- There are no other responses with records. -/
theorem eq_of_getEventRecords (hknows : m.Knows .getEventRecords) {page : Payload}
    (hpage : ((memory m d).dispatch now limit .getEventRecords [k.number]).2 = ⟨.success, page⟩) :
    ((memory m d).dispatch now limit .getEventRecords [k.number]).1 = memory m d ∧
      page = (EventPage.ofLog (d.events.get k) (m.room limit)).toPayload := by
  have hsuccess := congrArg Response.status hpage
  obtain ⟨c, haccept⟩ := exists_accept_of_success hsuccess
  obtain rfl := hknows.eq_of_accept haccept
  have hdispatch : (memory m d).dispatch now limit .getEventRecords [k.number] =
      (memory m d, ⟨.success, (EventPage.ofLog (d.events.get k) (m.room limit)).toPayload⟩) :=
    (carries_getEventRecords k haccept).dispatch_of_success rfl hsuccess
  rw [hdispatch] at hpage ⊢
  exact ⟨rfl, (congrArg Response.payload hpage).symm⟩

/-- The host clears the oldest records by their handles. -/
theorem dispatch_clearEventRecords (hknows : m.Knows .clearEventRecords) {handles : List UInt16}
    (hlength : handles.length ≤ 255) {events : EventLogs}
    (hclear : d.events.clear? k handles = some events) (now : Nat) (limit : Option Nat) :
    (memory m d).dispatch now limit .clearEventRecords (EventClearance.request k handles) =
      (memory m { d with events }, ⟨.success, []⟩) := by
  have haccept : m.accept .clearEventRecords (EventClearance.request k handles) =
      .ok (.standard .clearEventRecords) :=
    hknows.accept_of_foreground rfl trivial fun _ => by decide
  have hread : DirectRequest.ofPayload .clearEventRecords (EventClearance.request k handles) =
      .ok (.memory (.clearEvents ⟨k, some handles⟩)) := by
    rw [DirectRequest.ofPayload, EventClearance.ofPayload_request k hlength]
    rfl
  have hserve : d.serve (m.conditions now (m.room limit)) (.clearEvents ⟨k, some handles⟩) =
      .ok ({ d with events }, {}) := by
    rw [MemoryDevice.serve, hclear]
  have hcarries : Carries m d now (m.room limit) .clearEventRecords
      (EventClearance.request k handles) (.clearEvents ⟨k, some handles⟩) { d with events } {} :=
    ⟨rfl, haccept, hread, hserve⟩
  exact hcarries.dispatch_of_fits rfl (Nat.zero_le _)

/-! ## Rounds -/

/-- The log has accepted the events `accepted`, of which the host has cleared `taken`. Those that it
holds are the oldest of the others. -/
structure Delivers (k : EventLog.Kind) (d : MemoryDevice) (taken : List StoredEvent)
    (held : Option (List Payload)) (consumed : List Payload) (accepted : List StoredEvent) :
    Prop where
  turn : (d.events.get k).InTurn accepted.length
  handles : accepted.map (·.handle) = (List.range accepted.length).map handleNumber
  split : accepted = taken ++ (d.events.get k).records
  consumed : consumed = taken.map (·.toPayload)
  held : ∀ records, held = some records →
    ∃ page, page <+: (d.events.get k).records ∧ records = page.map (·.toPayload)

variable {taken : List StoredEvent} {d' : MemoryDevice} {event? : Option StoredEvent}
  {records : List Payload}

theorem Delivers.getElem?_handle (h : Delivers k d taken held consumed accepted) {i : Nat}
    {event : StoredEvent} (hevent : accepted[i]? = some event) :
    event.handle.toNat = i % 65535 + 1 := by
  have hhandle : (accepted.map (·.handle))[i]? = some event.handle := by
    rw [List.getElem?_map, hevent]
    rfl
  exact toNat_of_numbered h.handles hhandle

/-- What the host holds stays at the front of the log. -/
theorem Delivers.other (h : Delivers k d taken held consumed accepted)
    (hgrows : (d.events.get k).Grows accepted.length (d'.events.get k) event?) :
    Delivers k d' taken held consumed (accepted ++ event?.toList) := by
  cases hgrows with
  | same hsame =>
    rw [Option.toList_none, List.append_nil]
    refine ⟨h.turn.of_sameRecords hsame, h.handles, ?_, h.consumed, ?_⟩
    · rw [hsame.records]
      exact h.split
    · rw [hsame.records]
      exact h.held
  | taken event hhandle hrecords hturn =>
    have hlength : (accepted ++ [event]).length = accepted.length + 1 := by
      rw [List.length_append, List.length_singleton]
    refine ⟨hlength ▸ hturn, ?_, ?_, h.consumed, ?_⟩
    · rw [Option.toList_some, hlength, List.range_succ, List.map_append, List.map_append, h.handles,
        List.map_singleton, hhandle, List.map_singleton]
    · rw [hrecords, Option.toList_some, ← List.append_assoc, ← h.split]
    · intro records hheld
      obtain ⟨page, hpage, rfl⟩ := h.held records hheld
      rw [hrecords]
      exact ⟨page, hpage.trans (List.prefix_append ..), rfl⟩

theorem Delivers.read (h : Delivers k d taken held consumed accepted) (room : Nat) :
    Delivers k d taken
      (some (recordsOf (EventPage.ofLog (d.events.get k) room).toPayload)) consumed accepted := by
  refine ⟨h.turn, h.handles, h.split, h.consumed, ?_⟩
  rintro _ ⟨⟩
  exact ⟨_, List.take_prefix .., recordsOf_ofLog room h.turn.length_le⟩

/-- The records that the host holds are cleared by their handles. -/
theorem Delivers.clear (h : Delivers k d taken (some records) consumed accepted) :
    (records.map handleOf).length ≤ 255 ∧
      ∃ events page, d.events.clear? k (records.map handleOf) = some events ∧
        Delivers k { d with events } (taken ++ page) none (consumed ++ records) accepted := by
  obtain ⟨page, hpage, rfl⟩ := h.held records rfl
  have hhandles : (page.map (·.toPayload)).map handleOf = page.map (·.handle) := by
    rw [List.map_map]
    exact List.map_congr_left fun event _ => event.handleOf_toPayload
  have hlength : (page.map (·.handle)).length ≤ 255 := by
    have hle := Nat.le_trans hpage.length_le h.turn.length_le
    rw [List.length_map]
    exact Nat.le_trans hle (by decide)
  obtain ⟨l, hclear, hrecords, hupcoming⟩ :=
    EventLog.exists_clear? (hpage.map (·.handle) : page.map (·.handle) <+: (d.events.get k).handles)
  rw [List.length_map] at hrecords
  have hsplit : (d.events.get k).records = page ++ l.records := by
    rw [hrecords]
    exact (List.prefix_iff_eq_append.mp hpage).symm
  rw [hhandles]
  refine ⟨hlength, d.events.set k l, page, ?_, ?_⟩
  · rw [EventLogs.clear?, hclear]
    rfl
  · refine ⟨?_, h.handles, ?_, ?_, nofun⟩
    · rw [EventLogs.get_set_self]
      exact h.turn.of_drop hrecords hupcoming
    · rw [EventLogs.get_set_self, List.append_assoc, ← hsplit]
      exact h.split
    · rw [h.consumed, List.map_append]

theorem delivers_new {c : MemoryConfig} {memory : Memory} (h : memoryDevice c memory = .ok e₀)
    (k : EventLog.Kind) : ∃ m d, e₀ = .memory m d ∧ Delivers k d [] none [] [] := by
  obtain ⟨commands, ledger, -, -, rfl⟩ := memoryDevice_eq_ok h
  have hempty : EventLogs.empty.get k = .empty := by cases k <;> rfl
  refine ⟨_, _, rfl, ?_, rfl, ?_, rfl, nofun⟩
  · exact hempty ▸ EventLog.inTurn_empty
  · exact (congrArg EventLog.records hempty).symm

/-- Every session of a new device keeps account of the events. -/
theorem Session.delivers {c : MemoryConfig} {memory : Memory}
    (hnew : memoryDevice c memory = .ok e₀) (h : Session e₀ k e held consumed accepted) :
    ∃ m d taken, e = .memory m d ∧ Delivers k d taken held consumed accepted := by
  induction h with
  | new =>
    obtain ⟨m, d, hreached, hdelivers⟩ := delivers_new hnew k
    exact ⟨m, d, [], hreached, hdelivers⟩
  | other e held consumed accepted op hsession hop ih =>
    obtain ⟨m, d, taken, rfl, hdelivers⟩ := ih
    obtain ⟨m', d', hstep, hgrows⟩ := grows_step (hsession.commands hnew) hdelivers.turn hop
    exact ⟨m', d', taken, hstep, hdelivers.other hgrows⟩
  | read e held consumed accepted now limit page hsession hpage ih =>
    obtain ⟨m, d, taken, rfl, hdelivers⟩ := ih
    obtain ⟨hsame, rfl⟩ := eq_of_getEventRecords (hsession.knows hnew (by decide)) hpage
    exact ⟨m, d, taken, hsame, hdelivers.read (m.room limit)⟩
  | clear e records consumed accepted now limit hsession ih =>
    obtain ⟨m, d, taken, rfl, hdelivers⟩ := ih
    obtain ⟨hlength, events, page, hclear, hnext⟩ := hdelivers.clear
    have hdispatch :=
      dispatch_clearEventRecords (hsession.knows hnew (by decide)) hlength hclear now limit
    exact ⟨m, _, taken ++ page, congrArg Prod.fst hdispatch, hnext⟩

/-- **A log delivers every event that it accepts exactly once and in order**, whatever else is
reported or asked for between the host's fetching some records and its clearing them. What the host
has cleared and what is stored are the events that the log has accepted, the handles count them, and
clearing the records that were fetched always succeeds. Only a full log turns events away, and
unless a sanitize is running, the host gets the oldest records, so it gets on. In every history, a
log keeps few records, gives out its handles in turn, and has nothing to do with the other
logs. -/
theorem events_delivered {c : MemoryConfig} {memory : Memory} (h : memoryDevice c memory = .ok e₀)
    (k : EventLog.Kind) :
    (∀ e held consumed accepted, Session e₀ k e held consumed accepted →
      ∃ m d taken, e = .memory m d ∧ accepted = taken ++ (d.events.get k).records ∧
        consumed = taken.map (·.toPayload) ∧
        (∀ i event, accepted[i]? = some event → event.handle.toNat = i % 65535 + 1) ∧
        (∀ now r, (e.insertEvent now k r).2.isSome = true ↔
          (d.events.get k).records.length < logCapacity) ∧
        (m.background.opcode? ≠ some .sanitize → ∀ now, ∃ page n, 0 < n ∧
          (e.dispatch now none .getEventRecords [k.number]).2 = ⟨.success, page⟩ ∧
          recordsOf page = ((d.events.get k).records.take n).map (·.toPayload)) ∧
        ∀ records, held = some records → ∀ now limit,
          (e.dispatch now limit .clearEventRecords
            (EventClearance.request k (records.map handleOf))).2 = ⟨.success, []⟩) ∧
      ∀ past : List EventLogs.Op,
        ((EventLogs.after past).get k).records.length ≤ logCapacity ∧
          (∀ i handle, (EventLogs.given k past)[i]? = some handle →
            handle.toNat = i % 65535 + 1) ∧
          ((EventLogs.after past).get k).handles.Nodup ∧
          0 ∉ ((EventLogs.after past).get k).handles ∧
          ∀ op : EventLogs.Op, k ≠ op.kind →
            (EventLogs.after (op :: past)).get k = (EventLogs.after past).get k := by
  refine ⟨fun e held consumed accepted hsession => ?_, EventLogs.orderly_after k⟩
  obtain ⟨m, d, taken, rfl, hdelivers⟩ := hsession.delivers h
  refine ⟨m, d, taken, rfl, hdelivers.split, hdelivers.consumed,
    fun _ _ => hdelivers.getElem?_handle, fun _ _ => EventLog.isSome_insert_iff,
    fun hsanitize now => ?_, ?_⟩
  · obtain ⟨⟨hroom, -⟩, hpayload, -⟩ := payloadMax_of_memoryDevice h
    have hmax : 256 ≤ m.payloadMax := by
      rw [← hpayload, ← hsession.sameTable.payloadMax] at hroom
      exact hroom
    have hknows : m.Knows .getEventRecords := hsession.knows h (by decide)
    refine ⟨_, min ((m.payloadMax - headerLength) / wireLength) 65535, ?_, ?_,
      recordsOf_ofLog m.payloadMax hdelivers.turn.length_le⟩
    · unfold headerLength wireLength
      omega
    · have hroom : headerLength ≤ m.room none := Nat.le_trans (by decide) hmax
      rw [dispatch_getEventRecords hknows d k hsanitize now none hroom]
      rfl
  · rintro records rfl now limit
    obtain ⟨hlength, events, page, hclear, -⟩ := hdelivers.clear
    have hknows : m.Knows .clearEventRecords := hsession.knows h (by decide)
    rw [dispatch_clearEventRecords hknows hlength hclear]

/-- The first two events of a log. -/
def fatalEvents : List StoredEvent := [⟨1, 0, {}⟩, ⟨2, 0, {}⟩]

/-- A device that has reported so many of them. -/
def reporting (n : Nat) : MemoryDevice :=
  { MemoryDevice.fresh with
    events := { fatal := ⟨fatalEvents.take n, handleNumber n, none, none⟩ } }

/-- The device reports the second event after the host has fetched the first one, and before the
host clears that. -/
theorem session_fatalEvents :
    Session newDevice .fatal (memory (.ofCommands memoryCommands 2048) (reporting 2))
      (some [toPayload ⟨1, 0, {}⟩]) [] fatalEvents := by
  have hnew : memoryDevice {} ({} : MemoryConfig).memory = .ok newDevice := rfl
  have hfirst : Session newDevice .fatal
      (memory (.ofCommands memoryCommands 2048) (reporting 1)) none [] (fatalEvents.take 1) :=
    .other newDevice none [] [] (.event 0 .fatal {}) .new (fun h => h)
  have hroom : headerLength ≤ (Mailbox.ofCommands memoryCommands 2048).room none := by decide
  have hknows : (Mailbox.ofCommands memoryCommands 2048).Knows .getEventRecords :=
    hfirst.knows hnew (by decide)
  have hdispatch := dispatch_getEventRecords hknows (reporting 1) .fatal nofun 0 none hroom
  have hread := Session.read _ none [] _ 0 none _ hfirst (congrArg Prod.snd hdispatch)
  rw [hdispatch, recordsOf_ofLog _ (by decide)] at hread
  exact .other _ _ [] _ (.event 0 .fatal {}) hread (fun h => h)

theorem events_delivered_fatal :
    memoryDevice {} ({} : MemoryConfig).memory = .ok newDevice ∧
      Session newDevice .fatal (memory (.ofCommands memoryCommands 2048) (reporting 2))
        (some [toPayload ⟨1, 0, {}⟩]) [] fatalEvents ∧
      ((memory (.ofCommands memoryCommands 2048) (reporting 2)).dispatch 0 none .clearEventRecords
        (EventClearance.request .fatal [1])).2 = ⟨.success, []⟩ ∧
      ∃ e, Session newDevice .fatal e none [toPayload ⟨1, 0, {}⟩] fatalEvents ∧
        ∃ m d, e = .memory m d ∧ d.events.fatal.records = [⟨2, 0, {}⟩] := by
  have hnew : memoryDevice {} ({} : MemoryConfig).memory = .ok newDevice := rfl
  have hsession := session_fatalEvents
  obtain ⟨hdelivered, -⟩ := events_delivered hnew .fatal
  have hhandles : [toPayload ⟨1, 0, {}⟩].map handleOf = [1] := by
    rw [List.map_singleton, handleOf_toPayload]
  obtain ⟨_, _, _, -, -, -, -, -, -, hclears⟩ := hdelivered _ _ _ _ hsession
  have hcleared := Session.clear _ _ _ _ 0 none hsession
  obtain ⟨m, d, taken, hreached, hsplit, hconsumed, -⟩ := hdelivered _ _ _ _ hcleared
  refine ⟨hnew, hsession, ?_, _, hcleared, m, d, hreached, ?_⟩
  · rw [← hhandles]
    exact hclears _ rfl 0 none
  · obtain ⟨event, rfl⟩ : ∃ event, taken = [event] := by
      refine List.length_eq_one_iff.mp ?_
      rw [← List.length_map, ← hconsumed]
      rfl
    exact (List.cons.inj hsplit).2.symm

end Endpoint

end CxlEndpoint
