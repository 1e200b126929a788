import CxlEndpoint.Endpoint.Tick
import CxlEndpoint.Proofs.Endpoint.MemoryDevice

/-!
# Histories of a memory device

* `Op`, `step`: a request, a look at the clock, or something that the device itself reports. Each
  comes with a clock reading of its own, so the clock may stand still or go backwards. `after` is
  the endpoint after a list of them, of which the latest comes first.
* `begun`, `started`: the background operations that were begun. `endedBy?`, `ended`: those that a
  look at the clock has ended.
* `Steps`: what one operation makes of a memory device, one case for each part that can change.
  `steps_step` says that there are no others.
* `exists_after`, `exists_after_of_steps`: from one operation to a history of them.
* `sameTable_step`, `sameTable_after`: nothing that happens to an endpoint of any kind changes which
  commands there are, so a memory device keeps its own (`knows_after`).
-/

namespace CxlEndpoint.Endpoint

/-- Something that happens to an endpoint. -/
inductive Op where
  | request (now : Nat) (limit : Option Nat) (op : Opcode) (p : Payload)
  | tick (now : Nat)
  | mediaError (now start length : Nat) (kind : Poison.Kind)
  | event (now : Nat) (log : EventLog.Kind) (r : EventRecord)
  | provision (extent : Extent)

/-- The endpoint after one more operation. A report that it cannot take changes nothing. -/
def step (e : Endpoint) : Op → Endpoint
  | .request now limit op p => (e.dispatch now limit op p).1
  | .tick now => e.tick now
  | .mediaError now start length kind => (e.recordMediaError? now start length kind).getD e
  | .event now log r => (e.insertEvent now log r).1
  | .provision extent =>
    match e.provision extent with
    | .ok e => e
    | .error _ => e

/-- The endpoint after the operations `past`, of which the latest comes first. -/
def after (e : Endpoint) : List Op → Endpoint
  | [] => e
  | op :: past => (e.after past).step op

/-- The background operation that the answer to `op` says has been begun. -/
def begun (e : Endpoint) : Op → Option Opcode
  | .request now limit op p =>
    if (e.dispatch now limit op p).2.status = .backgroundStarted then some op else none
  | _ => none

/-- The background operations that were begun in the course of `past`, the first one first. -/
def started (e : Endpoint) : List Op → List Opcode
  | [] => []
  | op :: past => e.started past ++ ((e.after past).begun op).toList

/-- The background operation that `op` ends. -/
def endedBy? (e : Endpoint) : Op → Option Opcode
  | .tick now => e.overAt? now
  | _ => none

/-- The background operations that were ended in the course of `past`, the first one first. -/
def ended (e : Endpoint) : List Op → List Opcode
  | [] => []
  | op :: past => e.ended past ++ ((e.after past).endedBy? op).toList

/-- `Steps m d op begun m' d'`: a memory device with mailbox `m` and state `d` has become `m'` and
`d'` by `op`, which has begun the background operation `begun`. -/
inductive Steps (m : Mailbox) (d : MemoryDevice) :
    Op → (begun : Option Opcode) → Mailbox → MemoryDevice → Prop
  | idle (op : Op) : Steps m d op none m d
  | timeSet (now : Nat) (limit : Option Nat) (op : Opcode) (p : Payload) (host : Timestamp) :
    Steps m d (.request now limit op p) none { m with hostTime := .set host now } d
  | served (now : Nat) (limit : Option Nat) (op : Opcode) (p : Payload) (request : MemoryRequest)
    (d' : MemoryDevice) (reply : Reply)
    (h : d.Serves (m.conditions now (m.room limit)) request d' reply)
    (hdone : reply.completion = .done) :
    Steps m d (.request now limit op p) none m d'
  | started (now : Nat) (limit : Option Nat) (op : Opcode) (p : Payload) (request : MemoryRequest)
    (d' : MemoryDevice) (runtime : Nat)
    (h : d.Serves (m.conditions now (m.room limit)) request d'
      { completion := .background runtime })
    (hidle : m.background.isRunning = false) :
    Steps m d (.request now limit op p) (some op)
      { m with background := .start op now runtime } d'
  /-- The background operation has made progress. -/
  | polled (now percent : Nat) (r : RunningOperation) (hrunning : m.background.running = some r)
    (hdue : r.nextTick ≤ now) :
    Steps m d (.tick now) none
      { m with
        background := ⟨some { r with nextTick := Word.addSat now tickInterval }, percent⟩ } d
  /-- The background operation is over. -/
  | finished (now : Nat) (r : RunningOperation) (hrunning : m.background.running = some r)
    (hdue : r.nextTick ≤ now) (hover : r.runtime ≤ now - r.start) :
    Steps m d (.tick now) none (Mailbox.notify { m with background := ⟨none, 100⟩ } r.opcode)
      (d.finish r.opcode)
  | mediaError (now start length : Nat) (kind : Poison.Kind) :
    Steps m d (.mediaError now start length kind) none m
      { d with poison := d.poison.recordMediaError start length kind (m.hostTime.now now) }
  | event (now : Nat) (log : EventLog.Kind) (r : EventRecord) (events : EventLogs) :
    Steps m d (.event now log r) none m { d with events }
  | provision (extent : Extent) (ledger : Ledger) (h : d.ledger.provision extent = .ok ledger) :
    Steps m d (.provision extent) none m { d with ledger }

variable {m : Mailbox} {d : MemoryDevice}

theorem steps_request (h : m.HasMemoryCommands) (d : MemoryDevice) (now : Nat) (limit : Option Nat)
    (op : Opcode) (p : Payload) :
    ∃ m' d', (memory m d).step (.request now limit op p) = memory m' d' ∧
      Steps m d (.request now limit op p) ((memory m d).begun (.request now limit op p)) m' d' := by
  have hanswers := answers_dispatch h d now limit op p
  simp only [step, begun]
  generalize (memory m d).dispatch now limit op p = answer at *
  obtain ⟨e, response⟩ := answer
  cases hanswers with
  | refused s hs =>
    have hstatus : s ≠ .backgroundStarted := by
      rintro rfl
      cases hs
    refine ⟨m, d, rfl, ?_⟩
    rw [if_neg hstatus]
    exact .idle _
  | told payload => exact ⟨m, d, rfl, .idle _⟩
  | timeSet host => exact ⟨_, d, rfl, .timeSet now limit op p host⟩
  | served request d' reply hserves hdone =>
    exact ⟨m, d', rfl, .served now limit op p request d' reply hserves hdone⟩
  | started request d' runtime hserves hidle =>
    exact ⟨_, d', rfl, .started now limit op p request d' runtime hserves hidle⟩

theorem steps_tick (m : Mailbox) (d : MemoryDevice) (now : Nat) :
    ∃ m' d', (memory m d).tick now = memory m' d' ∧ Steps m d (.tick now) none m' d' := by
  cases hrunning : m.background.running with
  | none => exact ⟨m, d, tick_of_idle hrunning, .idle _⟩
  | some r =>
    rcases Nat.lt_or_ge now r.nextTick with hearly | hdue
    · exact ⟨m, d, tick_of_early hrunning hearly, .idle _⟩
    · rcases Nat.lt_or_ge (now - r.start) r.runtime with hlasting | hover
      · exact ⟨_, d, tick_of_lasting hrunning hdue hlasting, .polled now _ r hrunning hdue⟩
      · exact ⟨_, _, tick_of_over hrunning hdue hover, .finished now r hrunning hdue hover⟩

/-- Nothing else happens to a memory device. -/
theorem steps_step (h : m.HasMemoryCommands) (d : MemoryDevice) (op : Op) :
    ∃ m' d', (memory m d).step op = memory m' d' ∧
      Steps m d op ((memory m d).begun op) m' d' := by
  cases op with
  | request now limit op p => exact steps_request h d now limit op p
  | tick now => exact steps_tick m d now
  | mediaError now start length kind => exact ⟨m, _, rfl, .mediaError now start length kind⟩
  | event now log r => exact ⟨m, _, rfl, .event now log r _⟩
  | provision extent =>
    cases hprovision : d.ledger.provision extent with
    | error refusal =>
      refine ⟨m, d, ?_, .idle _⟩
      rw [step, Endpoint.provision, MemoryDevice.withLedger.eq_def, hprovision]
    | ok ledger =>
      refine ⟨m, { d with ledger }, ?_, .provision extent ledger hprovision⟩
      rw [step, Endpoint.provision, MemoryDevice.withLedger.eq_def, hprovision]

/-- The commands of the mailbox stay. -/
theorem Steps.hasMemoryCommands {op : Op} {begun : Option Opcode} {m' : Mailbox}
    {d' : MemoryDevice} (hstep : Steps m d op begun m' d') (h : m.HasMemoryCommands) :
    m'.HasMemoryCommands := by
  cases hstep <;> exact h

/-- What every operation keeps holds in the course of every history. -/
theorem exists_after {I : Mailbox → MemoryDevice → Prop} {e : Endpoint}
    (hnew : ∃ m d, e = memory m d ∧ m.HasMemoryCommands ∧ I m d)
    (hstep : ∀ m d op m' d', m.HasMemoryCommands → I m d → (memory m d).step op = memory m' d' →
      I m' d')
    (past : List Op) : ∃ m d, e.after past = memory m d ∧ m.HasMemoryCommands ∧ I m d := by
  induction past with
  | nil => exact hnew
  | cons op past ih =>
    obtain ⟨m, d, hreached, hcommands, hinv⟩ := ih
    obtain ⟨m', d', hafter, hsteps⟩ := steps_step hcommands d op
    refine ⟨m', d', ?_, hsteps.hasMemoryCommands hcommands,
      hstep m d op m' d' hcommands hinv hafter⟩
    rw [after, hreached, hafter]

/-- It is enough to look at each part that can change. -/
theorem exists_after_of_steps {I : Mailbox → MemoryDevice → Prop} {e : Endpoint}
    (hnew : ∃ m d, e = memory m d ∧ m.HasMemoryCommands ∧ I m d)
    (hstep : ∀ m d op begun m' d', I m d → Steps m d op begun m' d' → I m' d')
    (past : List Op) : ∃ m d, e.after past = memory m d ∧ m.HasMemoryCommands ∧ I m d := by
  refine exists_after hnew (fun m d op m' d' hcommands hinv hafter => ?_) past
  obtain ⟨m₁, d₁, hafter₁, hsteps⟩ := steps_step hcommands d op
  rw [hafter] at hafter₁
  cases hafter₁
  exact hstep m d op _ m' d' hinv hsteps

/-! ## Commands and the size of messages -/

theorem sameTable_finish (e : Endpoint) (op : Opcode) : SameTable e (e.finish op) := by
  cases e <;> exact ⟨rfl, rfl⟩

theorem sameTable_tick (e : Endpoint) (now : Nat) : SameTable e (e.tick now) := by
  have hpolled (background : Background) :
      SameTable e (e.withMailbox { e.mailbox with background }) :=
    sameTable_withMailbox rfl rfl
  cases hrunning : e.mailbox.background.running with
  | none =>
    rw [tick_of_idle hrunning]
    exact .refl e
  | some r =>
    rcases Nat.lt_or_ge now r.nextTick with hearly | hdue
    · rw [tick_of_early hrunning hearly]
      exact .refl e
    · rcases Nat.lt_or_ge (now - r.start) r.runtime with hlasting | hover
      · rw [tick_of_lasting hrunning hdue hlasting]
        exact hpolled _
      · rw [tick_of_over hrunning hdue hover]
        exact (hpolled _).trans (sameTable_finish ..)

theorem sameTable_step (e : Endpoint) (op : Op) : SameTable e (e.step op) := by
  cases op with
  | request now limit op p => exact sameTable_dispatch e now limit op p
  | tick now => exact sameTable_tick e now
  | mediaError now start length kind => cases e <;> exact ⟨rfl, rfl⟩
  | event now log r => cases e <;> exact ⟨rfl, rfl⟩
  | provision extent =>
    cases e with
    | memory m d =>
      simp only [step, provision]
      cases d.withLedger (d.ledger.provision extent) <;> exact ⟨rfl, rfl⟩
    | identity | switch => exact .refl _

theorem sameTable_listen (e : Endpoint) : SameTable e e.listen := sameTable_withMailbox rfl rfl

theorem sameTable_after (e : Endpoint) (past : List Op) : SameTable e (e.after past) := by
  induction past with
  | nil => exact .refl e
  | cons op past ih => exact ih.trans (sameTable_step ..)

variable {e e' : Endpoint} {command : StandardCommand}

theorem SameTable.knows (h : SameTable e e') (hknows : e.mailbox.Knows command) :
    e'.mailbox.Knows command := by
  rw [Mailbox.Knows, h.commands]
  exact hknows

/-- A new memory device has all commands of memory devices but those for dynamic capacity. -/
theorem knows_memoryDevice {c : MemoryConfig} {memory : Memory} (h : memoryDevice c memory = .ok e)
    (hcommand : command.opcode ∈ memoryCommands.map (·.opcode)) : e.mailbox.Knows command := by
  obtain ⟨commands, ledger, hcommands, -, rfl⟩ := memoryDevice_eq_ok h
  exact Mailbox.knows_ofCommands hcommands hcommand c.payloadMax

/-- It keeps them in the course of every history. -/
theorem knows_after {c : MemoryConfig} {media : Memory} {past : List Op} {m : Mailbox}
    {d : MemoryDevice} (hnew : memoryDevice c media = .ok e) (hreached : e.after past = memory m d)
    (hcommand : command.opcode ∈ memoryCommands.map (·.opcode)) : m.Knows command := by
  have hafter := (sameTable_after e past).knows (knows_memoryDevice hnew hcommand)
  rwa [hreached] at hafter

/-- A history adds no other commands. -/
theorem hasMemoryCommands_after {c : MemoryConfig} {media : Memory} {past : List Op} {m : Mailbox}
    {d : MemoryDevice} (hnew : memoryDevice c media = .ok e)
    (hreached : e.after past = memory m d) : m.HasMemoryCommands := by
  obtain ⟨m₀, d₀, rfl, hcommands, -⟩ := exists_memory hnew
  have hsame := (sameTable_after (memory m₀ d₀) past).commands
  rw [hreached] at hsame
  exact fun command hcommand => hcommands command (hsame ▸ hcommand)

end CxlEndpoint.Endpoint
