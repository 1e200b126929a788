import CxlEndpoint.Proofs.Endpoint.PoisonHistory
import CxlEndpoint.Proofs.Endpoint.Stop

/-!
# Background operations end once

* `Silent`, `Ends`: what one operation does to a memory device when it reports no background
  operation as finished, and when it does.
* `BegunIn`: an operation in flight is what some answer said had been begun.
* `TicksThrough`: no look at the clock has stopped the program.
* `Accounts`: the operations that were begun are those that were ended, and then the one in flight.
  What was ended has been reported and has had its effect. `Accounts.step` keeps it.
* `accounts_after`: this holds in the course of every history of a new device.
-/

namespace CxlEndpoint

/-- From `d` to `d'` nothing is sanitized and no scan completed. -/
structure MemoryDevice.Quiet (d d' : MemoryDevice) : Prop where
  sanitizeCount : d'.memory.sanitizeCount = d.memory.sanitizeCount
  poison : d'.poison = d.poison ∨
    ∃ op : Poison.Op, op.completes = false ∧ d'.poison = d.poison.step op

theorem Memory.sanitizeCount_of_writeLine? {m n : Memory} {address : Nat} {data : CacheLine}
    (h : m.writeLine? address data = some n) : n.sanitizeCount = m.sanitizeCount := by
  rw [eq_of_writeLine? h]
  rfl

namespace MemoryDevice

variable {d d' : MemoryDevice} {c : Conditions} {request : MemoryRequest} {reply : Reply}

theorem Quiet.refl (d : MemoryDevice) : Quiet d d := ⟨rfl, Or.inl rfl⟩

theorem Serves.quiet (h : d.Serves c request d' reply) : Quiet d d' := by
  cases h with
  | told | events | ledger | labels | sanitizing => exact ⟨rfl, Or.inl rfl⟩
  | injected address poison hpoison =>
    refine ⟨rfl, Or.inr ⟨.inject address c.scanning, rfl, ?_⟩⟩
    rw [Poison.Store.step, hpoison]
    rfl
  | cleared address data memory hmemory =>
    exact ⟨Memory.sanitizeCount_of_writeLine? hmemory,
      Or.inr ⟨.clear (lineStart address) c.scanning c.time, rfl, rfl⟩⟩
  | scanning r length => exact ⟨rfl, Or.inr ⟨.beginScan r.start length c.time, rfl, rfl⟩⟩
  | results => exact ⟨rfl, Or.inr ⟨.takeResults (Poison.recordLimit c.room), rfl, rfl⟩⟩

end MemoryDevice

namespace Endpoint

variable {m m' : Mailbox} {d d' : MemoryDevice} {op : Op} {begun : Option Opcode} {now : Nat}
  {r : RunningOperation} {e : Endpoint} {memory : Memory} {past : List Op}

/-! ## One operation -/

/-- No background operation is reported as finished, and no effect of one is applied. -/
structure Silent (m : Mailbox) (d : MemoryDevice) (m' : Mailbox) (d' : MemoryDevice) : Prop where
  completions : m'.completions = m.completions
  device : d.Quiet d'

/-- The operation `r` is due when the clock reads `now`, and its runtime is over. It is reported
as finished, and its effect is applied. -/
structure Ends (m : Mailbox) (d : MemoryDevice) (now : Nat) (r : RunningOperation) (m' : Mailbox)
    (d' : MemoryDevice) : Prop where
  running : m.background.running = some r
  due : r.nextTick ≤ now
  elapsed : r.start + r.runtime ≤ now
  completions : m'.completions = m.completions.map (· ++ [r.opcode])
  idle : m'.background.running = none
  effect : d' = d.finish r.opcode

/-- What is in flight takes its time. -/
def Lasting (m : Mailbox) : Prop := ∀ r, m.background.running = some r → 0 < r.runtime

theorem Steps.silent_or_ends (h : Steps m d op begun m' d') (hlasting : Lasting m) :
    (Silent m d m' d' ∧
      m'.background.opcode?.toList = m.background.opcode?.toList ++ begun.toList) ∨
    (begun = none ∧ ∃ now r, op = .tick now ∧ Ends m d now r m' d') := by
  cases h with
  | idle | timeSet => exact Or.inl ⟨⟨rfl, .refl d⟩, (List.append_nil _).symm⟩
  | served _ _ _ _ _ _ _ hserves =>
    exact Or.inl ⟨⟨rfl, hserves.quiet⟩, (List.append_nil _).symm⟩
  | started _ _ op _ _ _ _ hserves hidle =>
    have hnone : m.background.opcode? = none := Background.opcode?_eq_none_iff.mpr hidle
    refine Or.inl ⟨⟨rfl, hserves.quiet⟩, ?_⟩
    rw [hnone]
    rfl
  | polled now percent r hrunning =>
    refine Or.inl ⟨⟨rfl, .refl d⟩, ?_⟩
    rw [Background.opcode?, Background.opcode?, hrunning]
    rfl
  | finished now r hrunning hdue hover =>
    have hpos := hlasting r hrunning
    exact Or.inr ⟨rfl, now, r, rfl, hrunning, hdue, by omega, rfl, rfl, rfl⟩
  | mediaError now start length kind =>
    exact Or.inl ⟨⟨rfl, rfl, Or.inr ⟨.mediaError start length kind (m.hostTime.now now), rfl, rfl⟩⟩,
      (List.append_nil _).symm⟩
  | event | provision => exact Or.inl ⟨⟨rfl, rfl, Or.inl rfl⟩, (List.append_nil _).symm⟩

/-- What ends an operation is a look at the clock that finds it over. -/
theorem Ends.endedBy?_eq (h : Ends m d now r m' d') :
    (Endpoint.memory m d).endedBy? (.tick now) = some r.opcode :=
  overAt?_eq_some_iff.mpr ⟨r, h.running, h.due, Nat.le_sub_of_add_le' h.elapsed, rfl⟩

/-- Whoever listens hears of every operation that is over. -/
theorem Silent.endedBy?_eq_none (h : Silent m d m' d') {done : List Opcode}
    (hlistens : m.completions = some done)
    (hstep : (Endpoint.memory m d).step op = .memory m' d') :
    (Endpoint.memory m d).endedBy? op = none := by
  cases hover : (Endpoint.memory m d).endedBy? op with
  | none => rfl
  | some o =>
    cases op with
    | tick now =>
      have htick : (Endpoint.memory m d).step (.tick now) = _ := tick_of_overAt? hover
      rw [hstep] at htick
      cases htick
      have hsame : m.completions.map (· ++ [o]) = m.completions := h.completions
      simp [hlistens] at hsame
    | request | mediaError | event | provision => cases hover

theorem Steps.lasting (h : Steps m d op begun m' d') (hlasting : Lasting m) : Lasting m' := by
  cases h with
  | idle | timeSet | served | mediaError | event | provision => exact hlasting
  | started now limit op p request d' runtime hserves =>
    rintro r hr
    cases hr
    exact (hserves.of_background rfl).2.2
  | polled now percent r hrunning =>
    rintro r' hr'
    cases hr'
    exact hlasting r hrunning
  | finished => nofun

/-! ## The start of an operation -/

/-- In the course of `past`, an answer said that `r` had been begun, at the time that `r` has for
its start. -/
def BegunIn (e : Endpoint) (past : List Op) (r : RunningOperation) : Prop :=
  ∃ limit p before, .request r.start limit r.opcode p :: before <:+ past ∧
    ((e.after before).dispatch r.start limit r.opcode p).2.status = .backgroundStarted ∧
    (e.after (.request r.start limit r.opcode p :: before)).mailbox.background =
      .start r.opcode r.start r.runtime

theorem BegunIn.cons (h : e.BegunIn past r) (op : Op) : e.BegunIn (op :: past) r := by
  obtain ⟨limit, p, before, hsuffix, hbegun⟩ := h
  exact ⟨limit, p, before, hsuffix.trans (List.suffix_cons op past), hbegun⟩

theorem Steps.begunIn (h : Steps m d op ((e.after past).begun op) m' d')
    (hafter : e.after (op :: past) = .memory m' d')
    (hbegun : ∀ r, m.background.running = some r → e.BegunIn past r)
    (hr : m'.background.running = some r) : e.BegunIn (op :: past) r := by
  generalize hop : (e.after past).begun op = started at h
  cases h with
  | idle | timeSet | served | mediaError | event | provision => exact (hbegun r hr).cons _
  | started now limit op p request d' runtime =>
    cases hr
    refine ⟨limit, p, past, List.suffix_refl _, ?_, ?_⟩
    · by_cases hstatus : ((e.after past).dispatch now limit op p).2.status = .backgroundStarted
      · exact hstatus
      · rw [Endpoint.begun, if_neg hstatus] at hop
        cases hop
    · rw [hafter]
      rfl
  | polled now percent r' hrunning =>
    -- the start of the operation is what it was; only its next update is another one
    cases hr
    obtain ⟨limit, p, before, hsuffix, hstart⟩ := hbegun r' hrunning
    exact ⟨limit, p, before, hsuffix.trans (List.suffix_cons _ past), hstart⟩
  | finished => cases hr

/-! ## Accounts -/

/-- No look at the clock has stopped the program in the course of `past`. -/
def TicksThrough (e : Endpoint) (past : List Op) : Prop :=
  ∀ now before, .tick now :: before <:+ past → (e.after before).stopsOnTick now = false

theorem ticksThrough_cons_iff :
    e.TicksThrough (op :: past) ↔
      e.TicksThrough past ∧ ∀ now, op = .tick now → (e.after past).stopsOnTick now = false := by
  constructor
  · refine fun h => ⟨fun now before hsuffix => ?_, fun now hop => ?_⟩
    · exact h now before (hsuffix.trans (List.suffix_cons op past))
    · exact h now past (hop ▸ List.suffix_refl _)
  · rintro ⟨hpast, hop⟩ now before hsuffix
    rcases List.suffix_cons_iff.mp hsuffix with heq | hsuffix
    · obtain ⟨rfl, rfl⟩ := List.cons.inj heq
      exact hop now rfl
    · exact hpast now before hsuffix

/-- What the device has reported by now, and what it has done: `e` was the endpoint at first, and
`memory` its memory. -/
structure Accounts (e : Endpoint) (memory : Memory) (past : List Op) (m : Mailbox)
    (d : MemoryDevice) : Prop where
  reached : e.after past = .memory m d
  commands : m.HasMemoryCommands
  completions : m.completions = some (e.ended past)
  started : e.started past = e.ended past ++ m.background.opcode?.toList
  sanitized : d.memory.sanitizeCount =
    (memory.sanitizeCount + (e.ended past).count .sanitize) % (1 <<< 32)
  /-- The program stops rather than count beyond the greatest number. -/
  through_iff : e.TicksThrough past ↔
    memory.sanitizeCount + (e.ended past).count .sanitize ≤ Word.last32
  poison : d.poison = .after (e.poisonOps past)
  lasting : Lasting m
  begun : ∀ r, m.background.running = some r → e.BegunIn past r

theorem count_concat (done : List Opcode) (op op' : Opcode) :
    (done ++ [op]).count op' = done.count op' + if op = op' then 1 else 0 := by
  rw [List.count_append, List.count_singleton]
  simp

theorem sanitizeCount_finish (d : MemoryDevice) (op : Opcode) :
    (d.finish op).memory.sanitizeCount =
      (d.memory.sanitizeCount + if op = .sanitize then 1 else 0) % (1 <<< 32) := by
  rw [MemoryDevice.memory_finish]
  split
  · exact Memory.sanitizeCount_sanitize _
  · exact (Nat.mod_eq_of_lt d.memory.sanitizes.toNat_lt).symm

namespace Accounts

/-- As long as the program gets through, no sanitize is lost. -/
theorem sanitizeCount_eq (h : Accounts e memory past m d) (hthrough : e.TicksThrough past) :
    d.memory.sanitizeCount = memory.sanitizeCount + (e.ended past).count .sanitize := by
  rw [h.sanitized]
  exact Nat.mod_eq_of_lt (Nat.lt_succ_of_le (h.through_iff.mp hthrough))

theorem of_silent (h : Accounts e memory past m d)
    (hreached : e.after (op :: past) = .memory m' d')
    (hstep : Steps m d op ((e.after past).begun op) m' d') (hsilent : Silent m d m' d')
    (hopcode : m'.background.opcode?.toList =
      m.background.opcode?.toList ++ ((e.after past).begun op).toList)
    (hover : (Endpoint.memory m d).endedBy? op = none) :
    Accounts e memory (op :: past) m' d' := by
  have hended : e.ended (op :: past) = e.ended past := by
    rw [Endpoint.ended, h.reached, hover]
    exact List.append_nil _
  refine ⟨hreached, hstep.hasMemoryCommands h.commands, ?_, ?_, ?_, ?_,
    poison_cons h.commands h.reached h.poison hreached, hstep.lasting h.lasting,
    fun r hr => hstep.begunIn hreached h.begun hr⟩
  · rw [hsilent.completions, h.completions, hended]
  · rw [Endpoint.started, h.started, hopcode, hended, List.append_assoc]
  · rw [hsilent.device.sanitizeCount, h.sanitized, hended]
  · rw [ticksThrough_cons_iff, hended, h.through_iff, h.reached]
    refine and_iff_left fun now hop => ?_
    subst hop
    have hnothing : (Endpoint.memory m d).overAt? now = none := hover
    rw [← Bool.not_eq_true, stopsOnTick_iff, hnothing]
    exact fun hstops => Option.some_ne_none _ hstops.1.symm

/-- A sanitize that ends stops the program if there is no number left for it. -/
theorem through_iff_of_ends (h : Accounts e memory past m d) (hends : Ends m d now r m' d') :
    e.TicksThrough (.tick now :: past) ↔
      memory.sanitizeCount +
        ((e.ended past).count .sanitize + if r.opcode = .sanitize then 1 else 0) ≤
          Word.last32 := by
  have hover : (Endpoint.memory m d).overAt? now = some r.opcode := hends.endedBy?_eq
  have hstops : (e.after past).stopsOnTick now = true ↔
      r.opcode = .sanitize ∧ Word.last32 ≤ d.memory.sanitizeCount := by
    rw [h.reached, stopsOnTick_iff, hover, Option.some_inj]
  rw [ticksThrough_cons_iff, h.through_iff]
  constructor
  · rintro ⟨hpast, hgoes⟩
    split
    next hsanitize =>
      have hroom : ¬ Word.last32 ≤ d.memory.sanitizeCount := fun hfull =>
        absurd (hstops.mpr ⟨hsanitize, hfull⟩) (by simp [hgoes now rfl])
      rw [h.sanitizeCount_eq (h.through_iff.mpr hpast)] at hroom
      omega
    next => exact hpast
  · intro hle
    have hpast : memory.sanitizeCount + (e.ended past).count .sanitize ≤ Word.last32 := by omega
    refine ⟨hpast, ?_⟩
    rintro _ ⟨⟩
    rw [← Bool.not_eq_true, hstops, h.sanitizeCount_eq (h.through_iff.mpr hpast)]
    rintro ⟨hsanitize, hfull⟩
    rw [if_pos hsanitize] at hle
    omega

theorem of_ends (h : Accounts e memory past m d)
    (hreached : e.after (.tick now :: past) = .memory m' d')
    (hstep : Steps m d (.tick now) none m' d') (hends : Ends m d now r m' d') :
    Accounts e memory (.tick now :: past) m' d' := by
  have hended : e.ended (.tick now :: past) = e.ended past ++ [r.opcode] := by
    rw [Endpoint.ended, h.reached, hends.endedBy?_eq]
    rfl
  refine ⟨hreached, hstep.hasMemoryCommands h.commands, ?_, ?_, ?_, ?_,
    poison_cons h.commands h.reached h.poison hreached, hstep.lasting h.lasting,
    fun r hr => hstep.begunIn hreached h.begun hr⟩
  · rw [hends.completions, h.completions, hended]
    rfl
  · rw [Endpoint.started, h.started, hended, Background.opcode?, Background.opcode?, hends.running,
      hends.idle]
    simp [Endpoint.begun]
  · rw [hends.effect, sanitizeCount_finish, h.sanitized, Nat.mod_add_mod, hended, count_concat,
      Nat.add_assoc]
  · rw [hended, count_concat]
    exact h.through_iff_of_ends hends

theorem step (h : Accounts e memory past m d) (op : Op) :
    ∃ m' d', Accounts e memory (op :: past) m' d' ∧
      ((Endpoint.memory m d).endedBy? op = none ∧ Silent m d m' d' ∨
        ∃ now r, op = .tick now ∧ (Endpoint.memory m d).endedBy? op = some r.opcode ∧
          Ends m d now r m' d') := by
  obtain ⟨m', d', hstep, hsteps⟩ := steps_step h.commands d op
  have hreached : e.after (op :: past) = .memory m' d' := by rw [after, h.reached, hstep]
  rcases hsteps.silent_or_ends h.lasting with ⟨hsilent, hopcode⟩ | ⟨hbegun, now, r, rfl, hends⟩
  · have hover := hsilent.endedBy?_eq_none h.completions hstep
    rw [← h.reached] at hsteps hopcode
    exact ⟨m', d', h.of_silent hreached hsteps hsilent hopcode hover, Or.inl ⟨hover, hsilent⟩⟩
  · exact ⟨m', d', h.of_ends hreached hsteps hends,
      Or.inr ⟨now, r, rfl, hends.endedBy?_eq, hends⟩⟩

end Accounts

theorem accounts_listen {c : MemoryConfig} (h : memoryDevice c memory = .ok e) :
    ∃ m d, Accounts e.listen memory [] m d := by
  obtain ⟨m, d, rfl, hcommands, hidle, rfl, hpoison⟩ := exists_memory h
  have hrunning : m.background.running = none := by rw [hidle]; rfl
  have hcount : d.memory.sanitizeCount < 1 <<< 32 := d.memory.sanitizes.toNat_lt
  refine ⟨{ m with completions := some [] }, d, rfl, hcommands, rfl, ?_,
    (Nat.mod_eq_of_lt hcount).symm, ?_, hpoison, ?_, ?_⟩
  · show [] = [] ++ (m.background.running.map (·.opcode)).toList
    rw [hrunning]
    rfl
  · exact iff_of_true (fun now before hsuffix => absurd hsuffix (by simp)) d.memory.sanitizeCount_le
  · intro r hr
    exact absurd (hrunning.symm.trans hr) nofun
  · intro r hr
    exact absurd (hrunning.symm.trans hr) nofun

theorem accounts_after {c : MemoryConfig} (h : memoryDevice c memory = .ok e) (past : List Op) :
    ∃ m d, Accounts e.listen memory past m d := by
  induction past with
  | nil => exact accounts_listen h
  | cons op past ih =>
    obtain ⟨m, d, haccounts⟩ := ih
    obtain ⟨m', d', haccounts', -⟩ := haccounts.step op
    exact ⟨m', d', haccounts'⟩

/-- **Every background operation is reported once, when it is over.** The operations that were
begun are those that were ended, in order, and then the one in flight. Those that were ended were
reported. An operation is ended by a look at the clock that finds it over, not before it is due and
not before its runtime has passed, and its effect is applied then and only then: each sanitize is
counted, as far as the count goes, and the poison list takes in one completed scan for each scan
that was reported. -/
theorem completions_after {c : MemoryConfig} (h : memoryDevice c memory = .ok e)
    (past : List Op) :
    ∃ m d, e.listen.after past = .memory m d ∧ m.completions = some (e.listen.ended past) ∧
      e.listen.started past = e.listen.ended past ++ m.background.opcode?.toList ∧
      d.memory.sanitizeCount =
        (memory.sanitizeCount + (e.listen.ended past).count .sanitize) % (1 <<< 32) ∧
      (e.listen.TicksThrough past ↔
        memory.sanitizeCount + (e.listen.ended past).count .sanitize ≤ Word.last32) ∧
      (e.listen.TicksThrough past →
        d.memory.sanitizeCount = memory.sanitizeCount + (e.listen.ended past).count .sanitize) ∧
      d.poison = .after (e.listen.poisonOps past) ∧
      (e.listen.poisonOps past).countP (·.completes) = (e.listen.ended past).count .scanMedia ∧
      ∀ op, ∃ m' d', e.listen.after (op :: past) = .memory m' d' ∧
        ((Endpoint.memory m d).endedBy? op = none ∧ Silent m d m' d' ∨
          ∃ now r, op = .tick now ∧ (Endpoint.memory m d).endedBy? op = some r.opcode ∧
            Ends m d now r m' d' ∧ e.listen.BegunIn past r) := by
  obtain ⟨m, d, haccounts⟩ := accounts_after h past
  refine ⟨m, d, haccounts.reached, haccounts.completions, haccounts.started, haccounts.sanitized,
    haccounts.through_iff, haccounts.sanitizeCount_eq, haccounts.poison, completes_poisonOps ..,
    fun op => ?_⟩
  obtain ⟨m', d', haccounts', hstep⟩ := haccounts.step op
  refine ⟨m', d', haccounts'.reached, hstep.imp_right ?_⟩
  rintro ⟨now, r, hop, hover, hends⟩
  exact ⟨now, r, hop, hover, hends, haccounts.begun r hends.running⟩

/-- A new memory device. -/
def newDevice : Endpoint := .memory (.ofCommands memoryCommands 2048) .fresh

/-- A scan of one line, a look at the clock before it is due, one when it is over, and another
one. -/
def scanHistory : List Op :=
  [.tick 5000, .tick 3000, .tick 500,
    .request 0 none .scanMedia (littleEndian 8 0 ++ littleEndian 8 1 ++ [0])]

theorem after_scanHistory :
    ∃ m d, newDevice.listen.after scanHistory = .memory m d ∧
      m.completions = some [.scanMedia] ∧ m.background.running = none := by
  have hread : Request.ofPayload .scanMedia (littleEndian 8 0 ++ littleEndian 8 1 ++ [0]) =
      .ok (.direct (.memory (.scan ⟨0, 1⟩))) := rfl
  have hstarted : newDevice.listen.dispatch 0 none .scanMedia
      (littleEndian 8 0 ++ littleEndian 8 1 ++ [0]) = _ :=
    dispatch_of_direct (c := .standard .scanMedia) rfl rfl hread
  simp only [scanHistory, after, step, hstarted]
  exact ⟨_, _, rfl, rfl, rfl⟩

theorem completions_after_scan :
    memoryDevice {} ({} : MemoryConfig).memory = .ok newDevice ∧
      newDevice.listen.started scanHistory = [.scanMedia] ∧
      newDevice.listen.ended scanHistory = [.scanMedia] ∧
      newDevice.listen.TicksThrough scanHistory ∧
      (newDevice.listen.poisonOps scanHistory).countP (·.completes) = 1 ∧
      ∃ m d, newDevice.listen.after scanHistory = .memory m d ∧
        m.completions = some [.scanMedia] ∧ d.memory.sanitizeCount = 0 ∧
        d.poison = .after (newDevice.listen.poisonOps scanHistory) := by
  have hnew : memoryDevice {} ({} : MemoryConfig).memory = .ok newDevice := rfl
  obtain ⟨m, d, hafter, hdone, hstarted, -, hthrough, hsanitized, hpoison, hscans, -⟩ :=
    completions_after hnew scanHistory
  obtain ⟨m', d', hafter', hcompletions, hidle⟩ := after_scanHistory
  obtain ⟨rfl, rfl⟩ := Endpoint.memory.inj (hafter.symm.trans hafter')
  have hended : newDevice.listen.ended scanHistory = [.scanMedia] :=
    Option.some.inj (hdone.symm.trans hcompletions)
  rw [hended] at hdone hstarted hthrough hsanitized hscans
  rw [Background.opcode?, hidle] at hstarted
  have hgoes : newDevice.listen.TicksThrough scanHistory := hthrough.mpr (by decide)
  exact ⟨hnew, hstarted, hended, hgoes, hscans, m, d, hafter, hdone, hsanitized hgoes, hpoison⟩

end Endpoint

end CxlEndpoint
