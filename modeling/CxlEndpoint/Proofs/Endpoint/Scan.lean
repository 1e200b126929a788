import CxlEndpoint.Proofs.Endpoint.Completion

/-!
# While a scan is running

Until a scan is over, the list of poisoned lines is its own. The host is told of success all the
same, and the data that it writes is stored.

* `Scanning`: a scan has been begun, and nothing has been reported as finished since.
  `Accounts.opcode?_of_scanning` says that it is in flight then.
* `Steps.live_of_scanning`: only a media error changes the list meanwhile.
* `dispatch_injectPoison`, `dispatch_clearPoison`: what the host gets for poisoning or repairing a
  line.
* `status_scanResults`: there are results once a scan has been completed, and not before.
* `scan_window`: all of this in the course of every history of a new device.
-/

namespace CxlEndpoint

namespace Poison.Store

variable {s : Store} {past : List Op}

theorem clear_true (s : Store) (address : Nat) (now : Timestamp) :
    s.clear address true now = (s, false) := if_pos rfl

theorem scanned_step (s : Store) (op : Op) : (s.step op).scanned = (s.scanned || op.completes) := by
  cases op with
  | inject address frozen =>
    show ((s.inject? address frozen).getD s).scanned = (s.scanned || false)
    unfold inject?
    split
    · simp
    · split <;> simp
  | clear address frozen now =>
    show (s.clear address frozen now).1.scanned = (s.scanned || false)
    cases frozen with
    | true => simp [clear_true]
    | false =>
      obtain ⟨-, heq⟩ | ⟨r, -, -, heq⟩ := clear_cases s address now
      · simp [heq]
      · rw [heq]
        split
        · simp
        · split <;> simp [markOverflow]
  | mediaError start length kind now =>
    show (s.recordMediaError start length kind now).scanned = (s.scanned || false)
    cases hr : mediaError? start length kind with
    | none => simp [recordMediaError_of_none hr]
    | some r => simp [recordMediaError_of_some hr]
  | beginScan start length now =>
    show (s.beginScan start length now).scanned = (s.scanned || false)
    simp [beginScan_eq, opened]
  | completeScan => exact (Bool.or_true _).symm
  | takeResults limit => exact (Bool.or_false _).symm

/-- A store has been scanned if a scan of it has been completed. -/
theorem scanned_after_iff : (after past).scanned = true ↔ 0 < past.countP (·.completes) := by
  induction past with
  | nil => decide
  | cons op past ih =>
    rw [after, scanned_step, Bool.or_eq_true, ih, List.countP_cons]
    cases op.completes <;> simp

end Poison.Store

namespace MemoryDevice

variable {d d' : MemoryDevice} {c : Conditions} {request : MemoryRequest} {reply : Reply}

/-- While a scan is running, nothing that is done at once changes the list of poisoned lines. -/
theorem Serves.live_of_scanning (h : d.Serves c request d' reply) (hscan : c.scanning = true)
    (hdone : reply.completion = .done) : d'.poison.live = d.poison.live := by
  cases h with
  | told | events | labels | results | ledger => rfl
  | injected address poison hpoison =>
    rw [hscan, Poison.Store.inject?_true] at hpoison
    rw [← Option.some.inj hpoison]
  | cleared address data memory =>
    rw [hscan, Poison.Store.clear_true]
  | scanning | sanitizing => cases hdone

end MemoryDevice

namespace Endpoint

variable {m m' : Mailbox} {d d' : MemoryDevice} {p : Payload} {limit : Option Nat} {now : Nat}
  {op : Op} {begun : Option Opcode} {e : Endpoint} {past before : List Op}

/-! ## What is done to the list -/

/-- While a scan is running, only a media error changes the list of poisoned lines. -/
theorem Steps.live_of_scanning (h : Steps m d op begun m' d')
    (hscan : m.background.opcode? = some .scanMedia) :
    d'.poison.live = d.poison.live ∨
      ∃ now start length kind, op = .mediaError now start length kind := by
  have hscanning : m.background.isRunningOp .scanMedia = true :=
    Background.isRunningOp_iff.mpr hscan
  cases h with
  | idle | timeSet | polled | event | provision => exact Or.inl rfl
  | mediaError now start length kind => exact Or.inr ⟨now, start, length, kind, rfl⟩
  | served _ _ _ _ _ _ _ hserves hdone =>
    exact Or.inl (hserves.live_of_scanning hscanning hdone)
  | started _ _ _ _ _ _ _ _ hidle =>
    rw [Background.opcode?_eq_none_iff.mpr hidle] at hscan
    cases hscan
  | finished now r hrunning =>
    rw [Background.opcode?, hrunning] at hscan
    have hopcode : r.opcode = .scanMedia := Option.some.inj hscan
    rw [hopcode]
    exact Or.inl rfl

/-- No sanitize is in the way. -/
theorem accept_of_scanning {command : StandardCommand} (hknows : m.Knows command)
    (hscan : m.background.opcode? = some .scanMedia)
    (hruns : (Command.standard command).runsInBackground = false)
    (hinput : command.input.Accepts p.length) :
    m.accept command.opcode p = .ok (.standard command) := by
  have hsanitize : m.background.isRunningOp .sanitize = false := by
    rw [Background.isRunningOp, hscan]
    rfl
  exact hknows.accept_of_foreground hruns hinput (by simp [hsanitize])

/-- While a scan is running, every request to poison a line succeeds and does nothing. -/
theorem dispatch_injectPoison (hknows : m.Knows .injectPoison)
    (hscan : m.background.opcode? = some .scanMedia) (hp : p.length = 8) :
    (memory m d).dispatch now limit .injectPoison p = (memory m d, ⟨.success, []⟩) := by
  have hread : DirectRequest.ofPayload .injectPoison p =
      .ok (.memory (.injectPoison (ofLittleEndian (p.take 8)))) := by
    rw [DirectRequest.ofPayload, Payload.word, if_pos (by omega)]
    rfl
  have hserve : d.serve (m.conditions now (m.room limit))
      (.injectPoison (ofLittleEndian (p.take 8))) = .ok (d, {}) := by
    rw [MemoryDevice.serve, Mailbox.conditions, Background.isRunningOp_iff.mpr hscan,
      Poison.Store.inject?_true]
  have hcarries : Carries m d now (m.room limit) .injectPoison p
      (.injectPoison (ofLittleEndian (p.take 8))) d {} :=
    ⟨rfl, accept_of_scanning hknows hscan rfl hp, hread, hserve⟩
  exact hcarries.dispatch_of_fits rfl (Nat.zero_le _)

theorem ofPayload_clearPoison (hp : p.length = 72) :
    ∃ data : CacheLine, data.toList = p.drop 8 ∧
      DirectRequest.ofPayload .clearPoison p =
        .ok (.memory (.clearPoison (ofLittleEndian (p.take 8)) data)) := by
  have hlength : ((p.drop 8).take lineBytes).length = lineBytes := by
    simp [lineBytes, hp]
  have hwhole : (p.drop 8).take lineBytes = p.drop 8 :=
    List.take_of_length_le (by simp [lineBytes, hp])
  refine ⟨⟨((p.drop 8).take lineBytes).toArray, by simpa using hlength⟩, hwhole, ?_⟩
  rw [DirectRequest.ofPayload, Payload.word, if_pos (by omega), Payload.bytes, dif_pos hlength]
  rfl

/-- A request to repair a line that succeeds has stored its data there, and nothing elsewhere. -/
theorem dispatch_clearPoison (hknows : m.Knows .clearPoison)
    (hsuccess : ((memory m d).dispatch now limit .clearPoison p).2.status = .success) :
    ∃ (data : CacheLine) (d' : MemoryDevice),
      ((memory m d).dispatch now limit .clearPoison p).1 = memory m d' ∧
        data.toList = p.drop 8 ∧
        ∀ a, d'.memory.line? a =
          if a = lineStart (ofLittleEndian (p.take 8)) then some data else d.memory.line? a := by
  obtain ⟨c, haccept⟩ := exists_accept_of_success hsuccess
  obtain rfl := hknows.eq_of_accept haccept
  obtain ⟨data, hdata, hread⟩ := ofPayload_clearPoison (hknows.accept_eq_ok_iff.mp haccept).1
  rcases refuses_or_carries d now limit (.clearPoison (ofLittleEndian (p.take 8)) data) haccept
    hread with ⟨s, -, hs, hrefused⟩ | ⟨d', reply, hcarries⟩
  · rw [show (memory m d).dispatch now limit .clearPoison p = _ from hrefused] at hsuccess
    rw [show s = .success from hsuccess] at hs
    cases hs
  · obtain ⟨written, hwritten, hd', rfl⟩ := MemoryDevice.serve_clearPoison_eq_ok hcarries.served
    refine ⟨data, d', ?_, hdata, fun a => ?_⟩
    · exact congrArg Prod.fst (hcarries.dispatch_of_fits rfl (Nat.zero_le _))
    · rw [hd', Memory.line?_of_writeLine? hwritten, (lineAligned_lineStart _).lineStart_eq]

/-- Asking for scan results is unsupported as long as no scan has been completed. -/
theorem status_scanResults (hknows : m.Knows .scanResults) :
    ((memory m d).dispatch now limit .scanResults []).2.status = .unsupported ↔
      d.poison.scanned = false := by
  have haccept : m.accept .scanResults [] = .ok (.standard .scanResults) :=
    hknows.accept_of_foreground rfl rfl fun _ => by decide
  have hread : DirectRequest.ofPayload .scanResults [] = .ok (.memory .scanResults) := rfl
  rcases refuses_or_carries d now limit .scanResults haccept hread with
    ⟨s, hserve, -, hrefused⟩ | ⟨d', reply, hcarries⟩
  · rw [show (memory m d).dispatch now limit .scanResults [] = _ from hrefused]
    simp only [MemoryDevice.serve] at hserve
    split at hserve <;> cases hserve
    next hscanned => exact iff_of_true rfl (Bool.not_eq_true _ ▸ hscanned)
  · rw [show (memory m d).dispatch now limit .scanResults [] = _ from hcarries.dispatch_eq]
    have hserve := hcarries.served
    simp only [MemoryDevice.serve] at hserve
    split at hserve
    next hscanned =>
      have hdone : reply.completion = .done := by cases hserve; rfl
      refine iff_of_false ?_ (by simp [hscanned])
      rcases status_settle_of_done hdone with hstatus | hstatus
      · rw [hstatus]
        decide
      · rw [hstatus]
        decide
    · cases hserve

/-! ## From the start of a scan to its end -/

/-- In the course of `past` a scan has been begun, and since then nothing has been reported as
finished. -/
def Scanning (e : Endpoint) (past : List Op) : Prop :=
  ∃ op before, op :: before <:+ past ∧ (e.after before).begun op = some .scanMedia ∧
    (e.after past).mailbox.completions = (e.after before).mailbox.completions

theorem isPrefix_started (h : before <:+ past) : e.started before <+: e.started past := by
  induction past with
  | nil =>
    obtain rfl := List.suffix_nil.mp h
    exact List.prefix_refl _
  | cons op past ih =>
    rcases List.suffix_cons_iff.mp h with rfl | h
    · exact List.prefix_refl _
    · exact (ih h).trans (List.prefix_append ..)

/-- The scan is in flight: it is the one operation that was begun and not reported. -/
theorem Accounts.opcode?_of_scanning {c : MemoryConfig} {memory : Memory}
    (hnew : memoryDevice c memory = .ok e) (h : Accounts e.listen memory past m d)
    (hscanning : e.listen.Scanning past) : m.background.opcode? = some .scanMedia := by
  obtain ⟨op, before, hsuffix, hbegun, hsame⟩ := hscanning
  obtain ⟨m₀, d₀, h₀⟩ := accounts_after hnew before
  have hended : e.listen.ended past = e.listen.ended before := by
    rw [h.reached, h₀.reached] at hsame
    exact Option.some.inj (h.completions.symm.trans (hsame.trans h₀.completions))
  have hbegins := isPrefix_started (e := e.listen) hsuffix
  rw [Endpoint.started, hbegun, h.started, h₀.started, hended, List.append_assoc,
    List.prefix_append_right_inj] at hbegins
  exact Option.mem_toList.mp (hbegins.subset (List.mem_append_right _ List.mem_cons_self))

/-- **A scan has the list of poisoned lines to itself** from the answer that it has begun to the
look at the clock that ends it. Only the device's own media errors change the list, every request
to poison a line succeeds all the same, unless it stops the program at the last line, and one to
repair a line that succeeds has stored its data. At any time, scan results are unsupported exactly
if no scan has been reported as finished. -/
theorem scan_window {c : MemoryConfig} {memory : Memory} (h : memoryDevice c memory = .ok e)
    (past : List Op) :
    ∃ m d done, e.listen.after past = .memory m d ∧ m.completions = some done ∧
      (∀ now limit, ((Endpoint.memory m d).dispatch now limit .scanResults []).2.status =
        .unsupported ↔ .scanMedia ∉ done) ∧
      (e.listen.Scanning past →
        (∀ op, ∃ m' d', (Endpoint.memory m d).step op = .memory m' d' ∧
          (d'.poison.live = d.poison.live ∨
            ∃ now start length kind, op = .mediaError now start length kind)) ∧
        (∀ p, p.length = 8 →
          ((Endpoint.memory m d).stops .injectPoison p = true ↔
            lastLine ≤ ofLittleEndian p ∧ d.poison.live ≠ []) ∧
          ((Endpoint.memory m d).stops .injectPoison p = false → ∀ now limit,
            ((Endpoint.memory m d).dispatch now limit .injectPoison p).2.status = .success)) ∧
        ∀ now limit p,
          ((Endpoint.memory m d).dispatch now limit .clearPoison p).2.status = .success →
          ∃ (data : CacheLine) (d' : MemoryDevice),
            ((Endpoint.memory m d).dispatch now limit .clearPoison p).1 = .memory m d' ∧
              data.toList = p.drop 8 ∧
              ∀ a, d'.memory.line? a =
                if a = lineStart (ofLittleEndian (p.take 8)) then some data
                else d.memory.line? a) := by
  obtain ⟨m, d, haccounts⟩ := accounts_after h past
  have hknows {command : StandardCommand}
      (hcommand : command.opcode ∈ memoryCommands.map (·.opcode)) : m.Knows command := by
    have hknows := (sameTable_after e.listen past).knows
      ((sameTable_listen e).knows (knows_memoryDevice h hcommand))
    rwa [haccounts.reached] at hknows
  refine ⟨m, d, _, haccounts.reached, haccounts.completions, fun now limit => ?_,
    fun hscanning => ?_⟩
  · rw [status_scanResults (hknows (by decide)), ← Bool.not_eq_true, haccounts.poison,
      Poison.Store.scanned_after_iff, completes_poisonOps, List.count_pos_iff]
  · have hscan := haccounts.opcode?_of_scanning h hscanning
    have hmedia : m.background.opcode? ≠ some .sanitize := by
      rw [hscan]
      decide
    refine ⟨fun op => ?_, fun p hp => ⟨?_, fun _ now limit => ?_⟩, fun now limit p hsuccess => ?_⟩
    · obtain ⟨m', d', hstep, hsteps⟩ := steps_step haccounts.commands d op
      exact ⟨m', d', hstep, hsteps.live_of_scanning hscan⟩
    · exact stops_injectPoison_iff haccounts.commands (hknows (by decide)) hp hmedia
    · rw [dispatch_injectPoison (hknows (by decide)) hscan hp]
    · exact dispatch_clearPoison (hknows (by decide)) hsuccess

/-- A scan of one line is begun. -/
def scanBegun : List Op :=
  [.request 0 none .scanMedia (littleEndian 8 0 ++ littleEndian 8 1 ++ [0])]

/-- A mailbox with that scan in flight. -/
def scanMailbox : Mailbox :=
  { Mailbox.ofCommands memoryCommands 2048 with
    background := .start .scanMedia 0 1, completions := some [] }

theorem dispatch_scanMedia :
    newDevice.listen.dispatch 0 none .scanMedia (littleEndian 8 0 ++ littleEndian 8 1 ++ [0]) =
      (memory scanMailbox .fresh, ⟨.backgroundStarted, []⟩) := by
  have hread : Request.ofPayload .scanMedia (littleEndian 8 0 ++ littleEndian 8 1 ++ [0]) =
      .ok (.direct (.memory (.scan ⟨0, 1⟩))) := rfl
  rw [dispatch_of_direct (c := .standard .scanMedia) rfl rfl hread]
  rfl

theorem after_scanBegun : newDevice.listen.after scanBegun = memory scanMailbox .fresh :=
  congrArg Prod.fst dispatch_scanMedia

theorem scanning_scanBegun : newDevice.listen.Scanning scanBegun := by
  refine ⟨_, [], List.suffix_refl _, ?_, ?_⟩
  · rw [after, begun, dispatch_scanMedia]
    rfl
  · rw [after_scanBegun]
    rfl

theorem scan_window_begun :
    memoryDevice {} ({} : MemoryConfig).memory = .ok newDevice ∧
      newDevice.listen.Scanning scanBegun ∧
      newDevice.listen.after scanBegun = memory scanMailbox .fresh ∧
      ((memory scanMailbox .fresh).dispatch 0 none .scanResults []).2.status = .unsupported ∧
      (memory scanMailbox .fresh).stops .injectPoison (zeros 8) = false ∧
      ((memory scanMailbox .fresh).dispatch 0 none .injectPoison (zeros 8)).2.status = .success ∧
      ∃ (data : CacheLine) (d' : MemoryDevice),
        ((memory scanMailbox .fresh).dispatch 0 none .clearPoison (zeros 72)).1 =
          .memory scanMailbox d' ∧ data.toList = zeros 64 ∧ d'.memory.line? 0 = some data := by
  have hnew : memoryDevice {} ({} : MemoryConfig).memory = .ok newDevice := rfl
  obtain ⟨m, d, done, hafter, hdone, hresults, hwindow⟩ := scan_window hnew scanBegun
  obtain ⟨rfl, rfl⟩ := Endpoint.memory.inj (hafter.symm.trans after_scanBegun)
  obtain rfl : done = [] := (Option.some.inj hdone).symm
  obtain ⟨-, hinject, hclear⟩ := hwindow scanning_scanBegun
  have hread : Request.ofPayload .clearPoison (zeros 72) =
      .ok (.direct (.memory (.clearPoison 0 (Vector.replicate 64 0)))) := rfl
  have hcleared : (memory scanMailbox .fresh).dispatch 0 none .clearPoison (zeros 72) = _ :=
    dispatch_of_direct (c := .standard .clearPoison) rfl rfl hread
  obtain ⟨data, d', hdispatch, hdata, hline⟩ := hclear 0 none (zeros 72) (by rw [hcleared]; rfl)
  obtain ⟨hstops, hsuccess⟩ := hinject (zeros 8) rfl
  have hgoes : (memory scanMailbox .fresh).stops .injectPoison (zeros 8) = false := by
    rw [← Bool.not_eq_true, hstops]
    exact fun hlast => absurd hlast.1 (by decide)
  refine ⟨hnew, scanning_scanBegun, after_scanBegun, (hresults 0 none).mpr nofun, hgoes,
    hsuccess hgoes 0 none, data, d', hdispatch, hdata, ?_⟩
  rw [hline]
  exact if_pos rfl

end Endpoint

end CxlEndpoint
