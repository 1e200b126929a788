import CxlEndpoint.Proofs.Command.EffectsLog
import CxlEndpoint.Proofs.Device.Labels
import CxlEndpoint.Proofs.Endpoint.Scan
import CxlEndpoint.Proofs.Event.History

/-!
# What requests change, and what the effects log says of it

* `MemoryDevice.SameData`, `MemoryDevice.SameLogs`: the state of which the effects "data change" and
  "log change" tell: media and labels, and the event logs.
* `MemoryDevice.Declares`: no change that the given effects lack. `Serves.declares` says that this
  holds of every request but one, and `declares_finish` of what is done when a background operation
  is over.
* `MemoryDevice.Overwrites`: a request to clear poison that stores something new.
  `dispatch_clearPoison_declares_iff`: such a request changes data, of which the log says nothing.
* `declares_iff`: when the effects log of a memory device tells the truth about a request.
-/

namespace CxlEndpoint

namespace MemoryDevice

/-- Media and labels are the same. -/
structure SameData (d d' : MemoryDevice) : Prop where
  lines : ∀ a, d'.memory.line? a = d.memory.line? a
  labels : d'.memory.labels = d.memory.labels

/-- The event logs hold the same records and have lost the same. -/
structure SameLogs (d d' : MemoryDevice) : Prop where
  records : ∀ k, (d'.events.get k).records = (d.events.get k).records
  overflow : ∀ k, (d'.events.get k).overflow = (d.events.get k).overflow

/-- From `d` to `d'`, data and event logs have changed only as far as `effects` says so. -/
structure Declares (d : MemoryDevice) (effects : Effects) (d' : MemoryDevice) : Prop where
  data : effects.contains .dataChange = false → d.SameData d'
  logs : effects.contains .logChange = false → d.SameLogs d'

/-- To clear poison with the payload `p` stores other bytes than the line holds. -/
def Overwrites (d : MemoryDevice) (p : Payload) : Prop :=
  (d.memory.line? (lineStart (ofLittleEndian (p.take 8)))).map (·.toList) ≠ some (p.drop 8)

variable {d d' : MemoryDevice} {c : Conditions} {request : MemoryRequest} {reply : Reply}
  {command : StandardCommand}

theorem SameData.refl (d : MemoryDevice) : SameData d d := ⟨fun _ => rfl, rfl⟩

theorem SameLogs.refl (d : MemoryDevice) : SameLogs d d := ⟨fun _ => rfl, fun _ => rfl⟩

theorem Declares.refl (d : MemoryDevice) (effects : Effects) : d.Declares effects d :=
  ⟨fun _ => .refl d, fun _ => .refl d⟩

/-- It stores nothing new if its data is in the line already. -/
theorem not_overwrites_iff {p : Payload} {data : CacheLine} (hdata : data.toList = p.drop 8) :
    ¬ d.Overwrites p ↔ d.memory.line? (lineStart (ofLittleEndian (p.take 8))) = some data := by
  rw [Overwrites, not_not, ← hdata, Option.map_eq_some_iff]
  constructor
  · rintro ⟨line, hline, hbytes⟩
    rw [hline, Vector.toList_inj.mp hbytes]
  · intro hline
    exact ⟨data, hline, rfl⟩

/-! ## Carrying out a request -/

/-- Events are taken out of the logs only by the request to clear them. -/
theorem Serves.sameLogs (h : d.Serves c request d' reply)
    (hlogs : request.command.effects.contains .logChange = false) : d.SameLogs d' := by
  cases h with
  | events request events hevents =>
    cases hevents with
    | all | oldest =>
      have hclear : StandardCommand.clearEventRecords.effects.contains .logChange = false := hlogs
      exact absurd hclear (by decide)
    | interrupts settings =>
      constructor <;> intro k <;> obtain ⟨vector, hget⟩ := d.events.get_setInterrupts settings k
      · exact (congrArg EventLog.records hget :)
      · exact (congrArg EventLog.overflow hget :)
  | told | labels | injected | cleared | scanning | results | sanitizing | ledger =>
    exact ⟨fun _ => rfl, fun _ => rfl⟩

theorem Serves.sameLabels (h : d.Serves c request d' reply)
    (hdata : request.command.effects.contains .dataChange = false) :
    d'.memory.labels = d.memory.labels := by
  refine h.labels_of_ne fun hwrite => ?_
  rw [hwrite] at hdata
  exact absurd hdata (by decide)

/-- A request writes a line only to clear poison. -/
theorem Serves.sameLines (h : d.Serves c request d' reply)
    (hclear : request.command ≠ .clearPoison) (a : Nat) :
    d'.memory.line? a = d.memory.line? a := by
  cases h with
  | cleared => exact absurd rfl hclear
  | told | events | labels | injected | scanning | results | sanitizing | ledger => rfl

theorem Serves.declares (h : d.Serves c request d' reply)
    (hclear : request.command ≠ .clearPoison) : d.Declares request.command.effects d' :=
  ⟨fun hdata => ⟨h.sameLines hclear, h.sameLabels hdata⟩, h.sameLogs⟩

/-! ## The end of a background operation -/

/-- A command with the opcode of a sanitize says that it changes data. -/
theorem dataChange_of_sanitize (h : command.opcode = .sanitize) :
    command.effects.contains .dataChange = true := by
  revert h
  cases command <;> decide

theorem declares_finish (d : MemoryDevice) (command : StandardCommand) :
    d.Declares command.effects (d.finish command.opcode) := by
  unfold finish
  by_cases hsanitize : command.opcode = .sanitize
  · rw [if_pos hsanitize]
    refine ⟨fun hdata => ?_, fun _ => ⟨fun _ => rfl, fun _ => rfl⟩⟩
    rw [dataChange_of_sanitize hsanitize] at hdata
    cases hdata
  · rw [if_neg hsanitize]
    split
    · exact ⟨fun _ => ⟨fun _ => rfl, rfl⟩, fun _ => ⟨fun _ => rfl, fun _ => rfl⟩⟩
    · exact .refl d _

end MemoryDevice

namespace Endpoint

variable {m m' : Mailbox} {d d' : MemoryDevice} {now room : Nat} {limit : Option Nat} {op : Opcode}
  {p : Payload} {response : Response} {c : Command} {e : Endpoint} {command : StandardCommand}

/-! ## Requests -/

/-- The command that the mailbox has for the opcode declares what becomes of the device. -/
theorem Outcome.declares (h : Outcome m d now room op p (memory m' d') response)
    (hfind : m.commands.find? op = some c) (hclear : op ≠ .clearPoison) :
    d.Declares c.effects d' := by
  have hcarried {request : MemoryRequest} {d₁ : MemoryDevice} {reply : Reply}
      (hcarries : Carries m d now room op p request d₁ reply) :
      d.Declares c.effects d₁ := by
    have hfound := (Mailbox.accept_eq_ok_iff.mp hcarries.accepted).1
    obtain rfl : c = .standard request.command := Option.some.inj (hfind.symm.trans hfound)
    have hcommand : request.command ≠ .clearPoison := fun heq =>
      hclear (hcarries.opcode.symm.trans (congrArg StandardCommand.opcode heq))
    exact (MemoryDevice.serves_of_serve hcarries.served).declares hcommand
  cases h with
  | refused | told | timeSet => exact .refl d _
  | served request _ reply hcarries => exact hcarried hcarries
  | started request _ runtime hcarries => exact hcarried hcarries

/-- To clear poison changes no log and no label, whatever comes of it. -/
theorem Outcome.sameLogs_of_clearPoison
    (h : Outcome m d now room .clearPoison p (memory m' d') response)
    (hknows : m.Knows .clearPoison) : d.SameLogs d' ∧ d'.memory.labels = d.memory.labels := by
  have hcarried {request : MemoryRequest} {d₁ : MemoryDevice} {reply : Reply}
      (hcarries : Carries m d now room .clearPoison p request d₁ reply) :
      d.SameLogs d₁ ∧ d₁.memory.labels = d.memory.labels := by
    have hcommand : Command.standard request.command = .standard .clearPoison :=
      hknows.eq_of_accept hcarries.accepted
    have heffects : request.command.effects = .none := congrArg Command.effects hcommand
    have hserves := MemoryDevice.serves_of_serve hcarries.served
    exact ⟨hserves.sameLogs (by rw [heffects]; decide),
      hserves.sameLabels (by rw [heffects]; decide)⟩
  cases h with
  | refused | told | timeSet => exact ⟨.refl d, rfl⟩
  | served request _ reply hcarries => exact hcarried hcarries
  | started request _ runtime hcarries => exact hcarried hcarries

/-- To clear poison is declared to change nothing. It changes nothing exactly if it is turned down
or the line holds the same bytes already. -/
theorem dispatch_clearPoison_declares_iff (hcommands : m.HasMemoryCommands)
    (hknows : m.Knows .clearPoison)
    (h : (memory m d).dispatch now limit .clearPoison p = (memory m' d', response)) :
    d.Declares .none d' ↔ ¬ (response.status = .success ∧ d.Overwrites p) := by
  have houtcome := outcome_dispatch hcommands d now limit .clearPoison p
  rw [h] at houtcome
  obtain ⟨hlogs, hlabels⟩ := houtcome.sameLogs_of_clearPoison hknows
  by_cases hsuccess : response.status = .success
  · have hstatus : ((memory m d).dispatch now limit .clearPoison p).2.status = .success := by
      rw [h]
      exact hsuccess
    obtain ⟨data, d₁, hreached, hdata, hlines⟩ := dispatch_clearPoison hknows hstatus
    rw [h] at hreached
    obtain ⟨rfl, rfl⟩ := Endpoint.memory.inj hreached
    rw [and_iff_right hsuccess, MemoryDevice.not_overwrites_iff hdata]
    constructor
    · intro hdeclares
      rw [← (hdeclares.data rfl).lines, hlines, if_pos rfl]
    · intro hsame
      refine ⟨fun _ => ⟨fun a => ?_, hlabels⟩, fun _ => hlogs⟩
      rw [hlines]
      split
      next ha => rw [ha, hsame]
      next => rfl
  · cases houtcome with
    | refused s => exact iff_of_true (.refl d _) (fun hwrites => hsuccess hwrites.1)
    | told | timeSet | served => exact absurd rfl hsuccess
    | started request _ runtime hcarries =>
      have hrequest := ((MemoryDevice.serves_of_serve hcarries.served).of_background rfl).1
      have hopcode := hcarries.opcode
      rcases hrequest with rfl | ⟨r, rfl⟩
      · exact absurd hopcode (by decide)
      · exact absurd (show StandardCommand.scanMedia.opcode = .clearPoison from hopcode) (by decide)

/-! ## Histories -/

/-- A memory device has the commands that it was made with, each under its own opcode. -/
theorem exists_commands_after {c : MemoryConfig} {memory : Memory}
    (h : memoryDevice c memory = .ok e) (past : List Op) :
    ∃ m d, e.after past = .memory m d ∧ m.HasMemoryCommands ∧ m.commands.Ordered ∧
      m.Knows .clearPoison := by
  have hsame := sameTable_after e past
  have hknows : (e.after past).mailbox.Knows .clearPoison :=
    hsame.knows (knows_memoryDevice h (by decide))
  have hordered : (e.after past).mailbox.commands.Ordered := by
    rw [hsame.commands]
    obtain ⟨commands, ledger, -, -, rfl⟩ := memoryDevice_eq_ok h
    exact Mailbox.ordered_ofCommands commands c.payloadMax
  obtain ⟨m, d, hnew, hcommands, -⟩ := exists_memory h
  obtain ⟨m, d, hreached, hcommands, -⟩ := exists_after_of_steps (I := fun _ _ => True)
    ⟨m, d, hnew, hcommands, trivial⟩ (fun _ _ _ _ _ _ _ _ => trivial) past
  rw [hreached] at hordered hknows
  exact ⟨m, d, hreached, hcommands, hordered, hknows⟩

/-- **The effects log tells the truth about every request but one.** A request that is accepted has
an entry in the log. What the entry does not declare does not change, neither at once nor when the
background operation is over, except that to clear poison writes its data although no change of data
is declared: the entry is wrong exactly if this succeeds and stores what the line does not hold. -/
theorem declares_iff {c : MemoryConfig} {memory : Memory} (h : memoryDevice c memory = .ok e)
    (past : List Op) :
    ∃ m d, e.after past = .memory m d ∧ ∀ now limit op p, ∃ m' d' response,
      (Endpoint.memory m d).dispatch now limit op p = (.memory m' d', response) ∧
        (response.status.accepted = true → ∃ entry ∈ m.commands.effectsLog, entry.opcode = op) ∧
        ∀ entry ∈ m.commands.effectsLog, entry.opcode = op →
          (entry.effects.contains .logChange = false → d.SameLogs d') ∧
          (d.Declares entry.effects d' ↔
            ¬ (op = .clearPoison ∧ response.status = .success ∧ d.Overwrites p)) ∧
          ∀ later : MemoryDevice, later.Declares entry.effects (later.finish op) := by
  obtain ⟨m, d, hreached, hcommands, hordered, hknows⟩ := exists_commands_after h past
  refine ⟨m, d, hreached, fun now limit op p => ?_⟩
  obtain ⟨m', d', response, hdispatch, houtcome⟩ := exists_outcome hcommands d now limit op p
  refine ⟨m', d', response, hdispatch, fun haccepted => ?_, ?_⟩
  · obtain ⟨c, haccept⟩ := exists_accept (e := .memory m d) (by rw [hdispatch]; exact haccepted)
    have hfind := (Mailbox.accept_eq_ok_iff.mp haccept).1
    exact ⟨⟨op, c.effects⟩, hordered.mem_effectsLog_iff.mpr ⟨c, hfind, rfl⟩, rfl⟩
  · rintro entry hentry rfl
    obtain ⟨c, hfind, heffects⟩ := hordered.mem_effectsLog_iff.mp hentry
    obtain ⟨hmem, hop⟩ := CommandTable.of_find? hfind
    obtain ⟨command, -, rfl⟩ := hcommands.standard hmem
    rw [← heffects]
    have hfinish (later : MemoryDevice) :
        later.Declares command.effects (later.finish entry.opcode) :=
      hop ▸ later.declares_finish command
    by_cases hclear : entry.opcode = .clearPoison
    · rw [hclear] at hfind houtcome hdispatch
      obtain rfl : command = .clearPoison :=
        Action.standard.inj (congrArg Command.action (Option.some.inj (hfind.symm.trans hknows)))
      refine ⟨fun _ => (houtcome.sameLogs_of_clearPoison hknows).1, ?_, hfinish⟩
      rw [and_iff_right hclear]
      exact dispatch_clearPoison_declares_iff hcommands hknows hdispatch
    · have hdeclares := houtcome.declares hfind hclear
      exact ⟨hdeclares.logs, iff_of_true hdeclares fun hwrites => hclear hwrites.1, hfinish⟩

/-- Clears poison at address 0 and stores 64 bytes there. -/
def storeSevens : Payload := zeros 8 ++ List.replicate 64 7

theorem dispatch_storeSevens :
    ∃ m d, newDevice.dispatch 0 none .clearPoison storeSevens = (memory m d, ⟨.success, []⟩) ∧
      d.memory.line? 0 = some (Vector.replicate 64 7) := by
  have hread : Request.ofPayload .clearPoison storeSevens =
      .ok (.direct (.memory (.clearPoison 0 (Vector.replicate 64 7)))) := rfl
  have hcleared : newDevice.dispatch 0 none .clearPoison storeSevens = _ :=
    dispatch_of_direct (c := .standard .clearPoison) rfl rfl hread
  rw [hcleared]
  exact ⟨_, _, rfl, rfl⟩

/-- To store the same bytes once more changes nothing, as the log says. -/
theorem declares_iff_sevens :
    memoryDevice {} ({} : MemoryConfig).memory = .ok newDevice ∧
      ∃ m d m' d' response,
        newDevice.after [.request 0 none .clearPoison storeSevens] = .memory m d ∧
        d.memory.line? 0 = some (Vector.replicate 64 7) ∧
        (Endpoint.memory m d).dispatch 1 none .clearPoison storeSevens =
          (.memory m' d', response) ∧
        d.Declares .none d' := by
  have hnew : memoryDevice {} ({} : MemoryConfig).memory = .ok newDevice := rfl
  have hentry : (⟨.clearPoison, .none⟩ : EffectsEntry) ∈ newDevice.mailbox.commands.effectsLog := by
    decide
  have hsame := sameTable_after newDevice [.request 0 none .clearPoison storeSevens]
  obtain ⟨m, d, hafter, hrequests⟩ := declares_iff hnew [.request 0 none .clearPoison storeSevens]
  obtain ⟨m₁, d₁, hdispatch₁, hline⟩ := dispatch_storeSevens
  obtain ⟨rfl, rfl⟩ := Endpoint.memory.inj (hafter.symm.trans (congrArg Prod.fst hdispatch₁))
  obtain ⟨m', d', response, hdispatch, -, htold⟩ := hrequests 1 none .clearPoison storeSevens
  rw [hafter] at hsame
  rw [← hsame.commands] at hentry
  have hbytes : (Vector.replicate 64 7 : CacheLine).toList = storeSevens.drop 8 := rfl
  have hsevens : ¬ d.Overwrites storeSevens := (MemoryDevice.not_overwrites_iff hbytes).mpr hline
  exact ⟨hnew, m, d, m', d', response, hafter, hline, hdispatch,
    (htold _ hentry rfl).2.1.mpr fun hwrites => hsevens hwrites.2.2⟩

/-- A new device stores the bytes, of which its log says nothing. -/
theorem not_declares :
    ¬ ∀ (c : MemoryConfig) (memory : Memory) (e : Endpoint) (past : List Op),
      memoryDevice c memory = .ok e →
      ∀ (now : Nat) (limit : Option Nat) (op : Opcode) (p : Payload) (d d' : MemoryDevice),
        (e.after past).device? = some d →
        ((e.after past).dispatch now limit op p).1.device? = some d' →
        ((e.after past).dispatch now limit op p).2.status.accepted = true →
        ∀ entry ∈ (e.after past).mailbox.commands.effectsLog, entry.opcode = op →
          d.Declares entry.effects d' := by
  intro h
  have hcommands : (Mailbox.ofCommands memoryCommands 2048).HasMemoryCommands :=
    Mailbox.hasMemoryCommands_ofCommands fun c hc => List.mem_append_left _ hc
  have hentry : (⟨.clearPoison, .none⟩ : EffectsEntry) ∈ newDevice.mailbox.commands.effectsLog := by
    decide
  obtain ⟨m, d, hdispatch, -⟩ := dispatch_storeSevens
  have hdeclares := h {} ({} : MemoryConfig).memory newDevice [] rfl 0 none .clearPoison storeSevens
    .fresh d rfl (by rw [after, hdispatch]; rfl) (by rw [after, hdispatch]; rfl) _ hentry rfl
  have hwrites : MemoryDevice.fresh.Overwrites storeSevens := (Option.some_ne_none _).symm
  exact (dispatch_clearPoison_declares_iff hcommands rfl hdispatch).mp hdeclares ⟨rfl, hwrites⟩

end Endpoint

end CxlEndpoint
