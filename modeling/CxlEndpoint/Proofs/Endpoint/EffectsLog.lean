import CxlEndpoint.Proofs.Endpoint.MessageSize
import Mathlib.Algebra.GroupWithZero.Nat

/-!
# Reading the command effects log

* `Later`: what has become of an endpoint to which commands may have been added. `Later.ordered` and
  `Later.payloadMax_le` say what stays true of its mailbox.
* `fetchLog`: the host reads part after part. `fetchLog_eq` says what it has then.
* `effectsLog_readable`: the log of every endpoint lists its commands, and the host can read it in
  any parts.
-/

namespace CxlEndpoint.Endpoint

variable {e e' e₀ : Endpoint} {longest now offset length : Nat} {limit : Option Nat}

/-! ## Additions -/

/-- What has become of an endpoint, to which commands may have been added. -/
inductive Later (e : Endpoint) : Endpoint → Prop
  | new : Later e e
  | step (e' : Endpoint) (op : Op) (h : Later e e') : Later e (e'.step op)
  | listen (e' : Endpoint) (h : Later e e') : Later e e'.listen
  /-- Something has happened to the devices behind a switch. -/
  | behind (m : Mailbox) (card : SwitchCard) (t t' : Topology Endpoint)
    (h : Later e (switch m card t)) : Later e (switch m card t')
  | addCommands (e' : Endpoint) (commands : List Command) (payloadMax : Nat) (h : Later e e') :
    Later e (e'.addCommands commands payloadMax)

theorem mailbox_addCommands (e : Endpoint) (commands : List Command) (payloadMax : Nat) :
    (e.addCommands commands payloadMax).mailbox = e.mailbox.addCommands commands payloadMax :=
  mailbox_withMailbox e _

/-- Messages become no smaller. -/
theorem Later.payloadMax_le (h : Later e e') : e.mailbox.payloadMax ≤ e'.mailbox.payloadMax := by
  induction h with
  | new => exact Nat.le_refl _
  | step e' op _ ih => rwa [(sameTable_step e' op).payloadMax]
  | listen e' _ ih => rwa [(sameTable_listen e').payloadMax]
  | behind m card t t' _ ih => exact ih
  | addCommands e' commands payloadMax _ ih =>
    rw [mailbox_addCommands]
    exact Nat.le_trans ih (Nat.le_max_left _ _)

/-- The commands stay in the order of their opcodes. -/
theorem Later.ordered (h : Later e e') (hordered : e.mailbox.commands.Ordered) :
    e'.mailbox.commands.Ordered := by
  induction h with
  | new => exact hordered
  | step e' op _ ih => rwa [(sameTable_step e' op).commands]
  | listen e' _ ih => rwa [(sameTable_listen e').commands]
  | behind m card t t' _ ih => exact ih
  | addCommands e' commands payloadMax _ ih =>
    rw [mailbox_addCommands]
    exact ih.merge commands

theorem Built.ordered (h : Built e longest) : e.mailbox.commands.Ordered := by
  cases h with
  | memoryDevice c m e h =>
    obtain ⟨commands, ledger, -, -, rfl⟩ := memoryDevice_eq_ok h
    exact Mailbox.ordered_ofCommands commands c.payloadMax
  | memoryMctp id => exact Mailbox.ordered_ofCommands memoryMctpCommands 2048
  | switchManager c t e h | switchMctp c t e h =>
    obtain ⟨-, card, rfl⟩ := switchWith_eq_ok h
    exact Mailbox.ordered_ofCommands _ c.payloadMax

theorem Built.payloadMax_ge (h : Built e longest) : 256 ≤ e.mailbox.payloadMax := by
  cases h with
  | memoryDevice c m e h =>
    obtain ⟨hsize, hmax, -⟩ := payloadMax_of_memoryDevice h
    exact hmax ▸ hsize.1
  | memoryMctp id => exact show 256 ≤ 2048 by decide
  | switchManager c t e h | switchMctp c t e h =>
    obtain ⟨hsize, card, rfl⟩ := switchWith_eq_ok h
    exact hsize.1

/-! ## Part after part -/

/-- How the host asks for one part: when, with which limit, and how many bytes of the log. -/
structure LogRead where
  now : Nat
  limit : Option Nat
  length : Nat

/-- The endpoint after the host has asked for parts one behind the other, the first one at
`offset`, and the bytes that it has got, unless a part was turned down. -/
def fetchLog (e : Endpoint) (offset : Nat) : List LogRead → Endpoint × Option Payload
  | [] => (e, some [])
  | part :: rest =>
    match e.dispatch part.now part.limit .getLog (partRequest offset part.length) with
    | (e, response) =>
      if response.status = .success then
        match e.fetchLog (offset + part.length) rest with
        | (e, bytes) => (e, bytes.map (response.payload ++ ·))
      else (e, none)

/-- Each of the parts ends within the room for the response. -/
def PartsFit (e : Endpoint) (offset : Nat) : List LogRead → Prop
  | [] => True
  | part :: rest =>
    offset + part.length ≤ e.mailbox.room part.limit ∧ e.PartsFit (offset + part.length) rest

theorem fetchLog_eq (hhandles : e.mailbox.Handles .getLog)
    (hmedia : e.mailbox.background.opcode? ≠ some .sanitize) (hsize : e.logBytes.length < 1 <<< 32)
    {parts : List LogRead} (hfit : e.PartsFit offset parts)
    (hends : offset + (parts.map (·.length)).sum ≤ e.logBytes.length) :
    e.fetchLog offset parts =
      (e, some ((e.logBytes.drop offset).take (parts.map (·.length)).sum)) := by
  induction parts generalizing offset with
  | nil => rfl
  | cons part rest ih =>
    obtain ⟨hroom, hrest⟩ := hfit
    rw [List.map_cons, List.sum_cons] at hends ⊢
    have hoffset : offset < 1 <<< 32 := by omega
    have hlength : part.length < 1 <<< 32 := by omega
    have hpart : Payload.fit part.length (e.logBytes.drop offset) =
        (e.logBytes.drop offset).take part.length := Payload.fit_drop (by omega)
    rw [fetchLog, dispatch_getLog hhandles hmedia hoffset hlength, if_pos hroom, hpart]
    dsimp only
    rw [if_pos rfl, ih hrest (by omega), Option.map_some, List.take_add, List.drop_drop]

/-! ## The log -/

/-- The log has one entry for each command, in the order of the opcodes. -/
structure ListsCommands (e : Endpoint) : Prop where
  ascending : e.mailbox.commands.effectsLog.Pairwise fun a b => a.opcode.code < b.opcode.code
  mem_iff : ∀ op effects, ⟨op, effects⟩ ∈ e.mailbox.commands.effectsLog ↔
    ∃ c, e.mailbox.commands.find? op = some c ∧ c.effects = effects

/-- The host can read the log, and nothing changes by that. -/
structure LogReadable (e : Endpoint) : Prop where
  /-- A part is told exactly if it ends within the room for the response. -/
  status_iff : ∀ now limit offset length, offset < 1 <<< 32 → length < 1 <<< 32 →
    ((e.dispatch now limit .getLog (partRequest offset length)).2.status = .success ↔
      offset + length ≤ e.mailbox.room limit)
  unchanged : ∀ now limit offset length, offset < 1 <<< 32 → length < 1 <<< 32 →
    (e.dispatch now limit .getLog (partRequest offset length)).1 = e
  /-- It holds the bytes of the log, and zeros behind its end. -/
  part : ∀ now limit offset length response, offset < 1 <<< 32 → length < 1 <<< 32 →
    (e.dispatch now limit .getLog (partRequest offset length)).2 = response →
    response.status = .success → response.payload.length = length ∧
      ∀ i < length, response.payload[i]? = some (e.logBytes.getD (offset + i) 0)
  /-- The list of logs names the size, if there is room for it. -/
  size : ∀ now limit, 28 ≤ e.mailbox.room limit →
    effectsLogSize? (e.dispatch now limit .supportedLogs []).2.payload = some e.logBytes.length
  /-- All parts together are the log. -/
  whole : ∀ now limit size (parts : List LogRead),
    effectsLogSize? (e.dispatch now limit .supportedLogs []).2.payload = some size →
    (parts.map (·.length)).sum = size → e.PartsFit 0 parts →
      ∃ bytes, e.fetchLog 0 parts = (e, some bytes) ∧
        readEffectsLog bytes = some e.mailbox.commands.effectsLog

theorem listsCommands_of_ordered (h : e.mailbox.commands.Ordered) : e.ListsCommands :=
  ⟨h.pairwise_effectsLog, fun _ _ => h.mem_effectsLog_iff⟩

theorem logReadable_of_ordered (hordered : e.mailbox.commands.Ordered)
    (hmedia : e.mailbox.background.opcode? ≠ some .sanitize) (hlog : e.mailbox.Handles .getLog)
    (hlist : e.mailbox.Handles .supportedLogs) : e.LogReadable := by
  have hlength : e.logBytes.length = 4 * e.mailbox.commands.effectsLog.length :=
    length_effectsLogPayload _
  have hsize : e.logBytes.length < 1 <<< 32 := by
    have hentries := hordered.length_effectsLog_le
    have hword : 1 <<< 32 = 4294967296 := rfl
    omega
  have hnamed : effectsLogSize? (supportedLogsPayload (4 * e.mailbox.commands.effectsLog.length)) =
      some e.logBytes.length := by
    rw [← hlength, effectsLogSize?_supportedLogsPayload hsize]
  constructor
  case status_iff =>
    intro now limit offset length hoffset hlength
    rw [dispatch_getLog hlog hmedia hoffset hlength]
    split
    next hfits => exact iff_of_true rfl hfits
    next hfits => exact iff_of_false nofun hfits
  case unchanged =>
    intro now limit offset length hoffset hlength
    rw [dispatch_getLog hlog hmedia hoffset hlength]
    split <;> rfl
  case part =>
    intro now limit offset length response hoffset hlength hresponse hsuccess
    rw [dispatch_getLog hlog hmedia hoffset hlength] at hresponse
    split at hresponse
    · subst hresponse
      refine ⟨Payload.length_fit .., fun i hi => ?_⟩
      rw [Payload.getElem?_fit _ hi, List.getD_eq_getElem?_getD, List.getElem?_drop,
        List.getD_eq_getElem?_getD]
    · subst hresponse
      cases hsuccess
  case size =>
    intro now limit hroom
    rw [dispatch_supportedLogs hlist hmedia, if_pos hroom]
    exact hnamed
  case whole =>
    intro now limit size parts htold hparts hfit
    rw [dispatch_supportedLogs hlist hmedia] at htold
    split at htold
    · obtain rfl : e.logBytes.length = size := Option.some.inj (hnamed.symm.trans htold)
      refine ⟨e.logBytes, ?_, readEffectsLog_effectsLogPayload _⟩
      rw [fetchLog_eq hlog hmedia hsize hfit (by omega), hparts, List.drop_zero, List.take_length]
    · cases htold

/-- **The effects log lists the commands of every endpoint, and the host can read it.** Whatever
commands have been added to an endpoint of any kind, of two with one opcode the later is found, and
the log has what it declares. Messages become no smaller. Unless a sanitize is running, a part of
the log is told exactly if it ends within the room for the response, and the log can be read in any
parts. -/
theorem effectsLog_readable (h : Built e₀ longest) (hlater : Later e₀ e) :
    e.ListsCommands ∧
      (∀ commands payloadMax op,
        (e.addCommands commands payloadMax).mailbox.commands.find? op =
          (CommandTable.find? commands.reverse op).or (e.mailbox.commands.find? op)) ∧
      256 ≤ e.mailbox.payloadMax ∧
      (∀ e', Later e e' → e.mailbox.payloadMax ≤ e'.mailbox.payloadMax) ∧
      (e.mailbox.background.opcode? ≠ some .sanitize → e.mailbox.Handles .getLog →
        e.mailbox.Handles .supportedLogs → e.LogReadable) := by
  have hordered := hlater.ordered h.ordered
  refine ⟨listsCommands_of_ordered hordered, fun commands payloadMax op => ?_,
    Nat.le_trans h.payloadMax_ge hlater.payloadMax_le, fun e' hlater' => hlater'.payloadMax_le,
    fun hmedia hlog hlist => logReadable_of_ordered hordered hmedia hlog hlist⟩
  rw [mailbox_addCommands]
  exact CommandTable.find?_merge _ _ _

/-- A command of a vendor, and one in the place of a standard command. -/
def vendorCommands : List Command :=
  [{ opcode := ⟨0xc000⟩, name := "VENDOR_ECHO", input := .free, effects := .logChange,
     action := .extension fun p => .ok { payload := p } },
    { Command.standard .getTimestamp with effects := .policyChange }]

/-- A new memory device to which they have been added. -/
def extendedDevice : Endpoint := newDevice.addCommands vendorCommands 4096

/-- Its log of 24 entries is read in three parts, of which two end inside an entry. -/
def oddParts : List LogRead := [⟨0, none, 33⟩, ⟨5, some 64, 29⟩, ⟨3, some 100, 34⟩]

theorem effectsLog_readable_extended :
    Built newDevice 2048 ∧ Later newDevice extendedDevice ∧
      extendedDevice.mailbox.background.opcode? ≠ some .sanitize ∧
      extendedDevice.mailbox.Handles .getLog ∧ extendedDevice.mailbox.Handles .supportedLogs ∧
      extendedDevice.PartsFit 0 oddParts ∧
      ⟨.getTimestamp, .policyChange⟩ ∈ extendedDevice.mailbox.commands.effectsLog ∧
      ∃ bytes, extendedDevice.fetchLog 0 oddParts = (extendedDevice, some bytes) ∧
        readEffectsLog bytes = some extendedDevice.mailbox.commands.effectsLog := by
  have hbuilt : Built newDevice 2048 := .memoryDevice {} ({} : MemoryConfig).memory newDevice rfl
  have hlater : Later newDevice extendedDevice := .addCommands _ vendorCommands 4096 .new
  have hmedia : extendedDevice.mailbox.background.opcode? ≠ some .sanitize := nofun
  have hlog : extendedDevice.mailbox.Handles .getLog :=
    Mailbox.Knows.handles (show extendedDevice.mailbox.Knows .getLog from rfl) rfl
  have hlist : extendedDevice.mailbox.Handles .supportedLogs :=
    Mailbox.Knows.handles (show extendedDevice.mailbox.Knows .supportedLogs from rfl) rfl
  have hfit : extendedDevice.PartsFit 0 oddParts := ⟨by decide, by decide, by decide, trivial⟩
  obtain ⟨hlists, -, -, -, hreadable⟩ := effectsLog_readable hbuilt hlater
  have hread := hreadable hmedia hlog hlist
  have htold := hread.size 0 none (by decide)
  have hsize : extendedDevice.logBytes.length = 96 := by
    rw [logBytes, length_effectsLogPayload]
    rfl
  exact ⟨hbuilt, hlater, hmedia, hlog, hlist, hfit, (hlists.mem_iff _ _).mpr ⟨_, rfl, rfl⟩,
    hread.whole 0 none 96 oddParts (hsize ▸ htold) rfl hfit⟩

end CxlEndpoint.Endpoint
