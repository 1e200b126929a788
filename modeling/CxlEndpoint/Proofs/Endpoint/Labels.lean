import CxlEndpoint.Proofs.Device.Labels
import CxlEndpoint.Proofs.Endpoint.Sanitize

/-!
# Label storage in the course of a history

* `labelGiven?`: what one operation has for a label: the byte of a write that was carried out, zero
  at the end of a sanitize. `labelAt`: the byte that the latest of them had for it.
* `dispatch_getLabels`, `dispatch_setLabels`: how a device answers the requests for labels.
* `labels_step`, `labels_after`: label storage holds what was given.
* `labels_byte_array`: so the host reads it.
-/

namespace CxlEndpoint.Endpoint

variable {m m' : Mailbox} {d d' : MemoryDevice} {now : Nat} {limit : Option Nat} {p : Payload}
  {op : Op} {begun : Option Opcode} {address : Nat} {e : Endpoint}

/-! ## What has been given -/

/-- The byte that a request has for a label, if it writes labels and is carried out. -/
def labelWritten? (e : Endpoint) (address now : Nat) (limit : Option Nat) (op : Opcode)
    (p : Payload) : Option UInt8 :=
  if op = .setLabels ∧ (e.dispatch now limit op p).2.status = .success then
    match LabelWrite.ofPayload p with
    | .ok w => w.byte? address
    | .error _ => none
  else none

/-- A look at the clock finds that a sanitize is over. -/
def endsSanitize (e : Endpoint) (now : Nat) : Bool :=
  e.mailbox.background.isRunningOp .sanitize &&
    !(e.tick now).mailbox.background.isRunningOp .sanitize

/-- The byte that an operation has for a label. A sanitize zeroes the labels when it is over. -/
def labelGiven? (e : Endpoint) (address : Nat) : Op → Option UInt8
  | .request now limit op p => e.labelWritten? address now limit op p
  | .tick now => if e.endsSanitize now then some 0 else none
  | _ => none

/-- The byte that was given latest for a label, or what it was at first. -/
def labelAt (e : Endpoint) (initial : UInt8) (address : Nat) : List Op → UInt8
  | [] => initial
  | op :: past => ((e.after past).labelGiven? address op).getD (e.labelAt initial address past)

/-! ## Requests for labels -/

/-- Labels are told if they are there and the response has room for them. -/
theorem dispatch_getLabels {w : LabelWindow} (hknows : m.Knows .getLabels)
    (hmedia : m.background.opcode? ≠ some .sanitize) (hw : w.Readable) :
    (memory m d).dispatch now limit .getLabels w.request =
      if w.offset + w.length ≤ d.memory.labelSize ∧ w.length ≤ m.room limit then
        (memory m d, ⟨.success, d.memory.readLabels w.offset w.length⟩)
      else (memory m d, .refusal .invalidInput) := by
  have haccept : m.accept .getLabels w.request = .ok (.standard .getLabels) :=
    hknows.accept_of_foreground rfl w.length_request fun hsanitize =>
      absurd (Background.isRunningOp_iff.mp hsanitize) hmedia
  have hread : Request.ofPayload .getLabels w.request =
      .ok (.direct (.memory (.getLabels w))) := by
    rw [Request.ofPayload, if_neg (by decide), DirectRequest.ofPayload, hw.ofPayload_request]
    rfl
  split
  next hfits =>
    have hdispatch : (memory m d).dispatch now limit .getLabels w.request = _ :=
      dispatch_of_serve haccept rfl hread (if_pos hfits)
    rw [hdispatch]
    exact settle_of_done (Nat.le_trans (List.length_take_le ..) hfits.2) rfl
  next hfits => exact dispatch_of_serve_error haccept rfl hread (if_neg hfits)

/-- Labels are written if they are there. An empty request writes none. -/
theorem dispatch_setLabels (hknows : m.Knows .setLabels)
    (hmedia : m.background.opcode? ≠ some .sanitize) :
    (memory m d).dispatch now limit .setLabels p =
      if p.isEmpty then (memory m d, ⟨.success, []⟩)
      else match LabelWrite.ofPayload p with
        | .error s => (memory m d, .refusal s)
        | .ok w =>
          if w.offset + w.data.length ≤ d.memory.labelSize then
            (memory m { d with memory := d.memory.writeLabels w.offset w.data }, ⟨.success, []⟩)
          else (memory m d, .refusal .invalidInput) := by
  have haccept : m.accept .setLabels p = .ok (.standard .setLabels) :=
    hknows.accept_of_foreground rfl trivial fun hsanitize =>
      absurd (Background.isRunningOp_iff.mp hsanitize) hmedia
  have hrequest : Request.ofPayload .setLabels p =
      (DirectRequest.ofPayload .setLabels p).map .direct := by
    rw [Request.ofPayload, if_neg (by decide)]
  rw [DirectRequest.ofPayload] at hrequest
  split
  next hempty =>
    rw [if_pos hempty] at hrequest
    have hdispatch : (memory m d).dispatch now limit .setLabels p = _ :=
      dispatch_of_direct haccept rfl hrequest
    rw [hdispatch, serve, conclude]
    exact settle_of_done (Nat.zero_le _) rfl
  next hempty =>
    rw [if_neg hempty] at hrequest
    split
    next s hread =>
      rw [hread] at hrequest
      exact dispatch_of_unreadable haccept rfl hrequest
    next w hread =>
      rw [hread] at hrequest
      split
      next hfits =>
        have hdispatch : (memory m d).dispatch now limit .setLabels p = _ :=
          dispatch_of_serve haccept rfl hrequest (if_pos hfits)
        rw [hdispatch]
        exact settle_of_done (Nat.zero_le _) rfl
      next hfits => exact dispatch_of_serve_error haccept rfl hrequest (if_neg hfits)

/-- Bytes are taken if there are labels for all of them. -/
theorem dispatch_setLabels_request {w : LabelWrite} (hknows : m.Knows .setLabels)
    (hmedia : m.background.opcode? ≠ some .sanitize) (hw : w.offset ≤ Word.last32) :
    (memory m d).dispatch now limit .setLabels w.request =
      if w.offset + w.data.length ≤ d.memory.labelSize then
        (memory m { d with memory := d.memory.writeLabels w.offset w.data }, ⟨.success, []⟩)
      else (memory m d, .refusal .invalidInput) := by
  have hbytes : ¬ w.request.isEmpty = true := by
    rw [List.isEmpty_iff_length_eq_zero, LabelWrite.length_request]
    omega
  rw [dispatch_setLabels hknows hmedia, if_neg hbytes, LabelWrite.ofPayload_request hw]

/-- While a sanitize is running, no command that needs media is carried out. -/
theorem refused_of_sanitizing {op : Opcode} (hmedia : m.background.opcode? = some .sanitize)
    (hop : op ∈ mediaCommands) :
    ∃ s : Status, s.accepted = false ∧
      (memory m d).dispatch now limit op p = (memory m d, .refusal s) := by
  cases haccept : (memory m d).mailbox.accept op p with
  | error s => exact ⟨s, m.candid_accept op p s haccept, dispatch_of_refused haccept⟩
  | ok c =>
    have hout := (Mailbox.accept_eq_ok_iff.mp haccept).2.2.2 (Background.isRunningOp_iff.mpr hmedia)
    exact absurd hop hout

/-- A request to write labels is turned down, or has nothing to write, or is carried out. -/
theorem setLabels_cases (hknows : m.Knows .setLabels) (d : MemoryDevice) (now : Nat)
    (limit : Option Nat) (p : Payload) :
    (∃ s : Status, s.accepted = false ∧
      (memory m d).dispatch now limit .setLabels p = (memory m d, .refusal s)) ∨
    (p = [] ∧ (memory m d).dispatch now limit .setLabels p = (memory m d, ⟨.success, []⟩)) ∨
    ∃ w, LabelWrite.ofPayload p = .ok w ∧ (memory m d).dispatch now limit .setLabels p =
      (memory m { d with memory := d.memory.writeLabels w.offset w.data }, ⟨.success, []⟩) := by
  by_cases hmedia : m.background.opcode? = some .sanitize
  · exact Or.inl (refused_of_sanitizing hmedia (by decide))
  rw [dispatch_setLabels hknows hmedia]
  split
  next hempty => exact Or.inr (Or.inl ⟨List.isEmpty_iff.mp hempty, rfl⟩)
  next =>
    split
    next s hread => exact Or.inl ⟨s, candid_labelWrite p s hread, rfl⟩
    next w hread =>
      split
      · exact Or.inr (Or.inr ⟨w, hread, rfl⟩)
      · exact Or.inl ⟨_, rfl, rfl⟩

theorem unchanged_of_setLabels (hknows : m.Knows .setLabels) (d : MemoryDevice) (now : Nat)
    (limit : Option Nat) (p : Payload)
    (hrefused : ((memory m d).dispatch now limit .setLabels p).2.status ≠ .success) :
    ((memory m d).dispatch now limit .setLabels p).1 = memory m d := by
  rcases setLabels_cases hknows d now limit p with ⟨s, -, hs⟩ | ⟨-, hnone⟩ | ⟨w, -, hwritten⟩
  · rw [hs]
  · rw [hnone]
  · rw [hwritten] at hrefused
    exact absurd rfl hrefused

/-! ## One operation -/

/-- What is turned down writes nothing. -/
theorem labelWritten?_of_refused {op : Opcode}
    (h : (e.dispatch now limit op p).2.status ≠ .success) :
    e.labelWritten? address now limit op p = none :=
  if_neg fun hwrites => h hwrites.2

theorem labelWritten?_of_ne {op : Opcode} (h : op ≠ .setLabels) :
    e.labelWritten? address now limit op p = none :=
  if_neg fun hwrites => h hwrites.1

theorem labelWritten?_of_success
    (h : (e.dispatch now limit .setLabels p).2.status = .success) :
    e.labelWritten? address now limit .setLabels p =
      match LabelWrite.ofPayload p with
      | .ok w => w.byte? address
      | .error _ => none :=
  if_pos ⟨rfl, h⟩

/-- A request gives the labels that it is said to give. -/
theorem labels_request (hcommands : m.HasMemoryCommands) (hknows : m.Knows .setLabels)
    {op : Opcode} (h : ((memory m d).dispatch now limit op p).1 = memory m' d') :
    d'.memory.labels = overlay
      (fun a => (memory m d).labelWritten? a now limit op p) d.memory.labels := by
  by_cases hop : op = .setLabels
  · subst hop
    rcases setLabels_cases hknows d now limit p with
      ⟨s, hs, hrefused⟩ | ⟨rfl, hnone⟩ | ⟨w, hread, hwritten⟩
    · have hstatus : ((memory m d).dispatch now limit .setLabels p).2.status ≠ .success := by
        rw [hrefused]
        rintro rfl
        cases hs
      simp only [labelWritten?_of_refused hstatus, overlay_none]
      rw [hrefused] at h
      cases h
      rfl
    · simp only [labelWritten?_of_success (congrArg (·.2.status) hnone)]
      rw [hnone] at h
      cases h
      exact (overlay_none _).symm
    · simp only [labelWritten?_of_success (congrArg (·.2.status) hwritten), hread]
      rw [hwritten] at h
      cases h
      exact d.memory.labels_writeLabels w
  · simp only [labelWritten?_of_ne hop, overlay_none]
    obtain ⟨m₁, d₁, response, hdispatch, houtcome⟩ := exists_outcome hcommands d now limit op p
    rw [hdispatch] at h
    cases h
    have hne {request : MemoryRequest} (hcarried : request.command.opcode = op) :
        request.command ≠ .setLabels := by
      intro hcommand
      rw [hcommand] at hcarried
      exact hop hcarried.symm
    cases houtcome with
    | refused | told | timeSet => rfl
    | served request _ reply hcarries =>
      exact (MemoryDevice.serves_of_serve hcarries.served).labels_of_ne (hne hcarries.opcode)
    | started request _ runtime hcarries =>
      exact (MemoryDevice.serves_of_serve hcarries.served).labels_of_ne (hne hcarries.opcode)

theorem endsSanitize_iff :
    e.endsSanitize now = true ↔ e.mailbox.background.opcode? = some .sanitize ∧
      (e.tick now).mailbox.background.opcode? ≠ some .sanitize := by
  rw [endsSanitize, Bool.and_eq_true, Bool.not_eq_true', Background.isRunningOp_iff,
    ← Bool.not_eq_true, Background.isRunningOp_iff]

/-- A look at the clock zeroes the labels if it ends a sanitize, and else keeps them. -/
theorem labels_tick (h : (memory m d).tick now = memory m' d') :
    d'.memory.labels = overlay
      (fun a => (memory m d).labelGiven? a (.tick now)) d.memory.labels := by
  obtain ⟨m₁, d₁, htick, hsteps⟩ := steps_tick m d now
  rw [h] at htick
  cases htick
  have hkept (hsame : m'.background.opcode? = m.background.opcode?) :
      d.memory.labels = overlay
        (fun a => (memory m d).labelGiven? a (.tick now)) d.memory.labels := by
    have hends : ¬ (memory m d).endsSanitize now = true := by
      rw [endsSanitize_iff, h]
      exact fun hends => hends.2 (hsame.trans hends.1)
    simp only [labelGiven?, if_neg hends, overlay_none]
  cases hsteps with
  | idle => exact hkept rfl
  | polled now percent r hrunning =>
    exact hkept (Background.opcode?_of_running hrunning).symm
  | finished now r hrunning =>
    have hopcode : (memory m d).mailbox.background.opcode? = some r.opcode :=
      Background.opcode?_of_running hrunning
    have hends : (memory m d).endsSanitize now = true ↔ r.opcode = .sanitize := by
      rw [endsSanitize_iff, h, hopcode, Option.some_inj]
      exact and_iff_left nofun
    rw [MemoryDevice.memory_finish]
    simp only [labelGiven?, hends]
    by_cases hsanitize : r.opcode = .sanitize
    · simp only [if_pos hsanitize, overlay_some]
      rfl
    · simp only [if_neg hsanitize, overlay_none]

/-- Every operation gives the labels that it is said to give, and keeps the others. -/
theorem labels_step (hcommands : m.HasMemoryCommands) (hknows : m.Knows .setLabels) {op : Op}
    (h : (memory m d).step op = memory m' d') :
    d'.memory.labels = overlay (fun a => (memory m d).labelGiven? a op) d.memory.labels := by
  cases op with
  | request now limit op p => exact labels_request hcommands hknows h
  | tick now => exact labels_tick h
  | mediaError | event | provision =>
    simp only [labelGiven?, overlay_none]
    obtain ⟨m₁, d₁, hafter, hsteps⟩ := steps_step hcommands d _
    rw [h] at hafter
    cases hafter
    cases hsteps <;> rfl

/-! ## Histories -/

/-- The labels that a device has had from the start hold what was given for them. -/
theorem labels_after {c : MemoryConfig} {media : Memory} (h : memoryDevice c media = .ok e)
    (past : List Op) :
    ∃ m d, e.after past = memory m d ∧ m.HasMemoryCommands ∧
      d.memory.labels = media.labels.mapIdx fun a initial => e.labelAt initial a past := by
  induction past with
  | nil =>
    obtain ⟨m, d, rfl, hcommands, -, rfl, -⟩ := exists_memory h
    exact ⟨m, d, rfl, hcommands, (overlay_none _).symm⟩
  | cons op past ih =>
    obtain ⟨m, d, hreached, hcommands, hlabels⟩ := ih
    obtain ⟨m', d', hafter, hsteps⟩ := steps_step hcommands d op
    have hknows : m.Knows .setLabels := knows_after h hreached (by decide)
    refine ⟨m', d', ?_, hsteps.hasMemoryCommands hcommands, ?_⟩
    · rw [after, hreached, hafter]
    · rw [labels_step hcommands hknows hafter, hlabels, overlay, List.mapIdx_mapIdx]
      simp only [labelAt, hreached]
      rfl

/-- **Label storage is an array of bytes.** Whatever has happened to a memory device: unless a
sanitize is running, labels are told exactly if they are there and the response has room for them,
and each is the byte that was given for it latest, or what it was at first; bytes are taken exactly
if there are labels for all of them. A request to write labels that is turned down changes nothing,
at any time. -/
theorem labels_byte_array {c : MemoryConfig} {media : Memory} (h : memoryDevice c media = .ok e)
    (hsize : media.labels.length ≤ Word.last32) (past : List Op) :
    ∃ m d, e.after past = memory m d ∧
      (m.background.opcode? ≠ some .sanitize →
        ∀ (now : Nat) (limit : Option Nat) (w : LabelWindow), w.Readable →
          (((memory m d).dispatch now limit .getLabels w.request).2.status = .success ↔
            w.offset + w.length ≤ media.labels.length ∧ w.length ≤ m.room limit) ∧
          ∀ payload, ((memory m d).dispatch now limit .getLabels w.request).2 =
              ⟨.success, payload⟩ →
            payload.length = w.length ∧ ∀ i < w.length, payload[i]? =
              some (e.labelAt (media.labels.getD (w.offset + i) 0) (w.offset + i) past)) ∧
      (m.background.opcode? ≠ some .sanitize →
        ∀ (now : Nat) (limit : Option Nat) (w : LabelWrite), w.offset ≤ Word.last32 →
          (((memory m d).dispatch now limit .setLabels w.request).2.status = .success ↔
            w.offset + w.data.length ≤ media.labels.length)) ∧
      ∀ (now : Nat) (limit : Option Nat) (p : Payload),
        ((memory m d).dispatch now limit .setLabels p).2.status ≠ .success →
        ((memory m d).dispatch now limit .setLabels p).1 = memory m d := by
  obtain ⟨m, d, hreached, -, hlabels⟩ := labels_after h past
  have hread : m.Knows .getLabels := knows_after h hreached (by decide)
  have hwrite : m.Knows .setLabels := knows_after h hreached (by decide)
  have hlength : d.memory.labels.length = media.labels.length := by
    rw [hlabels, List.length_mapIdx]
  have hlabelSize : d.memory.labelSize = media.labels.length := by
    rw [Memory.labelSize, hlength, Nat.min_eq_left hsize]
  refine ⟨m, d, hreached, fun hmedia now limit w hw => ?_, fun hmedia now limit w hw => ?_,
    unchanged_of_setLabels hwrite d⟩
  · rw [dispatch_getLabels hread hmedia hw, hlabelSize]
    split
    next hfits =>
      refine ⟨iff_of_true rfl hfits, fun payload hpayload => ?_⟩
      obtain rfl : d.memory.readLabels w.offset w.length = payload :=
        congrArg Response.payload hpayload
      refine ⟨Memory.length_readLabels (hlength ▸ hfits.1), fun i hi => ?_⟩
      have hin : w.offset + i < media.labels.length := by omega
      rw [d.memory.getElem?_readLabels hi, hlabels, List.getElem?_mapIdx,
        List.getD_eq_getElem?_getD, List.getElem?_eq_getElem hin]
      rfl
    next hfits => exact ⟨iff_of_false nofun hfits, nofun⟩
  · rw [dispatch_setLabels_request hwrite hmedia hw, hlabelSize]
    split
    next hfits => exact iff_of_true rfl hfits
    next hfits => exact iff_of_false nofun hfits

/-! ## Overlapping writes -/

theorem labelAt_setLabels {past : List Op} {initial : UInt8} {w : LabelWrite}
    (hwritten : ((e.after past).dispatch now limit .setLabels p).2.status = .success)
    (hread : LabelWrite.ofPayload p = .ok w) :
    e.labelAt initial address (.request now limit .setLabels p :: past) =
      (w.byte? address).getD (e.labelAt initial address past) := by
  rw [labelAt, labelGiven?, labelWritten?_of_success hwritten, hread]

/-- A memory device with the given labels. -/
def labelledWith (labels : List UInt8) : Endpoint :=
  .memory (.ofCommands memoryCommands 2048)
    { MemoryDevice.fresh with memory := { labelledConfig.memory with labels } }

theorem dispatch_labelledWith {labels : List UInt8} {w : LabelWrite} (hw : w.offset ≤ Word.last32)
    (hfits : w.offset + w.data.length ≤ min labels.length Word.last32) :
    (labelledWith labels).dispatch 0 none .setLabels w.request =
      (labelledWith (overlay w.byte? labels), ⟨.success, []⟩) := by
  have hknows : (Mailbox.ofCommands memoryCommands 2048).Knows .setLabels := rfl
  rw [labelledWith, dispatch_setLabels_request hknows nofun hw]
  refine (if_pos hfits).trans ?_
  rw [labelledWith, ← Memory.labels_writeLabels { labelledConfig.memory with labels } w]
  rfl

/-- All four labels are written, and then the third of them again. -/
def overlappingWrites : List Op :=
  [.request 0 none .setLabels (LabelWrite.request ⟨2, [9]⟩),
    .request 0 none .setLabels (LabelWrite.request ⟨0, [1, 2, 3, 4]⟩)]

theorem after_overlappingWrites :
    (labelledWith (zeros 4)).after overlappingWrites = labelledWith [1, 2, 9, 4] ∧
      ∀ a, (labelledWith (zeros 4)).labelAt 0 a overlappingWrites =
        ((LabelWrite.mk 2 [9]).byte? a).getD (((LabelWrite.mk 0 [1, 2, 3, 4]).byte? a).getD 0) := by
  have hfirst : (labelledWith (zeros 4)).dispatch 0 none .setLabels
      (LabelWrite.request ⟨0, [1, 2, 3, 4]⟩) = (labelledWith [1, 2, 3, 4], ⟨.success, []⟩) :=
    dispatch_labelledWith (by decide) (by decide)
  have hsecond : (labelledWith [1, 2, 3, 4]).dispatch 0 none .setLabels
      (LabelWrite.request ⟨2, [9]⟩) = (labelledWith [1, 2, 9, 4], ⟨.success, []⟩) :=
    dispatch_labelledWith (by decide) (by decide)
  constructor
  · rw [overlappingWrites, after, step, after, step, after, hfirst, hsecond]
  · intro a
    have hread₁ := LabelWrite.ofPayload_request (w := ⟨0, [1, 2, 3, 4]⟩) (by decide)
    have hread₂ := LabelWrite.ofPayload_request (w := ⟨2, [9]⟩) (by decide)
    rw [overlappingWrites, labelAt_setLabels _ hread₂, labelAt_setLabels _ hread₁]
    · rfl
    · rw [after, hfirst]
    · rw [after, step, after, hfirst, hsecond]

/-- The host reads the last three of them. -/
theorem labels_byte_array_overlapping :
    memoryDevice labelledConfig labelledConfig.memory = .ok (labelledWith (zeros 4)) ∧
      labelledConfig.memory.labels.length ≤ Word.last32 ∧
      ∃ m d, (labelledWith (zeros 4)).after overlappingWrites = memory m d ∧
        ((memory m d).dispatch 0 none .getLabels (LabelWindow.request ⟨1, 3⟩)).2 =
          ⟨.success, [2, 9, 4]⟩ := by
  have hnew : memoryDevice labelledConfig labelledConfig.memory =
      .ok (labelledWith (zeros 4)) := rfl
  have hsize : labelledConfig.memory.labels.length ≤ Word.last32 := by decide
  obtain ⟨hafter, hlabelAt⟩ := after_overlappingWrites
  obtain ⟨m, d, hreached, hget, -, -⟩ := labels_byte_array hnew hsize overlappingWrites
  obtain ⟨rfl, rfl⟩ := Endpoint.memory.inj (hreached.symm.trans hafter)
  obtain ⟨hsuccess, hbytes⟩ := hget nofun 0 none ⟨1, 3⟩ ⟨by decide, by decide⟩
  refine ⟨hnew, hsize, _, _, hreached, ?_⟩
  have hstatus := hsuccess.mpr ⟨by decide, by decide⟩
  generalize ((memory _ _).dispatch 0 none .getLabels (LabelWindow.request ⟨1, 3⟩)).2 = answer at *
  obtain ⟨status, payload⟩ := answer
  obtain rfl : status = .success := hstatus
  obtain ⟨hlength, hbyte⟩ := hbytes payload rfl
  have hzero (a : Nat) : labelledConfig.memory.labels.getD a 0 = 0 := by
    rw [List.getD_eq_getElem?_getD, show labelledConfig.memory.labels = List.replicate 4 0 from rfl,
      List.getElem?_replicate]
    split <;> rfl
  simp only [hzero, hlabelAt] at hbyte
  obtain ⟨x, y, z, rfl⟩ := List.length_eq_three.mp hlength
  obtain rfl : x = 2 := Option.some.inj (hbyte 0 (by decide))
  obtain rfl : y = 9 := Option.some.inj (hbyte 1 (by decide))
  obtain rfl : z = 4 := Option.some.inj (hbyte 2 (by decide))
  rfl

end CxlEndpoint.Endpoint
