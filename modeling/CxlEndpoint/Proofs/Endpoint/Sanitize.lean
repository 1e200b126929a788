import CxlEndpoint.Proofs.Endpoint.History

/-!
# While a sanitize is running

A sanitize takes media out of service until it is over. Nothing but a look at the clock can end it,
and until then no request gets at what it erases.

* `Carries.not_mem_mediaCommands`, `Carries.not_runsInBackground`: what the mailbox keeps from
  being carried out.
* `Outcome.unchanged_of_sanitizing`: what stays as it is, whatever is asked for.
* `MediaOut`: media is disabled exactly while a sanitize is running. `MediaOut.step` keeps it.
* `sanitize_window`: all of this in the course of every history of a new device.
-/

namespace CxlEndpoint

namespace MemoryDevice

variable {d d' : MemoryDevice} {c : Conditions} {request : MemoryRequest} {reply : Reply}

/-- Only what goes on in the background touches the media flag. -/
theorem Serves.mediaEnabled_of_done (h : d.Serves c request d' reply)
    (hdone : reply.completion = .done) : d'.memory.mediaEnabled = d.memory.mediaEnabled := by
  cases h with
  | told | events | labels | injected | results | ledger => rfl
  | cleared address data memory hmemory => rw [Memory.eq_of_writeLine? hmemory]
  | scanning | sanitizing => cases hdone

end MemoryDevice

namespace Endpoint

variable {m m' : Mailbox} {d d' : MemoryDevice} {now room : Nat} {op : Opcode} {p : Payload}
  {request : MemoryRequest} {reply : Reply} {response : Response} {e : Endpoint} {past : List Op}

/-! ## What is turned down -/

theorem Carries.not_mem_mediaCommands (h : Carries m d now room op p request d' reply)
    (hsanitize : m.background.opcode? = some .sanitize) :
    request.command.opcode ∉ mediaCommands := by
  rw [h.opcode]
  exact (Mailbox.accept_eq_ok_iff.mp h.accepted).2.2.2 (Background.isRunningOp_iff.mpr hsanitize)

theorem Carries.not_runsInBackground (h : Carries m d now room op p request d' reply)
    {running : Opcode} (hrunning : m.background.opcode? = some running) :
    (Command.standard request.command).runsInBackground = false := by
  refine Bool.eq_false_iff.mpr fun hruns => ?_
  have hidle := (Mailbox.accept_eq_ok_iff.mp h.accepted).2.2.1 hruns
  rw [Background.opcode?_eq_none_iff.mpr hidle] at hrunning
  cases hrunning

/-- While a sanitize is running, no request changes the memory or the list of poisoned lines. -/
theorem Outcome.unchanged_of_sanitizing (h : Outcome m d now room op p (memory m' d') response)
    (hsanitize : m.background.opcode? = some .sanitize) :
    d'.memory = d.memory ∧ d'.poison.live = d.poison.live ∧ m'.background = m.background := by
  cases h with
  | refused | told | timeSet => exact ⟨rfl, rfl, rfl⟩
  | served request _ reply hcarries hdone =>
    have hmedia := hcarries.not_mem_mediaCommands hsanitize
    cases MemoryDevice.serves_of_serve hcarries.served with
    | told | events | results | ledger => exact ⟨rfl, rfl, rfl⟩
    | labels => exact absurd (show Opcode.setLabels ∈ mediaCommands by decide) hmedia
    | injected => exact absurd (show Opcode.injectPoison ∈ mediaCommands by decide) hmedia
    | cleared => exact absurd (show Opcode.clearPoison ∈ mediaCommands by decide) hmedia
    | scanning | sanitizing => cases hdone
  | started request _ runtime hcarries =>
    have hrequest := (MemoryDevice.serves_of_serve hcarries.served).of_background rfl
    have hruns := runsInBackground_command hrequest.1
    rw [hcarries.not_runsInBackground hsanitize] at hruns
    cases hruns

/-! ## The media flag -/

/-- Media is disabled exactly while a sanitize is running. -/
def MediaOut (m : Mailbox) (d : MemoryDevice) : Prop :=
  d.memory.mediaEnabled = false ↔ m.background.opcode? = some .sanitize

theorem MediaOut.of_outcome (h : MediaOut m d)
    (houtcome : Outcome m d now room op p (memory m' d') response) : MediaOut m' d' := by
  cases houtcome with
  | refused | told | timeSet => exact h
  | served request _ reply hcarries hdone =>
    have hmedia := (MemoryDevice.serves_of_serve hcarries.served).mediaEnabled_of_done hdone
    rwa [MediaOut, hmedia]
  | started request _ runtime hcarries hidle =>
    have hnone := Background.opcode?_eq_none_iff.mpr hidle
    have hopcode := hcarries.opcode
    cases MemoryDevice.serves_of_serve hcarries.served with
    | scanning r length =>
      subst hopcode
      have hscan : Opcode.scanMedia ≠ .sanitize := by decide
      rw [MediaOut, hnone] at h
      exact ⟨fun hdisabled => absurd (h.mp hdisabled) nofun,
        fun hrunning => absurd (Option.some.inj hrunning) hscan⟩
    | sanitizing =>
      subst hopcode
      exact ⟨fun _ => rfl, fun _ => rfl⟩

theorem MediaOut.step {o : Op} (h : MediaOut m d) (hcommands : m.HasMemoryCommands)
    (hstep : (memory m d).step o = memory m' d') : MediaOut m' d' := by
  obtain ⟨m₁, d₁, hreached, hsteps⟩ := steps_step hcommands d o
  obtain ⟨rfl, rfl⟩ := Endpoint.memory.inj (hreached.symm.trans hstep)
  cases o with
  | request now limit op p =>
    have houtcome := outcome_dispatch hcommands d now limit op p
    rw [show ((memory m d).dispatch now limit op p).1 = memory m₁ d₁ from hstep] at houtcome
    exact h.of_outcome houtcome
  | tick now =>
    cases hsteps with
    | idle => exact h
    | polled now percent r hrunning =>
      have hopcode : (Background.mk (some { r with nextTick := Word.addSat now tickInterval })
          percent).opcode? = m.background.opcode? := by
        simp only [Background.opcode?, hrunning, Option.map_some]
      rwa [MediaOut, hopcode]
    | finished now r hrunning =>
      rw [MediaOut, Background.opcode?, hrunning] at h
      rw [MediaOut, MemoryDevice.memory_finish]
      by_cases hsanitize : r.opcode = .sanitize
      · rw [if_pos hsanitize]
        simp [Background.opcode?, Mailbox.notify]
      · rw [if_neg hsanitize]
        exact iff_of_false (fun hdisabled => hsanitize (Option.some.inj (h.mp hdisabled)))
          (Option.some_ne_none _).symm
  | mediaError now start length kind =>
    cases hsteps with
    | idle | mediaError => exact h
  | event now log r =>
    cases hsteps with
    | idle | event => exact h
  | provision extent =>
    cases hsteps with
    | idle | provision => exact h

theorem mediaOut_after {c : MemoryConfig} {memory : Memory} (h : memoryDevice c memory = .ok e)
    (henabled : memory.mediaEnabled = true) (past : List Op) :
    ∃ m d, e.after past = .memory m d ∧ m.HasMemoryCommands ∧ MediaOut m d := by
  obtain ⟨m, d, rfl, hcommands, hidle, rfl, -⟩ := exists_memory h
  refine exists_after ⟨m, d, rfl, hcommands, ?_⟩
    (fun _ _ _ _ _ hcommands hmedia hstep => hmedia.step hcommands hstep) past
  rw [MediaOut, henabled, hidle]
  decide

/-- The look at the clock that ends a sanitize. -/
theorem finish_of_tick (hsanitize : m.background.opcode? = some .sanitize)
    (hends : ((memory m d).tick now).mailbox.background.opcode? ≠ some .sanitize) :
    ∃ m', (memory m d).tick now = memory m' (d.finish .sanitize) := by
  obtain ⟨m', d', htick, hsteps⟩ := steps_tick m d now
  rw [htick] at hends
  cases hsteps with
  | idle => exact absurd hsanitize hends
  | polled now percent r hrunning =>
    simp only [mailbox, Background.opcode?, hrunning, Option.map_some] at hsanitize hends
    exact absurd hsanitize hends
  | finished now r hrunning =>
    rw [Background.opcode?, hrunning] at hsanitize
    rw [← Option.some.inj hsanitize]
    exact ⟨_, htick⟩

/-- **Media is out of service exactly while a sanitize is running**, if it was in service at first.
While it is running, no request of any kind changes what is stored, the media flag or the list of
poisoned lines, and when a look at the clock has ended it, no line and no label is left. -/
theorem sanitize_window {c : MemoryConfig} {memory : Memory} (h : memoryDevice c memory = .ok e)
    (henabled : memory.mediaEnabled = true) (past : List Op) :
    ∃ m d, e.after past = .memory m d ∧
      (d.memory.mediaEnabled = false ↔ m.background.opcode? = some .sanitize) ∧
      (m.background.opcode? = some .sanitize →
        (∀ now limit op p, ∃ m' d' response,
          (Endpoint.memory m d).dispatch now limit op p = (.memory m' d', response) ∧
            d'.memory = d.memory ∧ d'.poison.live = d.poison.live ∧
            m'.background = m.background) ∧
        ∀ now, ((Endpoint.memory m d).tick now).mailbox.background.opcode? ≠ some .sanitize →
          ∃ m' d', (Endpoint.memory m d).tick now = .memory m' d' ∧ d'.memory.lines = [] ∧
            d'.memory.labels.length = d.memory.labels.length ∧
            (∀ b ∈ d'.memory.labels, b = 0) ∧ d'.memory.mediaEnabled = true) := by
  obtain ⟨m, d, hreached, hcommands, hmedia⟩ := mediaOut_after h henabled past
  refine ⟨m, d, hreached, hmedia, fun hsanitize => ⟨fun now limit op p => ?_, fun now hends => ?_⟩⟩
  · obtain ⟨m', d', response, hdispatch, houtcome⟩ := exists_outcome hcommands d now limit op p
    exact ⟨m', d', response, hdispatch, houtcome.unchanged_of_sanitizing hsanitize⟩
  · obtain ⟨m', htick⟩ := finish_of_tick hsanitize hends
    refine ⟨m', _, htick, ?_⟩
    rw [MemoryDevice.memory_finish, if_pos rfl]
    exact ⟨rfl, List.length_replicate, fun b hb => List.eq_of_mem_replicate hb, rfl⟩

/-- Four bytes of label storage. -/
def labelledConfig : MemoryConfig := { labelBytes := 4 }

/-- A new memory device with them. -/
def labelled : Endpoint :=
  .memory (.ofCommands memoryCommands 2048)
    { MemoryDevice.fresh with memory := labelledConfig.memory }

/-- Labels are written, and then a sanitize is begun. -/
def labelHistory : List Op :=
  [.request 0 none .sanitize [], .request 0 none .setLabels (zeros 8 ++ [1, 2, 3, 4])]

theorem after_labelHistory :
    ∃ m d, labelled.after labelHistory = .memory m d ∧ d.memory.labels = [1, 2, 3, 4] ∧
      m.background = .start .sanitize 0 4000 := by
  have hwrite : Request.ofPayload .setLabels (zeros 8 ++ [1, 2, 3, 4]) =
      .ok (.direct (.memory (.setLabels ⟨0, [1, 2, 3, 4]⟩))) := rfl
  have hsanitize : Request.ofPayload .sanitize [] = .ok (.direct (.memory .sanitize)) := rfl
  have hwritten : labelled.dispatch 0 none .setLabels (zeros 8 ++ [1, 2, 3, 4]) = _ :=
    dispatch_of_direct (c := .standard .setLabels) rfl rfl hwrite
  have hbegun : (labelled.dispatch 0 none .setLabels (zeros 8 ++ [1, 2, 3, 4])).1.dispatch 0 none
      .sanitize [] = _ :=
    dispatch_of_direct (c := .standard .sanitize) (by rw [hwritten]; rfl) rfl hsanitize
  simp only [labelHistory, after, step, hbegun]
  rw [hwritten]
  exact ⟨_, _, rfl, rfl, rfl⟩

theorem sanitize_window_labels :
    memoryDevice labelledConfig labelledConfig.memory = .ok labelled ∧
      ∃ m d, labelled.after labelHistory = .memory m d ∧ m.background.opcode? = some .sanitize ∧
        d.memory.mediaEnabled = false ∧ d.memory.labels = [1, 2, 3, 4] ∧
        ∃ m' d', (memory m d).tick 4000 = .memory m' d' ∧ d'.memory.labels.length = 4 ∧
          (∀ b ∈ d'.memory.labels, b = 0) ∧ d'.memory.mediaEnabled = true := by
  have hnew : memoryDevice labelledConfig labelledConfig.memory = .ok labelled := rfl
  obtain ⟨m, d, hafter, hmedia, hwindow⟩ := sanitize_window hnew rfl labelHistory
  obtain ⟨m', d', hafter', hlabels, hbackground⟩ := after_labelHistory
  obtain ⟨rfl, rfl⟩ := Endpoint.memory.inj (hafter.symm.trans hafter')
  have hsanitize : m.background.opcode? = some .sanitize := by rw [hbackground]; rfl
  have hends : ((memory m d).tick 4000).mailbox.background.opcode? ≠ some .sanitize := by
    have hdue : (memory m d).nextTick? = some 1000 := by rw [nextTick?, mailbox, hbackground]; rfl
    have hover : (memory m d).mailbox.background.poll 4000 = (⟨none, 100⟩, some .sanitize) := by
      rw [mailbox, hbackground]
      rfl
    rw [tick, hdue]
    simp only [hover]
    exact (Option.some_ne_none _).symm
  obtain ⟨m', d', htick, -, hlength, hzero, henabled⟩ := (hwindow hsanitize).2 4000 hends
  exact ⟨hnew, m, d, hafter, hsanitize, hmedia.mpr hsanitize, hlabels, m', d', htick,
    by rw [hlength, hlabels]; rfl, hzero, henabled⟩

end Endpoint

end CxlEndpoint
