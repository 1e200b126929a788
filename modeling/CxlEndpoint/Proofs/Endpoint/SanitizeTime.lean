import CxlEndpoint.Proofs.Endpoint.Injection

/-!
# How long a sanitize takes

* `sanitizeSeconds_le_iff`: of two sizes the first takes no longer if it fits each step that the
  second one fits.
* `StartsSanitize`, `startsSanitize`: the runtime with which a sanitize is begun depends on static
  capacity alone.
* `sanitize_ordered_iff`: when a device takes no longer than another. `not_sanitize_ordered` is a
  device that takes less time than a smaller one.
-/

namespace CxlEndpoint

/-! ## Steps -/

section Steps

variable {steps : List (Nat × Nat)} {step : Nat × Nat} {rest a b bound n : Nat}

/-- The time for `n` by a table of steps, and `rest` beyond the last of them. -/
def timeFor (steps : List (Nat × Nat)) (rest n : Nat) : Nat :=
  (steps.find? (n ≤ ·.1)).elim rest (·.2)

theorem timeFor_of_le (h : n ≤ step.1) : timeFor (step :: steps) rest n = step.2 := by
  rw [timeFor, List.find?_cons_of_pos (by simpa using h)]
  rfl

theorem timeFor_of_lt (h : step.1 < n) : timeFor (step :: steps) rest n = timeFor steps rest n := by
  rw [timeFor, List.find?_cons_of_neg (by simpa using h)]
  rfl

theorem lt_timeFor (h : ∀ step ∈ steps, bound < step.2) (hrest : bound < rest) :
    bound < timeFor steps rest n := by
  unfold timeFor
  cases hfind : steps.find? (n ≤ ·.1) with
  | none => exact hrest
  | some step => exact h step (List.mem_of_find?_eq_some hfind)

/-- The times tell apart what the steps tell apart. -/
theorem timeFor_le_iff (hsteps : steps.Pairwise fun s t => s.1 ≤ t.1 ∧ s.2 < t.2)
    (hrest : ∀ step ∈ steps, step.2 < rest) :
    timeFor steps rest a ≤ timeFor steps rest b ↔ ∀ step ∈ steps, b ≤ step.1 → a ≤ step.1 := by
  -- the induction is on the table: what does not fit its first step takes longer than what does
  induction steps with
  | nil => exact iff_of_true (Nat.le_refl _) nofun
  | cons step steps ih =>
    obtain ⟨hbelow, hsteps⟩ := List.pairwise_cons.mp hsteps
    obtain ⟨hstep, hrest⟩ := List.forall_mem_cons.mp hrest
    have hlater (n : Nat) : step.2 < timeFor steps rest n :=
      lt_timeFor (fun t ht => (hbelow t ht).2) hstep
    rw [List.forall_mem_cons]
    by_cases ha : a ≤ step.1
    · have hfits : ∀ t ∈ steps, b ≤ t.1 → a ≤ t.1 := fun t ht _ => Nat.le_trans ha (hbelow t ht).1
      refine iff_of_true ?_ ⟨fun _ => ha, hfits⟩
      rw [timeFor_of_le ha]
      by_cases hb : b ≤ step.1
      · rw [timeFor_of_le hb]
      · rw [timeFor_of_lt (Nat.lt_of_not_le hb)]
        exact Nat.le_of_lt (hlater b)
    · rw [timeFor_of_lt (Nat.lt_of_not_le ha)]
      by_cases hb : b ≤ step.1
      · rw [timeFor_of_le hb]
        exact iff_of_false (Nat.not_le_of_lt (hlater a)) fun h => ha (h.1 hb)
      · rw [timeFor_of_lt (Nat.lt_of_not_le hb), ih hsteps hrest]
        exact (and_iff_right fun h => absurd h hb).symm

theorem sanitizeSeconds_eq_timeFor (n : Nat) :
    sanitizeSeconds n = timeFor sanitizeSteps (4 * 3600) n := by
  unfold sanitizeSeconds timeFor
  split
  next hfind => rw [hfind]; rfl
  next hfind => rw [hfind]; rfl

/-- Of two sizes the first takes no longer if it fits each step that the second one fits. -/
theorem sanitizeSeconds_le_iff :
    sanitizeSeconds a ≤ sanitizeSeconds b ↔ ∀ step ∈ sanitizeSteps, b ≤ step.1 → a ≤ step.1 := by
  rw [sanitizeSeconds_eq_timeFor, sanitizeSeconds_eq_timeFor]
  exact timeFor_le_iff (by decide) (by decide)

theorem sanitizeSeconds_mono (h : a ≤ b) : sanitizeSeconds a ≤ sanitizeSeconds b :=
  sanitizeSeconds_le_iff.mpr fun _ _ hb => Nat.le_trans h hb

end Steps

namespace Endpoint

variable {m : Mailbox} {d : MemoryDevice} {e e₀ eA eB : Endpoint} {c cA cB : MemoryConfig}
  {media mediaA mediaB : Memory} {runtime runtime' : Nat}

/-! ## Beginning a sanitize -/

/-- Static capacity and decoded regions together. -/
def totalCapacity (e : Endpoint) : Nat := e.device?.elim 0 (·.provisionedCapacity)

/-- Whenever the host asks for a sanitize, one is begun that runs for `runtime` milliseconds. -/
def StartsSanitize (e : Endpoint) (runtime : Nat) : Prop :=
  ∀ now limit, ∃ e', e.dispatch now limit .sanitize [] = (e', ⟨.backgroundStarted, []⟩) ∧
    e'.mailbox.background = .start .sanitize now runtime

theorem StartsSanitize.unique (h : e.StartsSanitize runtime) (h' : e.StartsSanitize runtime') :
    runtime = runtime' := by
  obtain ⟨e₁, hdispatch, hstart⟩ := h 0 none
  obtain ⟨e₂, hdispatch', hstart'⟩ := h' 0 none
  obtain ⟨rfl, -⟩ := Prod.mk.inj (hdispatch.symm.trans hdispatch')
  have hrunning := congrArg Background.running (hstart.symm.trans hstart')
  exact congrArg RunningOperation.runtime (Option.some.inj hrunning)

/-- While nothing runs in the background, a sanitize is begun. -/
theorem startsSanitize (hknows : m.Knows .sanitize) (hidle : m.background.isRunning = false)
    (d : MemoryDevice) :
    (memory m d).StartsSanitize (sanitizeSeconds (d.memory.staticCapacity / mebibyte) * 1000) := by
  intro now limit
  have haccept : m.accept .sanitize [] = .ok (.standard .sanitize) :=
    hknows.accept_of_idle hidle rfl
  have hread : Request.ofPayload .sanitize [] = .ok (.direct (.memory .sanitize)) := rfl
  have hdispatch : (memory m d).dispatch now limit .sanitize [] = _ :=
    dispatch_of_serve haccept rfl hread (d.serve_sanitize _)
  rw [hdispatch, settle_of_background (Nat.zero_le _) rfl rfl]
  refine ⟨_, rfl, ?_⟩
  rw [mailbox_withMailbox]
  rfl

/-- A history changes neither static nor total capacity. The total is not held at the last word: the
layout has been refused otherwise. -/
theorem capacities_after (hnew : memoryDevice c media = .ok e₀) (past : List Op) :
    ∃ m d, e₀.after past = memory m d ∧ d.memory.staticCapacity = media.staticCapacity ∧
      d.provisionedCapacity = media.staticCapacity + RegionConfig.decodedBytes c.regions := by
  obtain ⟨regions, m, d, hlayout, -, hreached, hsame⟩ := sameCapacity_after hnew past
  obtain ⟨-, hfits, rfl⟩ := MemoryConfig.layout_eq_ok_iff.mp hlayout
  have hstatic : d.memory.staticCapacity = media.staticCapacity := by
    rw [Memory.staticCapacity, hsame.volatileCapacity, hsame.persistentCapacity]
    rfl
  have hround : media.staticCapacity ≤ Word.roundUp media.staticCapacity capacityUnit :=
    Word.le_roundUp (by decide) (Word.addSat_le_last _ _)
  refine ⟨m, d, hreached, hstatic, ?_⟩
  rw [MemoryDevice.provisionedCapacity, hsame.regions, hstatic]
  show Word.addSat _ (RegionConfig.tile _ c.regions).totalCapacity = _
  rw [RegionConfig.totalCapacity_tile]
  exact Word.addSat_eq_add (by omega)

theorem startsSanitize_after (hnew : memoryDevice c media = .ok e₀) (past : List Op)
    (hidle : (e₀.after past).mailbox.background.isRunning = false) :
    (e₀.after past).StartsSanitize
      (sanitizeSeconds (media.staticCapacity / mebibyte) * 1000) := by
  obtain ⟨m, d, hreached, hstatic, -⟩ := capacities_after hnew past
  rw [hreached] at hidle ⊢
  rw [← hstatic]
  exact startsSanitize (knows_after hnew hreached (by decide)) hidle d

theorem totalCapacity_after (hnew : memoryDevice c media = .ok e₀) (past : List Op) :
    (e₀.after past).totalCapacity =
      media.staticCapacity + RegionConfig.decodedBytes c.regions := by
  obtain ⟨m, d, hreached, -, htotal⟩ := capacities_after hnew past
  rw [hreached]
  exact htotal

/-- **Of two devices the first takes no longer exactly if its static capacity fits each step that
the other's fits.** Regions make no difference. So a device of greater total capacity takes no less
time if no more of it is dynamic, and otherwise it may take less. -/
theorem sanitize_ordered_iff (hA : memoryDevice cA mediaA = .ok eA)
    (hB : memoryDevice cB mediaB = .ok eB) (pastA pastB : List Op)
    (hidleA : (eA.after pastA).mailbox.background.isRunning = false)
    (hidleB : (eB.after pastB).mailbox.background.isRunning = false) :
    ∃ a b, (eA.after pastA).StartsSanitize a ∧ (eB.after pastB).StartsSanitize b ∧
      (a ≤ b ↔ ∀ step ∈ sanitizeSteps,
        mediaB.staticCapacity / mebibyte ≤ step.1 → mediaA.staticCapacity / mebibyte ≤ step.1) ∧
      ((eA.after pastA).totalCapacity ≤ (eB.after pastB).totalCapacity →
        RegionConfig.decodedBytes cB.regions ≤ RegionConfig.decodedBytes cA.regions → a ≤ b) := by
  refine ⟨_, _, startsSanitize_after hA pastA hidleA, startsSanitize_after hB pastB hidleB, ?_, ?_⟩
  · rw [Nat.mul_le_mul_right_iff (by decide)]
    exact sanitizeSeconds_le_iff
  · intro htotal hdynamic
    rw [totalCapacity_after hA, totalCapacity_after hB] at htotal
    have hstatic : mediaA.staticCapacity ≤ mediaB.staticCapacity := by omega
    exact Nat.mul_le_mul_right _ (sanitizeSeconds_mono (Nat.div_le_div_right hstatic))

/-- A gibibyte of static capacity. -/
def gibibyteConfig : MemoryConfig := { persistentCapacity := 0x40000000 }

/-- A new device with this capacity. -/
def gibibyteDevice : Endpoint :=
  .memory (.ofCommands memoryCommands 2048)
    { identity := gibibyteConfig.identity, memory := gibibyteConfig.memory }

theorem memoryDevice_gibibyte : memoryDevice gibibyteConfig gibibyteConfig.memory =
    .ok gibibyteDevice := rfl

theorem startsSanitize_gibibyte : gibibyteDevice.StartsSanitize 8000 :=
  startsSanitize_after memoryDevice_gibibyte [] rfl

/-- The larger device takes longer, whatever has become of both of them. -/
theorem sanitize_ordered_iff_gibibyte :
    memoryDevice {} ({} : MemoryConfig).memory = .ok newDevice ∧
      memoryDevice gibibyteConfig gibibyteConfig.memory = .ok gibibyteDevice ∧
      (newDevice.after [.mediaError 0 0 64 .internal]).mailbox.background.isRunning = false ∧
      (gibibyteDevice.after []).mailbox.background.isRunning = false ∧
      (newDevice.after [.mediaError 0 0 64 .internal]).totalCapacity ≤
        (gibibyteDevice.after []).totalCapacity ∧
      ∃ a, (newDevice.after [.mediaError 0 0 64 .internal]).StartsSanitize a ∧ a ≤ 8000 := by
  have hnew : memoryDevice {} ({} : MemoryConfig).memory = .ok newDevice := rfl
  have htotal : (newDevice.after [.mediaError 0 0 64 .internal]).totalCapacity ≤
      (gibibyteDevice.after []).totalCapacity := by
    rw [totalCapacity_after hnew, totalCapacity_after memoryDevice_gibibyte]
    decide
  obtain ⟨a, b, ha, hb, -, hordered⟩ := sanitize_ordered_iff hnew memoryDevice_gibibyte
    [.mediaError 0 0 64 .internal] [] rfl rfl
  obtain rfl := hb.unique startsSanitize_gibibyte
  exact ⟨hnew, memoryDevice_gibibyte, rfl, rfl, htotal, a, ha, hordered htotal (by decide)⟩

/-- A gibibyte of dynamic capacity behind a quarter of it that is static. -/
def dynamicConfig : MemoryConfig := { regions := [{ length := 0x40000000 }] }

/-- The region of `dynamicConfig`. -/
def dynamicTable : RegionTable := [⟨0x10000000, 0x40000000, 0x40000000, 0x200000, 0, 0⟩]

/-- A new device with this region. -/
def dynamicDevice : Endpoint :=
  .memory (.ofCommands (memoryCommands ++ capacityCommands) 2048)
    { identity := dynamicConfig.identity, memory := dynamicConfig.memory
      ledger := { regions := dynamicTable } }

theorem memoryDevice_dynamic : memoryDevice dynamicConfig dynamicConfig.memory =
    .ok dynamicDevice := by
  have hlayout : dynamicConfig.layout dynamicConfig.memory.staticCapacity = .ok dynamicTable := by
    show dynamicConfig.layout (Word.addSat 0 0x10000000) = .ok dynamicTable
    decide
  exact memoryDevice_of_layout hlayout (by decide)

/-- A device of greater total capacity may take less time: of 1280 MiB, four seconds are enough for
the 256 that are static, where 1024 MiB take eight. -/
theorem not_sanitize_ordered :
    ¬ ∀ (cA cB : MemoryConfig) (eA eB : Endpoint), memoryDevice cA cA.memory = .ok eA →
      memoryDevice cB cB.memory = .ok eB → eA.totalCapacity ≤ eB.totalCapacity →
        ∀ a b, eA.StartsSanitize a → eB.StartsSanitize b → a ≤ b := by
  intro h
  have hfast : dynamicDevice.StartsSanitize 4000 :=
    startsSanitize_after memoryDevice_dynamic [] rfl
  have htotal : gibibyteDevice.totalCapacity ≤ dynamicDevice.totalCapacity := by decide
  have hordered := h _ _ _ _ memoryDevice_gibibyte memoryDevice_dynamic htotal _ _
    startsSanitize_gibibyte hfast
  exact absurd hordered (by decide)

end Endpoint

end CxlEndpoint
