import CxlEndpoint.Background.Checked
import CxlEndpoint.Message.Component
import Mathlib.Data.List.Basic

/-!
# The progress of a background operation

* `Background.poll_poll`: an earlier poll leaves no trace in what a later one finds, so of a series
  of `polls` only the last one counts (`polls_concat`).
* `Background.percent_polls_mono`: the progress never decreases.
* `Background.Shows`: what the tracker says of an operation at the time of the latest poll. It does
  after every series of polls (`shows_polls`).
* `Background.pollChecked_eq`: no poll divides by zero.
* `ProgressReport.ofPayload?`: the report, as the host reads it. `ofPayload?_toPayload`: it is the
  one that was written.
-/

namespace CxlEndpoint

namespace Background

variable {b : Background} {op : Opcode} {begun runtime now later : Nat} {r : RunningOperation}
  {times more : List Nat}

/-! ## One poll -/

/-- What a poll finds does not depend on earlier polls. -/
theorem poll_poll (b : Background) (h : now ≤ later) :
    ((b.poll now).1.poll later).1 = (b.poll later).1 := by
  cases hrunning : b.running with
  | none => rw [poll_of_idle hrunning now]
  | some r =>
    have helapsed : now - r.start ≤ later - r.start := Nat.sub_le_sub_right h r.start
    by_cases hover : r.runtime ≤ now - r.start
    · rw [poll_of_over hrunning hover,
        poll_of_over hrunning (Nat.le_trans hover helapsed), poll_of_idle rfl later]
    · rw [poll_of_lasting hrunning (Nat.lt_of_not_le hover)]
      by_cases hlater : r.runtime ≤ later - r.start
      · rw [poll_of_over hrunning hlater]
        exact congrArg Prod.fst
          (poll_of_over (r := { r with nextTick := Word.addSat now tickInterval }) rfl hlater)
      · rw [poll_of_lasting hrunning (Nat.lt_of_not_le hlater)]
        exact congrArg Prod.fst
          (poll_of_lasting (r := { r with nextTick := Word.addSat now tickInterval }) rfl
            (Nat.lt_of_not_le hlater))

theorem percent_poll_mono (b : Background) (h : now ≤ later) :
    (b.poll now).1.percent ≤ (b.poll later).1.percent := by
  cases hrunning : b.running with
  | none => exact Nat.le_of_eq (by rw [poll_of_idle hrunning, poll_of_idle hrunning])
  | some r =>
    have helapsed : now - r.start ≤ later - r.start := Nat.sub_le_sub_right h r.start
    by_cases hover : r.runtime ≤ now - r.start
    · have hlater : r.runtime ≤ later - r.start := Nat.le_trans hover helapsed
      exact Nat.le_of_eq (by rw [poll_of_over hrunning hover, poll_of_over hrunning hlater])
    · rw [poll_of_lasting hrunning (Nat.lt_of_not_le hover)]
      by_cases hlater : r.runtime ≤ later - r.start
      · rw [poll_of_over hrunning hlater]
        exact Nat.le_trans (Nat.min_le_right _ _) (show 99 ≤ 100 by decide)
      · rw [poll_of_lasting hrunning (Nat.lt_of_not_le hlater)]
        have hproduct : Word.mulSat (now - r.start) 100 ≤ Word.mulSat (later - r.start) 100 := by
          unfold Word.mulSat
          omega
        have hquotient := Nat.div_le_div_right (c := r.runtime) hproduct
        show min _ 99 ≤ min _ 99
        omega

/-- The runtime is not zero where it divides. -/
theorem pollChecked_eq (b : Background) (now : Nat) : b.pollChecked now = some (b.poll now) := by
  cases hrunning : b.running with
  | none => rw [pollChecked, hrunning, poll_of_idle hrunning]
  | some r =>
    rw [pollChecked, hrunning]
    by_cases hover : r.runtime ≤ now - r.start
    · rw [poll_of_over hrunning hover]
      exact if_pos hover
    · have hpos : r.runtime ≠ 0 := by omega
      rw [poll_of_lasting hrunning (by omega)]
      simp only [if_neg hover, Word.div?, if_neg hpos, Option.map_some]

/-! ## A series of polls -/

/-- The tracker after polls at `times`, of which the earliest comes first. -/
def polls (b : Background) (times : List Nat) : Background :=
  times.foldl (fun b now => (b.poll now).1) b

theorem polls_append (b : Background) (times more : List Nat) :
    b.polls (times ++ more) = (b.polls times).polls more := List.foldl_append

theorem polls_concat (h : (times ++ [now]).Pairwise (· ≤ ·)) :
    b.polls (times ++ [now]) = (b.poll now).1 := by
  induction times generalizing b with
  | nil => rfl
  | cons first times ih =>
    obtain ⟨hfirst, hrest⟩ := List.pairwise_cons.mp h
    have hlast : first ≤ now := hfirst now (by simp)
    rw [← b.poll_poll hlast]
    exact ih hrest

/-- Further polls do not decrease the progress. -/
theorem percent_polls_mono (h : (times ++ more).Pairwise (· ≤ ·)) :
    ((start op begun runtime).polls times).percent ≤
      ((start op begun runtime).polls (times ++ more)).percent := by
  rcases List.eq_nil_or_concat' more with rfl | ⟨more, later, rfl⟩
  · exact Nat.le_of_eq (by rw [List.append_nil])
  rcases List.eq_nil_or_concat' times with rfl | ⟨times, now, rfl⟩
  · exact Nat.zero_le _
  · obtain ⟨hbefore, -, horder⟩ := List.pairwise_append.mp h
    rw [polls_concat hbefore, ← List.append_assoc, polls_concat (by rwa [List.append_assoc])]
    exact percent_poll_mono _ (horder now (by simp) later (by simp))

/-- What the tracker says at `now`, the time of the latest poll, of the operation `op` that was
begun at `begun` and takes `runtime`. -/
structure Shows (b : Background) (op : Opcode) (begun runtime now : Nat) : Prop where
  running : b.isRunning = true → b.opcode? = some op ∧ now < begun + runtime ∧ b.percent ≤ 99
  exact : b.isRunning = true → 100 * (now - begun) ≤ Word.last →
    b.percent = 100 * (now - begun) / runtime
  ended : b.isRunning = false → begun + runtime ≤ now ∧ b.percent = 100

theorem shows_poll (h : begun ≤ now) :
    ((start op begun runtime).poll now).1.Shows op begun runtime now := by
  by_cases hover : runtime ≤ now - begun
  · rw [poll_of_over rfl hover]
    exact ⟨nofun, nofun, fun _ => ⟨by omega, rfl⟩⟩
  · rw [poll_of_lasting rfl (Nat.lt_of_not_le hover)]
    refine ⟨fun _ => ⟨rfl, by omega, Nat.min_le_right _ _⟩, fun _ hword => ?_, nofun⟩
    have hproduct : Word.mulSat (now - begun) 100 = 100 * (now - begun) := by
      rw [Word.mulSat, Nat.mul_comm]
      exact Nat.min_eq_left hword
    have hquotient : 100 * (now - begun) / runtime < 100 :=
      Nat.div_lt_of_lt_mul (by omega)
    show min (Word.mulSat (now - begun) 100 / runtime) 99 = _
    rw [hproduct]
    omega

theorem shows_polls (h : (begun :: (times ++ [now])).Pairwise (· ≤ ·)) :
    ((start op begun runtime).polls (times ++ [now])).Shows op begun runtime now := by
  obtain ⟨hbegun, htimes⟩ := List.pairwise_cons.mp h
  rw [polls_concat htimes]
  exact shows_poll (hbegun now (by simp))

/-- The progress is a percentage. -/
theorem percent_polls_le (h : (begun :: times).Pairwise (· ≤ ·)) :
    ((start op begun runtime).polls times).percent ≤ 100 := by
  rcases List.eq_nil_or_concat' times with rfl | ⟨times, now, rfl⟩
  · exact Nat.zero_le _
  · have hshows : ((start op begun runtime).polls (times ++ [now])).Shows op begun runtime now :=
      shows_polls h
    cases hrunning : ((start op begun runtime).polls (times ++ [now])).isRunning with
    | false => exact Nat.le_of_eq (hshows.ended hrunning).2
    | true => exact Nat.le_trans (hshows.running hrunning).2.2 (by decide)

end Background

/-! ## Reports -/

namespace ProgressReport

/-- Reads the running bit and the progress above it, the opcode and the return code. -/
def ofPayload? (p : Payload) : Option ProgressReport := do
  let state ← (p.word 0 1).toOption
  let code ← (p.word 2 2).toOption
  let returnCode ← Status.ofCode? (← (p.word 4 2).toOption)
  return {
    running := if state % 2 = 1 then some ⟨UInt16.ofNat code⟩ else none
    percent := state / 2
    returnCode }

variable {r : ProgressReport}

/-- The first byte has the progress above the running bit. -/
def state (r : ProgressReport) : UInt8 :=
  UInt8.ofNat (2 * r.percent + if r.running.isSome then 1 else 0)

theorem getElem?_toPayload (r : ProgressReport) : r.toPayload[0]? = some r.state := rfl

theorem length_toPayload (r : ProgressReport) : r.toPayload.length = 8 := by simp [toPayload]

theorem toNat_state (h : r.percent < 128) :
    r.state.toNat = 2 * r.percent + if r.running.isSome then 1 else 0 := by
  rw [state, UInt8.toNat_ofNat']
  split <;> omega

/-- The first byte tells the progress and whether something is in flight. -/
theorem state_eq (h : r.percent < 128) :
    r.state.toNat / 2 = r.percent ∧ (r.state.toNat % 2 = 1 ↔ r.running.isSome = true) := by
  rw [toNat_state h]
  cases r.running.isSome
  · exact ⟨by simp, by simp⟩
  · refine ⟨?_, by simp⟩
    rw [if_pos rfl]
    omega

theorem ofPayload?_toPayload (h : r.percent < 128) : ofPayload? r.toPayload = some r := by
  obtain ⟨hpercent, hrunning⟩ := state_eq h
  have hstate : r.toPayload.word 0 1 = .ok r.state.toNat :=
    Payload.word_append_byte List.length_nil
  have hcode : r.toPayload.word 2 2 = .ok (r.running.elim 0 (·.code.toNat)) := by
    rw [toPayload, List.append_assoc, List.append_assoc]
    refine Payload.word_append rfl ?_
    cases r.running with
    | none => decide
    | some op => exact op.code.toNat_lt
  have hreturn : r.toPayload.word 4 2 = .ok r.returnCode.code := by
    rw [toPayload, List.append_assoc]
    exact Payload.word_append (by simp) (by cases r.returnCode <;> decide)
  have hopcode : (if r.state.toNat % 2 = 1 then
      some (Opcode.mk (UInt16.ofNat (r.running.elim 0 (·.code.toNat)))) else none) = r.running := by
    cases hflight : r.running with
    | none => exact if_neg fun hbit => by simp [hflight] at hrunning; omega
    | some op =>
      rw [if_pos (hrunning.mpr (by rw [hflight]; rfl))]
      simp
  simp only [ofPayload?, hstate, hcode, hreturn, Except.toOption, Option.bind_eq_bind,
    Option.bind_some, Status.ofCode?_code, hpercent, hopcode]
  rfl

end ProgressReport

end CxlEndpoint
