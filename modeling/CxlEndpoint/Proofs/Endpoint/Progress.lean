import CxlEndpoint.Proofs.Background.Progress
import CxlEndpoint.Proofs.Endpoint.Completion
import CxlEndpoint.Proofs.Endpoint.MessageSize

/-!
# Background operations make progress and end

* `Background.looks`: how often an endpoint has to look after an operation, one interval apart.
* `Endpoint.tickDue`, `afterDue`: the owner of an endpoint sets the clock to the time of the next
  update and lets the endpoint look after its operation, again and again. `afterDue_of_lt` and
  `afterDue_looks` say what has become of the endpoint.
* `exists_polls_ticks`: whenever an endpoint is told to look at the clock, it polls its tracker or
  does nothing.
* `progress_of_start`: the operation ends with the last of these looks, and what the endpoint
  reports of it on the way.
-/

namespace CxlEndpoint

/-- The number of looks, one interval apart, of which the last one finds the runtime over. -/
def Background.looks (runtime : Nat) : Nat := max 1 ((runtime + tickInterval - 1) / tickInterval)

theorem Background.lt_looks_iff {n runtime : Nat} :
    n < looks runtime ↔ n = 0 ∨ tickInterval * n < runtime := by
  unfold looks tickInterval
  omega

namespace Endpoint

variable {e : Endpoint} {op : Opcode} {begun runtime now n : Nat} {r : RunningOperation}
  {times : List Nat}

/-! ## One look at the clock -/

@[simp] theorem withMailbox_withMailbox (e : Endpoint) (m m' : Mailbox) :
    (e.withMailbox m).withMailbox m' = e.withMailbox m' := by
  cases e <;> rfl

theorem withMailbox_background {b : Background} (h : e.mailbox.background = b) :
    e.withMailbox { e.mailbox with background := b } = e := by
  subst h
  cases e <;> rfl

@[simp] theorem mailbox_finish (e : Endpoint) (op : Opcode) :
    (e.finish op).mailbox = e.mailbox.notify op := by
  cases e <;> rfl

/-- A look at the clock polls the tracker, if at all. -/
theorem background_tick (e : Endpoint) (now : Nat) :
    (e.tick now).mailbox.background = e.mailbox.background ∨
      (e.tick now).mailbox.background = (e.mailbox.background.poll now).1 := by
  cases hrunning : e.mailbox.background.running with
  | none => exact Or.inl (by rw [tick_of_idle hrunning])
  | some r =>
    rcases Nat.lt_or_ge now r.nextTick with hearly | hdue
    · exact Or.inl (by rw [tick_of_early hrunning hearly])
    · refine Or.inr ?_
      rcases Nat.lt_or_ge (now - r.start) r.runtime with hlasting | hover
      · rw [tick_of_lasting hrunning hdue hlasting, mailbox_withMailbox,
          Background.poll_of_lasting hrunning hlasting]
      · rw [tick_of_over hrunning hdue hover, mailbox_finish, mailbox_withMailbox,
          Background.poll_of_over hrunning hover]
        rfl

/-- Whenever the clock is looked at, the tracker has been polled at some of these times. -/
theorem exists_polls_ticks (e : Endpoint) (times : List Nat) :
    ∃ polled, polled.Sublist times ∧
      (times.foldl tick e).mailbox.background = e.mailbox.background.polls polled := by
  induction times generalizing e with
  | nil => exact ⟨[], .slnil, rfl⟩
  | cons now times ih =>
    obtain ⟨polled, hsublist, hpolls⟩ := ih (e.tick now)
    rcases e.background_tick now with hsame | hpoll
    · exact ⟨polled, hsublist.cons now, by rw [List.foldl_cons, hpolls, hsame]⟩
    · refine ⟨now :: polled, hsublist.cons_cons now, ?_⟩
      rw [List.foldl_cons, hpolls, hpoll]
      rfl

/-! ## Looks when they are due -/

/-- The owner sets the clock to the time of the next update. -/
def tickDue (e : Endpoint) : Endpoint := e.nextTick?.elim e e.tick

/-- The owner has done so `n` times. -/
def afterDue (e : Endpoint) : (n : Nat) → Endpoint
  | 0 => e
  | n + 1 => (e.afterDue n).tickDue

/-- The operation that was begun is in flight after `n` looks. -/
def underway (op : Opcode) (begun runtime n : Nat) : RunningOperation :=
  ⟨op, begun, runtime, begun + tickInterval * (n + 1)⟩

theorem tickDue_of_running (h : e.mailbox.background.running = some r) :
    e.tickDue = e.tick r.nextTick := by
  rw [tickDue, nextTick?, Background.nextTick?, h]
  rfl

/-- Until the last look, only the progress and the time of the next update have changed. -/
theorem afterDue_of_lt (h : e.mailbox.background = .start op begun runtime)
    (hword : begun + runtime + tickInterval ≤ Word.last) (hn : n < Background.looks runtime) :
    ∃ percent, e.afterDue n = e.withMailbox
      { e.mailbox with background := ⟨some (underway op begun runtime n), percent⟩ } := by
  have hnext (now : Nat) (hnow : now ≤ begun + runtime) :
      Word.addSat now tickInterval = now + tickInterval :=
    Word.addSat_eq_add (by omega)
  induction n with
  | zero =>
    refine ⟨0, ?_⟩
    rw [underway, Nat.zero_add, Nat.mul_one, ← hnext begun (Nat.le_add_right _ _)]
    exact (withMailbox_background h).symm
  | succ n ih =>
    have hlasting : tickInterval * (n + 1) < runtime :=
      (Background.lt_looks_iff.mp hn).resolve_left (Nat.succ_ne_zero n)
    obtain ⟨percent, hafter⟩ := ih (Nat.lt_of_succ_lt hn)
    have hrunning : (e.afterDue n).mailbox.background.running =
        some (underway op begun runtime n) := by
      rw [hafter, mailbox_withMailbox]
    have helapsed : (underway op begun runtime n).nextTick - begun < runtime := by
      rw [underway, Nat.add_sub_cancel_left]
      exact hlasting
    have hdue : Word.addSat (underway op begun runtime n).nextTick tickInterval =
        begun + tickInterval * (n + 1 + 1) :=
      (hnext _ (Nat.add_le_add_left (Nat.le_of_lt hlasting) begun)).trans (Nat.add_assoc ..)
    have htick : (e.afterDue n).tick (underway op begun runtime n).nextTick = _ :=
      tick_of_lasting hrunning (Nat.le_refl _) helapsed
    rw [hdue] at htick
    rw [afterDue, tickDue_of_running hrunning, htick, hafter, mailbox_withMailbox,
      withMailbox_withMailbox]
    exact ⟨_, rfl⟩

/-- With the last look, the operation is finished. -/
theorem afterDue_looks (h : e.mailbox.background = .start op begun runtime)
    (hword : begun + runtime + tickInterval ≤ Word.last) :
    e.afterDue (Background.looks runtime) =
      (e.withMailbox { e.mailbox with background := ⟨none, 100⟩ }).finish op := by
  obtain ⟨n, hn⟩ : ∃ n, Background.looks runtime = n + 1 :=
    Nat.exists_eq_add_one.mpr (Nat.lt_of_lt_of_le Nat.one_pos (Nat.le_max_left 1 _))
  obtain ⟨percent, hafter⟩ := afterDue_of_lt h hword (n := n) (by omega)
  have hrunning : (e.afterDue n).mailbox.background.running =
      some (underway op begun runtime n) := by
    rw [hafter, mailbox_withMailbox]
  have hover : runtime ≤ (underway op begun runtime n).nextTick - begun := by
    have hlast : ¬ n + 1 < Background.looks runtime := by omega
    rw [Background.lt_looks_iff] at hlast
    rw [underway, Nat.add_sub_cancel_left]
    omega
  rw [hn, afterDue, tickDue_of_running hrunning, tick_of_over hrunning (Nat.le_refl _) hover,
    hafter, mailbox_withMailbox, withMailbox_withMailbox]
  rfl

/-! ## What is reported -/

/-- An endpoint tells of its background operation at any time. -/
theorem dispatch_backgroundStatus {limit : Option Nat} (hknows : e.mailbox.Knows .backgroundStatus)
    (hroom : 8 ≤ e.mailbox.room limit) :
    e.dispatch now limit .backgroundStatus [] =
      (e, ⟨.success, e.mailbox.background.report.toPayload⟩) := by
  have haccept : e.mailbox.accept .backgroundStatus [] = .ok (.standard .backgroundStatus) :=
    hknows.accept_of_foreground rfl rfl fun _ => by decide
  refine dispatch_of_told .backgroundStatus haccept (by decide) rfl rfl ?_
  rw [ProgressReport.length_toPayload]
  exact hroom

/-- **Every background operation makes progress and ends.** An operation that is begun at `begun`
and takes `runtime` is looked after each time that an update is due. It ends with the last of
`looks runtime` looks and not before. Whenever else its tracker is polled, the progress that it
shows never decreases and is the part of the runtime that is over; no poll divides by zero. The host
reads the progress, and whether something is in flight, off the first byte of the report. -/
theorem progress_of_start (h : e.mailbox.background = .start op begun runtime)
    (hword : begun + runtime + tickInterval ≤ Word.last) :
    (∀ n < Background.looks runtime,
      (e.afterDue n).nextTick? = some (begun + tickInterval * (n + 1)) ∧
      (e.afterDue n).mailbox.background.opcode? = some op ∧
      (e.afterDue n).mailbox.completions = e.mailbox.completions) ∧
    ((e.afterDue (Background.looks runtime)).mailbox.background = ⟨none, 100⟩ ∧
      (e.afterDue (Background.looks runtime)).mailbox.completions =
        e.mailbox.completions.map (· ++ [op])) ∧
    (∀ times, ∃ polled, polled.Sublist times ∧
      (times.foldl tick e).mailbox.background = e.mailbox.background.polls polled) ∧
    ∀ times, (begun :: times).Pairwise (· ≤ ·) → ∀ b, b = e.mailbox.background.polls times →
      (∀ latest, times.getLast? = some latest → b.Shows op begun runtime latest) ∧
      (∀ more, (times ++ more).Pairwise (· ≤ ·) → b.percent ≤ (b.polls more).percent) ∧
      (∀ now, b.pollChecked now = some (b.poll now)) ∧
      ∀ (e' : Endpoint) (now : Nat) (limit : Option Nat), e'.mailbox.background = b →
        e'.mailbox.Knows .backgroundStatus → 8 ≤ e'.mailbox.room limit →
        ∃ payload state, e'.dispatch now limit .backgroundStatus [] = (e', ⟨.success, payload⟩) ∧
          payload[0]? = some state ∧ state.toNat / 2 = b.percent ∧
          (state.toNat % 2 = 1 ↔ b.isRunning = true) ∧
          ProgressReport.ofPayload? payload = some b.report := by
  refine ⟨fun n hn => ?_, ?_, e.exists_polls_ticks, fun times htimes b hb => ⟨?_, ?_, ?_, ?_⟩⟩
  · obtain ⟨percent, hafter⟩ := afterDue_of_lt h hword hn
    rw [nextTick?, hafter, mailbox_withMailbox]
    exact ⟨rfl, rfl, rfl⟩
  · rw [afterDue_looks h hword, mailbox_finish, mailbox_withMailbox]
    exact ⟨rfl, rfl⟩
  · subst hb
    rw [h]
    intro latest hlatest
    obtain ⟨earlier, rfl⟩ := List.getLast?_eq_some_iff.mp hlatest
    exact Background.shows_polls htimes
  · subst hb
    intro more hmore
    rw [h, ← Background.polls_append]
    exact Background.percent_polls_mono hmore
  · exact b.pollChecked_eq
  · intro e' now limit hbackground hknows hroom
    have hpercent : b.report.percent < 128 := by
      rw [hb, h]
      exact Nat.lt_of_le_of_lt (Background.percent_polls_le htimes) (by decide)
    obtain ⟨htold, hrunning⟩ := ProgressReport.state_eq hpercent
    refine ⟨b.report.toPayload, b.report.state, ?_, ProgressReport.getElem?_toPayload _, htold,
      ?_, ProgressReport.ofPayload?_toPayload hpercent⟩
    · rw [dispatch_backgroundStatus hknows hroom, hbackground]
    · rw [hrunning]
      exact iff_of_eq (congrArg (· = true) b.isSome_opcode?)

/-- A new memory device, with a listener, that is told at 500 ms to sanitize itself. -/
def sanitizing : Endpoint := (newDevice.listen.dispatch 500 none .sanitize []).1

theorem mailbox_sanitizing :
    sanitizing.mailbox =
      { newDevice.listen.mailbox with background := .start .sanitize 500 4000 } := by
  have hread : Request.ofPayload .sanitize [] = .ok (.direct (.memory .sanitize)) := rfl
  have hbegun : newDevice.listen.dispatch 500 none .sanitize [] = _ :=
    dispatch_of_direct (c := .standard .sanitize) rfl rfl hread
  rw [sanitizing, hbegun]
  rfl

/-- The sanitize takes four looks. A poll after 1.2 of its 4 seconds shows 30 percent. -/
theorem progress_of_start_sanitizing :
    sanitizing.mailbox.background = .start .sanitize 500 4000 ∧
      500 + 4000 + tickInterval ≤ Word.last ∧
      (∀ n < 4, (sanitizing.afterDue n).mailbox.background.opcode? = some .sanitize) ∧
      (sanitizing.afterDue 4).mailbox.completions = some [.sanitize] ∧
      ((Background.start .sanitize 500 4000).polls [500, 1700]).percent = 30 ∧
      ∃ payload state, sanitizing.dispatch 501 none .backgroundStatus [] =
          (sanitizing, ⟨.success, payload⟩) ∧
        payload[0]? = some state ∧ state.toNat % 2 = 1 := by
  have hstart : sanitizing.mailbox.background = .start .sanitize 500 4000 := by
    rw [mailbox_sanitizing]
  have hword : 500 + 4000 + tickInterval ≤ Word.last := by decide
  obtain ⟨hunderway, ⟨-, hreported⟩, -, hpolls⟩ := progress_of_start hstart hword
  have hshown := (hpolls [500, 1700] (by decide) _ rfl).1 1700 rfl
  obtain ⟨payload, state, hanswer, hstate, -, hrunning, -⟩ := (hpolls [] (by decide) _ rfl).2.2.2
    sanitizing 501 none rfl (by rw [mailbox_sanitizing]; rfl) (by rw [mailbox_sanitizing]; decide)
  refine ⟨hstart, hword, fun n hn => (hunderway n hn).2.1, ?_, ?_, payload, state, hanswer, hstate,
    ?_⟩
  · rw [show (4 : Nat) = Background.looks 4000 from rfl, hreported, mailbox_sanitizing]
    rfl
  · rw [hstart] at hshown
    rw [hshown.exact rfl (by decide)]
  · rw [hrunning, hstart]
    rfl

end Endpoint

end CxlEndpoint
