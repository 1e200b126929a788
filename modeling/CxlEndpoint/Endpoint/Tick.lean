import CxlEndpoint.Endpoint

/-!
# The passing of time

* `Endpoint.tick`: polls the background operation once its next update is due. When the operation
  is over, its effect is applied and it is reported as finished.
* `Endpoint.overAt?`: the operation that is over by then. `overAt?_eq_some_iff` says when there is
  one.
* `tick_of_idle`, `tick_of_early`, `tick_of_lasting`, `tick_of_over`: the cases of a look at the
  clock, and `tick_of_overAt?`, `tick_of_overAt?_eq_none` by whether it ends an operation.
-/

namespace CxlEndpoint.Endpoint

/-- Applies the effect of the finished operation `op` and reports it. -/
def finish (e : Endpoint) (op : Opcode) : Endpoint :=
  match e with
  | memory m d => memory (m.notify op) (d.finish op)
  | e => e.withMailbox (e.mailbox.notify op)

/-- When the background operation is to be polled next. -/
def nextTick? (e : Endpoint) : Option Nat := e.mailbox.background.nextTick?

/-- Looks after the background operation at clock time `now`. -/
def tick (e : Endpoint) (now : Nat) : Endpoint :=
  match e.nextTick? with
  | none => e
  | some due =>
    if now < due then e
    else
      match e.mailbox.background.poll now with
      | (background, finished) =>
        let e := e.withMailbox { e.mailbox with background }
        match finished with
        | none => e
        | some op => e.finish op

/-- The background operation that a look at the clock at time `now` finds over. -/
def overAt? (e : Endpoint) (now : Nat) : Option Opcode :=
  match e.nextTick? with
  | none => none
  | some due => if now < due then none else (e.mailbox.background.poll now).2

section Cases

variable {e : Endpoint} {r : RunningOperation} {now : Nat} {op : Opcode}

theorem tick_of_idle (h : e.mailbox.background.running = none) : e.tick now = e := by
  rw [tick, nextTick?, Background.nextTick?, h]
  rfl

theorem tick_of_early (h : e.mailbox.background.running = some r) (hearly : now < r.nextTick) :
    e.tick now = e := by
  rw [tick, nextTick?, Background.nextTick?, h]
  exact if_pos hearly

theorem tick_of_lasting (h : e.mailbox.background.running = some r) (hdue : r.nextTick ≤ now)
    (hlasting : now - r.start < r.runtime) :
    e.tick now = e.withMailbox
      { e.mailbox with
        background := ⟨some { r with nextTick := Word.addSat now tickInterval },
          min (Word.mulSat (now - r.start) 100 / r.runtime) 99⟩ } := by
  rw [tick, nextTick?, Background.nextTick?, h]
  dsimp only [Option.map_some]
  rw [if_neg (Nat.not_lt_of_le hdue), Background.poll_of_lasting h hlasting]

theorem tick_of_over (h : e.mailbox.background.running = some r) (hdue : r.nextTick ≤ now)
    (hover : r.runtime ≤ now - r.start) :
    e.tick now =
      (e.withMailbox { e.mailbox with background := ⟨none, 100⟩ }).finish r.opcode := by
  rw [tick, nextTick?, Background.nextTick?, h]
  dsimp only [Option.map_some]
  rw [if_neg (Nat.not_lt_of_le hdue), Background.poll_of_over h hover]

/-- An operation is over if it is due and its runtime has passed. -/
theorem overAt?_eq_some_iff :
    e.overAt? now = some op ↔ ∃ r, e.mailbox.background.running = some r ∧ r.nextTick ≤ now ∧
      r.runtime ≤ now - r.start ∧ r.opcode = op := by
  rw [overAt?, nextTick?, Background.nextTick?]
  cases hrunning : e.mailbox.background.running with
  | none => simp
  | some r =>
    simp only [Option.map_some, Option.some.injEq, exists_eq_left']
    split
    next hearly => exact iff_of_false nofun fun h => Nat.not_le_of_lt hearly h.1
    next hdue =>
      by_cases hover : r.runtime ≤ now - r.start
      · simp [Background.poll_of_over hrunning hover, Nat.le_of_not_lt hdue, hover]
      · rw [Background.poll_of_lasting hrunning (Nat.lt_of_not_le hover)]
        exact iff_of_false nofun fun h => hover h.2.1

theorem tick_of_overAt? (h : e.overAt? now = some op) :
    e.tick now = (e.withMailbox { e.mailbox with background := ⟨none, 100⟩ }).finish op := by
  obtain ⟨r, hrunning, hdue, hover, rfl⟩ := overAt?_eq_some_iff.mp h
  exact tick_of_over hrunning hdue hover

/-- A look at the clock that ends nothing leaves the device alone. -/
theorem tick_of_overAt?_eq_none {m : Mailbox} {d : MemoryDevice}
    (h : (memory m d).overAt? now = none) :
    ∃ background, (memory m d).tick now = memory { m with background } d := by
  cases hrunning : m.background.running with
  | none => exact ⟨m.background, tick_of_idle hrunning⟩
  | some r =>
    rcases Nat.lt_or_ge now r.nextTick with hearly | hdue
    · exact ⟨m.background, tick_of_early hrunning hearly⟩
    · rcases Nat.lt_or_ge (now - r.start) r.runtime with hlasting | hover
      · exact ⟨_, tick_of_lasting hrunning hdue hlasting⟩
      · have hends : (memory m d).overAt? now = some r.opcode :=
          overAt?_eq_some_iff.mpr ⟨r, hrunning, hdue, hover, rfl⟩
        rw [h] at hends
        cases hends

end Cases

end CxlEndpoint.Endpoint
