import CxlEndpoint.Proofs.Event.History

/-!
# What a full log has lost

A log that is full turns records away and keeps an account of them until it is made empty.

* `EventLogs.empties`, `EventLogs.turnedAway?`: what an operation does to a log, as its caller can
  see. `EventLogs.missed`: when the records came that a log has turned away since it was last made
  empty. `missedBy`: the same, one operation later.
* `EventOverflow.ofTimes?`: the account of records that came at given times. `overflow_step`: every
  operation keeps it.
* `overflow_after`: the account is exact in the course of every history.
-/

namespace CxlEndpoint

/-- The account of records that came at these times, of which the latest comes first. -/
def EventOverflow.ofTimes? : List Timestamp → Option EventOverflow
  | [] => none
  | latest :: earlier => some ⟨min (earlier.length + 1) 65535, earlier.getLastD latest, latest⟩

namespace EventLog

variable {l l' : EventLog} {times : List Timestamp} {handles : List UInt16}

/-- One more record comes to the account. The first one stays the first. -/
theorem overflow_lose (h : l.overflow = EventOverflow.ofTimes? times) (now : Timestamp) :
    (l.lose now).overflow = EventOverflow.ofTimes? (now :: times) := by
  cases times with
  | nil =>
    simp only [lose, h, EventOverflow.ofTimes?]
    rfl
  | cons latest earlier =>
    have hcount : min (min (earlier.length + 1) 65535 + 1) 65535 =
        min (earlier.length + 1 + 1) 65535 := by omega
    simp only [lose, h, EventOverflow.ofTimes?, hcount, List.length_cons, List.getLastD_cons]

theorem overflow_insert (l : EventLog) (r : EventRecord) (now : Timestamp) :
    (l.insert r now).1.overflow =
      if (l.insert r now).2 = none then (l.lose now).overflow else l.overflow := by
  rcases Nat.lt_or_ge l.records.length logCapacity with hroom | hfull
  · rw [insert_of_room hroom, if_neg (Option.some_ne_none _)]
  · rw [insert_of_full hfull, if_pos rfl]

/-- The account stays open as long as records are left. -/
theorem overflow_clear? (h : l.clear? handles = some l') :
    l'.overflow = if l'.records.isEmpty then none else l.overflow := by
  unfold clear? at h
  split at h
  · cases h
    rfl
  · cases h

end EventLog

namespace EventLogs

/-- The operation makes log `k` empty: it removes all records, or the last ones by their
handles. -/
def empties (ls : EventLogs) (k : EventLog.Kind) : Op → Bool
  | .clear kind handles =>
    kind = k && (ls.clear? k handles).any fun cleared => (cleared.get k).records.isEmpty
  | .clearAll kind => kind = k
  | .insert .. | .setInterrupt .. => false

/-- When the record came for which log `k` had no room. -/
def turnedAway? (ls : EventLogs) (k : EventLog.Kind) : Op → Option Timestamp
  | .insert kind r now => if kind = k ∧ (ls.insert k r now).2 = none then some now else none
  | .clear .. | .clearAll _ | .setInterrupt .. => none

/-- When the records came that log `k` has turned away since it was last made empty, where `times`
tells this before the operation. The latest comes first. -/
def missedBy (ls : EventLogs) (k : EventLog.Kind) (times : List Timestamp) (op : Op) :
    List Timestamp :=
  if ls.empties k op then [] else (ls.turnedAway? k op).toList ++ times

/-- When the records came that log `k` has turned away in the course of `past`, since it was last
made empty. The latest comes first. -/
def missed (k : EventLog.Kind) : List Op → List Timestamp
  | [] => []
  | op :: past => (after past).missedBy k (missed k past) op

variable {ls : EventLogs} {k : EventLog.Kind} {times : List Timestamp} {op : Op}

/-- An operation on another log neither empties log `k` nor brings a record to it. -/
theorem missedBy_of_ne (h : k ≠ op.kind) : ls.missedBy k times op = times := by
  have hkind : decide (op.kind = k) = false := decide_eq_false (Ne.symm h)
  have hempties : ls.empties k op = false := by
    cases op with
    | clear kind handles =>
      show (decide (kind = k) && _) = false
      rw [show decide (kind = k) = false from hkind, Bool.false_and]
    | clearAll kind => exact hkind
    | insert | setInterrupt => rfl
  have hturned : ls.turnedAway? k op = none := by
    cases op with
    | insert kind r now => exact if_neg fun hk => h hk.1.symm
    | clear | clearAll | setInterrupt => rfl
  rw [missedBy, hempties, hturned]
  rfl

/-- Every operation keeps the account. -/
theorem overflow_step (h : (ls.get k).overflow = EventOverflow.ofTimes? times) (op : Op) :
    ((ls.step op).get k).overflow = EventOverflow.ofTimes? (ls.missedBy k times op) := by
  by_cases hkind : k = op.kind
  · cases op with
    | insert kind r now =>
      obtain rfl : k = kind := hkind
      have hget : (ls.step (.insert k r now)).get k = ((ls.get k).insert r now).1 :=
        ls.get_set_self k _
      have hmissed : ls.missedBy k times (.insert k r now) =
          if ((ls.get k).insert r now).2 = none then now :: times else times := by
        simp only [missedBy, empties, turnedAway?, true_and]
        exact apply_ite (fun turned : Option Timestamp => turned.toList ++ times) _ _ _
      rw [hget, EventLog.overflow_insert, hmissed]
      split
      · exact EventLog.overflow_lose h now
      · exact h
    | clear kind handles =>
      obtain rfl : k = kind := hkind
      have hclears : ls.clear? k handles = ((ls.get k).clear? handles).map (ls.set k) := rfl
      simp only [step, missedBy, empties, turnedAway?, hclears, decide_true, Bool.true_and]
      cases hclear : (ls.get k).clear? handles with
      | none => exact h
      | some l =>
        have hoverflow := EventLog.overflow_clear? hclear
        simp only [Option.map_some, Option.getD_some, Option.any_some, get_set_self, hoverflow]
        split
        · rfl
        · exact h
    | clearAll kind =>
      obtain rfl : k = kind := hkind
      have hget : (ls.step (.clearAll k)).get k = (ls.get k).clearAll := ls.get_set_self k _
      rw [hget, missedBy, empties, if_pos (decide_eq_true rfl)]
      rfl
    | setInterrupt kind setting =>
      obtain rfl : k = kind := hkind
      have hget : (ls.step (.setInterrupt k setting)).get k = (ls.get k).setInterrupt setting :=
        ls.get_set_self k _
      rw [hget]
      exact h
  · rw [ls.get_step_of_ne hkind, missedBy_of_ne hkind]
    exact h

theorem overflow_eq_after (k : EventLog.Kind) (past : List Op) :
    ((after past).get k).overflow = EventOverflow.ofTimes? (missed k past) := by
  induction past with
  | nil => cases k <;> rfl
  | cons op past ih => exact overflow_step ih op

/-- **A log tells exactly what it has lost since it was last made empty**: whether it has turned
away a record at all, how many there were, up to 65535 of them, and when the first and the latest of
them came. -/
theorem overflow_after (k : EventLog.Kind) (past : List Op) :
    (((after past).get k).overflow = none ↔ missed k past = []) ∧
      ∀ lost, ((after past).get k).overflow = some lost →
        lost.count = min 65535 (missed k past).length ∧
          (missed k past).getLast? = some lost.first ∧
          (missed k past).head? = some lost.latest := by
  rw [overflow_eq_after]
  cases missed k past with
  | nil => exact ⟨iff_of_true rfl rfl, nofun⟩
  | cons latest earlier =>
    refine ⟨iff_of_false (Option.some_ne_none _) (List.cons_ne_nil _ _), ?_⟩
    rintro lost hlost
    cases hlost
    exact ⟨Nat.min_comm _ _, by rw [List.getLast?_cons, List.getLastD_eq_getLast?], rfl⟩

/-- Two records find a full log, the host removes the oldest one that is stored, and of the next two
records the second one finds it full again. -/
def refilled : List Op :=
  [.insert .fatal {} 50, .insert .warning {} 45, .insert .fatal {} 40, .clear .fatal [1],
    .insert .fatal {} 30, .insert .fatal {} 20] ++ List.replicate 8 (.insert .fatal {} 10)

theorem overflow_after_refilled :
    missed .fatal refilled = [50, 30, 20] ∧
      ∃ lost, ((after refilled).get .fatal).overflow = some lost ∧
        lost.count = 3 ∧ lost.first = 20 ∧ lost.latest = 50 := by
  have hmissed : missed .fatal refilled = [50, 30, 20] := by decide
  obtain ⟨hnone, hsome⟩ := overflow_after .fatal refilled
  have hloses : ((after refilled).get .fatal).overflow ≠ none := by
    rw [ne_eq, hnone, hmissed]
    exact List.cons_ne_nil _ _
  obtain ⟨lost, hlost⟩ := Option.ne_none_iff_exists'.mp hloses
  obtain ⟨hcount, hfirst, hlatest⟩ := hsome lost hlost
  rw [hmissed] at hcount hfirst hlatest
  exact ⟨hmissed, lost, hlost, hcount, (Option.some.inj hfirst).symm,
    (Option.some.inj hlatest).symm⟩

end EventLogs

end CxlEndpoint
