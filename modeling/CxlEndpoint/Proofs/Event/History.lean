import CxlEndpoint.Event.Logs
import Mathlib.Data.List.Nodup

/-!
# Histories of event logs

* `handleNumber`: the handles in the order in which a log gives them out. After 65535 of them they
  start again.
* `EventLog.InTurn`: the stored records carry the handles that were given out last, in order.
  `InTurn.insert` and `InTurn.of_drop` keep it. `EventLog.Grows` is what becomes of such a log
  that nobody clears.
* `EventLogs.Op`, `EventLogs.step`: the operations on the logs, each on one of them.
  `EventLogs.after` are the logs after a list of operations, of which the latest comes first, and
  `EventLogs.given` the handles that were given out meanwhile.
* `EventLogs.orderly_after`: every history keeps the logs small, apart, and in the order of their
  handles.
-/

namespace CxlEndpoint

/-! ## Handles in turn -/

/-- The handle that a log gives to record number `n`, counted from zero. -/
def handleNumber (n : Nat) : UInt16 := UInt16.ofNat (n % 65535 + 1)

theorem toNat_handleNumber (n : Nat) : (handleNumber n).toNat = n % 65535 + 1 := by
  rw [handleNumber, UInt16.toNat_ofNat']
  omega

theorem handleNumber_ne_zero (n : Nat) : handleNumber n ≠ 0 := by
  intro h
  have hzero := toNat_handleNumber n
  rw [h, UInt16.toNat_zero] at hzero
  omega

theorem nextHandle_handleNumber (n : Nat) : nextHandle (handleNumber n) = handleNumber (n + 1) := by
  have hn := toNat_handleNumber n
  have hnext := toNat_handleNumber (n + 1)
  have hsum : (handleNumber n + 1).toNat = (n % 65535 + 2) % 65536 := by
    rw [UInt16.toNat_add, hn, UInt16.toNat_one]
  unfold nextHandle
  apply UInt16.toNat_inj.mp
  split
  next hwraps =>
    rw [hwraps, UInt16.toNat_zero] at hsum
    rw [hnext, UInt16.toNat_one]
    omega
  next hwraps =>
    have hne : (handleNumber n + 1).toNat ≠ 0 := fun hzero => hwraps (UInt16.toNat_inj.mp hzero)
    omega

/-- Of handles that were given out in turn, the `i`-th one, counted from zero. -/
theorem toNat_of_numbered {handles : List UInt16} {n i : Nat} {handle : UInt16}
    (h : handles = (List.range n).map handleNumber) (hi : handles[i]? = some handle) :
    handle.toNat = i % 65535 + 1 := by
  rw [h, List.getElem?_map, Option.map_eq_some_iff] at hi
  obtain ⟨i', hi', rfl⟩ := hi
  rw [toNat_handleNumber, ← (List.getElem?_eq_some_iff.mp hi').2, List.getElem_range]

/-- As many records as a log holds have different handles. -/
theorem nodup_handleNumber (first : Nat) {count : Nat} (h : count ≤ logCapacity) :
    ((List.range' first count).map handleNumber).Nodup := by
  refine List.Nodup.map_on (fun i hi j hj heq => ?_) (List.nodup_range' 1)
  have hi' := toNat_handleNumber i
  have hj' := toNat_handleNumber j
  rw [heq] at hi'
  rw [List.mem_range'_1] at hi hj
  unfold logCapacity at h
  omega

/-! ## One log -/

namespace EventLog

variable {l l' : EventLog} {n : Nat} {r : EventRecord} {now : Timestamp} {handles : List UInt16}

/-- `l'` has the records of `l`, and the same handle for the next one. -/
structure SameRecords (l l' : EventLog) : Prop where
  records : l'.records = l.records
  upcoming : l'.upcoming = l.upcoming

theorem SameRecords.refl (l : EventLog) : SameRecords l l := ⟨rfl, rfl⟩

theorem SameRecords.trans {l'' : EventLog} (h : SameRecords l l') (h' : SameRecords l' l'') :
    SameRecords l l'' :=
  ⟨h'.records.trans h.records, h'.upcoming.trans h.upcoming⟩

/-- The log has given out `n` handles, and its records carry the last of these in order. -/
structure InTurn (l : EventLog) (n : Nat) : Prop where
  upcoming : l.upcoming = handleNumber n
  stored_le : l.records.length ≤ n
  length_le : l.records.length ≤ logCapacity
  handles : l.handles = (List.range' (n - l.records.length) l.records.length).map handleNumber

/-- A log that has given out `n` handles stays as it is, or takes in one event under the next
handle. -/
inductive Grows (l : EventLog) (n : Nat) : EventLog → Option StoredEvent → Prop
  | same (l' : EventLog) (h : l.SameRecords l') : Grows l n l' none
  | taken (l' : EventLog) (event : StoredEvent) (hhandle : event.handle = handleNumber n)
    (hrecords : l'.records = l.records ++ [event]) (hturn : l'.InTurn (n + 1)) :
    Grows l n l' (some event)

theorem inTurn_empty : InTurn .empty 0 := ⟨rfl, Nat.le_refl 0, by decide, rfl⟩

theorem InTurn.nodup (h : l.InTurn n) : l.handles.Nodup := by
  rw [h.handles]
  exact nodup_handleNumber _ h.length_le

theorem InTurn.zero_not_mem (h : l.InTurn n) : 0 ∉ l.handles := by
  rw [h.handles, List.mem_map]
  rintro ⟨i, -, hi⟩
  exact handleNumber_ne_zero i hi

/-- A log that loses some of its oldest records stays in turn. -/
theorem InTurn.of_drop (h : l.InTurn n) {k : Nat} (hrecords : l'.records = l.records.drop k)
    (hupcoming : l'.upcoming = l.upcoming) : l'.InTurn n := by
  have hlength : l'.records.length = l.records.length - k := by
    rw [hrecords, List.length_drop]
  refine ⟨hupcoming.trans h.upcoming, ?_, ?_, ?_⟩
  · have := h.stored_le
    omega
  · have := h.length_le
    omega
  · have hdrop : l'.handles = l.handles.drop k := by
      rw [EventLog.handles, hrecords, List.map_drop]
      rfl
    rw [hdrop, h.handles, ← List.map_drop, List.drop_range', hlength]
    by_cases hk : k ≤ l.records.length
    · have hstored := h.stored_le
      rw [show n - l.records.length + k * 1 = n - (l.records.length - k) by omega]
    · rw [show l.records.length - k = 0 by omega]
      rfl

theorem InTurn.of_sameRecords (h : l.InTurn n) (hsame : SameRecords l l') : l'.InTurn n :=
  h.of_drop (k := 0) hsame.records hsame.upcoming

theorem insert_of_full (h : logCapacity ≤ l.records.length) :
    l.insert r now = (l.lose now, none) := if_pos h

theorem insert_of_room (h : l.records.length < logCapacity) :
    l.insert r now =
      ({ l with records := l.records ++ [⟨l.upcoming, now, r⟩], upcoming := nextHandle l.upcoming },
        some l.upcoming) := if_neg (Nat.not_le.mpr h)

/-- A log takes in every record that there is room for. -/
theorem isSome_insert_iff : (l.insert r now).2.isSome = true ↔ l.records.length < logCapacity := by
  rcases Nat.lt_or_ge l.records.length logCapacity with hroom | hfull
  · rw [insert_of_room hroom]
    exact iff_of_true rfl hroom
  · rw [insert_of_full hfull]
    exact iff_of_false Bool.false_ne_true (Nat.not_lt.mpr hfull)

/-- The next record has the next handle. -/
theorem InTurn.insert (h : l.InTurn n) (r : EventRecord) (now : Timestamp) :
    ((l.insert r now).2 = none ∧ (l.insert r now).1.records = l.records ∧
        (l.insert r now).1.InTurn n) ∨
      ((l.insert r now).2 = some (handleNumber n) ∧
        (l.insert r now).1.records = l.records ++ [⟨handleNumber n, now, r⟩] ∧
        (l.insert r now).1.InTurn (n + 1)) := by
  rcases Nat.lt_or_ge l.records.length logCapacity with hroom | hfull
  · rw [insert_of_room hroom, h.upcoming]
    refine Or.inr ⟨rfl, rfl, nextHandle_handleNumber n, ?_, ?_, ?_⟩
    · have := h.stored_le
      simpa using this
    · rw [List.length_append]
      exact hroom
    · have hstored := h.stored_le
      have hhandles := h.handles
      rw [EventLog.handles] at hhandles
      rw [EventLog.handles, List.map_append, hhandles, List.length_append, List.length_singleton,
        List.range'_1_concat, List.map_append,
        show n + 1 - (l.records.length + 1) = n - l.records.length by omega,
        show n - l.records.length + l.records.length = n by omega]
      rfl
  · rw [insert_of_full hfull]
    exact Or.inl ⟨rfl, rfl, h.of_sameRecords ⟨rfl, rfl⟩⟩

theorem clear?_eq_some {handles : List UInt16} (h : l.clear? handles = some l') :
    handles <+: l.handles ∧ l'.records = l.records.drop handles.length ∧
      l'.upcoming = l.upcoming := by
  unfold clear? at h
  split at h
  next hfirst =>
    cases h
    exact ⟨List.isPrefixOf_iff_prefix.mp hfirst, rfl, rfl⟩
  · cases h

/-- The oldest records are removed by their handles. -/
theorem exists_clear? (h : handles <+: l.handles) :
    ∃ l', l.clear? handles = some l' ∧ l'.records = l.records.drop handles.length ∧
      l'.upcoming = l.upcoming := by
  rw [clear?, if_pos (List.isPrefixOf_iff_prefix.mpr h)]
  exact ⟨_, rfl, rfl, rfl⟩

end EventLog

/-! ## All logs -/

namespace EventLogs

/-- An operation on one of the logs. -/
inductive Op where
  | insert (kind : EventLog.Kind) (r : EventRecord) (now : Timestamp)
  | clear (kind : EventLog.Kind) (handles : List UInt16)
  | clearAll (kind : EventLog.Kind)
  | setInterrupt (kind : EventLog.Kind) (setting : UInt8)

/-- The log that the operation is about. -/
def Op.kind : Op → EventLog.Kind
  | insert k _ _ | clear k _ | clearAll k | setInterrupt k _ => k

/-- The logs after one more operation. Handles that are not the oldest ones clear nothing. -/
def step (ls : EventLogs) : Op → EventLogs
  | .insert k r now => (ls.insert k r now).1
  | .clear k handles => (ls.clear? k handles).getD ls
  | .clearAll k => ls.clearAll k
  | .setInterrupt k setting => ls.setInterrupt k setting

/-- The handle that the operation gives to a record of log `k`. -/
def handle? (ls : EventLogs) (k : EventLog.Kind) : Op → Option UInt16
  | .insert kind r now => if kind = k then (ls.insert k r now).2 else none
  | _ => none

/-- The logs after the operations `past`, of which the latest comes first. -/
def after : List Op → EventLogs
  | [] => .empty
  | op :: past => (after past).step op

/-- The handles that were given to records of log `k` in the course of `past`, the first one
first. -/
def given (k : EventLog.Kind) : List Op → List UInt16
  | [] => []
  | op :: past => given k past ++ ((after past).handle? k op).toList

variable {ls : EventLogs} {j k : EventLog.Kind} {n : Nat} {op : Op} {past : List Op}

/-- Operations on one log leave the others alone. -/
theorem get_step_of_ne (ls : EventLogs) (h : k ≠ op.kind) : (ls.step op).get k = ls.get k := by
  cases op with
  | insert kind r now => exact ls.get_set_of_ne _ h
  | clear kind handles =>
    show ((((ls.get kind).clear? handles).map (ls.set kind)).getD ls).get k = _
    cases (ls.get kind).clear? handles with
    | none => rfl
    | some l => exact ls.get_set_of_ne l h
  | clearAll kind => exact ls.get_set_of_ne _ h
  | setInterrupt kind setting => exact ls.get_set_of_ne _ h

/-- Setting interrupts changes nothing of a log but its vector. -/
theorem get_setInterrupts (ls : EventLogs) (settings : List UInt8) (k : EventLog.Kind) :
    ∃ vector, (ls.setInterrupts settings).get k = { ls.get k with vector } := by
  unfold setInterrupts
  generalize EventLog.Kind.all.zip settings = changes
  induction changes generalizing ls with
  | nil => exact ⟨(ls.get k).vector, rfl⟩
  | cons change rest ih =>
    obtain ⟨vector, hrest⟩ := ih (ls.setInterrupt change.1 change.2)
    refine ⟨vector, hrest.trans ?_⟩
    by_cases hkind : k = change.1
    · subst hkind
      rw [setInterrupt, get_set_self]
      rfl
    · rw [setInterrupt, ls.get_set_of_ne _ hkind]

theorem sameRecords_setInterrupts (ls : EventLogs) (settings : List UInt8) (k : EventLog.Kind) :
    (ls.get k).SameRecords ((ls.setInterrupts settings).get k) := by
  obtain ⟨vector, hget⟩ := ls.get_setInterrupts settings k
  rw [hget]
  exact ⟨rfl, rfl⟩

/-- An operation gives at most the next handle, and the log stays in turn. -/
theorem inTurn_step (h : (ls.get k).InTurn n) (op : Op) :
    (ls.handle? k op = none ∧ ((ls.step op).get k).InTurn n) ∨
      (ls.handle? k op = some (handleNumber n) ∧ ((ls.step op).get k).InTurn (n + 1)) := by
  by_cases hkind : k = op.kind
  · subst hkind
    cases op with
    | insert kind r now =>
      show ((if kind = kind then _ else _) = _ ∧ ((ls.set kind _).get kind).InTurn n) ∨
        ((if kind = kind then _ else _) = _ ∧ ((ls.set kind _).get kind).InTurn (n + 1))
      rw [if_pos rfl, get_set_self]
      exact (h.insert r now).imp (fun ⟨hnone, _, hturn⟩ => ⟨hnone, hturn⟩)
        fun ⟨hsome, _, hturn⟩ => ⟨hsome, hturn⟩
    | clear kind handles =>
      refine Or.inl ⟨rfl, ?_⟩
      show ((((ls.get kind).clear? handles).map (ls.set kind)).getD ls).get kind |>.InTurn n
      cases hclear : (ls.get kind).clear? handles with
      | none => exact h
      | some l =>
        obtain ⟨-, hrecords, hupcoming⟩ := EventLog.clear?_eq_some hclear
        show ((ls.set kind l).get kind).InTurn n
        rw [get_set_self]
        exact h.of_drop hrecords hupcoming
    | clearAll kind =>
      refine Or.inl ⟨rfl, ?_⟩
      show ((ls.set kind _).get kind).InTurn n
      rw [get_set_self]
      exact h.of_drop (List.drop_length).symm rfl
    | setInterrupt kind setting =>
      refine Or.inl ⟨rfl, ?_⟩
      show ((ls.set kind _).get kind).InTurn n
      rw [get_set_self]
      exact h.of_sameRecords ⟨rfl, rfl⟩
  · have hnone : ls.handle? k op = none := by
      cases op with
      | insert kind r now => exact if_neg fun heq => hkind heq.symm
      | clear | clearAll | setInterrupt => rfl
    rw [ls.get_step_of_ne hkind]
    exact Or.inl ⟨hnone, h⟩

theorem inTurn_after (k : EventLog.Kind) (past : List Op) :
    ((after past).get k).InTurn (given k past).length ∧
      given k past = (List.range (given k past).length).map handleNumber := by
  induction past with
  | nil =>
    refine ⟨?_, rfl⟩
    cases k <;> exact EventLog.inTurn_empty
  | cons op past ih =>
    obtain ⟨hturn, hgiven⟩ := ih
    rcases inTurn_step hturn op with ⟨hnone, hnext⟩ | ⟨hsome, hnext⟩
    · have hsame : given k (op :: past) = given k past := by
        rw [given, hnone]
        exact List.append_nil _
      rw [hsame]
      exact ⟨hnext, hgiven⟩
    · have hmore : given k (op :: past) =
          given k past ++ [handleNumber (given k past).length] := by
        rw [given, hsome]
        rfl
      have hlength : (given k (op :: past)).length = (given k past).length + 1 := by
        rw [hmore, List.length_append, List.length_singleton]
      refine ⟨hlength ▸ hnext, ?_⟩
      rw [hlength, List.range_succ, List.map_append, ← hgiven]
      exact hmore

/-- **A log holds the latest records in the order of their handles.** There are at most
`logCapacity` of them. Handles are given out in turn, whatever is cleared, those of stored records
are different, and none is zero. An operation on another log changes nothing. -/
theorem orderly_after (k : EventLog.Kind) (past : List Op) :
    ((after past).get k).records.length ≤ logCapacity ∧
      (∀ i handle, (given k past)[i]? = some handle → handle.toNat = i % 65535 + 1) ∧
      ((after past).get k).handles.Nodup ∧ 0 ∉ ((after past).get k).handles ∧
      ∀ op : Op, k ≠ op.kind → (after (op :: past)).get k = (after past).get k := by
  obtain ⟨hturn, hgiven⟩ := inTurn_after k past
  exact ⟨hturn.length_le, fun _ _ => toNat_of_numbered hgiven, hturn.nodup, hturn.zero_not_mem,
    fun _ => get_step_of_ne _⟩

end EventLogs

end CxlEndpoint
