import CxlEndpoint.Poison.Checked
import CxlEndpoint.Proofs.Poison.History

/-!
# Injection at the end of the address space

* `isPoisonedChecked_eq`, `injectChecked_eq`, `clearChecked_eq`: when a call stops the program, and
  that it otherwise is the unchecked one. `afterChecked_of_inSpace`: no history stops that leaves
  the last line alone.
* `Topped`: the live list is tidy but for a record of the last line at its end. Injections and media
  errors leave such a list (`topped_afterChecked`).
* `ExactAt`: at an address, the list can be looked up, and an injection does what it should.
  `exactAt_iff`: this holds of all addresses below the last line and of no others.
* `not_exactAt`: an injection at the last line.
-/

namespace CxlEndpoint.Poison

/-- An operation that may add to the live list: an injection at a word, between scans, or a media
error. -/
def Op.Adds : Op → Prop
  | inject address frozen => frozen = false ∧ address ≤ Word.last
  | mediaError .. => True
  | _ => False

variable {l low new : List Record} {r t : Record} {address : Nat}

/-! ## A record above the list -/

theorem insertSorted_concat (h : r.start ≤ t.start) :
    insertSorted r (l ++ [t]) = insertSorted r l ++ [t] := by
  induction l with
  | nil => simp [insertSorted, Nat.not_lt.mpr h]
  | cons s l ih =>
    simp only [List.cons_append, insertSorted, ih]
    split <;> rfl

theorem insertAll_concat (h : ∀ r ∈ new, r.start ≤ t.start) :
    insertAll new (l ++ [t]) = insertAll new l ++ [t] := by
  induction new generalizing l with
  | nil => rfl
  | cons r new ih =>
    obtain ⟨hr, hnew⟩ := List.forall_mem_cons.mp h
    show insertAll new (insertSorted r (l ++ [t])) = insertAll new (insertSorted r l) ++ [t]
    rw [insertSorted_concat hr, ih hnew]

theorem gaps_concat (h : r.stop ≤ t.start) : gaps r (l ++ [t]) = gaps r l := by
  have hout : ¬ t.Overlaps r.start r.stop := fun hoverlaps =>
    Nat.lt_irrefl _ (Nat.lt_of_lt_of_le hoverlaps.1 h)
  rw [gaps, gaps, List.filter_append, List.filter_cons_of_neg (by simpa using hout),
    List.filter_nil, List.append_nil]

/-! ## The record of the last line -/

/-- The last line, as the host injects poison there. -/
def lastRecord : Record := ⟨lastLine, lineBytes, .injected⟩

/-- A tidy list, perhaps with the record of the last line behind it. -/
def Topped (l : List Record) : Prop := ∃ low, Tidy low ∧ (l = low ∨ l = low ++ [lastRecord])

theorem Tidy.topped (h : Tidy l) : Topped l := ⟨l, h, Or.inl rfl⟩

/-- A media error does not reach into the last line. -/
theorem Topped.insertLive (h : Topped l) (hr : r.Whole) : Topped (insertLive r l).1 := by
  obtain ⟨low, hlow, rfl | rfl⟩ := h
  · exact (hlow.insertLive hr).topped
  · have hgaps : gaps r (low ++ [lastRecord]) = gaps r low := gaps_concat hr.stop_le
    have hstart : ∀ g ∈ (gaps r low).take (listLimit - (low ++ [lastRecord]).length),
        g.start ≤ lastRecord.start := fun g hg =>
      have hw := hlow.whole_gaps hr (List.mem_of_mem_take hg)
      Nat.le_trans (Nat.le_of_lt hw.start_lt_stop) hw.stop_le
    rw [insertLive_eq, hgaps, insertAll_concat hstart]
    refine ⟨_, ?_, Or.inr rfl⟩
    refine hlow.insertAll ((hlow.gaps hr).sublist (List.take_sublist _ _)) fun g hg s hs => ?_
    exact hlow.apart_gaps hr (List.mem_of_mem_take hg) hs

/-- Below the last line, an injection keeps such a list. -/
theorem Topped.insertSorted_line (h : Topped l) (ha : address < lastLine)
    (hp : ¬ Covers l address) :
    Topped (insertSorted ⟨lineStart address, lineBytes, .injected⟩ l) := by
  obtain ⟨low, hlow, rfl | rfl⟩ := h
  · exact (Store.tidy_insertSorted_line hlow ha hp).topped
  · have hopen : ¬ Covers low address := fun hc => hp (covers_append.mpr (Or.inl hc))
    have hstart : lineStart address ≤ lastRecord.start :=
      Nat.le_trans (lineStart_le address) (Nat.le_of_lt ha)
    rw [insertSorted_concat hstart]
    exact ⟨_, Store.tidy_insertSorted_line hlow ha hopen, Or.inr rfl⟩

/-- A record of such a list contains a line below the last exactly if it reaches over the start of
the line. -/
theorem Topped.containsLine_iff (h : Topped l) (hr : r ∈ l) (ha : address < lastLine) :
    r.ContainsLine address ↔
      r.start ≤ lineStart address ∧ lineStart address < r.start + r.length := by
  have hwhole : r.Whole → (r.ContainsLine address ↔
      r.start ≤ lineStart address ∧ lineStart address < r.start + r.length) := by
    intro hw
    have h1 := hw.start_aligned
    have h2 := hw.length_aligned
    rw [hw.containsLine_iff, hw.stop_eq]
    simp only [LineAligned, lineStart, lineBytes] at *
    omega
  obtain ⟨low, hlow, rfl | rfl⟩ := h
  · exact hwhole (hlow.whole r hr)
  · rcases List.mem_append.mp hr with hr | hr
    · exact hwhole (hlow.whole r hr)
    · obtain rfl := List.mem_singleton.mp hr
      have hstart : ¬ lastRecord.start ≤ lineStart address :=
        Nat.not_le.mpr (Nat.lt_of_le_of_lt (lineStart_le address) ha)
      exact iff_of_false (fun hc => hstart hc.1) fun hc => hstart hc.1

/-! ## Calls that stop the program -/

/-- The end of a line is a word unless it is the last line. -/
theorem add?_lineBytes (address : Nat) :
    Word.add? (lineStart address) lineBytes =
      if address < lastLine then some (lineStart address + lineBytes) else none := by
  have hiff : lineStart address + lineBytes ≤ Word.last ↔ address < lastLine := by
    simp only [lineStart, lineBytes, Word.last, lastLine]
    omega
  rw [Word.add?]
  simp only [hiff]

namespace Store

variable {s s' : Store} {frozen : Bool} {now : Timestamp} {op : Op} {past : List Op}

/-- To look for the last line stops the program, unless there is no record to look at. -/
theorem isPoisonedChecked_eq :
    s.isPoisonedChecked address =
      if lastLine ≤ address ∧ s.live ≠ [] then none else some (s.isPoisoned address) := by
  unfold isPoisonedChecked
  rw [add?_lineBytes]
  by_cases ha : address < lastLine
  · simp only [if_pos ha, Nat.not_le.mpr ha, false_and, if_false, Option.map_some]
    exact List.anyM_pure
  · simp only [if_neg ha, Nat.le_of_not_lt ha, true_and, Option.map_none, isPoisoned]
    cases s.live with
    | nil => rfl
    | cons r l => rfl

theorem injectChecked_eq :
    s.injectChecked address frozen =
      if lastLine ≤ address ∧ s.live ≠ [] then none else some (s.inject? address frozen) := by
  rw [injectChecked, isPoisonedChecked_eq]
  by_cases hlast : lastLine ≤ address ∧ s.live ≠ []
  · rw [if_pos hlast, if_pos hlast, Option.map_none]
  · rw [if_neg hlast, if_neg hlast, Option.map_some, inject?]

theorem isPoisonedChecked_of_lt (ha : address < lastLine) :
    s.isPoisonedChecked address = some (s.isPoisoned address) := by
  rw [isPoisonedChecked_eq, if_neg fun hlast => Nat.not_le.mpr ha hlast.1]

theorem injectChecked_of_lt (ha : address < lastLine) :
    s.injectChecked address frozen = some (s.inject? address frozen) := by
  rw [injectChecked_eq, if_neg fun hlast => Nat.not_le.mpr ha hlast.1]

theorem clearChecked_eq :
    s.clearChecked address frozen now =
      if lastLine ≤ address ∧ frozen = false then none else some (s.clear address frozen now) := by
  cases frozen with
  | true => simp [clearChecked, clear]
  | false =>
    rw [clearChecked, add?_lineBytes]
    by_cases ha : address < lastLine
    · simp [ha]
    · simp [ha, Nat.le_of_not_lt ha]

/-- The store after one more operation, unless the operation stops the program. -/
def stepChecked (s : Store) : Op → Option Store
  | .inject address frozen => (s.injectChecked address frozen).map (·.getD s)
  | .clear address frozen now => (s.clearChecked address frozen now).map (·.1)
  | op => some (s.step op)

/-- The store after the operations `past`, of which the latest comes first, unless one of them stops
the program. -/
def afterChecked : List Op → Option Store
  | [] => some .empty
  | op :: past => (afterChecked past).bind (·.stepChecked op)

theorem stepChecked_of_inSpace (h : op.InSpace) : s.stepChecked op = some (s.step op) := by
  cases op with
  | inject address frozen =>
    rw [stepChecked, injectChecked_of_lt h]
    rfl
  | clear address frozen now =>
    have ha : ¬ (lastLine ≤ address ∧ frozen = false) := fun hlast => Nat.not_le.mpr h hlast.1
    rw [stepChecked, clearChecked_eq, if_neg ha]
    rfl
  | mediaError | beginScan | completeScan | takeResults => rfl

/-- As long as the host leaves the last line alone, every call returns. -/
theorem afterChecked_of_inSpace (h : ∀ op ∈ past, op.InSpace) :
    afterChecked past = some (after past) := by
  induction past with
  | nil => rfl
  | cons op past ih =>
    obtain ⟨hop, hpast⟩ := List.forall_mem_cons.mp h
    rw [afterChecked, ih hpast, Option.bind_some, stepChecked_of_inSpace hop]
    rfl

/-! ## Reached lists -/

theorem lineStart_eq_lastLine (hlo : lastLine ≤ address) (hhi : address ≤ Word.last) :
    lineStart address = lastLine := by
  simp only [lineStart, lineBytes, lastLine, Word.last] at *
  omega

theorem inject?_of_nil (hlive : s.live = []) :
    s.inject? address false =
      some { s with live := [⟨lineStart address, lineBytes, .injected⟩] } := by
  have hpoisoned : s.isPoisoned address = false := by simp [isPoisoned, hlive]
  have hroom : ¬ listLimit ≤ s.live.length := by simp [hlive, listLimit]
  rw [inject?_false, hpoisoned, if_neg Bool.false_ne_true, if_neg hroom, hlive]
  rfl

theorem topped_inject (h : Topped s.live) (ha : address < lastLine)
    (hs : s.inject? address false = some s') : Topped s'.live := by
  rw [inject?_false] at hs
  split at hs
  · obtain rfl := Option.some.inj hs
    exact h
  next hp =>
    split at hs
    · cases hs
    · obtain rfl := Option.some.inj hs
      exact h.insertSorted_line ha (by rwa [isPoisoned_iff] at hp)

theorem topped_step (h : Topped s.live) (hop : op.Adds) (hs : s.stepChecked op = some s') :
    Topped s'.live := by
  cases op with
  | inject address frozen =>
    obtain ⟨rfl, hword⟩ := hop
    by_cases ha : address < lastLine
    · rw [stepChecked, injectChecked_of_lt ha] at hs
      obtain rfl := Option.some.inj hs
      cases hinject : s.inject? address false with
      | none => exact h
      | some s' => exact topped_inject h ha hinject
    · -- The call returns only if nothing is poisoned.
      have hle := Nat.le_of_not_lt ha
      rw [stepChecked, injectChecked_eq] at hs
      split at hs
      · cases hs
      next hlast =>
        have hlive : s.live = [] := by simpa [hle] using hlast
        obtain rfl := Option.some.inj hs
        rw [inject?_of_nil hlive, lineStart_eq_lastLine hle hword]
        exact ⟨[], tidy_nil, Or.inr rfl⟩
  | mediaError start length kind now =>
    obtain rfl := Option.some.inj hs
    show Topped (s.recordMediaError start length kind now).live
    cases hr : mediaError? start length kind with
    | none => rwa [recordMediaError_of_none hr]
    | some r =>
      rw [recordMediaError_of_some hr]
      exact h.insertLive (whole_of_mediaError? hr)
  | clear | beginScan | completeScan | takeResults => exact hop.elim

theorem topped_afterChecked (h : ∀ op ∈ past, op.Adds) (hs : afterChecked past = some s) :
    Topped s.live := by
  induction past generalizing s with
  | nil =>
    obtain rfl := Option.some.inj hs
    exact tidy_nil.topped
  | cons op past ih =>
    obtain ⟨hop, hpast⟩ := List.forall_mem_cons.mp h
    obtain ⟨s', hs', hstep⟩ := Option.bind_eq_some_iff.mp hs
    exact topped_step (ih hpast hs') hop hstep

/-! ## Exact injection -/

/-- At an address, the list tells whether a record covers the line; and what an injection leaves,
if it is not refused, has the line poisoned and does not change if the injection is repeated. -/
structure ExactAt (s : Store) (address : Nat) : Prop where
  poisoned : ∃ poisoned, s.isPoisonedChecked address = some poisoned ∧
    (poisoned = true ↔
      ∃ r ∈ s.live, r.start ≤ lineStart address ∧ lineStart address < r.start + r.length)
  returns : ∃ result, s.injectChecked address false = some result
  injected : ∀ s', s.injectChecked address false = some (some s') →
    s'.isPoisonedChecked address = some true
  again : ∀ s', s.injectChecked address false = some (some s') →
    s'.injectChecked address false = some (some s')

/-- An injection that is not refused has the line poisoned. -/
theorem isPoisoned_of_inject (ha : address < lastLine) (hs : s.inject? address false = some s') :
    s'.isPoisoned address = true := by
  rw [inject?_false] at hs
  split at hs
  next hp =>
    obtain rfl := Option.some.inj hs
    exact hp
  · split at hs
    · cases hs
    · obtain rfl := Option.some.inj hs
      exact isPoisoned_iff.mpr
        ⟨_, mem_insertSorted.mpr (Or.inl rfl), (containsLine_line ha).mpr rfl⟩

theorem exactAt_of_lt (h : Topped s.live) (ha : address < lastLine) : s.ExactAt address := by
  refine ⟨⟨_, isPoisonedChecked_of_lt ha, ?_⟩, ⟨_, injectChecked_of_lt ha⟩, fun s' hs => ?_,
    fun s' hs => ?_⟩
  · rw [isPoisoned_iff]
    exact exists_congr fun r => and_congr_right fun hr => h.containsLine_iff hr ha
  · rw [injectChecked_of_lt ha] at hs
    rw [isPoisonedChecked_of_lt ha, isPoisoned_of_inject ha (Option.some.inj hs)]
  · rw [injectChecked_of_lt ha] at hs
    rw [injectChecked_of_lt ha, inject?_false,
      if_pos (isPoisoned_of_inject ha (Option.some.inj hs))]

/-- The program stops at the last line as soon as anything is poisoned. -/
theorem checked_eq_none (ha : lastLine ≤ address) (hlive : s.live ≠ []) :
    s.isPoisonedChecked address = none ∧ s.injectChecked address false = none := by
  rw [isPoisonedChecked_eq, injectChecked_eq, if_pos ⟨ha, hlive⟩, if_pos ⟨ha, hlive⟩]
  exact ⟨rfl, rfl⟩

/-- With nothing poisoned, an injection at the last line returns, and no later call for this line
does. -/
theorem exists_injectChecked_of_nil (ha : lastLine ≤ address) (hlive : s.live = []) :
    ∃ s', s.injectChecked address false = some (some s') ∧
      s'.isPoisonedChecked address = none ∧ s'.injectChecked address false = none := by
  refine ⟨{ s with live := [⟨lineStart address, lineBytes, .injected⟩] }, ?_,
    checked_eq_none ha (List.cons_ne_nil _ _)⟩
  rw [injectChecked_eq, if_neg fun hlast => hlast.2 hlive, inject?_of_nil hlive]

theorem not_exactAt_of_le (ha : lastLine ≤ address) : ¬ s.ExactAt address := by
  rintro ⟨⟨poisoned, hpoisoned, -⟩, -, hinjected, -⟩
  by_cases hlive : s.live = []
  · obtain ⟨s', hs', hstops, -⟩ := exists_injectChecked_of_nil ha hlive
    rw [hinjected s' hs'] at hstops
    cases hstops
  · rw [(checked_eq_none ha hlive).1] at hpoisoned
    cases hpoisoned

/-- **Injection is exact below the last line, and stops the program there.** If something is
poisoned, no call for the last line returns; otherwise the first injection returns, and no call
after it. -/
theorem exactAt_iff (h : ∀ op ∈ past, op.Adds) (hs : afterChecked past = some s) (address : Nat) :
    (s.ExactAt address ↔ address < lastLine) ∧
      (lastLine ≤ address →
        (s.live ≠ [] →
          s.isPoisonedChecked address = none ∧ s.injectChecked address false = none) ∧
        (s.live = [] → ∃ s', s.injectChecked address false = some (some s') ∧
          s'.isPoisonedChecked address = none ∧ s'.injectChecked address false = none)) := by
  refine ⟨⟨fun hexact => ?_, exactAt_of_lt (topped_afterChecked h hs)⟩, fun ha =>
    ⟨checked_eq_none ha, exists_injectChecked_of_nil ha⟩⟩
  exact Nat.lt_of_not_le fun ha => not_exactAt_of_le ha hexact

/-- An injection at the last address, and an error that reaches over the end of the address
space. -/
def topHistory : List Op :=
  [.mediaError 0xfffffffffffff000 0xffff .vendor 4, .inject Word.last false]

theorem exactAt_iff_top :
    (∀ op ∈ topHistory, op.Adds) ∧ ∃ s, afterChecked topHistory = some s ∧
      s.live = [⟨0xfffffffffffff000, 0xfc0, .vendor⟩, lastRecord] ∧
      s.ExactAt 0xffffffffffffffbf ∧ s.isPoisonedChecked 0xffffffffffffffc0 = none := by
  have h : ∀ op ∈ topHistory, op.Adds := by simp [topHistory, Op.Adds]
  obtain ⟨s, hs, hlive⟩ : ∃ s, afterChecked topHistory = some s ∧
      s.live = [⟨0xfffffffffffff000, 0xfc0, .vendor⟩, lastRecord] := ⟨_, rfl, by decide⟩
  refine ⟨h, s, hs, hlive, (exactAt_iff h hs _).1.mpr (by decide), ?_⟩
  exact (((exactAt_iff h hs _).2 (by decide)).1 (by simp [hlive])).1

/-- The line of the last address, poisoned first. -/
theorem not_exactAt :
    ¬ ∀ past s address, (∀ op ∈ past, op.Adds) → afterChecked past = some s →
      address ≤ Word.last → s.ExactAt address :=
  fun h => not_exactAt_of_le (s := .empty) (by decide)
    (h [] .empty Word.last (by simp) rfl (Nat.le_refl _))

end Store

end CxlEndpoint.Poison
