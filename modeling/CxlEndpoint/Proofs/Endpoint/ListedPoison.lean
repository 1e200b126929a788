import CxlEndpoint.Proofs.Endpoint.PoisonList

/-!
# What the poison list says of each line

A response to a request to list poison names runs of cache lines. The host may ask for any range
that starts at a line, also for one that is empty or reaches over the last word.

* `NamesPoison`: every line that a record names lies in the range and is poisoned with its kind.
* `ofPayload?_page_told`: the host reads the page that the store has answered with, of each record
  as much as its bytes tell.
* `namesPoison_told`: every record of such a page names poison. `lines_pos_iff`: it may still name
  no line at all, but only if no line was asked for.
* `listed_names_poison_iff`: what both say of a response.
* `not_listed_names_line`: a response with a record that names no line.
-/

namespace CxlEndpoint

namespace Poison

/-- Every line that the record names lies in the range and is poisoned with the record's kind. -/
def NamesPoison (s : Store) (range : Range) (r : Record) : Prop :=
  ∀ a, r.start ≤ a → a < r.start + r.length →
    (range.start ≤ a ∧ a < range.stop) ∧ s.kindAt a = some r.kind

variable {s : Store} {range : Range} {r : Record} {limit : Nat} {scanning : Bool}

/-! ## One record -/

theorem Range.stop_of_lines (h : range.lines = 0) : range.stop = range.start := by
  rw [stop, h, Nat.zero_mul, Nat.add_zero]

/-- What a record has of a range starts at a line, even if it has nothing of it. -/
theorem Record.Whole.start_cut (h : r.Whole) (haligned : LineAligned range.start)
    (hoverlaps : r.Overlaps range.start range.stop) :
    LineAligned (r.cut range.start range.stop).start ∧
      (r.cut range.start range.stop).start ≤ lastLine := by
  have hstart := h.start_aligned
  have hlt := h.start_lt_stop
  have hstop := h.stop_le
  have hin := hoverlaps.2
  simp only [Record.cut, Record.start_between, LineAligned, lineBytes] at *
  omega

/-- The lines that the host is told of are lines of the record in the range. -/
theorem namesPoison_told (h : Tidy s.live) (hr : r ∈ s.live) :
    NamesPoison s range (r.cut range.start range.stop).told := by
  intro a hlo hhi
  have hw := h.whole r hr
  have hlines : (r.cut range.start range.stop).length / lineBytes * lineBytes ≤
      (r.cut range.start range.stop).length := Nat.div_mul_le_self _ _
  have htold : (r.cut range.start range.stop).told.length ≤
      (r.cut range.start range.stop).length :=
    Nat.le_trans (Nat.mul_le_mul_right _ (Nat.min_le_left _ _)) hlines
  have hstart : (r.cut range.start range.stop).told.start = max r.start range.start := rfl
  have hlength : (r.cut range.start range.stop).length =
      min r.stop range.stop - max r.start range.start := rfl
  have hline : r.ContainsLine a := hw.containsLine_iff.mpr (by omega)
  have hkind : s.kindAt a = some r.kind := h.kindAt_of_mem hr hline
  exact ⟨by omega, hkind⟩

/-- A record that overlaps a range has a line of it exactly if the range has a line. -/
theorem lines_pos_iff (h : r.Whole) (haligned : LineAligned range.start)
    (hoverlaps : r.Overlaps range.start range.stop) :
    1 ≤ (r.cut range.start range.stop).told.length / lineBytes ↔ 0 < range.lines := by
  rw [Record.lines_told]
  constructor
  · intro hpos
    by_contra hempty
    have hstop : range.stop = range.start := Range.stop_of_lines (Nat.eq_zero_of_not_pos hempty)
    have hnothing : (r.cut range.start range.stop).length = 0 := by
      rw [hstop]
      simp only [Record.cut, Record.between]
      omega
    rw [hnothing] at hpos
    exact absurd hpos (by decide)
  · intro hlines
    have hlt : range.start < range.stop := by
      unfold Range.stop lineBytes
      omega
    have hcut := h.cut haligned (Range.stop_aligned haligned) hlt hoverlaps
    have hpos := hcut.length_pos
    have hwhole := hcut.length_aligned
    have hlast : 1 ≤ Word.last32 := by decide
    simp only [LineAligned, lineBytes] at *
    omega

/-! ## One page -/

/-- The host reads the page, of each record as much as it is told. -/
theorem ofPayload?_page_told (h : s.WellFormed) (haligned : LineAligned range.start) (limit : Nat)
    (scanning : Bool) :
    ListPage.ofPayload? (page s range limit scanning).toPayload =
      some (page s range limit scanning).told := by
  refine ListPage.ofPayload?_toPayload_told (fun part hpart => ?_)
    (length_page_lt h.tidy h.length_le)
  obtain ⟨r, hr, hoverlaps, rfl⟩ := exists_of_mem_page h.tidy hpart
  exact (h.tidy.whole r hr).start_cut haligned hoverlaps

/-- What the host is told are parts of records that overlap the range. -/
theorem exists_of_mem_told (h : Tidy s.live) {part : Record}
    (hpart : part ∈ (page s range limit scanning).told.records) :
    ∃ r ∈ s.live, r.Overlaps range.start range.stop ∧
      (r.cut range.start range.stop).told = part := by
  obtain ⟨whole, hwhole, rfl⟩ := List.mem_map.mp hpart
  obtain ⟨r, hr, hoverlaps, rfl⟩ := exists_of_mem_page h hwhole
  exact ⟨r, hr, hoverlaps, rfl⟩

/-- The host is told of no record if there is no room for one, or if none overlaps the range. -/
theorem told_eq_nil_iff (h : Tidy s.live) :
    (page s range limit scanning).told.records = [] ↔
      limit = 0 ∨ ∀ r ∈ s.live, ¬ r.Overlaps range.start range.stop := by
  rw [ListPage.told, List.map_eq_nil_iff, records_page h, List.map_eq_nil_iff, List.take_eq_nil_iff]
  exact or_congr_right (by simp [overlapping])

/-- Every record of a page names a line, unless no line was asked for and a record lies around the
start of the empty range. -/
theorem forall_lines_pos_iff (h : Tidy s.live) (haligned : LineAligned range.start) :
    (∀ part ∈ (page s range limit scanning).told.records, 1 ≤ part.length / lineBytes) ↔
      0 < range.lines ∨ limit = 0 ∨
        ∀ r ∈ s.live, ¬ (r.start < range.start ∧ range.start < r.start + r.length) := by
  have hpos : ∀ part ∈ (page s range limit scanning).told.records,
      (1 ≤ part.length / lineBytes ↔ 0 < range.lines) := by
    intro part hpart
    obtain ⟨r, hr, hoverlaps, rfl⟩ := exists_of_mem_told h hpart
    exact lines_pos_iff (h.whole r hr) haligned hoverlaps
  by_cases hlines : 0 < range.lines
  · exact iff_of_true (fun part hpart => (hpos part hpart).mpr hlines) (Or.inl hlines)
  · have hnone : (∀ part ∈ (page s range limit scanning).told.records,
        1 ≤ part.length / lineBytes) ↔ (page s range limit scanning).told.records = [] := by
      rw [List.eq_nil_iff_forall_not_mem]
      exact forall₂_congr fun part hpart =>
        iff_of_false (mt (hpos part hpart).mp hlines) not_false
    have hstop : range.stop = range.start := Range.stop_of_lines (Nat.eq_zero_of_not_pos hlines)
    rw [hnone, told_eq_nil_iff h, or_iff_right hlines]
    refine or_congr_right (forall₂_congr fun r hr => not_congr ?_)
    rw [Record.Overlaps, hstop, (h.whole r hr).stop_eq]

end Poison

namespace Endpoint

open Poison (ListPage NamesPoison Range)

variable {m : Mailbox} {d : MemoryDevice} {range : Range} {past : List Poison.Op} {now : Nat}
  {limit : Option Nat}

/-! ## One response -/

/-- A response that tells of success is a page of the list. -/
theorem payload_listing (hknows : m.Knows .getPoisonList) (hrange : range.Readable)
    (hok : ((memory m d).dispatch now limit .getPoisonList range.request).2.status = .success) :
    ((memory m d).dispatch now limit .getPoisonList range.request).2.payload =
      (d.poisonPage (m.conditions now (m.room limit)) range).toPayload := by
  obtain ⟨c, haccept⟩ := exists_accept_of_success hok
  have haccept' : m.accept .getPoisonList range.request = .ok c := haccept
  obtain rfl := hknows.eq_of_accept haccept'
  rw [(carries_listing hrange d haccept').dispatch_of_success rfl hok]

/-- **Every record of the poison list names real poison, but it may name no line.** Whatever
happened to the store and whatever range was asked for, the lines that a record names lie in the
range and are poisoned with its kind. Every record names a line unless the host asked for no line at
all, there is room for a record, and a live record starts below and ends above the start of the
empty range. -/
theorem listed_names_poison_iff (hpast : ∀ op ∈ past, op.InSpace)
    (hpoison : d.poison = .after past) (hknows : m.Knows .getPoisonList)
    (hrange : range.Readable)
    (hok : ((memory m d).dispatch now limit .getPoisonList range.request).2.status = .success) :
    ∃ page,
      ListPage.ofPayload?
          ((memory m d).dispatch now limit .getPoisonList range.request).2.payload = some page ∧
        (∀ r ∈ page.records, NamesPoison d.poison range r) ∧
        ((∀ r ∈ page.records, 1 ≤ r.length / lineBytes) ↔
          0 < range.lines ∨ m.room limit < 48 ∨
            ∀ r ∈ d.poison.live,
              ¬ (r.start < range.start ∧ range.start < r.start + r.length)) := by
  have hform : d.poison.WellFormed := hpoison ▸ .after hpast
  have hroom : m.room limit < 48 ↔ Poison.recordLimit (m.room limit) = 0 := by
    simp only [Poison.recordLimit, Poison.headerLength, Poison.recordLength]
    omega
  refine ⟨(d.poisonPage (m.conditions now (m.room limit)) range).told, ?_, fun part hpart => ?_, ?_⟩
  · rw [payload_listing hknows hrange hok, MemoryDevice.poisonPage_eq,
      Poison.ofPayload?_page_told hform hrange.aligned]
  · rw [MemoryDevice.poisonPage_eq] at hpart
    obtain ⟨r, hr, -, rfl⟩ := Poison.exists_of_mem_told hform.tidy hpart
    exact Poison.namesPoison_told hform.tidy hr
  · rw [MemoryDevice.poisonPage_eq, Poison.forall_lines_pos_iff hform.tidy hrange.aligned, hroom]
    rfl

/-- The mailbox of a new memory device. -/
def newMailbox : Mailbox := .ofCommands memoryCommands 2048

/-- A memory device after the errors that it has reported, and otherwise new. -/
def poisonedBy (past : List Poison.Op) : MemoryDevice :=
  { MemoryDevice.fresh with poison := .after past }

theorem knows_newMailbox : newMailbox.Knows .getPoisonList := rfl

theorem dispatch_poisonedBy (h : range.Readable) (past : List Poison.Op) :
    (memory newMailbox (poisonedBy past)).dispatch 0 none .getPoisonList range.request =
      (memory newMailbox (poisonedBy past),
        ⟨.success,
          (Poison.page (.after past) range (Poison.recordLimit 2048) false).toPayload⟩) := by
  have hroom : Poison.headerLength ≤ newMailbox.room none := by decide
  exact dispatch_listing knows_newMailbox nofun h (poisonedBy past) hroom

/-- More lines than the number in a record has bits for, and a range over the end of the address
space. -/
def vastHistory : List Poison.Op := [.mediaError 0 0x10000000000 .vendor 1]

theorem listed_names_poison_iff_vast :
    (∀ op ∈ vastHistory, op.InSpace) ∧ (⟨0x1000, Word.last⟩ : Range).Readable ∧
      ∃ page,
        ListPage.ofPayload?
            ((memory newMailbox (poisonedBy vastHistory)).dispatch 0 none .getPoisonList
              (⟨0x1000, Word.last⟩ : Range).request).2.payload = some page ∧
          (∀ r ∈ page.records, NamesPoison (.after vastHistory) ⟨0x1000, Word.last⟩ r) ∧
          ∀ r ∈ page.records, 1 ≤ r.length / lineBytes := by
  have hpast : ∀ op ∈ vastHistory, op.InSpace := by simp [vastHistory, Poison.Op.InSpace]
  have hrange : (⟨0x1000, Word.last⟩ : Range).Readable := ⟨by decide, by decide, by decide⟩
  have hok : ((memory newMailbox (poisonedBy vastHistory)).dispatch 0 none .getPoisonList
      (⟨0x1000, Word.last⟩ : Range).request).2.status = .success := by
    rw [dispatch_poisonedBy hrange]
  obtain ⟨page, hpage, hpoison, hlines⟩ :=
    listed_names_poison_iff hpast rfl knows_newMailbox hrange hok
  exact ⟨hpast, hrange, page, hpage, hpoison, hlines.mpr (Or.inl (by decide))⟩

/-- To ask for no line, at an address inside a record, gets a record that names no line. -/
theorem not_listed_names_line :
    ¬ ∀ (past : List Poison.Op) (m : Mailbox) (d : MemoryDevice) (range : Range) (now : Nat)
        (limit : Option Nat), (∀ op ∈ past, op.InSpace) → d.poison = .after past →
      m.Knows .getPoisonList → range.Readable →
      ((memory m d).dispatch now limit .getPoisonList range.request).2.status = .success →
      ∃ page,
        ListPage.ofPayload?
            ((memory m d).dispatch now limit .getPoisonList range.request).2.payload = some page ∧
          ∀ r ∈ page.records, 1 ≤ r.length / lineBytes ∧ NamesPoison d.poison range r := by
  intro h
  have hpast : ∀ op ∈ [Poison.Op.mediaError 0x1000 0x100 .internal 0], op.InSpace := by
    simp [Poison.Op.InSpace]
  have hrange : (⟨0x1040, 0⟩ : Range).Readable := ⟨by decide, by decide, by decide⟩
  have hform := Poison.Store.WellFormed.after hpast
  have hdispatch := dispatch_poisonedBy hrange [.mediaError 0x1000 0x100 .internal 0]
  obtain ⟨page, hpage, hall⟩ :=
    h _ newMailbox (poisonedBy [.mediaError 0x1000 0x100 .internal 0]) _ 0 none hpast rfl
      knows_newMailbox hrange (by rw [hdispatch])
  rw [hdispatch, Poison.ofPayload?_page_told hform hrange.aligned] at hpage
  obtain rfl := Option.some.inj hpage
  have hlines :=
    (Poison.forall_lines_pos_iff hform.tidy hrange.aligned).mp fun r hr => (hall r hr).1
  revert hlines
  decide

end Endpoint

end CxlEndpoint
