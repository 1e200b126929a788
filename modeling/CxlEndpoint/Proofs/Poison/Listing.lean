import CxlEndpoint.Proofs.Poison.History
import CxlEndpoint.Proofs.Poison.Message

/-!
# Listing the poison in a range

* `Range.Proper`: a range of whole lines in front of the last line.
* `overlapping`, `excerpt`: the records that overlap a range, and what they have of it
  (`ascending_excerpt`). `Tidy.query_eq`: a query takes from the front of them.
* `Tidy.overlapping_behind`, `Tidy.excerpt_behind`: behind a record that overlaps the range, the
  rest of them overlaps the rest of it. So a host that goes on there misses nothing and gets nothing
  twice.
* `Range.behind`, `fetch`: the host asks for one page after the other.
* `Complete`: the pages that it has got in the end. `Complete.last` and `Complete.cons` build them
  up from the last page to the first, and `exists_fetch` says that the host gets such pages.
-/

namespace CxlEndpoint.Poison

/-! ## Parts of records -/

namespace Record

variable {r : Record} {start stop : Nat}

/-- What a record has of `[start, stop)`. -/
def cut (r : Record) (start stop : Nat) : Record :=
  .between (max r.start start) (min r.stop stop) r.kind

theorem Whole.clip_eq (h : r.Whole) : r.clip start stop = r.cut start stop := by
  unfold clip
  rw [h.start_aligned.lineStart_eq]
  rfl

/-- A record that overlaps a range of whole lines has whole lines of it. -/
theorem Whole.cut (h : r.Whole) (hstart : LineAligned start) (hstop : LineAligned stop)
    (hlt : start < stop) (hoverlaps : r.Overlaps start stop) : (r.cut start stop).Whole := by
  have haligned := h.start_aligned
  have haligned' := h.stop_aligned
  have hpos := h.start_lt_stop
  obtain ⟨hlo, hhi⟩ := hoverlaps
  apply h.part
  · simp only [LineAligned, lineBytes] at *
    omega
  · simp only [LineAligned, lineBytes] at *
    omega
  · omega
  · exact Nat.min_le_left _ _

/-- The part ends where the record or the range does. -/
theorem end_cut (hpos : r.start < r.stop) (hlt : start < stop) (hoverlaps : r.Overlaps start stop) :
    (r.cut start stop).start + (r.cut start stop).length = min r.stop stop := by
  obtain ⟨hlo, hhi⟩ := hoverlaps
  simp only [cut, between]
  omega

theorem Whole.encodable (h : r.Whole) (hlines : r.length / lineBytes ≤ Word.last32) :
    r.Encodable :=
  ⟨h.start_aligned, h.length_aligned, Nat.le_trans (Nat.le_add_right _ _) h.fits, hlines⟩

theorem Whole.encodable_cut (h : r.Whole) (hstart : LineAligned start) (hstop : LineAligned stop)
    (hlt : start < stop) (hoverlaps : r.Overlaps start stop)
    (hlines : r.length / lineBytes ≤ Word.last32) : (r.cut start stop).Encodable := by
  refine (h.cut hstart hstop hlt hoverlaps).encodable (Nat.le_trans ?_ hlines)
  apply Nat.div_le_div_right
  have hend := h.stop_eq
  simp only [Record.cut, between]
  omega

end Record

/-! ## Ranges -/

namespace Range

/-- The end of the range. -/
def stop (r : Range) : Nat := r.start + r.lines * lineBytes

/-- At least one line, and none behind the last but one. -/
structure Proper (r : Range) : Prop where
  aligned : LineAligned r.start
  lines_pos : 0 < r.lines
  stop_le : r.stop ≤ lastLine

variable {range : Range}

theorem Proper.start_lt_stop (h : range.Proper) : range.start < range.stop := by
  have hpos := h.lines_pos
  unfold stop lineBytes
  omega

theorem stop_aligned (h : LineAligned range.start) : LineAligned range.stop := by
  simp only [LineAligned, stop, lineBytes] at *
  omega

theorem Proper.readable (h : range.Proper) : range.Readable := by
  have hstop := h.stop_le
  have hlast : lastLine ≤ Word.last := by decide
  unfold stop lineBytes at hstop
  exact ⟨h.aligned, by omega, by omega⟩

/-- A range that is asked for ends where it says, or at the last word. -/
theorem addSat_mulSat (range : Range) :
    Word.addSat range.start (Word.mulSat range.lines lineBytes) = min range.stop Word.last := by
  unfold Word.addSat Word.mulSat stop
  omega

/-- What is left of the range behind a record. -/
def behind (range : Range) (last : Record) : Range :=
  let next := last.start + last.length
  ⟨next, range.lines - (next - range.start) / lineBytes⟩

/-- Behind an address of the range lies its rest. -/
theorem Proper.behind (h : range.Proper) {next : Nat} {last : Record}
    (hnext : last.start + last.length = next) (haligned : LineAligned next)
    (hlo : range.start ≤ next) (hhi : next < range.stop) :
    (range.behind last).Proper ∧ (range.behind last).start = next ∧
      (range.behind last).stop = range.stop := by
  have hstart := h.aligned
  have hstop := h.stop_le
  have hsame : (range.behind last).stop = range.stop := by
    simp only [Range.behind, stop, hnext, LineAligned, lineBytes] at *
    omega
  refine ⟨⟨?_, ?_, hsame ▸ hstop⟩, hnext, hsame⟩
  · show LineAligned (last.start + last.length)
    rwa [hnext]
  · simp only [Range.behind, stop, hnext, LineAligned, lineBytes] at *
    omega

end Range

/-! ## The records of a range -/

section Overlapping

variable {l front back : List Record} {r : Record} {start stop : Nat}

/-- The records that overlap `[start, stop)`. -/
def overlapping (l : List Record) (start stop : Nat) : List Record :=
  l.filter fun r => r.Overlaps start stop

/-- The records that overlap `[start, stop)`, cut to it. -/
def excerpt (l : List Record) (start stop : Nat) : List Record :=
  (overlapping l start stop).map (·.cut start stop)

theorem mem_overlapping : r ∈ overlapping l start stop ↔ r ∈ l ∧ r.Overlaps start stop := by
  simp [overlapping]

theorem length_excerpt : (excerpt l start stop).length = (overlapping l start stop).length :=
  List.length_map ..

theorem Tidy.overlapping (h : Tidy l) : Tidy (overlapping l start stop) :=
  h.sublist List.filter_sublist

theorem Tidy.ascending_excerpt (h : Tidy l) (hlt : start < stop) :
    (excerpt l start stop).Pairwise fun r s => r.start + r.length ≤ s.start := by
  refine List.pairwise_map.mpr (h.overlapping.ordered.imp_of_mem ?_)
  intro r s hr _ hle
  obtain ⟨hr, hoverlaps⟩ := mem_overlapping.mp hr
  rw [Record.end_cut (h.whole r hr).start_lt_stop hlt hoverlaps]
  simp only [Record.cut, Record.between]
  omega

/-- The records around one that overlaps the range. -/
theorem Tidy.bounds (h : Tidy l) (hsplit : Poison.overlapping l start stop = front ++ r :: back) :
    (∀ s ∈ front, s.stop ≤ r.start) ∧ ∀ s ∈ back, r.stop ≤ s.start := by
  have hordered := (h.overlapping : Tidy (Poison.overlapping l start stop)).ordered
  rw [hsplit] at hordered
  obtain ⟨-, hback, hfront⟩ := List.pairwise_append.mp hordered
  exact ⟨fun s hs => hfront s hs r List.mem_cons_self, (List.pairwise_cons.mp hback).1⟩

/-- Behind a record that overlaps the range, the later ones overlap the rest of it, and no others
do. -/
theorem Tidy.overlapping_behind (h : Tidy l)
    (hsplit : Poison.overlapping l start stop = front ++ r :: back) :
    Poison.overlapping l r.stop stop = back := by
  obtain ⟨hfront, hback⟩ := h.bounds hsplit
  have hmem : ∀ s ∈ front ++ r :: back, s.Whole ∧ s.Overlaps start stop := by
    intro s hs
    rw [← hsplit] at hs
    obtain ⟨hs, hoverlaps⟩ := mem_overlapping.mp hs
    exact ⟨h.whole s hs, hoverlaps⟩
  obtain ⟨hr, -, hstart⟩ := hmem r (by simp)
  have hrest : Poison.overlapping l r.stop stop =
      (Poison.overlapping l start stop).filter fun s => s.Overlaps r.stop stop := by
    unfold Poison.overlapping
    rw [List.filter_filter]
    refine List.filter_congr fun s _ => ?_
    by_cases hs : s.Overlaps r.stop stop
    · have hwide : s.Overlaps start stop := ⟨hs.1, Nat.lt_trans hstart hs.2⟩
      simp [hs, hwide]
    · simp [hs]
  have hpast : ∀ s ∈ front, ¬ s.Overlaps r.stop stop := by
    intro s hs hoverlaps
    have := hfront s hs
    have := hr.start_lt_stop
    have := hoverlaps.2
    omega
  have hself : ¬ r.Overlaps r.stop stop := fun hoverlaps => Nat.lt_irrefl _ hoverlaps.2
  have hahead : ∀ s ∈ back, s.Overlaps r.stop stop := by
    intro s hs
    obtain ⟨hw, hoverlaps⟩ := hmem s (by simp [hs])
    exact ⟨hoverlaps.1, Nat.lt_of_le_of_lt (hback s hs) hw.start_lt_stop⟩
  rw [hrest, hsplit, List.filter_append, List.filter_cons_of_neg (by simpa using hself),
    List.filter_eq_nil_iff.mpr (by simpa using hpast), List.nil_append,
    List.filter_eq_self.mpr (by simpa using hahead)]

theorem Tidy.excerpt_behind (h : Tidy l)
    (hsplit : Poison.overlapping l start stop = front ++ r :: back) :
    excerpt l start stop =
      (front ++ [r]).map (·.cut start stop) ++ excerpt l r.stop stop := by
  obtain ⟨-, hback⟩ := h.bounds hsplit
  have hmem : r ∈ Poison.overlapping l start stop := by
    rw [hsplit]
    simp
  have hr : r.Overlaps start stop := (mem_overlapping.mp hmem).2
  have hsame : back.map (·.cut start stop) = back.map (·.cut r.stop stop) := by
    refine List.map_congr_left fun s hs => ?_
    have hle := hback s hs
    have hlt := hr.2
    unfold Record.cut
    rw [Nat.max_eq_left (by omega), Nat.max_eq_left hle]
  rw [excerpt, excerpt, h.overlapping_behind hsplit, hsplit, ← hsame]
  simp

/-- A query takes as many records as it may from the front. No record reaches as far as the last
word, so that it does not matter if the range does. -/
theorem Tidy.query_eq {s : Store} (h : Tidy s.live) (range : Range) (limit : Nat) :
    s.query range.start (Word.mulSat range.lines lineBytes) limit =
      ⟨((Poison.overlapping s.live range.start range.stop).take limit).map
          (·.cut range.start range.stop),
        decide (limit < (Poison.overlapping s.live range.start range.stop).length)⟩ := by
  have hlast : lastLine < Word.last := by decide
  have hfound : s.live.filter (fun r => r.Overlaps range.start (min range.stop Word.last)) =
      Poison.overlapping s.live range.start range.stop := by
    refine List.filter_congr fun r hr => ?_
    have hw := h.whole r hr
    have hstart := hw.start_lt_stop
    have hstop := hw.stop_le
    unfold Record.Overlaps
    exact decide_eq_decide.mpr (by omega)
  have hclip : ((Poison.overlapping s.live range.start range.stop).take limit).map
        (·.clip range.start (min range.stop Word.last)) =
      ((Poison.overlapping s.live range.start range.stop).take limit).map
        (·.cut range.start range.stop) := by
    refine List.map_congr_left fun r hr => ?_
    have hw := h.whole r (mem_overlapping.mp (List.mem_of_mem_take hr)).1
    have hstop := hw.stop_le
    rw [hw.clip_eq, Record.cut, Record.cut]
    congr 1
    omega
  rw [Store.query, range.addSat_mulSat, hfound]
  exact congrArg (Listing.mk · _) hclip

end Overlapping

/-! ## One page after the other -/

/-- The host asks for a range, and as long as there is more, for what lies behind the last record
that it has got. Each request takes its turn `a` with what is asked, which may change it. Without a
turn left, the host gives up. -/
def fetch {σ α : Type} (ask : σ → α → Payload → σ × Option Payload) :
    List α → σ → Range → Option (σ × List ListPage)
  | [], _, _ => none
  | a :: later, s, range =>
    match ask s a range.request with
    | (_, none) => none
    | (s, some response) =>
      match ListPage.ofPayload? response with
      | none => none
      | some page =>
        if page.more then
          match page.records.getLast? with
          | none => none
          | some last =>
            (fetch ask later s (range.behind last)).map fun (s, pages) => (s, page :: pages)
        else some (s, [page])

/-- The pages have the poison of the range: what each record has of it, once and in ascending order.
Each page tells the time of the overflow, and whether records are left behind it. -/
structure Complete (s : Store) (range : Range) (pages : List ListPage) : Prop where
  records : pages.flatMap (·.records) = excerpt s.live range.start range.stop
  ascending : (pages.flatMap (·.records)).Pairwise fun r s => r.start + r.length ≤ s.start
  overflowedAt : ∀ page ∈ pages, page.overflowedAt = s.overflowedAt
  more : ∀ i page, pages[i]? = some page →
    (page.more = true ↔
      ((pages.take (i + 1)).flatMap (·.records)).length <
        (overlapping s.live range.start range.stop).length)

/-- What a store answers to the request for a range, in up to `limit` records. -/
def page (s : Store) (range : Range) (limit : Nat) (scanning : Bool) : ListPage :=
  let listing := s.query range.start (Word.mulSat range.lines lineBytes) limit
  { more := listing.more, overflowedAt := s.overflowedAt, scanning, records := listing.records }

section Pages

variable {s : Store} {range rest : Range} {limit : Nat} {scanning : Bool} {r : Record}
  {front back : List Record} {p : ListPage} {pages : List ListPage}

theorem records_page (h : Tidy s.live) :
    (page s range limit scanning).records =
      ((overlapping s.live range.start range.stop).take limit).map
        (·.cut range.start range.stop) :=
  congrArg Listing.records (h.query_eq range limit)

theorem more_page (h : Tidy s.live) :
    (page s range limit scanning).more =
      decide (limit < (overlapping s.live range.start range.stop).length) :=
  congrArg Listing.more (h.query_eq range limit)

/-- A page has parts of records that overlap the range. -/
theorem exists_of_mem_page (h : Tidy s.live) {part : Record}
    (hpart : part ∈ (page s range limit scanning).records) :
    ∃ r ∈ s.live, r.Overlaps range.start range.stop ∧ r.cut range.start range.stop = part := by
  rw [records_page h] at hpart
  obtain ⟨r, htake, hcut⟩ := List.mem_map.mp hpart
  obtain ⟨hr, hoverlaps⟩ := mem_overlapping.mp (List.mem_of_mem_take htake)
  exact ⟨r, hr, hoverlaps, hcut⟩

/-- The number of records in a page fits into its field. -/
theorem length_page_lt (h : Tidy s.live) (hlen : s.live.length ≤ listLimit) :
    (page s range limit scanning).records.length < 1 <<< 16 := by
  rw [records_page h, List.length_map]
  calc ((overlapping s.live range.start range.stop).take limit).length
      ≤ (overlapping s.live range.start range.stop).length := List.length_take_le' _ _
    _ ≤ s.live.length := List.length_filter_le _ _
    _ ≤ listLimit := hlen
    _ < 1 <<< 16 := by decide

/-- The host reads the page that the store has answered with. -/
theorem ofPayload?_page (limit : Nat) (scanning : Bool) (h : Tidy s.live)
    (hlen : s.live.length ≤ listLimit)
    (hlines : ∀ r ∈ s.live, r.length / lineBytes ≤ Word.last32) (hrange : range.Proper) :
    ListPage.ofPayload? (page s range limit scanning).toPayload =
      some (page s range limit scanning) := by
  refine ListPage.ofPayload?_toPayload (fun part hpart => ?_) (length_page_lt h hlen)
  obtain ⟨r, hr, hoverlaps, rfl⟩ := exists_of_mem_page h hpart
  exact (h.whole r hr).encodable_cut hrange.aligned (Range.stop_aligned hrange.aligned)
    hrange.start_lt_stop hoverlaps (hlines r hr)

/-- The last page has everything that is left. -/
theorem Complete.last (h : Tidy s.live) (hrange : range.Proper)
    (hlimit : (overlapping s.live range.start range.stop).length ≤ limit) :
    Complete s range [page s range limit scanning] := by
  have hrecords : (page s range limit scanning).records =
      excerpt s.live range.start range.stop := by
    rw [records_page h, List.take_of_length_le hlimit, excerpt]
  have hall : [page s range limit scanning].flatMap (·.records) =
      excerpt s.live range.start range.stop := by simp [hrecords]
  refine ⟨hall, ?_, by simp [page], ?_⟩
  · rw [hall]
    exact h.ascending_excerpt hrange.start_lt_stop
  · intro i p hp
    obtain ⟨rfl, rfl⟩ : i = 0 ∧ page s range limit scanning = p := by
      simpa [List.getElem?_singleton] using hp
    rw [List.take_of_length_le (by simp), hall, length_excerpt, more_page h]
    simpa using hlimit

/-- A page up to a record, and pages that are complete behind this record. -/
theorem Complete.cons (h : Tidy s.live) (hrange : range.Proper)
    (hsplit : overlapping s.live range.start range.stop = front ++ r :: back) (hback : back ≠ [])
    (hrecords : p.records = (front ++ [r]).map (·.cut range.start range.stop))
    (hmore : p.more = true) (htime : p.overflowedAt = s.overflowedAt)
    (hstart : rest.start = r.stop) (hstop : rest.stop = range.stop)
    (hrest : Complete s rest pages) : Complete s range (p :: pages) := by
  have hleft := hrest.records
  have hcount : (overlapping s.live range.start range.stop).length =
      p.records.length + (overlapping s.live rest.start rest.stop).length := by
    rw [hstart, hstop, h.overlapping_behind hsplit, hsplit, hrecords]
    simp only [List.length_append, List.length_cons, List.length_map, List.length_nil]
    omega
  have hall : (p :: pages).flatMap (·.records) = excerpt s.live range.start range.stop := by
    rw [List.flatMap_cons, hleft, hrecords, hstart, hstop, ← h.excerpt_behind hsplit]
  refine ⟨hall, ?_, ?_, ?_⟩
  · rw [hall]
    exact h.ascending_excerpt hrange.start_lt_stop
  · intro q hq
    rcases List.mem_cons.mp hq with rfl | hq
    · exact htime
    · exact hrest.overflowedAt q hq
  · intro i q hq
    cases i with
    | zero =>
      obtain rfl : p = q := by simpa using hq
      have hpos := List.length_pos_iff.mpr hback
      have hlen := h.overlapping_behind hsplit
      rw [hstart, hstop, hlen] at hcount
      simp [hmore, hcount, hpos]
    | succ i =>
      rw [hrest.more i q (by simpa using hq), hcount, List.take_succ_cons, List.flatMap_cons,
        List.length_append]
      omega

/-- Behind a record that is not the last of the range, the host asks for the rest of the range. -/
theorem Tidy.behind_cut (h : Tidy s.live) (hrange : range.Proper)
    (hsplit : Poison.overlapping s.live range.start range.stop = front ++ r :: back)
    (hback : back ≠ []) :
    (range.behind (r.cut range.start range.stop)).Proper ∧
      (range.behind (r.cut range.start range.stop)).start = r.stop ∧
      (range.behind (r.cut range.start range.stop)).stop = range.stop := by
  have hmem : ∀ b ∈ r :: back, b ∈ s.live ∧ b.Overlaps range.start range.stop := by
    intro b hb
    rw [← mem_overlapping, hsplit]
    exact List.mem_append_right _ hb
  obtain ⟨hr, hoverlaps⟩ := hmem r List.mem_cons_self
  have hwhole := h.whole r hr
  -- the next record starts in the range, so `r` ends in it
  have hinside : r.stop < range.stop := by
    obtain ⟨b, hb⟩ := List.exists_mem_of_ne_nil back hback
    have hnext := (hmem b (List.mem_cons_of_mem _ hb)).2
    exact Nat.lt_of_le_of_lt ((h.bounds hsplit).2 b hb) hnext.1
  have hend : (r.cut range.start range.stop).start + (r.cut range.start range.stop).length =
      r.stop := by
    rw [Record.end_cut hwhole.start_lt_stop hrange.start_lt_stop hoverlaps]
    exact Nat.min_eq_left (Nat.le_of_lt hinside)
  exact hrange.behind hend hwhole.stop_aligned (Nat.le_of_lt hoverlaps.2) hinside

theorem exists_split {l : List Record} (hpos : 0 < limit) (h : limit < l.length) :
    ∃ front r back, l = front ++ r :: back ∧ l.take limit = front ++ [r] ∧ back ≠ [] := by
  obtain ⟨k, rfl⟩ := Nat.exists_eq_add_of_lt hpos
  rw [Nat.zero_add] at h
  have hk : k < l.length := by omega
  refine ⟨l.take k, l[k], l.drop (k + 1), ?_, ?_, ?_⟩
  · rw [← List.drop_eq_getElem_cons hk, List.take_append_drop]
  · simp
  · simpa using h

/-- Pages of one record or more each, one after the other, are complete, if there are more turns
than records. -/
theorem exists_fetch {σ α : Type} {ask : σ → α → Payload → σ × Option Payload} {state : σ}
    {turns : List α} (h : Tidy s.live) (hlen : s.live.length ≤ listLimit)
    (hlines : ∀ r ∈ s.live, r.length / lineBytes ≤ Word.last32) (hrange : range.Proper)
    (hturns : (overlapping s.live range.start range.stop).length < turns.length)
    (hask : ∀ a ∈ turns, ∃ limit scanning, 0 < limit ∧ ∀ range : Range, range.Proper →
      ask state a range.request = (state, some (page s range limit scanning).toPayload)) :
    ∃ pages, fetch ask turns state range = some (state, pages) ∧ Complete s range pages := by
  -- what is asked changes nothing, so only the range moves on
  induction turns generalizing range with
  | nil => simp at hturns
  | cons a later ih =>
    obtain ⟨limit, scanning, hpos, hanswer⟩ := hask a List.mem_cons_self
    have hread := ofPayload?_page limit scanning h hlen hlines hrange
    by_cases hlast : (overlapping s.live range.start range.stop).length ≤ limit
    · refine ⟨[page s range limit scanning], ?_, .last h hrange hlast⟩
      have hmore : (page s range limit scanning).more = false := by
        simpa [more_page h] using hlast
      simp [fetch, hanswer range hrange, hread, hmore]
    · obtain ⟨front, r, back, hsplit, htake, hback⟩ := exists_split hpos (Nat.lt_of_not_le hlast)
      have hmore : (page s range limit scanning).more = true := by
        simpa [more_page h] using hlast
      have hrecords : (page s range limit scanning).records =
          (front ++ [r]).map (·.cut range.start range.stop) := by
        rw [records_page h, htake]
      have hlastRecord : (page s range limit scanning).records.getLast? =
          some (r.cut range.start range.stop) := by simp [hrecords]
      obtain ⟨hbehind, hstart, hstop⟩ := h.behind_cut hrange hsplit hback
      have hturns' : (overlapping s.live (range.behind (r.cut range.start range.stop)).start
          (range.behind (r.cut range.start range.stop)).stop).length < later.length := by
        rw [hstart, hstop, h.overlapping_behind hsplit]
        rw [hsplit] at hturns
        simp only [List.length_append, List.length_cons] at hturns
        omega
      obtain ⟨pages, hfetch, hcomplete⟩ :=
        ih hbehind hturns' fun b hb => hask b (List.mem_cons_of_mem _ hb)
      refine ⟨page s range limit scanning :: pages, ?_,
        hcomplete.cons h hrange hsplit hback hrecords hmore rfl hstart hstop⟩
      simp [fetch, hanswer range hrange, hread, hmore, hlastRecord, hfetch]

end Pages

end CxlEndpoint.Poison
