import CxlEndpoint.Proofs.Capacity.Generation
import CxlEndpoint.Proofs.Capacity.Geometry
import CxlEndpoint.Proofs.Capacity.Message
import CxlEndpoint.Proofs.Endpoint.History

/-!
# The extent list, page by page

The host reads the extents that it holds in several pages, and anything may happen in between. Each
page tells the generation of the ledger.

* `eq_or_advances`: what an operation makes of the ledger of a device. `changes` counts the
  operations that make a difference, and `ledger_eq_of_generation_eq` says that the generation tells
  the ledgers of a history apart, as long as the count fits into it.
* `Ledger.page`, `Ledger.answer`, `dispatch_extents`, `payload_of_success`: what the host gets
  for a request.
* `Reading`: the host goes on behind the extents that it has got. `Reading.prefix_of`: pages of one
  generation are the first part of the ledger of that generation.
* `reading_whole`: pages of one generation that have as many extents as they say are all of it.
-/

namespace CxlEndpoint

/-! ## Pages of a ledger -/

/-- Up to `count` extents of the ledger, from number `first` on. -/
def Ledger.page (l : Ledger) (first count : Nat) : ExtentPage :=
  ⟨(l.extents.drop first).take count, l.extents.length, l.generation⟩

/-- What the ledger has for a request, in a response of up to `room` bytes. -/
def Ledger.answer (l : Ledger) (r : PageRequest) (room : Nat) : ExtentPage :=
  l.page r.first (min r.count (ExtentPage.extentLimit room))

/-- The host reads the page that has been written. -/
theorem Ledger.Listable.ofPayload?_answer {l : Ledger} (h : l.Listable) (r : PageRequest)
    (room : Nat) : ExtentPage.ofPayload? (l.answer r room).toPayload = some (l.answer r room) := by
  refine ExtentPage.ofPayload?_toPayload h.length_lt ?_ fun e he => ?_
  · simp only [answer, page, List.length_take, List.length_drop]
    omega
  · have hmem : e ∈ l.extents := List.mem_of_mem_drop (List.mem_of_mem_take he)
    have hfits : e.start + e.length ≤ Word.last := (h.sound.provided e hmem).proper.fits
    exact ⟨Nat.le_of_add_right_le hfits, Nat.le_of_add_left_le hfits⟩

/-- A page follows what comes before it. -/
theorem Ledger.append_page (l : Ledger) {held : List Extent} (h : held <+: l.extents)
    (count : Nat) : held ++ (l.page held.length count).extents <+: l.extents := by
  obtain ⟨rest, hrest⟩ := h
  simp only [page, ← hrest, List.drop_left]
  exact (List.prefix_append_right_inj _).mpr (List.take_prefix _ _)

namespace MemoryDevice

variable {d d' : MemoryDevice} {c : Conditions} {request : MemoryRequest} {reply : Reply}

theorem extentPage?_eq (d : MemoryDevice) (c : Conditions) (r : PageRequest) :
    d.extentPage? c r =
      if r.first ≤ d.ledger.extents.length then some (d.ledger.answer r c.room) else none := by
  unfold extentPage? Ledger.extentPage?
  split <;> rfl

/-- A request leaves the ledger alone or asks for a change that is accepted. -/
theorem Serves.ledger_eq_or_attempt (h : d.Serves c request d' reply) :
    d'.ledger = d.ledger ∨ ∃ change, d.ledger.attempt change = .ok d'.ledger := by
  cases h with
  | ledger request change ledger hok => exact Or.inr ⟨change, hok⟩
  | told | events | labels | injected | cleared | scanning | results | sanitizing =>
    exact Or.inl rfl

end MemoryDevice

namespace Endpoint

variable {m m' : Mailbox} {d d' : MemoryDevice} {op : Op} {begun : Option Opcode}
  {e₀ : Endpoint} {c : MemoryConfig} {memory : Memory} {past before before' : List Op}

/-! ## Generations -/

/-- The ledger of the memory device behind the mailbox. -/
def ledger (e : Endpoint) : Ledger := e.device?.elim {} (·.ledger)

/-- The operations in the course of `past` after which the extents were others than before. -/
def changes (e : Endpoint) : List Op → Nat
  | [] => 0
  | op :: past =>
    if (e.after (op :: past)).ledger.extents = (e.after past).ledger.extents then e.changes past
    else e.changes past + 1

theorem Steps.ledger_eq_or_attempt (h : Steps m d op begun m' d') :
    d'.ledger = d.ledger ∨ ∃ change, d.ledger.attempt change = .ok d'.ledger := by
  cases h with
  | served _ _ _ _ _ _ _ hserves => exact hserves.ledger_eq_or_attempt
  | started _ _ _ _ _ _ _ hserves => exact hserves.ledger_eq_or_attempt
  | finished _ r =>
    left
    unfold MemoryDevice.finish
    split
    · rfl
    · split <;> rfl
  | provision extent ledger hok => exact Or.inr ⟨.provision extent, hok⟩
  | idle | timeSet | polled | mediaError | event => exact Or.inl rfl

theorem exists_listable_after (hnew : memoryDevice c memory = .ok e₀) (past : List Op) :
    ∃ m d, e₀.after past = .memory m d ∧ m.HasMemoryCommands ∧ d.ledger.Listable := by
  obtain ⟨m₀, d₀, rfl, hcommands, -⟩ := exists_memory hnew
  obtain ⟨regions, hlayout, hledger, hmemory⟩ := exists_layout_of_memoryDevice hnew
  cases hmemory
  refine exists_after_of_steps ⟨_, _, rfl, hcommands, .of_ofRegions hlayout hledger⟩ ?_ past
  intro m d op begun m' d' hlistable hsteps
  rcases hsteps.ledger_eq_or_attempt with heq | ⟨change, hok⟩
  · rwa [heq]
  · exact hlistable.attempt hok

theorem listable_after (hnew : memoryDevice c memory = .ok e₀) (past : List Op) :
    (e₀.after past).ledger.Listable := by
  obtain ⟨m, d, hreached, -, hlistable⟩ := exists_listable_after hnew past
  rw [hreached]
  exact hlistable

/-- An operation leaves the ledger as it was or other extents in it, one generation later. -/
theorem eq_or_advances (hnew : memoryDevice c memory = .ok e₀) (past : List Op) (op : Op) :
    (e₀.after (op :: past)).ledger = (e₀.after past).ledger ∨
      (e₀.after past).ledger.Advances (e₀.after (op :: past)).ledger := by
  obtain ⟨m, d, hreached, hcommands, hlistable⟩ := exists_listable_after hnew past
  obtain ⟨m', d', hstep, hsteps⟩ := steps_step hcommands d op
  rw [after, hreached, hstep]
  show d'.ledger = d.ledger ∨ d.ledger.Advances d'.ledger
  rcases hsteps.ledger_eq_or_attempt with heq | ⟨change, hok⟩
  · exact Or.inl heq
  · exact hlistable.sound.eq_or_advances hok

theorem changes_of_eq (h : (e₀.after (op :: past)).ledger = (e₀.after past).ledger) :
    e₀.changes (op :: past) = e₀.changes past :=
  if_pos (congrArg Ledger.extents h)

theorem changes_of_advances
    (h : (e₀.after past).ledger.Advances (e₀.after (op :: past)).ledger) :
    e₀.changes (op :: past) = e₀.changes past + 1 :=
  if_neg h.extents_ne

theorem generation_after (hnew : memoryDevice c memory = .ok e₀) (past : List Op) :
    (e₀.after past).ledger.generation = UInt32.ofNat (e₀.changes past) := by
  induction past with
  | nil =>
    obtain ⟨regions, -, -, rfl⟩ := exists_layout_of_memoryDevice hnew
    rfl
  | cons op past ih =>
    rcases eq_or_advances hnew past op with h | h
    · rw [h, changes_of_eq h, ih]
    · rw [h.generation_eq, changes_of_advances h, ih, UInt32.ofNat_add]
      rfl

/-- Without a change in between, the ledger is the same. -/
theorem changes_of_suffix (hnew : memoryDevice c memory = .ok e₀) (h : before <:+ past) :
    e₀.changes before ≤ e₀.changes past ∧
      (e₀.changes before = e₀.changes past →
        (e₀.after before).ledger = (e₀.after past).ledger) := by
  induction past with
  | nil =>
    rw [List.suffix_nil.mp h]
    exact ⟨Nat.le_refl _, fun _ => rfl⟩
  | cons op past ih =>
    rcases List.suffix_cons_iff.mp h with rfl | h
    · exact ⟨Nat.le_refl _, fun _ => rfl⟩
    · obtain ⟨hle, hsame⟩ := ih h
      rcases eq_or_advances hnew past op with hop | hop
      · rw [changes_of_eq hop, hop]
        exact ⟨hle, hsame⟩
      · rw [changes_of_advances hop]
        exact ⟨Nat.le_succ_of_le hle, by omega⟩

/-- As long as the changes can be counted in 32 bits, two moments of a history with the same
generation have the same ledger. -/
theorem ledger_eq_of_generation_eq (hnew : memoryDevice c memory = .ok e₀)
    (hfew : e₀.changes past < 1 <<< 32) (h : before <:+ past) (h' : before' <:+ past)
    (hsame : (e₀.after before).ledger.generation = (e₀.after before').ledger.generation) :
    (e₀.after before).ledger = (e₀.after before').ledger := by
  have hcount : e₀.changes before = e₀.changes before' := by
    rw [generation_after hnew, generation_after hnew] at hsame
    have hlt := Nat.lt_of_le_of_lt (changes_of_suffix hnew h).1 hfew
    have hlt' := Nat.lt_of_le_of_lt (changes_of_suffix hnew h').1 hfew
    have hnat := congrArg UInt32.toNat hsame
    rwa [UInt32.toNat_ofNat_of_lt' hlt, UInt32.toNat_ofNat_of_lt' hlt'] at hnat
  rcases List.suffix_or_suffix_of_suffix h h' with hle | hle
  · exact (changes_of_suffix hnew hle).2 hcount
  · exact ((changes_of_suffix hnew hle).2 hcount.symm).symm

/-! ## Requests for extents -/

variable {r : PageRequest} {limit : Option Nat} {now : Nat} {payload : Payload}

/-- A memory device with regions has all commands of memory devices. -/
theorem mailbox_of_regions (hnew : memoryDevice c memory = .ok e₀) (hregions : c.regions ≠ []) :
    e₀.mailbox = .ofCommands (memoryCommands ++ capacityCommands) c.payloadMax := by
  obtain ⟨regions, hlayout, -, rfl⟩ := exists_layout_of_memoryDevice hnew
  obtain ⟨-, -, htile⟩ := MemoryConfig.layout_eq_ok_iff.mp hlayout
  cases regions with
  | nil =>
    rw [← RegionConfig.map_config_tile _ c.regions, ← htile] at hregions
    exact absurd rfl hregions
  | cons region rest => rfl

theorem knows_extentList (hnew : memoryDevice c memory = .ok e₀) (hregions : c.regions ≠ []) :
    e₀.mailbox.Knows .extentList := by
  rw [mailbox_of_regions hnew hregions]
  rfl

theorem accept_extents (hknows : m.Knows .extentList) (r : PageRequest) :
    m.accept .extentList r.extentRequest = .ok (.standard .extentList) :=
  hknows.accept_of_foreground rfl r.length_extentRequest fun _ => by decide

theorem ofPayload_extents (hfirst : r.first < 1 <<< 32) (hcount : r.count < 1 <<< 32) :
    DirectRequest.ofPayload .extentList r.extentRequest = .ok (.memory (.extents r)) := by
  rw [DirectRequest.ofPayload, PageRequest.extentsOfPayload_extentRequest hfirst hcount]
  rfl

/-- A request that starts among the extents, or behind the last one, gets a page. -/
theorem dispatch_extents (hknows : m.Knows .extentList) (hfirst : r.first < 1 <<< 32)
    (hcount : r.count < 1 <<< 32) (hheld : r.first ≤ d.ledger.extents.length) (now : Nat)
    (hroom : ExtentPage.headerLength ≤ m.room limit) :
    (Endpoint.memory m d).dispatch now limit .extentList r.extentRequest =
      (.memory m d, ⟨.success, (d.ledger.answer r (m.room limit)).toPayload⟩) := by
  have hcarries : Carries m d now (m.room limit) .extentList r.extentRequest (.extents r) d
      { payload := (d.ledger.answer r (m.room limit)).toPayload } := by
    refine ⟨rfl, accept_extents hknows r, ofPayload_extents hfirst hcount, ?_⟩
    rw [MemoryDevice.serve, MemoryDevice.extentPage?_eq, if_pos hheld]
    rfl
  refine hcarries.dispatch_of_fits rfl ?_
  simp only [ExtentPage.length_toPayload]
  apply Payload.records_fit hroom
  simp only [Ledger.answer, Ledger.page, List.length_take]
  exact Nat.le_trans (Nat.min_le_left _ _) (Nat.min_le_right _ _)

/-- A request that succeeds has got a page. -/
theorem payload_of_success (hknows : m.Knows .extentList) (hfirst : r.first < 1 <<< 32)
    (hcount : r.count < 1 <<< 32)
    (h : ((Endpoint.memory m d).dispatch now limit .extentList r.extentRequest).2 =
      ⟨.success, payload⟩) :
    payload = (d.ledger.answer r (m.room limit)).toPayload := by
  rcases refuses_or_carries d now limit (.extents r) (accept_extents hknows r)
    (ofPayload_extents hfirst hcount) with ⟨s, -, hs, hrefused⟩ | ⟨d', reply, hcarries⟩
  · rw [show (Endpoint.memory m d).dispatch now limit .extentList r.extentRequest = _
      from hrefused] at h
    rw [show s = .success from congrArg Response.status h] at hs
    cases hs
  · have hserved := hcarries.served
    rw [MemoryDevice.serve, MemoryDevice.extentPage?_eq] at hserved
    by_cases hheld : r.first ≤ d.ledger.extents.length
    · rw [if_pos hheld] at hserved
      cases hserved
      have hpage := hcarries.dispatch_of_success rfl (congrArg Response.status h)
      exact congrArg Response.payload (h.symm.trans (congrArg Prod.snd hpage))
    · rw [if_neg hheld] at hserved
      cases hserved

/-! ## One page after the other -/

/-- `Reading e past pages`: in the course of `past`, the host has asked an endpoint that was new as
`e` for pages of its extents and has got `pages`. It goes on behind the extents that it has got
already. Anything may happen before, in between and afterwards. -/
inductive Reading (e : Endpoint) : (past : List Op) → (pages : List ExtentPage) → Prop
  | new (past : List Op) : Reading e past []
  | other {past : List Op} {pages : List ExtentPage} (op : Op) (h : Reading e past pages) :
    Reading e (op :: past) pages
  | page {past : List Op} {pages : List ExtentPage} (now : Nat) (limit : Option Nat)
    (r : PageRequest) (payload : Payload) (page : ExtentPage) (h : Reading e past pages)
    (hfirst : r.first = (pages.flatMap (·.extents)).length) (hcount : r.count < 1 <<< 32)
    (hsuccess : ((e.after past).dispatch now limit .extentList r.extentRequest).2 =
      ⟨.success, payload⟩)
    (hread : ExtentPage.ofPayload? payload = some page) :
    Reading e (.request now limit .extentList r.extentRequest :: past) (pages ++ [page])

variable {pages : List ExtentPage} {g : UInt32}

/-- The host reads what the ledger has at that moment. -/
theorem page_of_success (hnew : memoryDevice c memory = .ok e₀) (hregions : c.regions ≠ [])
    {page : ExtentPage} (hfirst : r.first < 1 <<< 32) (hcount : r.count < 1 <<< 32)
    (hsuccess : ((e₀.after past).dispatch now limit .extentList r.extentRequest).2 =
      ⟨.success, payload⟩)
    (hread : ExtentPage.ofPayload? payload = some page) :
    page = (e₀.after past).ledger.answer r ((e₀.after past).mailbox.room limit) := by
  obtain ⟨m, d, hreached, -, hlistable⟩ := exists_listable_after hnew past
  have hknows := (sameTable_after e₀ past).knows (knows_extentList hnew hregions)
  rw [hreached] at hknows hsuccess ⊢
  have hanswer := payload_of_success hknows hfirst hcount hsuccess
  rw [hanswer, hlistable.ofPayload?_answer] at hread
  exact (Option.some.inj hread).symm

/-- The pages of one generation are the first part of the ledger of that generation. -/
theorem Reading.prefix_of (hnew : memoryDevice c memory = .ok e₀) (hregions : c.regions ≠ [])
    (h : Reading e₀ past pages) (hfew : e₀.changes past < 1 <<< 32)
    (hsame : ∀ page ∈ pages, page.generation = g) :
    pages = [] ∨ ∃ before, before <:+ past ∧ (e₀.after before).ledger.generation = g ∧
      pages.flatMap (·.extents) <+: (e₀.after before).ledger.extents ∧
      ∀ page ∈ pages, page.total = (e₀.after before).ledger.extents.length := by
  -- the induction is on the reading; the generation carries what was read over the operations since
  induction h with
  | new past => exact Or.inl rfl
  | @other past pages op h ih =>
    have hle := (changes_of_suffix hnew (List.suffix_cons op past)).1
    rcases ih (Nat.lt_of_le_of_lt hle hfew) hsame with hnil | ⟨before, hbefore, hpages⟩
    · exact Or.inl hnil
    · exact Or.inr ⟨before, hbefore.trans (List.suffix_cons op past), hpages⟩
  | @page past pages now limit r payload page h hfirst hcount hsuccess hread ih =>
    have hsuffix := List.suffix_cons (.request now limit .extentList r.extentRequest) past
    have hfew' := Nat.lt_of_le_of_lt (changes_of_suffix hnew hsuffix).1 hfew
    obtain ⟨hold, hg⟩ := List.forall_mem_append.mp hsame
    have hheld := ih hfew' hold
    have hword : r.first < 1 <<< 32 := by
      rw [hfirst]
      rcases hheld with rfl | ⟨before, -, -, hprefix, -⟩
      · decide
      · exact Nat.lt_of_le_of_lt hprefix.length_le (listable_after hnew before).length_lt
    have hpage := page_of_success hnew hregions hword hcount hsuccess hread
    have hnow : (e₀.after past).ledger.generation = g := by
      rw [← hg page (List.mem_singleton_self _), hpage]
      rfl
    have hfirstPart : pages.flatMap (·.extents) <+: (e₀.after past).ledger.extents ∧
        ∀ page ∈ pages, page.total = (e₀.after past).ledger.extents.length := by
      rcases hheld with rfl | ⟨before, hbefore, hthen, hpages⟩
      · simp
      · rwa [ledger_eq_of_generation_eq hnew hfew' hbefore (List.suffix_refl _)
          (hthen.trans hnow.symm)] at hpages
    refine Or.inr ⟨past, hsuffix, hnow, ?_, ?_⟩
    · rw [List.flatMap_append, List.flatMap_singleton, hpage, Ledger.answer, hfirst]
      exact (e₀.after past).ledger.append_page hfirstPart.1 _
    · refine List.forall_mem_append.mpr ⟨hfirstPart.2, ?_⟩
      intro page' hmem
      rw [List.mem_singleton.mp hmem, hpage]
      rfl

/-- In the course of `past` there was a ledger of generation `g`. The pages have all the extents of
every such ledger in their order, and each page tells how many there are. -/
structure HasAll (e : Endpoint) (past : List Op) (g : UInt32) (pages : List ExtentPage) : Prop where
  reached : ∃ before, before <:+ past ∧ (e.after before).ledger.generation = g
  extents : ∀ before, before <:+ past → (e.after before).ledger.generation = g →
    (e.after before).ledger.extents = pages.flatMap (·.extents)
  totals : ∀ page ∈ pages, page.total = (pages.flatMap (·.extents)).length

/-- **Pages of one generation are no mixture.** Every operation, and every change that is asked of
the ledger, leaves it as it was or other extents in it, one generation later. As long as such
changes can be counted in 32 bits, a host that has got pages of one generation, with as many extents
as the last of them says, has all extents of that generation, whatever happened in between. A
request that starts among the extents gets at least one more of them. -/
theorem reading_whole (hnew : memoryDevice c memory = .ok e₀) (hregions : c.regions ≠ [])
    (past : List Op) :
    (∀ op : Op, (e₀.after (op :: past)).ledger = (e₀.after past).ledger ∨
      (e₀.after past).ledger.Advances (e₀.after (op :: past)).ledger) ∧
    (∀ change : Ledger.Op, (e₀.after past).ledger.step change = (e₀.after past).ledger ∨
      (e₀.after past).ledger.Advances ((e₀.after past).ledger.step change)) ∧
    (e₀.changes past < 1 <<< 32 → ∀ pages last g, Reading e₀ past pages →
      (∀ page ∈ pages, page.generation = g) → pages.getLast? = some last →
      last.total ≤ (pages.flatMap (·.extents)).length → HasAll e₀ past g pages) ∧
    ∀ now limit (r : PageRequest), 0 < r.count → r.count < 1 <<< 32 →
      r.first ≤ (e₀.after past).ledger.extents.length →
      56 ≤ (e₀.after past).mailbox.room limit → ∃ page payload,
        (e₀.after past).dispatch now limit .extentList r.extentRequest =
            (e₀.after past, ⟨.success, payload⟩) ∧
          ExtentPage.ofPayload? payload = some page ∧
          page = (e₀.after past).ledger.answer r ((e₀.after past).mailbox.room limit) ∧
          (r.first < (e₀.after past).ledger.extents.length → page.extents ≠ []) := by
  obtain ⟨m, d, hreached, -, hlistable⟩ := exists_listable_after hnew past
  have hknows := (sameTable_after e₀ past).knows (knows_extentList hnew hregions)
  refine ⟨eq_or_advances hnew past, ?_, ?_, ?_⟩
  · exact (listable_after hnew past).sound.step_eq_or_advances
  · intro hfew pages last g hreading hsame hlast htotal
    have hmem : last ∈ pages := List.mem_of_getLast? hlast
    rcases hreading.prefix_of hnew hregions hfew hsame with
      rfl | ⟨before, hbefore, hg, hprefix, htotals⟩
    · cases hmem
    · rw [htotals last hmem] at htotal
      have hall := hprefix.eq_of_length_le htotal
      refine ⟨⟨before, hbefore, hg⟩, fun before' hbefore' hg' => ?_, fun page hpage => ?_⟩
      · rw [hall, ledger_eq_of_generation_eq hnew hfew hbefore' hbefore (hg'.trans hg.symm)]
      · rw [hall, htotals page hpage]
  · intro now limit r hpos hcount hheld hroom
    rw [hreached] at hknows hheld hroom ⊢
    have hfirst := Nat.lt_of_le_of_lt hheld hlistable.length_lt
    have hheader : ExtentPage.headerLength ≤ m.room limit := Nat.le_trans (by decide) hroom
    refine ⟨_, _, dispatch_extents hknows hfirst hcount hheld now hheader,
      hlistable.ofPayload?_answer _ _, rfl, fun hmore => ?_⟩
    have hlimit : 0 < ExtentPage.extentLimit (m.room limit) :=
      Nat.div_pos (Nat.le_sub_of_add_le hroom) (by decide)
    have hrest : r.first < d.ledger.extents.length := hmore
    show (d.ledger.extents.drop r.first).take
      (min r.count (ExtentPage.extentLimit (m.room limit))) ≠ []
    simp only [ne_eq, List.take_eq_nil_iff, List.drop_eq_nil_iff]
    omega

/-! ## A reading of two pages -/

theorem changes_le_length (e : Endpoint) (past : List Op) : e.changes past ≤ past.length := by
  induction past with
  | nil => exact Nat.le_refl _
  | cons op past ih =>
    unfold changes
    rw [List.length_cons]
    split <;> omega

/-- A new device with regions of different block sizes. -/
def mixedDevice : Endpoint :=
  .memory (.ofCommands (memoryCommands ++ capacityCommands) 2048)
    { identity := mixedConfig.identity, memory := mixedConfig.memory,
      ledger := { regions := mixedTable } }

theorem memoryDevice_mixedConfig :
    memoryDevice mixedConfig mixedConfig.memory = .ok mixedDevice :=
  memoryDevice_of_layout layout_mixedConfig ofRegions_mixedTable

/-- Two tagged extents, the second one in front of the first. -/
def mixedExtents : List Extent :=
  [⟨0x90200000, 0x600000, Vector.replicate 16 7, 3⟩,
    ⟨0x40000000, 0x40000000, Vector.replicate 16 9, 4⟩]

/-- The device has provisioned both of them. -/
def mixedProvisions : List Op :=
  [.provision ⟨0x40000000, 0x40000000, Vector.replicate 16 9, 4⟩,
    .provision ⟨0x90200000, 0x600000, Vector.replicate 16 7, 3⟩]

/-- What it turns down then. -/
def mixedClash : Op := .provision ⟨0x90400000, 0x200000, Vector.replicate 16 5, 6⟩

theorem after_mixedProvisions :
    mixedDevice.after mixedProvisions =
      .memory (.ofCommands (memoryCommands ++ capacityCommands) 2048)
        { identity := mixedConfig.identity, memory := mixedConfig.memory,
          ledger := ⟨mixedTable, mixedExtents, 2⟩ } := by
  have hfirst : ({ regions := mixedTable } : Ledger).provision
      ⟨0x90200000, 0x600000, Vector.replicate 16 7, 3⟩ =
        .ok ⟨mixedTable, [⟨0x90200000, 0x600000, Vector.replicate 16 7, 3⟩], 1⟩ := by decide
  have hsecond : (⟨mixedTable, [⟨0x90200000, 0x600000, Vector.replicate 16 7, 3⟩], 1⟩ :
      Ledger).provision ⟨0x40000000, 0x40000000, Vector.replicate 16 9, 4⟩ =
        .ok ⟨mixedTable, mixedExtents, 2⟩ := by decide
  simp only [mixedProvisions, after, step, mixedDevice, Endpoint.provision, hfirst,
    MemoryDevice.withLedger, hsecond]

theorem after_mixedClash (h : mixedDevice.after past = mixedDevice.after mixedProvisions) :
    mixedDevice.after (mixedClash :: past) = mixedDevice.after mixedProvisions := by
  have hheld : (⟨mixedTable, mixedExtents, 2⟩ : Ledger).provision
      ⟨0x90400000, 0x200000, Vector.replicate 16 5, 6⟩ = .error .alreadyHeld := by decide
  rw [after, h, after_mixedProvisions]
  simp only [mixedClash, step, Endpoint.provision, hheld, MemoryDevice.withLedger]

/-- A host reads the first extent, and the second one after the clash. -/
def mixedReading : List Op :=
  .request 2 (some 56) .extentList (PageRequest.extentRequest ⟨1, 8⟩) :: mixedClash ::
    .request 1 none .extentList (PageRequest.extentRequest ⟨0, 1⟩) :: mixedProvisions

theorem reading_whole_mixed :
    memoryDevice mixedConfig mixedConfig.memory = .ok mixedDevice ∧ mixedConfig.regions ≠ [] ∧
      mixedDevice.changes mixedReading < 1 <<< 32 ∧
      ∃ first second, Reading mixedDevice mixedReading [first, second] ∧
        first.extents ++ second.extents = mixedExtents ∧
        HasAll mixedDevice mixedReading 2 [first, second] := by
  have hnew := memoryDevice_mixedConfig
  have hregions : mixedConfig.regions ≠ [] := by decide
  have hfew : mixedDevice.changes mixedReading < 1 <<< 32 :=
    Nat.lt_of_le_of_lt (changes_le_length _ _) (by decide)
  obtain ⟨first, payload, hasked, hread, hpage, -⟩ :=
    (reading_whole hnew hregions mixedProvisions).2.2.2 1 none ⟨0, 1⟩ (by decide) (by decide)
      (Nat.zero_le _) (by rw [after_mixedProvisions]; decide)
  have hsame : mixedDevice.after (mixedClash :: .request 1 none .extentList
      (PageRequest.extentRequest ⟨0, 1⟩) :: mixedProvisions) = mixedDevice.after mixedProvisions :=
    after_mixedClash (congrArg Prod.fst hasked)
  obtain ⟨second, payload', hasked', hread', hpage', -⟩ :=
    (reading_whole hnew hregions (mixedClash :: .request 1 none .extentList
      (PageRequest.extentRequest ⟨0, 1⟩) :: mixedProvisions)).2.2.2 2 (some 56) ⟨1, 8⟩ (by decide)
      (by decide) (by rw [hsame, after_mixedProvisions]; decide)
      (by rw [hsame, after_mixedProvisions]; decide)
  rw [after_mixedProvisions] at hpage
  rw [hsame, after_mixedProvisions] at hpage'
  subst hpage hpage'
  have hreading : Reading mixedDevice mixedReading [_, _] :=
    .page _ _ _ _ _ (.other mixedClash (.page _ _ _ _ _ (.new mixedProvisions) rfl (by decide)
      (congrArg Prod.snd hasked) hread)) rfl (by decide) (congrArg Prod.snd hasked') hread'
  refine ⟨hnew, hregions, hfew, _, _, hreading, rfl, ?_⟩
  exact (reading_whole hnew hregions mixedReading).2.2.1 hfew _ _ 2 hreading (by decide) rfl
    (by decide)

end Endpoint

end CxlEndpoint
