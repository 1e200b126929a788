import CxlEndpoint.Proofs.Endpoint.Scan
import CxlEndpoint.Proofs.Poison.Listing
import CxlEndpoint.Proofs.Poison.Queue

/-!
# Delivery of scan results

To fetch scan results takes them off the queue, so what is told must be all that is taken.

* `MemoryDevice.ofPayload?_takeResults`: the page that is told can be read.
* `ResultsTold`: what comes of one request for scan results (`QueueReadable.resultsTold`).
* `resultPages`: the pages that the host has got in the course of a history.
* `TakenOff`: some pages tell what has been taken off the queue. `QueueReadable.takenOff_step`: this
  holds of every operation but the start of a scan. `QueueReadable.after` carries it on to a
  history.
* `results_delivered`: the records of the pages and those that are still queued are the queue as it
  was at first.
-/

namespace CxlEndpoint

namespace Poison.Store

variable {s : Store} {range : Nat × Nat}

theorem isSome_nextResultRange? : s.nextResultRange?.isSome = true ↔ s.results ≠ [] := by
  unfold nextResultRange?
  cases s.results <;> simp

/-- Start and length of the range fit into their fields. -/
theorem nextResultRange?_le (hwhole : ∀ r ∈ s.results, r.Whole)
    (h : s.nextResultRange? = some range) : range.1 ≤ Word.last ∧ range.2 ≤ Word.last := by
  obtain ⟨first, rest, hresults⟩ :=
    List.exists_cons_of_ne_nil (isSome_nextResultRange?.mp (Option.isSome_of_eq_some h))
  obtain ⟨range', hrestarts⟩ := exists_restarts hwhole hresults
  obtain rfl : range = range' := Option.some.inj (h.symm.trans hrestarts.told)
  obtain ⟨r, hr, hend⟩ := hrestarts.reached
  have hfits := (hwhole r hr).fits
  have hlast : lastLine ≤ Word.last := by decide
  omega

end Poison.Store

namespace MemoryDevice

variable {d d' : MemoryDevice} {c : Conditions} {request : MemoryRequest} {reply : Reply}

/-- What is told and what is left are what was queued. -/
theorem records_takeResults (d : MemoryDevice) (c : Conditions) :
    (d.takeResults c).2.records ++ (d.takeResults c).1.poison.results = d.poison.results :=
  List.take_append_drop _ _

theorem length_records_takeResults (d : MemoryDevice) (c : Conditions) :
    (d.takeResults c).2.records.length =
      min (Poison.recordLimit c.room) d.poison.results.length :=
  List.length_take

/-- The range that is told is that of the results that are left, if there are any. -/
theorem rest_takeResults (d : MemoryDevice) (c : Conditions) :
    (d.takeResults c).2.rest = (d.takeResults c).1.poison.nextResultRange? := by
  have hrest : (d.takeResults c).2.rest =
      if !(d.takeResults c).1.poison.results.isEmpty then
        (d.takeResults c).1.poison.nextResultRange?
      else none := rfl
  rw [hrest]
  split
  next => rfl
  next hempty =>
    have hnothing : (d.takeResults c).1.poison.results = [] := by simpa using hempty
    rw [Poison.Store.nextResultRange?, hnothing]

theorem isSome_rest_takeResults (d : MemoryDevice) (c : Conditions) :
    (d.takeResults c).2.rest.isSome = true ↔ (d.takeResults c).1.poison.results ≠ [] := by
  rw [rest_takeResults]
  exact Poison.Store.isSome_nextResultRange?

theorem recordLimit_lt {room : Nat} (h : room ≤ mebibyte) : Poison.recordLimit room < 1 <<< 16 := by
  have hword : 1 <<< 16 = 65536 := rfl
  simp only [Poison.recordLimit, Poison.headerLength, Poison.recordLength, mebibyte] at *
  omega

/-- The host reads the page that was taken off the queue. -/
theorem ofPayload?_takeResults (hwhole : ∀ r ∈ d.poison.results, r.Whole)
    (hlines : ∀ r ∈ d.poison.results, r.length / lineBytes ≤ Word.last32)
    (hroom : c.room ≤ mebibyte) :
    Poison.ResultPage.countOf (d.takeResults c).2.toPayload = (d.takeResults c).2.records.length ∧
      Poison.ResultPage.ofPayload? (d.takeResults c).2.toPayload = some (d.takeResults c).2 := by
  have hcount : (d.takeResults c).2.records.length < 1 <<< 16 := by
    rw [length_records_takeResults]
    exact Nat.lt_of_le_of_lt (Nat.min_le_left _ _) (recordLimit_lt hroom)
  refine ⟨Poison.ResultPage.countOf_toPayload hcount,
    Poison.ResultPage.ofPayload?_toPayload (fun r hr => ?_) hcount fun range hrange => ?_⟩
  · have hqueued : r ∈ d.poison.results := List.mem_of_mem_take hr
    exact (hwhole r hqueued).encodable (hlines r hqueued)
  · rw [rest_takeResults] at hrange
    exact Poison.Store.nextResultRange?_le
      (Poison.Store.whole_takeResults hwhole (Poison.recordLimit c.room)) hrange

/-- Nothing else that is done on request touches the queue but to start a scan. -/
theorem Serves.results_eq (h : d.Serves c request d' reply) (hresults : request ≠ .scanResults)
    (hscan : reply.completion = .done ∨ ∀ r, request ≠ .scan r) :
    d'.poison.results = d.poison.results := by
  cases h with
  | told | events | labels | sanitizing | ledger => rfl
  | injected address poison hpoison =>
    have hsame := (d.poison.lists_inject address c.scanning).2
    rwa [hpoison] at hsame
  | cleared address data memory =>
    exact (d.poison.lists_clear (lineStart address) c.scanning c.time).2
  | scanning r =>
    rcases hscan with hdone | hrequest
    · cases hdone
    · exact absurd rfl (hrequest r)
  | results => exact absurd rfl hresults

end MemoryDevice

namespace Endpoint

open Poison (ResultPage)

variable {m m' : Mailbox} {d d' : MemoryDevice} {now room : Nat} {limit : Option Nat} {op : Opcode}
  {p : Payload} {response : Response} {e : Endpoint} {before past : List Op}

/-! ## One request -/

/-- A request for scan results, with the payload `p` and the room of `limit`, gets `response` and
leaves `d'`. -/
structure ResultsTold (m : Mailbox) (d : MemoryDevice) (limit : Option Nat) (p : Payload)
    (d' : MemoryDevice) (response : Response) : Prop where
  status_iff : response.status = .success ↔
    p = [] ∧ d.poison.scanned = true ∧ Poison.headerLength ≤ m.room limit
  /-- To be turned down takes nothing off the queue. -/
  kept : response.status ≠ .success → d'.poison.results = d.poison.results
  /-- What is taken off is told, as much as there is room for. -/
  page : response.status = .success → ∃ page, ResultPage.ofPayload? response.payload = some page ∧
    page.records ++ d'.poison.results = d.poison.results ∧
    page.records.length = min (Poison.recordLimit (m.room limit)) d.poison.results.length
  /-- The number in the page is that of its records, which fill it. -/
  count : response.status = .success → response.payload.length =
    Poison.headerLength + Poison.recordLength * ResultPage.countOf response.payload
  /-- The flag says whether results are left. -/
  more : response.status = .success →
    (ResultPage.moreOf response.payload = true ↔ d'.poison.results ≠ [])

theorem dispatch_scanResults (hknows : m.Knows .scanResults) (hscanned : d.poison.scanned = true)
    (hroom : Poison.headerLength ≤ m.room limit) :
    (memory m d).dispatch now limit .scanResults [] =
      (memory m (d.takeResults (m.conditions now (m.room limit))).1,
        ⟨.success, (d.takeResults (m.conditions now (m.room limit))).2.toPayload⟩) := by
  have haccept : m.accept .scanResults [] = .ok (.standard .scanResults) :=
    hknows.accept_of_foreground rfl rfl fun _ => by decide
  have hcarries : Carries m d now (m.room limit) .scanResults [] .scanResults
      (d.takeResults (m.conditions now (m.room limit))).1
      { payload := (d.takeResults (m.conditions now (m.room limit))).2.toPayload } :=
    ⟨rfl, haccept, rfl, MemoryDevice.serve_scanResults hscanned⟩
  exact hcarries.dispatch_of_fits rfl (MemoryDevice.length_takeResults_le hroom)

/-- Otherwise the request is turned down, and the device is as it was. -/
theorem dispatch_scanResults_of_refused (hknows : m.Knows .scanResults)
    (h : ¬ (p = [] ∧ d.poison.scanned = true ∧ Poison.headerLength ≤ m.room limit)) (now : Nat) :
    ∃ s, s.accepted = false ∧
      (memory m d).dispatch now limit .scanResults p = (memory m d, .refusal s) := by
  cases haccept : m.accept .scanResults p with
  | error s => exact ⟨s, m.candid_accept _ p s haccept, dispatch_of_refused haccept⟩
  | ok c =>
    obtain rfl := hknows.eq_of_accept haccept
    obtain rfl : p = [] := List.eq_nil_of_length_eq_zero (hknows.accept_eq_ok_iff.mp haccept).1
    have hread : DirectRequest.ofPayload .scanResults [] = .ok (.memory .scanResults) := rfl
    rcases refuses_or_carries d now limit .scanResults haccept hread with
      ⟨s, -, hs, hrefused⟩ | ⟨d', reply, hcarries⟩
    · exact ⟨s, hs, hrefused⟩
    · have hserves := MemoryDevice.serves_of_serve hcarries.served
      have hserved := hcarries.served
      simp only [MemoryDevice.serve] at hserved
      split at hserved
      next hscanned =>
        cases hserved
        have hshort : m.room limit < Poison.headerLength :=
          Nat.lt_of_not_le fun hroom => h ⟨rfl, hscanned, hroom⟩
        have hlong : m.room limit < (d.takeResults (m.conditions now
            (m.room limit))).2.toPayload.length := by
          rw [MemoryDevice.length_takeResults]
          omega
        refine ⟨.internalError, rfl, ?_⟩
        have hdispatch : (memory m d).dispatch now limit .scanResults [] = _ := hcarries.dispatch_eq
        rw [hdispatch, settle_of_long hlong, hserves.unchanged_of_long hlong]
      · cases hserved

/-! ## A readable queue -/

/-- The mailbox is that of a memory device, and every queued record can be told. -/
structure QueueReadable (m : Mailbox) (d : MemoryDevice) : Prop where
  commands : m.HasMemoryCommands
  knows : m.Knows .scanResults
  size : m.payloadMax ≤ mebibyte
  whole : ∀ r ∈ d.poison.results, r.Whole
  lines : ∀ r ∈ d.poison.results, r.length / lineBytes ≤ Word.last32

theorem QueueReadable.room_le (h : QueueReadable m d) (limit : Option Nat) :
    m.room limit ≤ mebibyte := by
  cases limit with
  | none => exact h.size
  | some limit => exact Nat.le_trans (Nat.min_le_right _ _) h.size

theorem QueueReadable.resultsTold (h : QueueReadable m d) (now : Nat) (limit : Option Nat)
    (p : Payload) :
    ∃ d' response, (memory m d).dispatch now limit .scanResults p = (memory m d', response) ∧
      ResultsTold m d limit p d' response := by
  by_cases hready : p = [] ∧ d.poison.scanned = true ∧ Poison.headerLength ≤ m.room limit
  · obtain ⟨rfl, hscanned, hroom⟩ := hready
    obtain ⟨hcount, hread⟩ := MemoryDevice.ofPayload?_takeResults
      (c := m.conditions now (m.room limit)) h.whole h.lines (h.room_le limit)
    refine ⟨_, _, dispatch_scanResults h.knows hscanned hroom, ?_⟩
    constructor
    case status_iff => exact iff_of_true rfl ⟨rfl, hscanned, hroom⟩
    case kept => exact absurd rfl
    case page =>
      exact fun _ => ⟨_, hread, d.records_takeResults _, d.length_records_takeResults _⟩
    case count =>
      intro _
      rw [hcount, ResultPage.length_toPayload]
    case more =>
      intro _
      rw [ResultPage.moreOf_toPayload]
      exact d.isSome_rest_takeResults _
  · obtain ⟨s, hs, hdispatch⟩ := dispatch_scanResults_of_refused h.knows hready now
    have hrefused : s ≠ .success := by
      rintro rfl
      cases hs
    refine ⟨d, _, hdispatch, iff_of_false hrefused hready, fun _ => rfl, ?_, ?_, ?_⟩ <;>
      exact fun hsuccess => absurd hsuccess hrefused

/-! ## One operation -/

/-- The page of scan results that the host gets by an operation. -/
def resultPage? (e : Endpoint) : Op → Option Payload
  | .request now limit op p =>
    let response := (e.dispatch now limit op p).2
    if op = .scanResults ∧ response.status = .success then some response.payload else none
  | _ => none

/-- The pages that the host has got in the course of `past`, the first one first. -/
def resultPages (e : Endpoint) : List Op → List Payload
  | [] => []
  | op :: past => e.resultPages past ++ ((e.after past).resultPage? op).toList

/-- `told` are pages with the records by which the queue of `d` has become that of `d'`. -/
def TakenOff (d : MemoryDevice) (told : List Payload) (d' : MemoryDevice) : Prop :=
  ∃ pages : List ResultPage, told.map ResultPage.ofPayload? = pages.map some ∧
    pages.flatMap (·.records) ++ d'.poison.results = d.poison.results

theorem takenOff_nil (h : d'.poison.results = d.poison.results) : TakenOff d [] d' :=
  ⟨[], rfl, h⟩

theorem TakenOff.trans {d'' : MemoryDevice} {told told' : List Payload} (h : TakenOff d told d')
    (h' : TakenOff d' told' d'') : TakenOff d (told ++ told') d'' := by
  obtain ⟨pages, hread, hqueue⟩ := h
  obtain ⟨pages', hread', hqueue'⟩ := h'
  refine ⟨pages ++ pages', ?_, ?_⟩
  · rw [List.map_append, hread, hread', List.map_append]
  · rw [List.flatMap_append, List.append_assoc, hqueue', hqueue]

/-- What is left was queued. -/
theorem TakenOff.subset {told : List Payload} (h : TakenOff d told d') :
    d'.poison.results ⊆ d.poison.results := by
  obtain ⟨pages, -, hqueue⟩ := h
  rw [← hqueue]
  exact List.subset_append_right _ _

/-- Any other request that starts no scan leaves the queue alone. -/
theorem Outcome.results_eq (h : Outcome m d now room op p (memory m' d') response)
    (hop : op ≠ .scanResults)
    (hscan : response.status = .backgroundStarted → op ≠ .scanMedia) :
    d'.poison.results = d.poison.results := by
  cases h with
  | refused | told | timeSet => rfl
  | served request _ reply hcarries hdone =>
    refine (MemoryDevice.serves_of_serve hcarries.served).results_eq ?_ (Or.inl hdone)
    rintro rfl
    exact hop hcarries.opcode.symm
  | started request _ runtime hcarries =>
    refine (MemoryDevice.serves_of_serve hcarries.served).results_eq ?_ (Or.inr ?_)
    · rintro rfl
      exact hop hcarries.opcode.symm
    · rintro r rfl
      exact hscan rfl hcarries.opcode.symm

/-- What is taken off the queue by an operation is told. -/
theorem QueueReadable.takenOff_step (h : QueueReadable m d) {op : Op}
    (hscan : (memory m d).begun op ≠ some .scanMedia) :
    ∃ m' d', (memory m d).step op = memory m' d' ∧
      TakenOff d ((memory m d).resultPage? op).toList d' := by
  cases op with
  | request now limit op p =>
    by_cases hop : op = .scanResults
    · subst hop
      obtain ⟨d', response, hdispatch, htold⟩ := h.resultsTold now limit p
      refine ⟨m, d', congrArg Prod.fst hdispatch, ?_⟩
      simp only [resultPage?, hdispatch, true_and]
      by_cases hsuccess : response.status = .success
      · obtain ⟨page, hread, hqueue, -⟩ := htold.page hsuccess
        rw [if_pos hsuccess]
        refine ⟨[page], ?_, ?_⟩
        · rw [Option.toList_some, List.map_singleton, hread, List.map_singleton]
        · rw [List.flatMap_singleton]
          exact hqueue
      · rw [if_neg hsuccess]
        exact takenOff_nil (htold.kept hsuccess)
    · obtain ⟨m', d', response, hdispatch, houtcome⟩ :=
        exists_outcome h.commands d now limit op p
      refine ⟨m', d', congrArg Prod.fst hdispatch, ?_⟩
      rw [resultPage?, if_neg fun hpage => hop hpage.1]
      refine takenOff_nil (houtcome.results_eq hop ?_)
      rintro hstarted rfl
      rw [begun, hdispatch, if_pos hstarted] at hscan
      exact hscan rfl
  | tick now =>
    obtain ⟨m', d', htick, hsteps⟩ := steps_tick m d now
    refine ⟨m', d', htick, takenOff_nil ?_⟩
    cases hsteps with
    | idle | polled => rfl
    | finished now r =>
      rw [MemoryDevice.poison_finish]
      split <;> rfl
  | mediaError now start length kind =>
    exact ⟨m, _, rfl, takenOff_nil (d.poison.lists_recordMediaError start length kind _).2⟩
  | event now log r => exact ⟨m, _, rfl, takenOff_nil rfl⟩
  | provision extent =>
    obtain ⟨m', d', hprovision, hsteps⟩ := steps_step h.commands d (.provision extent)
    refine ⟨m', d', hprovision, takenOff_nil ?_⟩
    cases hsteps <;> rfl

/-- The mailbox keeps its commands, and what is still queued has been queued before. -/
theorem QueueReadable.of_step (h : QueueReadable m d) {op : Op} {told : List Payload}
    (hstep : (memory m d).step op = memory m' d') (htaken : TakenOff d told d') :
    QueueReadable m' d' := by
  have hsame := sameTable_step (memory m d) op
  rw [hstep] at hsame
  refine ⟨fun c hc => h.commands c (hsame.commands ▸ hc), hsame.knows h.knows, ?_, ?_, ?_⟩
  · exact Nat.le_trans (Nat.le_of_eq hsame.payloadMax) h.size
  · exact fun r hr => h.whole r (htaken.subset hr)
  · exact fun r hr => h.lines r (htaken.subset hr)

/-! ## Histories -/

theorem QueueReadable.after (h : QueueReadable m d)
    (hscan : .scanMedia ∉ (memory m d).started past) :
    ∃ m' d', (memory m d).after past = memory m' d' ∧ QueueReadable m' d' ∧
      TakenOff d ((memory m d).resultPages past) d' := by
  induction past with
  | nil => exact ⟨m, d, rfl, h, takenOff_nil rfl⟩
  | cons op past ih =>
    rw [started, List.mem_append, not_or] at hscan
    obtain ⟨m₁, d₁, hreached, hreadable, htaken⟩ := ih hscan.1
    have hbegun : (memory m₁ d₁).begun op ≠ some .scanMedia := by
      rw [← hreached]
      exact fun hbegun => hscan.2 (Option.mem_toList.mpr hbegun)
    obtain ⟨m', d', hstep, htaken'⟩ := hreadable.takenOff_step hbegun
    refine ⟨m', d', ?_, hreadable.of_step hstep htaken', ?_⟩
    · rw [Endpoint.after, hreached, hstep]
    · rw [resultPages, hreached]
      exact htaken.trans htaken'

theorem queueReadable_after {c : MemoryConfig} {memory : Memory}
    (h : memoryDevice c memory = .ok e) (hreached : e.after before = .memory m d)
    (hlines : ∀ r ∈ d.poison.results, r.length / lineBytes ≤ Word.last32) : QueueReadable m d := by
  have hsame := sameTable_after e before
  obtain ⟨m₀, d₀, rfl, hcommands₀, -, -, hempty⟩ := exists_memory h
  obtain ⟨m', d', hreached', hcommands, hpoison⟩ := poison_after hcommands₀ hempty before
  obtain ⟨rfl, rfl⟩ := Endpoint.memory.inj (hreached.symm.trans hreached')
  rw [hreached] at hsame
  obtain ⟨hsize, hmax, -⟩ := payloadMax_of_memoryDevice h
  refine ⟨hcommands, hsame.knows (knows_memoryDevice h (by decide)), ?_, ?_, hlines⟩
  · calc m.payloadMax = (Endpoint.memory m₀ d₀).mailbox.payloadMax := hsame.payloadMax
      _ = c.payloadMax := hmax
      _ ≤ mebibyte := hsize.2
  · rw [hpoison]
    exact Poison.Store.whole_results _

/-- **Scan results are delivered once.** Whatever has happened to a device before, as long as no
further scan is begun, the records of the pages that the host gets and those that are still queued
are the queue as it was, in its order. At every point, a request for results that is turned down
takes nothing off the queue, and a page that is told has as many records as it says and a flag that
says whether results are left. -/
theorem results_delivered {c : MemoryConfig} {memory : Memory} (h : memoryDevice c memory = .ok e)
    (hreached : e.after before = .memory m d)
    (hlines : ∀ r ∈ d.poison.results, r.length / lineBytes ≤ Word.last32)
    (hscan : .scanMedia ∉ (Endpoint.memory m d).started past) :
    ∃ m' d', (Endpoint.memory m d).after past = .memory m' d' ∧
      (∃ pages : List ResultPage,
        ((Endpoint.memory m d).resultPages past).map ResultPage.ofPayload? = pages.map some ∧
        pages.flatMap (·.records) ++ d'.poison.results = d.poison.results) ∧
      ∀ now limit p, ∃ d'' response,
        (Endpoint.memory m' d').dispatch now limit .scanResults p = (.memory m' d'', response) ∧
          ResultsTold m' d' limit p d'' response := by
  obtain ⟨m', d', hafter, hreadable, htaken⟩ := (queueReadable_after h hreached hlines).after hscan
  exact ⟨m', d', hafter, htaken, fun now limit p => hreadable.resultsTold now limit p⟩

/-- What is not asked for is not begun. -/
theorem not_mem_started (h : ∀ now limit p, Op.request now limit op p ∉ past) :
    op ∉ e.started past := by
  induction past with
  | nil => exact List.not_mem_nil
  | cons o past ih =>
    rw [started, List.mem_append, not_or]
    refine ⟨ih fun now limit p hmem => h now limit p (List.mem_cons_of_mem _ hmem), fun hmem => ?_⟩
    have hbegun : (e.after past).begun o = some op := Option.mem_toList.mp hmem
    cases o with
    | request now limit op' p =>
      rw [begun] at hbegun
      split at hbegun
      · cases hbegun
        exact h now limit p List.mem_cons_self
      · cases hbegun
    | tick | mediaError | event | provision => cases hbegun

/-- Three errors that are not in the order of their addresses. -/
def scatteredErrors : List Op :=
  [.mediaError 0 128 64 .internal, .mediaError 0 0 64 .vendor, .mediaError 0 64 64 .internal]

/-- A scan finds them. -/
def foundErrors : List Op :=
  .tick 5000 :: .request 0 none .scanMedia (littleEndian 8 0 ++ littleEndian 8 4 ++ [0]) ::
    scatteredErrors

theorem after_foundErrors :
    ∃ m d, newDevice.after foundErrors = .memory m d ∧ d.poison.results =
      [⟨64, 64, .internal⟩, ⟨0, 64, .vendor⟩, ⟨128, 64, .internal⟩] := by
  have hread : Request.ofPayload .scanMedia (littleEndian 8 0 ++ littleEndian 8 4 ++ [0]) =
      .ok (.direct (.memory (.scan ⟨0, 4⟩))) := rfl
  have hstarted : (newDevice.after scatteredErrors).dispatch 0 none .scanMedia
      (littleEndian 8 0 ++ littleEndian 8 4 ++ [0]) = _ :=
    dispatch_of_direct (c := .standard .scanMedia) rfl rfl hread
  simp only [foundErrors, after, step, hstarted]
  exact ⟨_, _, rfl, rfl⟩

/-- Two of them are fetched, then too little room is left for a page, and then the rest is fetched.
In between there is a further error. -/
def fetches : List Op :=
  [.request 8 none .scanResults [], .request 7 (some 8) .scanResults [],
    .mediaError 6 0 64 .external, .request 5 (some 64) .scanResults []]

theorem results_delivered_found :
    memoryDevice {} ({} : MemoryConfig).memory = .ok newDevice ∧
      ∃ m d m' d', newDevice.after foundErrors = .memory m d ∧
        .scanMedia ∉ (Endpoint.memory m d).started fetches ∧
        (Endpoint.memory m d).after fetches = .memory m' d' ∧
        ∃ pages : List ResultPage,
          ((Endpoint.memory m d).resultPages fetches).map ResultPage.ofPayload? = pages.map some ∧
          pages.flatMap (·.records) ++ d'.poison.results =
            [⟨64, 64, .internal⟩, ⟨0, 64, .vendor⟩, ⟨128, 64, .internal⟩] := by
  have hnew : memoryDevice {} ({} : MemoryConfig).memory = .ok newDevice := rfl
  obtain ⟨m, d, hafter, hresults⟩ := after_foundErrors
  have hlines : ∀ r ∈ d.poison.results, r.length / lineBytes ≤ Word.last32 := by
    rw [hresults]
    decide
  have hscan : .scanMedia ∉ (Endpoint.memory m d).started fetches := by
    refine not_mem_started fun now limit p hmem => ?_
    simp [fetches, Opcode.scanMedia, Opcode.scanResults] at hmem
  obtain ⟨m', d', hfetched, ⟨pages, hread, hqueue⟩, -⟩ := results_delivered hnew hafter hlines hscan
  exact ⟨hnew, m, d, m', d', hafter, hscan, hfetched, pages, hread, hqueue.trans hresults⟩

end Endpoint

end CxlEndpoint
