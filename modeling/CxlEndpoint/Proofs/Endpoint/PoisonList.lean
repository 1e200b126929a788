import CxlEndpoint.Proofs.Device.Service
import CxlEndpoint.Proofs.Endpoint.MemoryDevice
import CxlEndpoint.Proofs.Endpoint.Response
import CxlEndpoint.Proofs.Poison.Listing

/-!
# The poison list, page by page

* `MemoryDevice.listPoison`, `Endpoint.listPoison`: what the host gets for a request to list poison
  from a device, and from an endpoint that the device is behind.
* `MemoryDevice.listPoison_request`, `Endpoint.listPoison_request`: a proper range gets a page.
  `Endpoint.dispatch_listing`: so does every other range that the host can ask for.
* `fetch_complete`: the host that goes on behind the last record as long as there is more gets all
  the poison of the range.
-/

namespace CxlEndpoint

namespace Poison

variable {l : List Record}

theorem IsLiveList.tidy (h : IsLiveList l) : Tidy l := by
  refine ⟨h.whole, (h.sorted.and h.disjoint).imp_of_mem ?_⟩
  rintro r s hr hs ⟨hlt, hapart⟩
  have hstop := (h.whole r hr).stop_eq
  have hpos := (h.whole s hs).length_pos
  omega

theorem recordLimit_pos {room : Nat} (h : 48 ≤ room) : 0 < recordLimit room :=
  Nat.div_pos (Nat.le_sub_of_add_le h) (by decide)

end Poison

namespace MemoryDevice

variable {d : MemoryDevice} {c : Conditions} {range : Poison.Range}

/-- The device after a request to list poison, and what it answers unless it turns the request
down. -/
def listPoison (d : MemoryDevice) (c : Conditions) (p : Payload) : MemoryDevice × Option Payload :=
  match DirectRequest.ofPayload .getPoisonList p with
  | .ok (.memory request) =>
    match d.serve c request with
    | .ok (d, reply) => (d, some reply.payload)
    | .error _ => (d, none)
  | _ => (d, none)

theorem poisonPage_eq (d : MemoryDevice) (c : Conditions) (range : Poison.Range) :
    d.poisonPage c range = Poison.page d.poison range (Poison.recordLimit c.room) c.scanning := rfl

/-- A page is no longer than the response may be. -/
theorem length_poisonPage_le (h : Poison.headerLength ≤ c.room) (range : Poison.Range) :
    (d.poisonPage c range).toPayload.length ≤ c.room := by
  rw [Poison.ListPage.length_toPayload]
  apply Payload.records_fit h
  rw [poisonPage, Poison.Store.query, List.length_map]
  exact List.length_take_le _ _

theorem ofPayload_listing (h : range.Readable) :
    DirectRequest.ofPayload .getPoisonList range.request = .ok (.memory (.poisonList range)) := by
  rw [DirectRequest.ofPayload, h.alignedOfPayload_request]
  rfl

theorem listPoison_request (h : range.Proper) (d : MemoryDevice) (c : Conditions) :
    d.listPoison c range.request = (d, some (d.poisonPage c range).toPayload) := by
  rw [listPoison, ofPayload_listing h.readable]
  rfl

end MemoryDevice

namespace Endpoint

variable {m : Mailbox} {d : MemoryDevice} {range : Poison.Range}

/-- The endpoint after a request to list poison at the clock time `turn.1`, and its response of up
to `turn.2` bytes, if it tells of success. -/
def listPoison (e : Endpoint) (turn : Nat × Option Nat) (p : Payload) :
    Endpoint × Option Payload :=
  match e.dispatch turn.1 turn.2 .getPoisonList p with
  | (e, response) => (e, if response.status = .success then some response.payload else none)

/-- What the device does with a request to list poison, once the request is let through. -/
theorem carries_listing (h : range.Readable) (d : MemoryDevice) {now room : Nat}
    (haccept : m.accept .getPoisonList range.request = .ok (.standard .getPoisonList)) :
    Carries m d now room .getPoisonList range.request (.poisonList range) d
      { payload := (d.poisonPage (m.conditions now room) range).toPayload } :=
  ⟨rfl, haccept, MemoryDevice.ofPayload_listing h, rfl⟩

/-- Only a sanitize keeps the host from listing poison. -/
theorem dispatch_listing (hknows : m.Knows .getPoisonList)
    (hmedia : m.background.opcode? ≠ some .sanitize) (h : range.Readable) (d : MemoryDevice)
    {now : Nat} {limit : Option Nat} (hroom : Poison.headerLength ≤ m.room limit) :
    (memory m d).dispatch now limit .getPoisonList range.request =
      (memory m d,
        ⟨.success, (d.poisonPage (m.conditions now (m.room limit)) range).toPayload⟩) := by
  have haccept : m.accept .getPoisonList range.request = .ok (.standard .getPoisonList) :=
    hknows.accept_of_foreground rfl range.length_request fun hsanitize =>
      absurd (Background.isRunningOp_iff.mp hsanitize) hmedia
  exact (carries_listing h d haccept).dispatch_of_fits rfl
    (MemoryDevice.length_poisonPage_le (d := d) hroom range)

theorem listPoison_request (hknows : m.Knows .getPoisonList)
    (hmedia : m.background.opcode? ≠ some .sanitize) (h : range.Proper) (d : MemoryDevice)
    {turn : Nat × Option Nat} (hroom : Poison.headerLength ≤ m.room turn.2) :
    (memory m d).listPoison turn range.request =
      (memory m d,
        some (d.poisonPage (m.conditions turn.1 (m.room turn.2)) range).toPayload) := by
  rw [listPoison, dispatch_listing hknows hmedia h.readable d hroom]
  rfl

end Endpoint

/-! ## One page after the other -/

variable {d : MemoryDevice} {range : Poison.Range}

/-- **A host that goes on behind the last record gets all the poison of a range.** It may get as few
records at a time as it wants, and needs no more turns than there are records, and one. -/
theorem fetch_complete (hlive : Poison.IsLiveList d.poison.live)
    (hlines : ∀ r ∈ d.poison.live, r.length / lineBytes ≤ Word.last32) (hrange : range.Proper) :
    (∀ turns : List Conditions,
      (Poison.overlapping d.poison.live range.start range.stop).length < turns.length →
      (∀ c ∈ turns, 48 ≤ c.room) →
      ∃ pages, Poison.fetch MemoryDevice.listPoison turns d range = some (d, pages) ∧
        Poison.Complete d.poison range pages) ∧
    ∀ m : Mailbox, m.Knows .getPoisonList → m.background.opcode? ≠ some .sanitize →
      ∀ turns : List (Nat × Option Nat),
        (Poison.overlapping d.poison.live range.start range.stop).length < turns.length →
        (∀ turn ∈ turns, 48 ≤ m.room turn.2) →
        ∃ pages, Poison.fetch Endpoint.listPoison turns (.memory m d) range =
            some (.memory m d, pages) ∧
          Poison.Complete d.poison range pages := by
  have hheader {room : Nat} (h : 48 ≤ room) : Poison.headerLength ≤ room :=
    Nat.le_trans (by decide) h
  constructor
  · intro turns hturns hroom
    apply Poison.exists_fetch hlive.tidy hlive.length_le hlines hrange hturns
    intro c hc
    refine ⟨_, c.scanning, Poison.recordLimit_pos (hroom c hc), fun range hrange => ?_⟩
    rw [MemoryDevice.listPoison_request hrange, MemoryDevice.poisonPage_eq]
  · intro m hknows hmedia turns hturns hroom
    apply Poison.exists_fetch hlive.tidy hlive.length_le hlines hrange hturns
    intro turn hturn
    refine ⟨_, (m.conditions turn.1 (m.room turn.2)).scanning,
      Poison.recordLimit_pos (hroom turn hturn), fun range hrange => ?_⟩
    rw [Endpoint.listPoison_request hknows hmedia hrange d (hheader (hroom turn hturn)),
      MemoryDevice.poisonPage_eq]
    rfl

/-- A device with poison at the start of a range, in it, and over its end. -/
def scarred : MemoryDevice :=
  { MemoryDevice.fresh with
    poison :=
      { live := [⟨0, 128, .internal⟩, ⟨192, 64, .injected⟩, ⟨256, 128, .vendor⟩],
        overflowedAt := some 5 } }

/-- Four lines, of which each response has at most one record. -/
theorem fetch_complete_scarred :
    Poison.IsLiveList scarred.poison.live ∧
      (∀ r ∈ scarred.poison.live, r.length / lineBytes ≤ Word.last32) ∧
      (⟨64, 4⟩ : Poison.Range).Proper ∧
      ∃ pages,
        Poison.fetch Endpoint.listPoison [(0, some 48), (1, some 50), (2, some 63), (3, some 48)]
            (.memory (.ofCommands memoryCommands 2048) scarred) ⟨64, 4⟩ =
          some (.memory (.ofCommands memoryCommands 2048) scarred, pages) ∧
        pages.flatMap (·.records) =
          [⟨64, 64, .internal⟩, ⟨192, 64, .injected⟩, ⟨256, 64, .vendor⟩] := by
  have hwhole : ∀ r ∈ scarred.poison.live, r.Whole := by
    intro r hr
    obtain rfl | rfl | rfl : r = ⟨0, 128, .internal⟩ ∨ r = ⟨192, 64, .injected⟩ ∨
        r = ⟨256, 128, .vendor⟩ := by simpa [scarred] using hr
    all_goals exact ⟨by decide, by decide, by decide, by decide⟩
  have hlive : Poison.IsLiveList scarred.poison.live :=
    ⟨by decide, by decide, hwhole, by decide⟩
  have hlines : ∀ r ∈ scarred.poison.live, r.length / lineBytes ≤ Word.last32 := by decide
  have hrange : (⟨64, 4⟩ : Poison.Range).Proper := ⟨by decide, by decide, by decide⟩
  obtain ⟨pages, hfetch, hcomplete⟩ := (fetch_complete hlive hlines hrange).2
    (.ofCommands memoryCommands 2048) rfl nofun
    [(0, some 48), (1, some 50), (2, some 63), (3, some 48)] (by decide) (by decide)
  exact ⟨hlive, hlines, hrange, pages, hfetch, hcomplete.records⟩

end CxlEndpoint
