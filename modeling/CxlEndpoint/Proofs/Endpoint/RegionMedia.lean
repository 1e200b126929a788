import CxlEndpoint.Proofs.Endpoint.Injection
import CxlEndpoint.Proofs.Poison.Message

/-!
# Media requests for dynamic capacity

Regions start on the boundary of a capacity unit, so there may be padding between static capacity
and the first of them. The addresses that media requests take end without it: static capacity and
decoded regions together are that much shorter than the way to the end of the last region.

* `scanRequest`, `dispatch_scan`: the host's request for a scan, and what comes of it while nothing
  runs in the background.
* `Addressable`: a line can be repaired, which stores its contents, and scanned. `OutOfReach`: the
  device turns both down for the address. `addressable`, `outOfReach`: which lines are which.
* `MemoryConfig.mediaEnd`: where the addresses end that media requests take (`mediaEnd_after`).
* `regions_addressable_iff`: all lines of all regions are addressable exactly if the padding fits
  into what the last region decodes but cannot use.
* `not_regions_addressable`: a line that was configured, laid out and backed, but is out of reach.
-/

namespace CxlEndpoint

/-! ## Whole lines -/

/-- A number of whole blocks is a number of whole lines. -/
theorem Region.Laid.lineAligned_of_dvd {region : Region} {n : Nat} (h : region.Laid)
    (hblock : lineBytes ≤ region.blockSize) (hn : region.blockSize ∣ n) : LineAligned n :=
  Nat.mod_eq_zero_of_dvd
    (Nat.dvd_trans (dvd_of_isPowerOfTwo isPowerOfTwo_lineBytes h.block hblock) hn)

/-- The last line of a region. -/
theorem Region.Laid.exists_last_line {region : Region} (h : region.Laid)
    (hblock : lineBytes ≤ region.blockSize) :
    ∃ line, LineAligned line ∧ region.Surrounds ⟨line, lineBytes⟩ ∧
      line + lineBytes = region.base + region.length := by
  have hlength : LineAligned region.length :=
    h.lineAligned_of_dvd hblock (Nat.dvd_of_mod_eq_zero h.length_aligned)
  have hpos := h.length_pos
  have hbase := h.base_aligned
  unfold LineAligned at hlength ⊢
  rw [capacityUnit_eq] at hbase
  simp only [lineBytes, Region.Surrounds] at hlength ⊢
  exact ⟨region.base + region.length - 64, by omega, by omega, by omega⟩

theorem MemoryConfig.lineBytes_le_of_layout {c : MemoryConfig} {staticCapacity : Nat}
    {t : RegionTable} {region : Region} (h : c.layout staticCapacity = .ok t) (hmem : region ∈ t) :
    lineBytes ≤ region.blockSize := by
  obtain ⟨hcheck, -, rfl⟩ := MemoryConfig.layout_eq_ok_iff.mp h
  have hconfig : region.config ∈ c.regions := by
    rw [← RegionConfig.map_config_tile (Word.roundUp staticCapacity capacityUnit) c.regions]
    exact List.mem_map_of_mem hmem
  exact MemoryConfig.lineBytes_le_of_check hcheck region.config hconfig

/-! ## Scans -/

/-- Provisioned capacity ends the addresses of a scan, too. -/
theorem MemoryDevice.scanLength_line {line : Nat} (h : LineAligned line) (d : MemoryDevice) :
    d.scanLength ⟨line, 1⟩ =
      if d.provisionedCapacity < line + lineBytes then .error .invalidPhysicalAddress
      else .ok lineBytes := by
  have hvalid : ¬ (Word.last < lineBytes ∨ ¬ LineAligned line) :=
    not_or.mpr ⟨by decide, not_not_intro h⟩
  unfold scanLength
  simp only [Nat.one_mul]
  rw [if_neg hvalid]

namespace Endpoint

variable {m : Mailbox} {d : MemoryDevice} {c : MemoryConfig} {e e₀ : Endpoint} {line : Nat}

/-- The request to scan a range. -/
def scanRequest (r : Poison.Range) (flags : UInt8) : Payload := r.request ++ [flags]

theorem ofPayload_scanRequest {r : Poison.Range} (hstart : r.start ≤ Word.last)
    (hlines : r.lines ≤ Word.last) (flags : UInt8) :
    Request.ofPayload .scanMedia (scanRequest r flags) = .ok (.direct (.memory (.scan r))) := by
  have hread : Poison.Range.ofPayload (scanRequest r flags) = .ok r :=
    Poison.Range.ofPayload_request_append hstart hlines [flags]
  rw [Request.ofPayload, if_neg (by decide), DirectRequest.ofPayload, hread]
  rfl

/-- While nothing runs in the background, a scan is begun unless its range is turned down. -/
theorem dispatch_scan {r : Poison.Range} (hknows : m.Knows .scanMedia)
    (hidle : m.background.isRunning = false) (hstart : r.start ≤ Word.last)
    (hlines : r.lines ≤ Word.last) (d : MemoryDevice) (now : Nat) (limit : Option Nat)
    (flags : UInt8) :
    (memory m d).dispatch now limit .scanMedia (scanRequest r flags) =
      match d.scanLength r with
      | .ok length =>
        (memory { m with background := .start .scanMedia now (scanMilliseconds length) }
            { d with poison := d.poison.beginScan r.start length (m.hostTime.now now) },
          ⟨.backgroundStarted, []⟩)
      | .error s => (memory m d, .refusal s) := by
  have hlength : (scanRequest r flags).length = 17 := by
    rw [scanRequest, List.length_append, r.length_request, List.length_singleton]
  have haccept : (memory m d).mailbox.accept .scanMedia (scanRequest r flags) =
      .ok (.standard .scanMedia) :=
    hknows.accept_of_idle hidle hlength
  rw [dispatch_of_direct haccept rfl (ofPayload_scanRequest hstart hlines flags)]
  simp only [serve, MemoryDevice.serve, mailbox]
  cases d.scanLength r <;> rfl

/-! ## Lines in reach and out of reach -/

/-- The contents of a line of media, if it has been written. -/
def stored? (e : Endpoint) (line : Nat) : Option CacheLine :=
  e.device?.bind (·.memory.line? line)

/-- Media requests reach the line: it can be repaired through each of its addresses, which stores
the contents, and scanned. -/
structure Addressable (e : Endpoint) (line : Nat) : Prop where
  repaired : ∀ now limit address data, address ≤ Word.last → lineStart address = line →
    ∃ e', e.dispatch now limit .clearPoison (repair address data) = (e', ⟨.success, []⟩) ∧
      e'.stored? line = some data
  scanned : ∀ now limit flags,
    (e.dispatch now limit .scanMedia (scanRequest ⟨line, 1⟩ flags)).2 = ⟨.backgroundStarted, []⟩

/-- Media requests for the line are turned down for its address, and change nothing. -/
structure OutOfReach (e : Endpoint) (line : Nat) : Prop where
  repaired : ∀ now limit address data, address ≤ Word.last → lineStart address = line →
    e.dispatch now limit .clearPoison (repair address data) =
      (e, .refusal .invalidPhysicalAddress)
  scanned : ∀ now limit flags,
    e.dispatch now limit .scanMedia (scanRequest ⟨line, 1⟩ flags) =
      (e, .refusal .invalidPhysicalAddress)

theorem OutOfReach.not_addressable (h : e.OutOfReach line) : ¬ e.Addressable line := by
  intro hreached
  have hstatus := hreached.scanned 0 none 0
  rw [h.scanned] at hstatus
  cases hstatus

section Reach

variable (hrepairs : m.Knows .clearPoison) (hscans : m.Knows .scanMedia)
  (hidle : m.background.isRunning = false) (hline : line ≤ Word.last)
  (haligned : LineAligned line)

include hrepairs hscans hidle hline haligned

theorem addressable (hbacked : d.provisionedCapacity ≤ d.memory.capacity)
    (hwithin : line + lineBytes ≤ d.provisionedCapacity) : (memory m d).Addressable line := by
  refine ⟨fun now limit address data haddress hstart => ?_, fun now limit flags => ?_⟩
  · have hwithin' : lineStart address + lineBytes ≤ d.provisionedCapacity := by
      rw [hstart]
      exact hwithin
    obtain ⟨written, hwritten, hclear⟩ := MemoryDevice.exists_clearPoison hwithin' hbacked
      (m.conditions now (m.room limit)) data
    refine ⟨_, by rw [dispatch_repair hrepairs hidle haddress, hclear], ?_⟩
    show written.line? line = some data
    rw [Memory.line?_of_writeLine? hwritten, (lineAligned_lineStart address).lineStart_eq,
      if_pos hstart.symm]
  · have hlength : d.scanLength ⟨line, 1⟩ = .ok lineBytes := by
      rw [MemoryDevice.scanLength_line haligned, if_neg (Nat.not_lt.mpr hwithin)]
    rw [dispatch_scan hscans hidle hline (show 1 ≤ Word.last by decide), hlength]

theorem outOfReach (hbeyond : d.provisionedCapacity < line + lineBytes) :
    (memory m d).OutOfReach line := by
  refine ⟨fun now limit address data haddress hstart => ?_, fun now limit flags => ?_⟩
  · rw [← hstart] at hbeyond
    exact dispatch_repair_of_unprovisioned hrepairs hidle haddress hbeyond data now limit
  · have hlength : d.scanLength ⟨line, 1⟩ = .error .invalidPhysicalAddress := by
      rw [MemoryDevice.scanLength_line haligned, if_pos hbeyond]
    rw [dispatch_scan hscans hidle hline (show 1 ≤ Word.last by decide), hlength]

end Reach

end Endpoint

/-! ## The lines of all regions -/

namespace MemoryConfig

variable {c : MemoryConfig} {t : RegionTable} {final : Region}

/-- What lies between static capacity and the first region. -/
def padding (c : MemoryConfig) : Nat :=
  Word.roundUp c.memory.staticCapacity capacityUnit - c.memory.staticCapacity

/-- The end of the addresses that media requests take, for a device with this configuration. -/
def mediaEnd (c : MemoryConfig) : Nat :=
  c.memory.staticCapacity + RegionConfig.decodedBytes c.regions

theorem staticCapacity_le_roundUp (c : MemoryConfig) :
    c.memory.staticCapacity ≤ Word.roundUp c.memory.staticCapacity capacityUnit :=
  Word.le_roundUp (by decide) (Word.addSat_le_last _ _)

/-- The media end lies the padding in front of the end of the last region. -/
theorem end_eq_mediaEnd_add (h : c.layout c.memory.staticCapacity = .ok t)
    (hfinal : t.getLast? = some final) :
    final.base + final.decodeLength = c.mediaEnd + c.padding := by
  have hround := c.staticCapacity_le_roundUp
  obtain ⟨-, -, rfl⟩ := layout_eq_ok_iff.mp h
  have hend := RegionConfig.end_of_getLast?_tile hfinal
  unfold mediaEnd padding
  omega

theorem mediaEnd_le_last (h : c.layout c.memory.staticCapacity = .ok t) :
    c.mediaEnd ≤ Word.last := by
  obtain ⟨-, hfits, -⟩ := layout_eq_ok_iff.mp h
  exact Nat.le_trans (Nat.add_le_add_right c.staticCapacity_le_roundUp _) hfits

/-- The usable parts of all regions lie in front of the media end exactly if that of the last one
does. -/
theorem forall_end_le_mediaEnd_iff (hlaid : t.Laid)
    (h : c.layout c.memory.staticCapacity = .ok t) :
    (∀ region ∈ t, region.base + region.length ≤ c.mediaEnd) ↔
      ∀ final, t.getLast? = some final → c.padding ≤ final.decodeLength - final.length := by
  have hlast : ∀ final, t.getLast? = some final →
      (final.base + final.length ≤ c.mediaEnd ↔
        c.padding ≤ final.decodeLength - final.length) := by
    intro final hfinal
    have hend := end_eq_mediaEnd_add h hfinal
    have hle := (hlaid.regions final (List.mem_of_getLast? hfinal)).length_le
    omega
  constructor
  · exact fun hall final hfinal =>
      (hlast final hfinal).mp (hall final (List.mem_of_getLast? hfinal))
  · intro hpadding region hmem
    obtain ⟨final, hfinal⟩ := Option.isSome_iff_exists.mp
      (List.getLast?_isSome.mpr (List.ne_nil_of_mem hmem))
    exact Nat.le_trans (hlaid.end_le_final hfinal hmem)
      ((hlast final hfinal).mpr (hpadding final hfinal))

end MemoryConfig

namespace Endpoint

variable {c : MemoryConfig} {e₀ : Endpoint}

/-- A history leaves a device over the regions of its layout. Its memory backs all that media
requests take. -/
theorem mediaEnd_after (hnew : memoryDevice c c.memory = .ok e₀) (past : List Op) :
    ∃ m d, e₀.after past = memory m d ∧
      c.layout c.memory.staticCapacity = .ok d.ledger.regions ∧ d.ledger.regions.Laid ∧
      d.provisionedCapacity = c.mediaEnd ∧ d.provisionedCapacity ≤ d.memory.capacity := by
  obtain ⟨m, d, hreached, hprovisioned, hbacked⟩ := capacity_after hnew past
  obtain ⟨regions, _, _, hlayout, hledger, hreached', hsame⟩ := sameCapacity_after hnew past
  obtain ⟨rfl, rfl⟩ := memory.inj (hreached.symm.trans hreached')
  obtain rfl : d.ledger.regions = regions := hsame.regions
  refine ⟨m, d, hreached, hlayout, Ledger.laid_of_ofRegions hlayout hledger, ?_, hbacked⟩
  rw [hprovisioned]
  exact Word.addSat_eq_add (MemoryConfig.mediaEnd_le_last hlayout)

/-- **Media requests reach all of dynamic capacity exactly if the padding in front of the regions is
no longer than what the last of them decodes but cannot use.** In the course of every history, while
nothing runs in the background, a line is addressable if it ends in front of static capacity and
decoded regions together, and out of reach otherwise. Static capacity of whole units needs no
padding, so then nothing is out of reach. -/
theorem regions_addressable_iff (hnew : memoryDevice c c.memory = .ok e₀) (past : List Op) :
    ∃ m d, e₀.after past = memory m d ∧
      c.layout c.memory.staticCapacity = .ok d.ledger.regions ∧
      (m.background.isRunning = false →
        (∀ line, line ≤ Word.last → LineAligned line →
          (line + lineBytes ≤ c.mediaEnd → (memory m d).Addressable line) ∧
            (c.mediaEnd < line + lineBytes → (memory m d).OutOfReach line)) ∧
        ((∀ region ∈ d.ledger.regions, ∀ line, LineAligned line →
            region.Surrounds ⟨line, lineBytes⟩ → (memory m d).Addressable line) ↔
          ∀ final, d.ledger.regions.getLast? = some final →
            c.padding ≤ final.decodeLength - final.length)) := by
  obtain ⟨m, d, hreached, hlayout, hlaid, hmediaEnd, hbacked⟩ := mediaEnd_after hnew past
  have hrepairs : m.Knows .clearPoison := knows_after hnew hreached (by decide)
  have hscans : m.Knows .scanMedia := knows_after hnew hreached (by decide)
  refine ⟨m, d, hreached, hlayout, fun hidle => ?_⟩
  have hwithin : ∀ line, line ≤ Word.last → LineAligned line →
      line + lineBytes ≤ c.mediaEnd → (memory m d).Addressable line :=
    fun line hline haligned hle =>
      addressable hrepairs hscans hidle hline haligned hbacked (by rwa [hmediaEnd])
  have hbeyond : ∀ line, line ≤ Word.last → LineAligned line →
      c.mediaEnd < line + lineBytes → (memory m d).OutOfReach line :=
    fun line hline haligned hlt =>
      outOfReach hrepairs hscans hidle hline haligned (by rwa [hmediaEnd])
  refine ⟨fun line hline haligned => ⟨hwithin line hline haligned, hbeyond line hline haligned⟩, ?_⟩
  rw [← MemoryConfig.forall_end_le_mediaEnd_iff hlaid hlayout]
  constructor
  · -- The last line of a region that ends behind the media end would be out of reach.
    intro hall region hmem
    have hregion := hlaid.regions region hmem
    obtain ⟨line, haligned, hin, hend⟩ :=
      hregion.exists_last_line (MemoryConfig.lineBytes_le_of_layout hlayout hmem)
    have hline : line ≤ Word.last :=
      Nat.le_trans (Nat.le_add_right line lineBytes) (hend ▸ Nat.le_of_lt hregion.end_lt)
    by_contra hlt
    rw [← hend] at hlt
    exact (hbeyond line hline haligned (Nat.lt_of_not_le hlt)).not_addressable
      (hall region hmem line haligned hin)
  · intro hends region hmem line haligned hin
    have hle : line + lineBytes ≤ c.mediaEnd := Nat.le_trans hin.2 (hends region hmem)
    have hline : line ≤ Word.last := Nat.le_trans (Nat.le_add_right line lineBytes)
      (Nat.le_trans hle (MemoryConfig.mediaEnd_le_last hlayout))
    exact hwithin line hline haligned hle

open MemoryConfig (paddedConfig)

/-- The regions of `paddedConfig`. -/
def paddedTable : RegionTable :=
  [⟨0x20000000, 0x80000000, 0x80000000, 0x40000000, 0, 0⟩,
    ⟨0xa0000000, 0x10000000, 0x8000000, 0x200000, 0, 0⟩]

theorem layout_padded :
    paddedConfig.layout paddedConfig.memory.staticCapacity = .ok paddedTable := by
  show paddedConfig.layout (Word.addSat 0x1000 0x10000000) = .ok paddedTable
  decide

/-- A new device with padding in front of its two regions. -/
def paddedDevice : Endpoint :=
  .memory (.ofCommands (memoryCommands ++ capacityCommands) 2048)
    { identity := paddedConfig.identity, memory := paddedConfig.memory
      ledger := { regions := paddedTable } }

theorem memoryDevice_padded : memoryDevice paddedConfig paddedConfig.memory = .ok paddedDevice :=
  memoryDevice_of_layout layout_padded (by decide)

/-- Of the second region only the first lines are addressable. -/
theorem regions_addressable_iff_padded :
    memoryDevice paddedConfig paddedConfig.memory = .ok paddedDevice ∧
      ∃ m d, paddedDevice.after [.mediaError 0 0xa0000fc0 64 .internal] = memory m d ∧
        d.ledger.regions = paddedTable ∧ m.background.isRunning = false ∧
        (memory m d).Addressable 0xa0000fc0 ∧ (memory m d).OutOfReach 0xa0001000 ∧
        ¬ ∀ region ∈ d.ledger.regions, ∀ line, LineAligned line →
          region.Surrounds ⟨line, lineBytes⟩ → (memory m d).Addressable line := by
  obtain ⟨d₀, hd₀⟩ : ∃ d, paddedDevice.after [.mediaError 0 0xa0000fc0 64 .internal] =
      memory (.ofCommands (memoryCommands ++ capacityCommands) 2048) d := ⟨_, rfl⟩
  obtain ⟨m, d, hreached, hlayout, hlaw⟩ :=
    regions_addressable_iff memoryDevice_padded [.mediaError 0 0xa0000fc0 64 .internal]
  obtain ⟨rfl, rfl⟩ := memory.inj (hd₀.symm.trans hreached)
  obtain ⟨hlines, hall⟩ := hlaw rfl
  have hregions : paddedTable = d₀.ledger.regions := by
    rw [layout_padded] at hlayout
    exact Except.ok.inj hlayout
  refine ⟨memoryDevice_padded, _, _, hreached, hregions.symm, rfl, ?_, ?_, ?_⟩
  · exact (hlines 0xa0000fc0 (by decide) (by decide)).1 (by decide)
  · exact (hlines 0xa0001000 (by decide) (by decide)).2 (by decide)
  · rw [hall, ← hregions]
    exact fun hpadding => absurd (hpadding _ rfl) (by decide)

/-- Half a unit of static capacity, and one region behind the other half. -/
def halfConfig : MemoryConfig := { persistentCapacity := 0x8000000, regions := [{}] }

/-- The region of `halfConfig`. -/
def halfTable : RegionTable := [⟨0x10000000, 0x10000000, 0x10000000, 0x200000, 0, 0⟩]

/-- A new device with this region. -/
def halfDevice : MemoryDevice :=
  { identity := halfConfig.identity, memory := halfConfig.memory
    ledger := { regions := halfTable } }

/-- Not every line of dynamic capacity is addressable: the second half of a region is configured,
laid out and backed, but neither repaired nor scanned. -/
theorem not_regions_addressable :
    ¬ ∀ (c : MemoryConfig) (e₀ : Endpoint), memoryDevice c c.memory = .ok e₀ →
      ∀ past m d, e₀.after past = memory m d → m.background.isRunning = false →
        ∀ region ∈ d.ledger.regions, ∀ line, LineAligned line →
          region.Surrounds ⟨line, lineBytes⟩ → ∀ now limit data flags,
            (∃ e', (memory m d).dispatch now limit .clearPoison (repair line data) =
                (e', ⟨.success, []⟩) ∧ e'.stored? line = some data) ∧
              ((memory m d).dispatch now limit .scanMedia (scanRequest ⟨line, 1⟩ flags)).2.status ≠
                .invalidPhysicalAddress := by
  intro h
  have hlayout : halfConfig.layout halfConfig.memory.staticCapacity = .ok halfTable := by
    show halfConfig.layout (Word.addSat 0 0x8000000) = .ok halfTable
    decide
  have hnew : memoryDevice halfConfig halfConfig.memory =
      .ok (memory (.ofCommands (memoryCommands ++ capacityCommands) 2048) halfDevice) :=
    memoryDevice_of_layout hlayout (by decide)
  obtain ⟨⟨_, hrepair, -⟩, -⟩ := h halfConfig _ hnew [] _ _ rfl rfl _ (List.mem_singleton_self _)
    0x18000000 (by decide) (by decide) 0 none (Vector.replicate lineBytes 7) 0
  have hbeyond : (memory (.ofCommands (memoryCommands ++ capacityCommands) 2048)
      halfDevice).OutOfReach 0x18000000 :=
    outOfReach rfl rfl rfl (by decide) (by decide) (by decide)
  rw [hbeyond.repaired 0 none 0x18000000 _ (by decide) (by decide)] at hrepair
  cases (Prod.mk.inj hrepair).2

end Endpoint

end CxlEndpoint
