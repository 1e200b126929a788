import CxlEndpoint.Proofs.Capacity.Geometry
import CxlEndpoint.Proofs.Endpoint.Completion

/-!
# Poisoning a line and repairing it again

Every address can be poisoned, but only the lines of provisioned capacity can be repaired.

* `Poison.Store.clear_inject?`: a store that has been told to repair what was injected into it is
  the store that it was before.
* `SameCapacity`: nothing that happens to a memory device changes its capacities
  (`sameCapacity_after`), so that memory made for it keeps backing all that is provisioned
  (`capacity_after`).
* `injection`, `repair`: the host's requests. `dispatch_inject`, `dispatch_repair` say what comes of
  them while nothing runs in the background, and `stops_injection_iff` when nothing does:
  `stops_twice`, the host needs two injections to stop a device with nothing poisoned.
* `Restores`, `restores_iff`: the second request takes back the first one exactly if the line is
  provisioned.
* `not_restores`: a line behind all capacity can be poisoned and stays so.
-/

namespace CxlEndpoint

/-! ## The store -/

namespace Poison

variable {l : List Record} {r : Record} {p : Record → Bool}

/-- The only record with a property is found. -/
theorem find?_insertSorted_of_pos (hr : p r = true) (hl : ∀ s ∈ l, p s = false) :
    (insertSorted r l).find? p = some r := by
  obtain ⟨front, back, rfl, heq⟩ := exists_insertSorted_eq r l
  have hfront : front.find? p = none :=
    List.find?_eq_none.mpr fun s hs => Bool.eq_false_iff.mp (hl s (List.mem_append_left _ hs))
  rw [heq, List.find?_append, hfront, Option.none_or, List.find?_cons, hr]

theorem eraseP_insertSorted (hr : p r = true) (hl : ∀ s ∈ l, p s = false) :
    (insertSorted r l).eraseP p = l := by
  obtain ⟨front, back, rfl, heq⟩ := exists_insertSorted_eq r l
  rw [heq, List.eraseP_append_right, List.eraseP_cons_of_pos hr]
  exact fun s hs => Bool.eq_false_iff.mp (hl s (List.mem_append_left _ hs))

namespace Store

variable {s s' : Store} {address : Nat}

theorem containsLine_lineStart : r.ContainsLine (lineStart address) ↔ r.ContainsLine address := by
  unfold Record.ContainsLine
  rw [(lineAligned_lineStart address).lineStart_eq]

/-- An injection into an open list fails only if the list is full. -/
theorem isSome_inject?_iff (hclean : s.isPoisoned address = false) :
    (s.inject? address false).isSome = true ↔ s.live.length < listLimit := by
  rw [inject?_false, if_neg (by simp [hclean])]
  split
  next hfull => simp [Nat.not_lt.mpr hfull]
  next hroom => simp [Nat.lt_of_not_le hroom]

/-- What was injected can be taken back, as long as the end of the line is a word. -/
theorem clear_inject? (hclean : s.isPoisoned address = false)
    (hword : lineStart address + lineBytes ≤ Word.last) (h : s.inject? address false = some s')
    (now : Timestamp) : s'.clear (lineStart address) false now = (s, true) := by
  have hstop : Record.stop ⟨lineStart address, lineBytes, .injected⟩ =
      lineStart address + lineBytes := Word.addSat_eq_add hword
  have hnew : decide (Record.ContainsLine ⟨lineStart address, lineBytes, .injected⟩
      (lineStart address)) = true :=
    decide_eq_true (containsLine_lineStart.mpr ⟨Nat.le_refl _, Nat.le_of_eq hstop.symm⟩)
  have hold : ∀ r ∈ s.live, decide (r.ContainsLine (lineStart address)) = false := by
    intro r hr
    refine decide_eq_false fun hline => ?_
    have hpoisoned := isPoisoned_iff.mpr ⟨r, hr, containsLine_lineStart.mp hline⟩
    rw [hclean] at hpoisoned
    cases hpoisoned
  rw [inject?_false, if_neg (by simp [hclean])] at h
  split at h
  · cases h
  · obtain rfl := Option.some.inj h
    unfold clear
    rw [if_neg (by decide)]
    simp only [find?_insertSorted_of_pos hnew hold, eraseP_insertSorted hnew hold]
    rw [(lineAligned_lineStart address).lineStart_eq, if_neg (Nat.lt_irrefl _),
      if_pos (Nat.le_of_eq hstop)]

end Store

end Poison

/-! ## Capacities -/

namespace MemoryDevice

variable {d d' : MemoryDevice} {c : Conditions} {request : MemoryRequest} {reply : Reply}

/-- The same memory ranges and regions. -/
structure SameCapacity (d d' : MemoryDevice) : Prop where
  volatileCapacity : d'.memory.volatileCapacity = d.memory.volatileCapacity
  persistentCapacity : d'.memory.persistentCapacity = d.memory.persistentCapacity
  dynamicCapacity : d'.memory.dynamicCapacity = d.memory.dynamicCapacity
  regions : d'.ledger.regions = d.ledger.regions

theorem SameCapacity.refl (d : MemoryDevice) : SameCapacity d d := ⟨rfl, rfl, rfl, rfl⟩

theorem SameCapacity.trans {d'' : MemoryDevice} (h : SameCapacity d d') (h' : SameCapacity d' d'') :
    SameCapacity d d'' :=
  ⟨h'.volatileCapacity.trans h.volatileCapacity,
    h'.persistentCapacity.trans h.persistentCapacity,
    h'.dynamicCapacity.trans h.dynamicCapacity, h'.regions.trans h.regions⟩

theorem SameCapacity.provisionedCapacity_eq (h : SameCapacity d d') :
    d'.provisionedCapacity = d.provisionedCapacity := by
  unfold provisionedCapacity Memory.staticCapacity
  rw [h.volatileCapacity, h.persistentCapacity, h.regions]

theorem SameCapacity.capacity_eq (h : SameCapacity d d') :
    d'.memory.capacity = d.memory.capacity := by
  unfold Memory.capacity Memory.staticCapacity
  rw [h.volatileCapacity, h.persistentCapacity, h.dynamicCapacity]

theorem Serves.sameCapacity (h : d.Serves c request d' reply) : SameCapacity d d' := by
  cases h with
  | cleared address data memory hwrite =>
    rw [Memory.eq_of_writeLine? hwrite]
    exact ⟨rfl, rfl, rfl, rfl⟩
  | ledger request op ledger hop => exact ⟨rfl, rfl, rfl, Ledger.regions_of_attempt hop⟩
  | told | events | labels | injected | scanning | results | sanitizing =>
    exact ⟨rfl, rfl, rfl, rfl⟩

theorem sameCapacity_finish (d : MemoryDevice) (op : Opcode) : SameCapacity d (d.finish op) := by
  unfold finish
  split
  · exact ⟨rfl, rfl, rfl, rfl⟩
  · split <;> exact ⟨rfl, rfl, rfl, rfl⟩

/-! ## Repairing a line -/

variable {address : Nat} {data : CacheLine}

theorem clearPoison_of_unprovisioned (h : d.provisionedCapacity < lineStart address + lineBytes) :
    d.clearPoison c address data = .error .invalidPhysicalAddress := if_pos h

/-- A line of provisioned capacity that is backed can be written. -/
theorem exists_clearPoison (h : lineStart address + lineBytes ≤ d.provisionedCapacity)
    (hbacked : d.provisionedCapacity ≤ d.memory.capacity) (c : Conditions) (data : CacheLine) :
    ∃ memory, d.memory.writeLine? (lineStart address) data = some memory ∧
      d.clearPoison c address data =
        .ok { d with
          memory, poison := (d.poison.clear (lineStart address) c.scanning c.time).1 } := by
  have hfits : lineStart address + lineBytes ≤ d.memory.capacity := Nat.le_trans h hbacked
  obtain ⟨memory, hwrite⟩ : ∃ memory, d.memory.writeLine? (lineStart address) data = some memory :=
    ⟨_, if_pos hfits⟩
  refine ⟨memory, hwrite, ?_⟩
  unfold clearPoison
  simp only
  rw [if_neg (Nat.not_lt.mpr h), hwrite]

end MemoryDevice

namespace Endpoint

open MemoryDevice (SameCapacity)

variable {m m' : Mailbox} {d d' : MemoryDevice} {op : Op} {begun : Option Opcode} {e₀ : Endpoint}
  {c : MemoryConfig} {address now : Nat} {limit : Option Nat} {data : CacheLine}

theorem Steps.sameCapacity (h : Steps m d op begun m' d') : SameCapacity d d' := by
  cases h with
  | served _ _ _ _ _ _ _ hserves => exact hserves.sameCapacity
  | started _ _ _ _ _ _ _ hserves => exact hserves.sameCapacity
  | finished _ r => exact d.sameCapacity_finish r.opcode
  | provision extent ledger hprovision =>
    have hattempt : d.ledger.attempt (.provision extent) = .ok ledger := hprovision
    exact ⟨rfl, rfl, rfl, Ledger.regions_of_attempt hattempt⟩
  | idle | timeSet | polled | mediaError | event => exact ⟨rfl, rfl, rfl, rfl⟩

/-- A history leaves a memory device over the regions of its layout and the memory that it was made
with. -/
theorem sameCapacity_after {media : Memory} (hnew : memoryDevice c media = .ok e₀)
    (past : List Op) :
    ∃ regions m d, c.layout media.staticCapacity = .ok regions ∧
      Ledger.ofRegions regions = .ok { regions } ∧ e₀.after past = memory m d ∧
      SameCapacity { identity := c.identity, memory := media, ledger := { regions } } d := by
  obtain ⟨m₀, d₀, rfl, hcommands, -⟩ := exists_memory hnew
  obtain ⟨m, d, hreached, -, hsame⟩ := exists_after_of_steps (e := memory m₀ d₀)
    (I := fun _ d => SameCapacity d₀ d) ⟨m₀, d₀, rfl, hcommands, .refl d₀⟩
    (fun _ _ _ _ _ _ hsame hsteps => hsame.trans hsteps.sameCapacity) past
  obtain ⟨regions, hlayout, hledger, hmemory⟩ := exists_layout_of_memoryDevice hnew
  cases hmemory
  exact ⟨regions, m, d, hlayout, hledger, hreached, hsame⟩

/-- Provisioned capacity is what the configuration says, and memory made for the configuration backs
all of it. A history changes nothing about that. -/
theorem capacity_after (hnew : memoryDevice c c.memory = .ok e₀) (past : List Op) :
    ∃ m d, e₀.after past = memory m d ∧
      d.provisionedCapacity =
        Word.addSat (Word.addSat c.volatileCapacity c.persistentCapacity)
          (RegionConfig.decodedBytes c.regions) ∧
      d.provisionedCapacity ≤ d.memory.capacity := by
  obtain ⟨regions, m, d, hlayout, -, hreached, hsame⟩ := sameCapacity_after hnew past
  obtain ⟨-, -, rfl⟩ := MemoryConfig.layout_eq_ok_iff.mp hlayout
  have hprovisioned : d.provisionedCapacity =
      Word.addSat (Word.addSat c.volatileCapacity c.persistentCapacity)
        (RegionConfig.decodedBytes c.regions) := by
    rw [hsame.provisionedCapacity_eq, MemoryDevice.provisionedCapacity,
      RegionConfig.totalCapacity_tile]
    rfl
  refine ⟨m, d, hreached, hprovisioned, ?_⟩
  rw [hsame.capacity_eq, hprovisioned]
  refine Nat.le_min.mpr ⟨Nat.le_trans (Word.addSat_le_add _ _) ?_, Word.addSat_le_last _ _⟩
  exact Nat.add_le_add_left (Nat.le_add_right _ _) _

/-! ## Requests of the host -/

/-- The request to poison the line of an address. -/
def injection (address : Nat) : Payload := littleEndian 8 address

/-- The request to repair the line of an address with the given contents. -/
def repair (address : Nat) (data : CacheLine) : Payload := littleEndian 8 address ++ data.toList

theorem ofPayload_injection (h : address ≤ Word.last) :
    Request.ofPayload .injectPoison (injection address) =
      .ok (.direct (.memory (.injectPoison address))) := by
  have hword : (injection address).word 0 8 = .ok address :=
    Payload.word_concat List.length_nil (Nat.lt_of_le_of_lt h (by decide))
  rw [Request.ofPayload, if_neg (by decide), DirectRequest.ofPayload, hword]
  rfl

theorem ofPayload_repair (h : address ≤ Word.last) (data : CacheLine) :
    Request.ofPayload .clearPoison (repair address data) =
      .ok (.direct (.memory (.clearPoison address data))) := by
  have hword : (repair address data).word 0 8 = .ok address :=
    Payload.word_append List.length_nil (Nat.lt_of_le_of_lt h (by decide))
  have hbytes : (repair address data).bytes 8 lineBytes = .ok data :=
    Payload.bytes_concat (length_littleEndian ..)
  rw [Request.ofPayload, if_neg (by decide), DirectRequest.ofPayload, hword]
  simp only [bind, Except.bind, hbytes]
  rfl

/-- While nothing runs in the background, the host learns whether there was room for the line. -/
theorem dispatch_inject (hknows : m.Knows .injectPoison) (hidle : m.background.isRunning = false)
    (h : address ≤ Word.last) (d : MemoryDevice) (now : Nat) (limit : Option Nat) :
    (memory m d).dispatch now limit .injectPoison (injection address) =
      match d.poison.inject? address false with
      | some poison => (memory m { d with poison }, ⟨.success, []⟩)
      | none => (memory m d, .refusal .injectPoisonLimit) := by
  have haccept : (memory m d).mailbox.accept .injectPoison (injection address) =
      .ok (.standard .injectPoison) :=
    hknows.accept_of_idle hidle (length_littleEndian ..)
  rw [dispatch_of_direct haccept rfl (ofPayload_injection h)]
  simp only [serve, MemoryDevice.serve, Mailbox.conditions, Background.isRunningOp_of_idle hidle]
  cases d.poison.inject? address false <;> rfl

/-- While nothing runs in the background, an injection stops the program only at the last line. -/
theorem stops_injection_iff (hcommands : m.HasMemoryCommands) (hknows : m.Knows .injectPoison)
    (hidle : m.background.isRunning = false) (h : address ≤ Word.last) :
    (memory m d).stops .injectPoison (injection address) = true ↔
      lastLine ≤ address ∧ d.poison.live ≠ [] := by
  have haddress : ofLittleEndian (injection address) = address :=
    ofLittleEndian_of_lt (Nat.lt_of_le_of_lt h (by decide))
  have hmedia : m.background.opcode? ≠ some .sanitize := by
    simp [Background.opcode?_eq_none_iff.mpr hidle]
  have hlength : (injection address).length = 8 := length_littleEndian ..
  rw [stops_injectPoison_iff hcommands hknows hlength hmedia, haddress]

/-- With nothing poisoned, the host gets an answer at the last line the first time, and none the
second time. -/
theorem stops_twice (hcommands : m.HasMemoryCommands) (hknows : m.Knows .injectPoison)
    (hidle : m.background.isRunning = false) (hlive : d.poison.live = [])
    (hlast : lastLine ≤ address) (h : address ≤ Word.last) (now : Nat) (limit : Option Nat) :
    ∃ d',
      (memory m d).stops .injectPoison (injection address) = false ∧
      (memory m d).dispatch now limit .injectPoison (injection address) =
        (memory m d', ⟨.success, []⟩) ∧
      (memory m d').stops .injectPoison (injection address) = true := by
  have hanswer := dispatch_inject hknows hidle h d now limit
  rw [Poison.Store.inject?_of_nil hlive] at hanswer
  refine ⟨_, ?_, hanswer, ?_⟩
  · rw [← Bool.not_eq_true, stops_injection_iff hcommands hknows hidle h]
    exact fun hstops => hstops.2 hlive
  · exact (stops_injection_iff hcommands hknows hidle h).mpr ⟨hlast, List.cons_ne_nil _ _⟩

/-- Nothing but the device itself turns a repair down. -/
theorem dispatch_repair (hknows : m.Knows .clearPoison) (hidle : m.background.isRunning = false)
    (h : address ≤ Word.last) (d : MemoryDevice) (data : CacheLine) (now : Nat)
    (limit : Option Nat) :
    (memory m d).dispatch now limit .clearPoison (repair address data) =
      match d.clearPoison (m.conditions now (m.room limit)) address data with
      | .ok d => (memory m d, ⟨.success, []⟩)
      | .error s => (memory m d, .refusal s) := by
  have hlength : (repair address data).length = 72 := by
    rw [repair, List.length_append, length_littleEndian, Vector.length_toList, lineBytes]
  have haccept : (memory m d).mailbox.accept .clearPoison (repair address data) =
      .ok (.standard .clearPoison) :=
    hknows.accept_of_idle hidle hlength
  rw [dispatch_of_direct haccept rfl (ofPayload_repair h data)]
  simp only [serve, MemoryDevice.serve, mailbox]
  cases d.clearPoison (m.conditions now (m.room limit)) address data <;> rfl

/-! ## One after the other -/

/-- The poisoned lines that the host can ask for. -/
def poisoned (e : Endpoint) : List Poison.Record := e.device?.elim [] (·.poison.live)

/-- A repair of the line of `address` succeeds and leaves these records. -/
def Restores (e : Endpoint) (now : Nat) (limit : Option Nat) (address : Nat) (data : CacheLine)
    (records : List Poison.Record) : Prop :=
  (e.dispatch now limit .clearPoison (repair address data)).2.status = .success ∧
    (e.dispatch now limit .clearPoison (repair address data)).1.poisoned = records

theorem dispatch_repair_of_unprovisioned (hknows : m.Knows .clearPoison)
    (hidle : m.background.isRunning = false) (h : address ≤ Word.last)
    (hbeyond : d.provisionedCapacity < lineStart address + lineBytes) (data : CacheLine) (now : Nat)
    (limit : Option Nat) :
    (memory m d).dispatch now limit .clearPoison (repair address data) =
      (memory m d, .refusal .invalidPhysicalAddress) := by
  rw [dispatch_repair hknows hidle h, MemoryDevice.clearPoison_of_unprovisioned hbeyond]

/-- The store after an injection, and the repair of the line. -/
theorem restores_injected {poison : Poison.Store} (hknows : m.Knows .clearPoison)
    (hidle : m.background.isRunning = false) (h : address ≤ Word.last)
    (hclean : d.poison.isPoisoned address = false)
    (hinject : d.poison.inject? address false = some poison)
    (hwithin : lineStart address + lineBytes ≤ d.provisionedCapacity)
    (hbacked : d.provisionedCapacity ≤ d.memory.capacity) (data : CacheLine) (now : Nat)
    (limit : Option Nat) :
    Restores (memory m { d with poison }) now limit address data d.poison.live := by
  have hword : lineStart address + lineBytes ≤ Word.last :=
    Nat.le_trans hwithin (Word.addSat_le_last _ _)
  obtain ⟨written, -, hrepair⟩ := MemoryDevice.exists_clearPoison (d := { d with poison }) hwithin
    hbacked (m.conditions now (m.room limit)) data
  have hopen : (m.conditions now (m.room limit)).scanning = false :=
    Background.isRunningOp_of_idle hidle _
  have hundone := Poison.Store.clear_inject? hclean hword hinject
    (m.conditions now (m.room limit)).time
  unfold Restores
  rw [dispatch_repair hknows hidle h, hrepair]
  refine ⟨rfl, ?_⟩
  show (poison.clear (lineStart address) (m.conditions now (m.room limit)).scanning
    (m.conditions now (m.room limit)).time).1.live = d.poison.live
  rw [hopen, hundone]

/-- **A repair takes back what has just been poisoned exactly in provisioned capacity.** While
nothing runs in the background, a clean line of any address can be poisoned as long as the list has
room, except that the program stops at the last line if anything is poisoned. Then the host can
restore the list if the line lies in front of the end of static capacity and decoded regions
together. Otherwise the repair is turned down and changes nothing. -/
theorem restores_iff (hnew : memoryDevice c c.memory = .ok e₀) (past : List Op) :
    ∃ m d, e₀.after past = memory m d ∧
      d.provisionedCapacity =
        Word.addSat (Word.addSat c.volatileCapacity c.persistentCapacity)
          (RegionConfig.decodedBytes c.regions) ∧
      (m.background.isRunning = false → ∀ address, address ≤ Word.last →
        d.poison.isPoisoned address = false →
          ((memory m d).stops .injectPoison (injection address) = true ↔
            lastLine ≤ address ∧ d.poison.live ≠ []) ∧
          ((memory m d).stops .injectPoison (injection address) = false →
            ∀ now limit injected response,
              (memory m d).dispatch now limit .injectPoison (injection address) =
                  (injected, response) →
                (response.status = .success ↔ d.poison.live.length < Poison.listLimit) ∧
                (response.status = .success → ∀ later limit' data,
                  (Restores injected later limit' address data d.poison.live ↔
                    lineStart address + lineBytes ≤ d.provisionedCapacity) ∧
                  (d.provisionedCapacity < lineStart address + lineBytes →
                    injected.dispatch later limit' .clearPoison (repair address data) =
                      (injected, .refusal .invalidPhysicalAddress))))) := by
  obtain ⟨m, d, hreached, hprovisioned, hbacked⟩ := capacity_after hnew past
  have hinjects : m.Knows .injectPoison := knows_after hnew hreached (by decide)
  have hrepairs : m.Knows .clearPoison := knows_after hnew hreached (by decide)
  refine ⟨m, d, hreached, hprovisioned, fun hidle address haddress hclean => ⟨?_, ?_⟩⟩
  · exact stops_injection_iff (hasMemoryCommands_after hnew hreached) hinjects hidle haddress
  intro _ now limit injected response hdispatch
  have hroom := Poison.Store.isSome_inject?_iff hclean
  rw [dispatch_inject hinjects hidle haddress] at hdispatch
  cases hinject : d.poison.inject? address false with
  | none =>
    rw [hinject] at hdispatch hroom
    cases hdispatch
    exact ⟨by simpa [Response.refusal] using hroom, nofun⟩
  | some poison =>
    rw [hinject] at hdispatch hroom
    cases hdispatch
    refine ⟨by simpa using hroom, fun _ later limit' data => ?_⟩
    have hbeyond : d.provisionedCapacity < lineStart address + lineBytes →
        (memory m { d with poison }).dispatch later limit' .clearPoison (repair address data) =
          (memory m { d with poison }, .refusal .invalidPhysicalAddress) := fun hlt =>
      dispatch_repair_of_unprovisioned (d := { d with poison }) hrepairs hidle haddress hlt data
        later limit'
    refine ⟨⟨fun hrestores => ?_, fun hwithin => ?_⟩, hbeyond⟩
    · by_contra hlt
      rw [Restores, hbeyond (Nat.lt_of_not_le hlt)] at hrestores
      cases hrestores.1
    · exact restores_injected hrepairs hidle haddress hclean hinject hwithin hbacked data later
        limit'

/-- A device that has reported an error on its first line. -/
def erring : MemoryDevice :=
  { MemoryDevice.fresh with poison := .after [.mediaError 0 64 .internal 0] }

/-- A clean line of this device can be poisoned. -/
theorem exists_inject_erring (haddress : address ≤ Word.last)
    (hclean : erring.poison.isPoisoned address = false) (now : Nat) :
    ∃ injected, (memory (.ofCommands memoryCommands 2048) erring).dispatch now none .injectPoison
      (injection address) = (injected, ⟨.success, []⟩) := by
  have hroom : erring.poison.live.length < Poison.listLimit := by decide
  obtain ⟨poison, hpoison⟩ :=
    Option.isSome_iff_exists.mp ((Poison.Store.isSome_inject?_iff hclean).mpr hroom)
  have hdispatch := dispatch_inject (m := .ofCommands memoryCommands 2048) rfl rfl haddress erring
    now none
  rw [hpoison] at hdispatch
  exact ⟨_, hdispatch⟩

/-- The last line of the device, the first one behind it, and the last line of all: with an error on
the list the program stops there, and without one an injection succeeds, but cannot be taken
back. -/
theorem restores_iff_erring :
    memoryDevice {} ({} : MemoryConfig).memory = .ok newDevice ∧
      (∃ m d injected beyond,
        newDevice.after [.mediaError 0 0 64 .internal] = memory m d ∧
        m.background.isRunning = false ∧ d.poison.isPoisoned 0xfffffff = false ∧
        d.poison.isPoisoned 0x10000000 = false ∧
        (memory m d).dispatch 1 none .injectPoison (injection 0xfffffff) =
          (injected, ⟨.success, []⟩) ∧
        Restores injected 2 none 0xfffffff (Vector.replicate lineBytes 7) d.poison.live ∧
        (memory m d).dispatch 1 none .injectPoison (injection 0x10000000) =
          (beyond, ⟨.success, []⟩) ∧
        beyond.dispatch 2 none .clearPoison (repair 0x10000000 (Vector.replicate lineBytes 7)) =
          (beyond, .refusal .invalidPhysicalAddress) ∧
        (memory m d).stops .injectPoison (injection lastLine) = true) ∧
      ∃ injected, newDevice.dispatch 1 none .injectPoison (injection lastLine) =
          (injected, ⟨.success, []⟩) ∧
        injected.dispatch 2 none .clearPoison (repair lastLine (Vector.replicate lineBytes 7)) =
          (injected, .refusal .invalidPhysicalAddress) ∧
        injected.stops .injectPoison (injection lastLine) = true := by
  have hnew : memoryDevice {} ({} : MemoryConfig).memory = .ok newDevice := rfl
  refine ⟨hnew, ?_, ?_⟩
  · have hafter : newDevice.after [.mediaError 0 0 64 .internal] =
        memory (.ofCommands memoryCommands 2048) erring := rfl
    have hinside : erring.poison.isPoisoned 0xfffffff = false := by decide
    have houtside : erring.poison.isPoisoned 0x10000000 = false := by decide
    obtain ⟨m, d, hreached, -, hlaw⟩ := restores_iff hnew [.mediaError 0 0 64 .internal]
    rw [hafter] at hreached
    cases hreached
    obtain ⟨injected, hinjected⟩ := exists_inject_erring (by decide) hinside 1
    obtain ⟨beyond, hbeyond⟩ := exists_inject_erring (by decide) houtside 1
    have hlaw := hlaw rfl
    obtain ⟨hstops, hanswer⟩ := hlaw 0xfffffff (by decide) hinside
    obtain ⟨hstops', hanswer'⟩ := hlaw 0x10000000 (by decide) houtside
    have hgoes := Bool.eq_false_iff.mpr fun h => absurd (hstops.mp h).1 (by decide)
    have hgoes' := Bool.eq_false_iff.mpr fun h => absurd (hstops'.mp h).1 (by decide)
    refine ⟨_, _, injected, beyond, hafter, rfl, hinside, houtside, hinjected, ?_, hbeyond, ?_, ?_⟩
    · exact (((hanswer hgoes _ _ _ _ hinjected).2 rfl 2 none _).1).mpr (by decide)
    · exact ((hanswer' hgoes' _ _ _ _ hbeyond).2 rfl 2 none _).2 (by decide)
    · exact (hlaw lastLine (by decide) (by decide)).1.mpr ⟨Nat.le_refl _, by decide⟩
  · have hafter : newDevice.after [] = memory (.ofCommands memoryCommands 2048) .fresh := rfl
    have hcommands := hasMemoryCommands_after hnew hafter
    obtain ⟨d', hgoes, hinjected, hstops⟩ :=
      stops_twice (d := .fresh) hcommands rfl rfl rfl (Nat.le_refl lastLine) (by decide) 1 none
    obtain ⟨m, d, hreached, -, hlaw⟩ := restores_iff hnew []
    rw [hafter] at hreached
    cases hreached
    have hanswer := (hlaw rfl lastLine (by decide) (by decide)).2 hgoes _ _ _ _ hinjected
    exact ⟨_, hinjected, (hanswer.2 rfl 2 none _).2 (by decide), hstops⟩

/-- A line behind all capacity can be poisoned, but not repaired. -/
theorem not_restores :
    ¬ ∀ (c : MemoryConfig) (e₀ : Endpoint), memoryDevice c c.memory = .ok e₀ →
      ∀ past m d, e₀.after past = memory m d → m.background.isRunning = false →
        ∀ address, address ≤ Word.last → d.poison.isPoisoned address = false →
          ∀ now limit injected payload,
            (memory m d).dispatch now limit .injectPoison (injection address) =
                (injected, ⟨.success, payload⟩) →
              ∀ later limit' data, Restores injected later limit' address data d.poison.live := by
  intro h
  have haddress : 0x10000000 ≤ Word.last := by decide
  have hinject : MemoryDevice.fresh.poison.inject? 0x10000000 false =
      some { live := [⟨0x10000000, 64, .injected⟩] } := by decide
  have hinjected := dispatch_inject (m := .ofCommands memoryCommands 2048) rfl rfl haddress
    MemoryDevice.fresh 0 none
  rw [hinject] at hinjected
  obtain ⟨hstatus, -⟩ := h {} newDevice rfl [] _ _ rfl rfl 0x10000000 haddress (by decide) 0 none
    _ _ hinjected 0 none (Vector.replicate lineBytes 0)
  have hknows : (Mailbox.ofCommands memoryCommands 2048).Knows .clearPoison := rfl
  rw [dispatch_repair_of_unprovisioned hknows rfl haddress (by decide)] at hstatus
  cases hstatus

end Endpoint

end CxlEndpoint
