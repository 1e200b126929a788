import CxlEndpoint.Message.Component
import CxlEndpoint.Proofs.Command.Table

/-!
# The host's side of the command effects log

* `CommandTable.Ordered.mem_effectsLog_iff`: the entries of an ordered table are what its commands
  declare, each under its opcode.
* `readEffectsLog`: what the host reads of the bytes of a log. `readEffectsLog_effectsLogPayload`:
  it is the log that was written.
* `LogWindow.request`: the request for a part of a log. `LogWindow.ofPayload_request` says that it
  is read as such.
* `effectsLogSize?`: the size of the log, as the list of the supported logs names it.
* `Payload.getElem?_fit`, `Payload.fit_drop`: the bytes of a part.
-/

namespace CxlEndpoint

/-! ## Entries -/

namespace CommandTable.Ordered

variable {t : CommandTable} {entry : EffectsEntry}

theorem pairwise_effectsLog (h : t.Ordered) :
    t.effectsLog.Pairwise fun a b => a.opcode.code < b.opcode.code :=
  List.pairwise_map.mpr h

theorem mem_effectsLog_iff (h : t.Ordered) :
    entry ∈ t.effectsLog ↔ ∃ c, t.find? entry.opcode = some c ∧ c.effects = entry.effects := by
  constructor
  · intro hentry
    obtain ⟨c, hmem, rfl⟩ := List.mem_map.mp hentry
    exact ⟨c, h.find?_eq_some_iff.mpr ⟨hmem, rfl⟩, rfl⟩
  · rintro ⟨c, hfind, heffects⟩
    obtain ⟨hmem, hop⟩ := of_find? hfind
    refine List.mem_map.mpr ⟨c, hmem, ?_⟩
    rw [hop, heffects]

theorem length_effectsLog_le (h : t.Ordered) : t.effectsLog.length ≤ 65536 := by
  rw [effectsLog, List.length_map]
  exact h.length_le

end CommandTable.Ordered

namespace EffectsEntry

/-- Bytes of an entry. -/
def entryBytes : Nat := 4

/-- Reads the opcode and the effects. -/
def ofPayload? (p : Payload) : Option EffectsEntry :=
  if p.length = entryBytes then
    some ⟨⟨UInt16.ofNat (ofLittleEndian (p.take 2))⟩, ⟨UInt16.ofNat (ofLittleEndian (p.drop 2))⟩⟩
  else none

theorem length_toPayload (e : EffectsEntry) : e.toPayload.length = entryBytes := by
  simp [toPayload, entryBytes]

theorem ofPayload?_toPayload (e : EffectsEntry) : ofPayload? e.toPayload = some e := by
  have hopcode : e.opcode.code.toNat < 1 <<< (8 * 2) := e.opcode.code.toNat_lt
  have heffects : e.effects.bits.toNat < 1 <<< (8 * 2) := e.effects.bits.toNat_lt
  have hfirst : e.toPayload.take 2 = littleEndian 2 e.opcode.code.toNat :=
    List.take_left' (length_littleEndian ..)
  have hsecond : e.toPayload.drop 2 = littleEndian 2 e.effects.bits.toNat :=
    List.drop_left' (length_littleEndian ..)
  rw [ofPayload?, if_pos e.length_toPayload, hfirst, hsecond, ofLittleEndian_of_lt hopcode,
    ofLittleEndian_of_lt heffects, UInt16.ofNat_toNat, UInt16.ofNat_toNat]

end EffectsEntry

/-- Reads entries one after another. No byte may be left over. -/
def readEffectsLog (p : Payload) : Option (List EffectsEntry) :=
  if p.length % EffectsEntry.entryBytes = 0 then
    Payload.readRecords EffectsEntry.entryBytes EffectsEntry.ofPayload?
      (p.length / EffectsEntry.entryBytes) p
  else none

theorem readEffectsLog_effectsLogPayload (log : List EffectsEntry) :
    readEffectsLog (effectsLogPayload log) = some log := by
  have hlength : (effectsLogPayload log).length = EffectsEntry.entryBytes * log.length :=
    length_effectsLogPayload log
  have hpos : 0 < EffectsEntry.entryBytes := by decide
  rw [readEffectsLog, hlength, if_pos (Nat.mul_mod_right _ _), Nat.mul_div_cancel_left _ hpos]
  exact Payload.readRecords_flatMap EffectsEntry.length_toPayload fun e _ => e.ofPayload?_toPayload

/-! ## Parts of a log -/

namespace LogWindow

variable {w : LogWindow}

/-- The request for a part of a log. -/
def request (w : LogWindow) : Payload :=
  w.uuid.toList ++ (littleEndian 4 w.offset ++ littleEndian 4 w.length)

theorem length_request (w : LogWindow) : w.request.length = 24 := by simp [request]

theorem ofPayload_request (hoffset : w.offset < 1 <<< 32) (hlength : w.length < 1 <<< 32) :
    ofPayload w.request = .ok w := by
  have huuid : w.request.bytes 0 16 = .ok w.uuid := Payload.bytes_append List.length_nil
  have hfirst : w.request.word 16 4 = .ok w.offset :=
    Payload.word_append w.uuid.length_toList hoffset
  have hsecond : w.request.word 20 4 = .ok w.length := by
    rw [request, ← List.append_assoc]
    exact Payload.word_concat (by simp) hlength
  rw [ofPayload, huuid]
  simp only [bind, Except.bind, hfirst, hsecond]
  rfl

end LogWindow

namespace Payload

/-- A byte of what has been cut or filled up is the byte that was there, or zero behind the end. -/
theorem getElem?_fit {n i : Nat} (p : Payload) (h : i < n) : (p.fit n)[i]? = some (p.getD i 0) := by
  rw [fit]
  by_cases hi : i < p.length
  · have htake : i < (p.take n).length := by rw [List.length_take]; omega
    rw [List.getElem?_append_left htake, List.getElem?_take_of_lt h, List.getD_eq_getElem?_getD,
      List.getElem?_eq_getElem hi, Option.getD_some]
  · have htake : (p.take n).length = p.length := by rw [List.length_take]; omega
    rw [List.getElem?_append_right (by omega), htake, zeros,
      List.getElem?_replicate_of_lt (by omega), List.getD_eq_getElem?_getD,
      List.getElem?_eq_none (by omega), Option.getD_none]

theorem fit_drop {offset n : Nat} {p : Payload} (h : offset + n ≤ p.length) :
    fit n (p.drop offset) = (p.drop offset).take n := by
  have hnothing : n - (p.drop offset).length = 0 := by rw [List.length_drop]; omega
  rw [fit, hnothing]
  exact List.append_nil _

end Payload

/-! ## The list of logs -/

/-- The size of the effects log, if a list of logs names it and no other. -/
def effectsLogSize? (p : Payload) : Option Nat :=
  if p.length = 28 ∧ ofLittleEndian (p.take 2) = 1 ∧
      (p.drop 8).take 16 = effectsLogUuid.toList then
    some (ofLittleEndian (p.drop 24))
  else none

theorem length_supportedLogsPayload (size : Nat) : (supportedLogsPayload size).length = 28 := by
  simp [supportedLogsPayload]

theorem effectsLogSize?_supportedLogsPayload {size : Nat} (h : size < 1 <<< 32) :
    effectsLogSize? (supportedLogsPayload size) = some size := by
  have hcount : ofLittleEndian ((supportedLogsPayload size).take 2) = 1 := by
    rw [supportedLogsPayload, List.append_assoc, List.append_assoc,
      List.take_left' (length_littleEndian ..)]
    decide
  have huuid : ((supportedLogsPayload size).drop 8).take 16 = effectsLogUuid.toList := by
    rw [supportedLogsPayload, List.append_assoc]
    exact take_drop_append (by simp) effectsLogUuid.length_toList
  have hsize : (supportedLogsPayload size).drop 24 = littleEndian 4 size := by
    rw [supportedLogsPayload, List.drop_left' (by simp)]
  rw [effectsLogSize?, if_pos ⟨length_supportedLogsPayload size, hcount, huuid⟩, hsize,
    ofLittleEndian_of_lt h]

end CxlEndpoint
