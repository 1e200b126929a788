import CxlEndpoint.Command.Table
import Mathlib.Data.List.Perm.Subperm

/-!
# Command tables under additions

* `CommandTable.Ordered`: the opcodes of a table ascend strictly. `Ordered.merge` says that they do
  whatever commands have been added, so the commands are found by their opcodes
  (`Ordered.find?_eq_some_iff`) and there are not many of them (`Ordered.length_le`).
* `CommandTable.find?_merge`: of several commands with one opcode the latest is found.
-/

namespace CxlEndpoint.CommandTable

variable {t : CommandTable} {c x : Command} {op : Opcode} {commands : List Command}

/-! ## What is in a table -/

theorem mem_of_mem_insert (h : x ∈ t.insert c) : x = c ∨ x ∈ t := by
  induction t with
  | nil => exact Or.inl (List.mem_singleton.mp h)
  | cons d rest ih =>
    unfold insert at h
    split at h
    · exact List.mem_cons.mp h
    · split at h
      · exact (List.mem_cons.mp h).imp_right (List.mem_cons_of_mem _)
      · rcases List.mem_cons.mp h with rfl | h
        · exact Or.inr List.mem_cons_self
        · exact (ih h).imp_right (List.mem_cons_of_mem _)

theorem mem_of_mem_merge (h : x ∈ t.merge commands) : x ∈ t ∨ x ∈ commands := by
  induction commands generalizing t with
  | nil => exact Or.inl h
  | cons c rest ih =>
    rcases ih h with hinsert | hrest
    · rcases mem_of_mem_insert hinsert with rfl | ht
      · exact Or.inr List.mem_cons_self
      · exact Or.inl ht
    · exact Or.inr (List.mem_cons_of_mem _ hrest)

theorem of_find? (h : t.find? op = some c) : c ∈ t ∧ c.opcode = op :=
  ⟨List.mem_of_find?_eq_some h, by simpa using List.find?_some h⟩

/-- Of the commands with one opcode, the table has the one that was added last. -/
theorem find?_merge (t : CommandTable) (commands : List Command) (op : Opcode) :
    (t.merge commands).find? op = (find? commands.reverse op).or (t.find? op) := by
  induction commands generalizing t with
  | nil => rfl
  | cons c rest ih =>
    have hlatest : find? (c :: rest).reverse op = (find? rest.reverse op).or (find? [c] op) := by
      rw [List.reverse_cons, find?, List.find?_append]
      rfl
    have hinsert : (t.insert c).find? op = (find? [c] op).or (t.find? op) := by
      rw [find?_insert, find?_cons]
      split <;> rfl
    calc (t.merge (c :: rest)).find? op
        = (find? rest.reverse op).or ((t.insert c).find? op) := ih (t.insert c)
      _ = (find? (c :: rest).reverse op).or (t.find? op) := by
          rw [hlatest, hinsert, Option.or_assoc]

/-! ## The order of the opcodes -/

/-- The opcodes ascend strictly. -/
def Ordered (t : CommandTable) : Prop := t.Pairwise fun c d => c.opcode.code < d.opcode.code

namespace Ordered

theorem insert (h : t.Ordered) (c : Command) : (t.insert c).Ordered := by
  induction t with
  | nil => exact List.pairwise_singleton _ _
  | cons d rest ih =>
    obtain ⟨hd, hrest⟩ := List.pairwise_cons.mp h
    unfold CommandTable.insert
    split
    next hlt =>
      refine List.pairwise_cons.mpr ⟨fun x hx => ?_, h⟩
      rcases List.mem_cons.mp hx with rfl | hx
      · exact hlt
      · exact UInt16.lt_trans hlt (hd x hx)
    next hnlt =>
      split
      next heq => exact List.pairwise_cons.mpr ⟨fun x hx => heq ▸ hd x hx, hrest⟩
      next hne =>
        refine List.pairwise_cons.mpr ⟨fun x hx => ?_, ih hrest⟩
        rcases mem_of_mem_insert hx with rfl | hx
        · have hcode : d.opcode.code ≠ x.opcode.code := fun heq =>
            hne (congrArg Opcode.mk heq).symm
          exact UInt16.lt_of_le_of_ne (UInt16.not_lt.mp hnlt) hcode
        · exact hd x hx

theorem merge (h : t.Ordered) (commands : List Command) : (t.merge commands).Ordered := by
  induction commands generalizing t with
  | nil => exact h
  | cons c rest ih => exact ih (h.insert c)

theorem find?_eq_some_iff (h : t.Ordered) : t.find? op = some c ↔ c ∈ t ∧ c.opcode = op := by
  refine ⟨of_find?, ?_⟩
  rintro ⟨hmem, rfl⟩
  induction t with
  | nil => cases hmem
  | cons d rest ih =>
    obtain ⟨hd, hrest⟩ := List.pairwise_cons.mp h
    rw [find?_cons]
    rcases List.mem_cons.mp hmem with rfl | hmem
    · exact if_pos rfl
    · have hne : d.opcode ≠ c.opcode := fun heq =>
        UInt16.ne_of_lt (hd c hmem) (congrArg Opcode.code heq)
      rw [if_neg hne]
      exact ih hrest hmem

/-- There are no more commands than opcodes. -/
theorem length_le (h : t.Ordered) : t.length ≤ 65536 := by
  have hdistinct : (t.map fun c => c.opcode.code.toNat).Nodup :=
    List.pairwise_map.mpr (h.imp fun hlt => Nat.ne_of_lt (UInt16.lt_iff_toNat_lt.mp hlt))
  have hrange : (t.map fun c => c.opcode.code.toNat) ⊆ List.range 65536 := by
    intro n hn
    obtain ⟨c, -, rfl⟩ := List.mem_map.mp hn
    exact List.mem_range.mpr c.opcode.code.toNat_lt
  have hle := (List.subperm_of_subset hdistinct hrange).length_le
  rwa [List.length_map, List.length_range] at hle

end Ordered

end CxlEndpoint.CommandTable
