import Adventure.Proofs.Script.Reading
import Adventure.Proofs.Script.Reference

namespace Adventure

open Bytes Script

theorem Operand.Spelled.toBytes {kind : OperandKind} {operand : Operand} {bytes : List UInt8}
    (h : operand.Spelled kind bytes) :
    ∃ written, operand.toBytes = .ok written ∧ operand.Spelled kind written := by
  cases h with
  | byte h => exact ⟨_, rfl, .byte h⟩
  | var number => exact ⟨_, rfl, .var number⟩
  | special h => exact ⟨_, rfl, .special h⟩
  | @item item word h =>
    obtain ⟨stored, hstored, hitem⟩ := ItemRef.stored?_ofStored word
    refine ⟨word16 0 ++ word32 stored, ?_, .item (hitem.trans h)⟩
    rw [h] at hstored
    simp [Operand.toBytes, ItemRef.toBytes, hstored]
  | noText => exact ⟨_, rfl, .noText⟩
  | chosenText => exact ⟨_, rfl, .chosenText⟩
  | text id => exact ⟨_, rfl, .text id⟩
  | jump target => exact ⟨_, rfl, .jump target⟩
  | list h => exact ⟨_, rfl, .list h⟩
  | word h value => exact ⟨_, rfl, .word h value⟩

theorem Operand.AllSpelled.toBytes {shape : List OperandKind} {operands : List Operand}
    {bytes : List UInt8} (h : Operand.AllSpelled shape operands bytes) :
    ∃ written, operands.mapM Operand.toBytes = .ok written ∧
      Operand.AllSpelled shape operands written.flatten := by
  induction h with
  | nil => exact ⟨[], rfl, .nil⟩
  | cons head _ ih =>
    obtain ⟨first, hfirst, hhead⟩ := head.toBytes
    obtain ⟨rest, hrest, htail⟩ := ih
    refine ⟨first :: rest, ?_, ?_⟩
    · rw [Except.mapM_eq_ok_iff] at hrest ⊢
      exact .cons hfirst hrest
    · rw [List.flatten_cons]
      exact .cons hhead htail

/-- Items that spell themselves again, in as many bytes, do so one after the other. -/
theorem Cursor.Listed.rewrite {ε α : Type} {write : α → Except ε (List UInt8)}
    {spelled : Nat → α → List UInt8 → Prop} {position : Nat} {items : List α} {bytes : List UInt8}
    (h : Cursor.Listed spelled position items bytes)
    (hwrite : ∀ position a bytes, spelled position a bytes → ∃ written, write a = .ok written ∧
      spelled position a written ∧ written.length = bytes.length) :
    ∃ written, items.mapM write = .ok written ∧ Cursor.Listed spelled position items written.flatten ∧
      written.flatten.length = bytes.length := by
  induction h with
  | nil position => exact ⟨[], rfl, .nil _, rfl⟩
  | cons head _ ih =>
    obtain ⟨first, hfirst, hhead, hlength⟩ := hwrite _ _ _ head
    obtain ⟨rest, hrest, htail, hlength'⟩ := ih
    refine ⟨first :: rest, ?_, ?_, ?_⟩
    · rw [Except.mapM_eq_ok_iff] at hrest ⊢
      exact .cons hfirst hrest
    · rw [List.flatten_cons]
      exact .cons hhead (hlength ▸ htail)
    · simp only [List.flatten_cons, List.length_append, hlength, hlength']

variable {set : InstructionSet} {position : Nat} {bytes : List UInt8}

theorem Command.Spelled.toBytes {command : Command} (h : command.Spelled set position bytes) :
    ∃ written, command.toBytes = .ok written ∧ command.Spelled set position written ∧
      written.length = bytes.length := by
  obtain ⟨op, rest, hop, hrest, -⟩ := h.operands
  obtain ⟨parts, hparts, hspelled⟩ := hrest.toBytes
  have hwritten : command.Spelled set position (command.opcode :: parts.flatten) :=
    ⟨h.offset, h.notEnd, op, _, hop, hspelled, rfl⟩
  exact ⟨_, by rw [Command.toBytes, hparts]; rfl, hwritten, hwritten.length_eq.trans h.length_eq.symm⟩

theorem LineHeader.Spelled.toBytes {table : UInt16} {header : Option LineHeader}
    (h : LineHeader.Spelled table header bytes) :
    (header.map LineHeader.toBytes).getD [] = bytes := by
  cases h <;> rfl

theorem Line.Spelled.toBytes {table : UInt16} {line : Line} (h : line.Spelled set table position bytes) :
    ∃ written, line.toBytes = .ok written ∧ line.Spelled set table position written ∧
      written.length = bytes.length := by
  obtain ⟨header, commands, hheader, hcommands, rfl⟩ := h.parts
  obtain ⟨parts, hparts, hlisted, hlength⟩ := hcommands.rewrite fun _ _ _ => Command.Spelled.toBytes
  refine ⟨_, by rw [Line.toBytes, hparts]; rfl, ⟨header, parts.flatten, hheader, hlisted, ?_⟩, ?_⟩
  · rw [hheader.toBytes]
  · simp [hheader.toBytes, hlength]

theorem Table.Spelled.toBytes {table : Table} (h : table.Spelled set position bytes) :
    ∃ written, table.toBytes = .ok written ∧ table.Spelled set position written ∧
      written.length = bytes.length := by
  obtain ⟨lines, hlines, rfl⟩ := h.parts
  obtain ⟨parts, hparts, hlisted, hlength⟩ := hlines.rewrite fun _ _ _ => Line.Spelled.toBytes
  exact ⟨_, by rw [Table.toBytes, hparts]; rfl, ⟨parts.flatten, hlisted, rfl⟩, by simp [hlength]⟩

/-- Tables that can be read can be written, and the bytes spell them again. -/
theorem Script.Spelled.tablesBytes {tables : List Table} (h : Script.Spelled set tables bytes) :
    ∃ written, Script.tablesBytes tables = .ok written ∧ Script.Spelled set tables written := by
  cases h with
  | empty => exact ⟨[], rfl, .empty⟩
  | @tables _ bytes h =>
    cases tables with
    | nil => exact ⟨[], rfl, .empty⟩
    | cons table tables =>
      obtain ⟨parts, hparts, hlisted, -⟩ := h.rewrite fun _ _ _ => Table.Spelled.toBytes
      exact ⟨_, by rw [Script.tablesBytes, hparts]; rfl, .tables hlisted⟩

namespace Script

variable {data : List UInt8} {script : Script} {used : Nat}

theorem ofBlock_eq_ok (h : ofBlock set data = .ok (script, used)) :
    script = ofTables script.tables ∧ ∃ spelling, Script.Spelled set script.tables spelling := by
  obtain ⟨⟨tables, c⟩, htables, heq⟩ := Except.map_eq_ok_iff.mp h
  cases heq
  refine ⟨rfl, ?_⟩
  rcases readTables_eq_ok_iff.mp htables with ⟨-, rfl, -⟩ | ⟨bytes, hlisted, -⟩
  · exact ⟨[], .empty⟩
  · exact ⟨_, .tables hlisted⟩

/-- The tables at the start of a buffer can be replaced by what is written for them. Only where the
    mark behind no tables is followed by something is that read otherwise. -/
theorem ofBlock_tablesBytes (h : ofBlock set data = .ok (script, used))
    (hbare : ∀ tail, data = word16 endMark ++ tail → tail = []) {written : List UInt8}
    (hwritten : tablesBytes script.tables = .ok written) :
    ∃ used', ofBlock set (written ++ data.drop used) = .ok (script, used') := by
  obtain ⟨⟨tables, c⟩, htables, heq⟩ := Except.map_eq_ok_iff.mp h
  cases heq
  have hempty : ofBlock set [] = .ok (ofTables [], 0) := rfl
  rcases readTables_eq_ok_iff.mp htables with ⟨rfl, rfl, rfl⟩ | ⟨bytes, hlisted, hspan⟩
  · cases hwritten
    exact ⟨0, hempty⟩
  · have hdata : data = bytes ++ word16 endMark ++ c.rest := hspan.rest
    have hposition : c.position = (bytes ++ word16 endMark).length := by
      rw [hspan.position]
      exact Nat.zero_add _
    have hdrop : data.drop c.position = c.rest := by rw [hposition, hdata, List.drop_left]
    cases tables with
    | nil =>
      cases hlisted
      cases hwritten
      rw [hdrop, hbare c.rest (by rw [hdata]; rfl)]
      exact ⟨0, hempty⟩
    | cons table tables =>
      obtain ⟨parts, hparts, hagain, -⟩ := hlisted.rewrite fun _ _ _ => Table.Spelled.toBytes
      have heq : written = parts.flatten ++ word16 endMark := by
        have hbytes : tablesBytes (table :: tables) = .ok (parts.flatten ++ word16 endMark) := by
          rw [tablesBytes, hparts]
          rfl
        exact Except.ok.inj (hwritten.symm.trans hbytes)
      rw [hdrop, heq, ofBlock_of_listed hagain]
      exact ⟨_, rfl⟩

end Script

end Adventure
