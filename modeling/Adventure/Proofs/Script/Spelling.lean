import Adventure.Script.Decode
import Adventure.Proofs.Bytes.Reading

namespace Adventure

open Bytes Script

namespace OperandKind

/-- The kinds that are stored as a plain word. -/
def isWord : OperandKind → Bool
  | voice | number | var | property | noun | adjective => true
  | byte | item | text | jump | list => false

end OperandKind

/-- The bytes that spell an operand of a kind. Only item 0 has two spellings, because the stored
    number wraps around. -/
inductive Operand.Spelled : OperandKind → Operand → List UInt8 → Prop
  | byte {value : UInt8} (h : value ≠ varMark) : Spelled .byte (.byte value) [value]
  | var (number : UInt8) : Spelled .byte (.var number) [varMark, number]
  | special {code : UInt16} {name : String} (h : ItemRef.specialName? code = some name) :
      Spelled .item (.item (.special code)) (word16 code)
  | item {item word : UInt32} (h : ItemRef.ofStored word = item) :
      Spelled .item (.item (.id item)) (word16 0 ++ word32 word)
  | noText : Spelled .text (.text .none) (word16 0)
  | chosenText : Spelled .text (.text .special) (word16 3)
  | text (id : UInt32) : Spelled .text (.text (.id id)) (word16 1 ++ word32 id)
  | jump (target : UInt16) : Spelled .jump (.jump target) (word16 target)
  | list {values : List UInt16} (h : listEnd ∉ values) :
      Spelled .list (.list values) (values.flatMap word16 ++ word16 listEnd)
  | word {kind : OperandKind} (h : kind.isWord) (value : UInt16) :
      Spelled kind (.word kind value) (word16 value)

namespace Operand

theorem Spelled.length_eq {kind : OperandKind} {operand : Operand} {bytes : List UInt8}
    (h : operand.Spelled kind bytes) : bytes.length = operand.size := by
  cases h with
  | list =>
    simp [size, List.length_flatMap]
    omega
  | _ => rfl

/-- The bytes that spell the operands of a shape. -/
inductive AllSpelled : List OperandKind → List Operand → List UInt8 → Prop
  | nil : AllSpelled [] [] []
  | cons {kind : OperandKind} {shape : List OperandKind} {operand : Operand}
      {operands : List Operand} {bytes rest : List UInt8} (head : operand.Spelled kind bytes)
      (tail : AllSpelled shape operands rest) :
      AllSpelled (kind :: shape) (operand :: operands) (bytes ++ rest)

theorem AllSpelled.length_eq {shape : List OperandKind} {operands : List Operand}
    {bytes : List UInt8} (h : AllSpelled shape operands bytes) :
    bytes.length + 1 = operands.foldr (fun operand size => operand.size + size) 1 := by
  induction h with
  | nil => rfl
  | cons head _ ih =>
    rw [List.length_append, head.length_eq, List.foldr_cons, ← ih]
    omega

end Operand

/-- The bytes that spell a command of an instruction set at a position. -/
structure Command.Spelled (set : InstructionSet) (position : Nat) (command : Command)
    (bytes : List UInt8) : Prop where
  offset : command.offset = position
  notEnd : command.opcode ≠ InstructionSet.endOfLine
  operands : ∃ op rest, set.get? command.opcode = some op ∧
    Operand.AllSpelled op.shape command.operands rest ∧ bytes = command.opcode :: rest

namespace Command

variable {set : InstructionSet} {position : Nat} {command : Command} {bytes : List UInt8}

theorem Spelled.length_eq (h : command.Spelled set position bytes) :
    bytes.length = command.size := by
  obtain ⟨op, rest, -, hrest, rfl⟩ := h.operands
  exact hrest.length_eq

theorem size_pos (command : Command) : 0 < command.size := by
  have h : ∀ operands : List Operand,
      0 < operands.foldr (fun operand size => operand.size + size) 1 := by
    intro operands
    induction operands with
    | nil => decide
    | cons operand operands ih =>
      rw [List.foldr_cons]
      omega
  exact h command.operands

end Command

/-- The bytes that spell the header of a line. Only table 0 has headers. -/
inductive LineHeader.Spelled : UInt16 → Option LineHeader → List UInt8 → Prop
  | absent {table : UInt16} (h : table ≠ 0) : Spelled table none []
  | present (header : LineHeader) : Spelled 0 (some header) header.toBytes

theorem LineHeader.Spelled.length_eq {table : UInt16} {header : Option LineHeader}
    {bytes : List UInt8} (h : LineHeader.Spelled table header bytes) :
    bytes.length = LineHeader.size table := by
  cases h with
  | absent h => simp [size, h]
  | present => rfl

theorem LineHeader.Spelled.length_front {table : UInt16} {header : Option LineHeader}
    {bytes : List UInt8} (h : LineHeader.Spelled table header bytes) :
    (word16 Script.continueMark ++ bytes).length = 2 + LineHeader.size table := by
  rw [List.length_append, length_word16, h.length_eq]

/-- The bytes that spell a line of a table: a mark, the header, the commands and the end. -/
structure Line.Spelled (set : InstructionSet) (table : UInt16) (position : Nat) (line : Line)
    (bytes : List UInt8) : Prop where
  parts : ∃ header commands, LineHeader.Spelled table line.header header ∧
    Cursor.Listed (Command.Spelled set) (position + 2 + LineHeader.size table) line.commands
      commands ∧
    bytes = word16 continueMark ++ header ++ commands ++ [InstructionSet.endOfLine]

/-- The bytes that spell a table: a mark, the number, the lines and the mark behind them. -/
structure Table.Spelled (set : InstructionSet) (position : Nat) (table : Table)
    (bytes : List UInt8) : Prop where
  parts : ∃ lines, Cursor.Listed (Line.Spelled set table.number) (position + 4) table.lines lines ∧
    bytes = word16 continueMark ++ word16 table.number ++ lines ++ word16 endMark

/-- The bytes that spell the tables of a record: nothing, or the tables and the mark behind them. -/
inductive Script.Spelled (set : InstructionSet) : List Table → List UInt8 → Prop
  | empty : Spelled set [] []
  | tables {tables : List Table} {bytes : List UInt8}
      (h : Cursor.Listed (Table.Spelled set) 0 tables bytes) :
      Spelled set tables (bytes ++ word16 endMark)

namespace Script.Spelled

variable {set : InstructionSet} {tables : List Table} {bytes : List UInt8}

private theorem exists_line (h : Script.Spelled set tables bytes) {table : Table} (htable : table ∈ tables)
    {line : Line} (hline : line ∈ table.lines) :
    ∃ position bytes, line.Spelled set table.number position bytes := by
  cases h with
  | empty => cases htable
  | tables h =>
    obtain ⟨_, _, htable⟩ := h.exists_spelled table htable
    obtain ⟨lines, hlines, -⟩ := htable.parts
    exact hlines.exists_spelled line hline

/-- Exactly the lines of table 0 have headers. -/
theorem header_isSome (h : Script.Spelled set tables bytes) {table : Table} (htable : table ∈ tables)
    {line : Line} (hline : line ∈ table.lines) : line.header.isSome ↔ table.number = 0 := by
  obtain ⟨_, _, hspelled⟩ := h.exists_line htable hline
  obtain ⟨written, -, hheader, -⟩ := hspelled.parts
  generalize line.header = header, table.number = number at hheader
  cases hheader with
  | absent hnumber => simp [hnumber]
  | present => simp

/-- The set has the opcodes of the commands. -/
theorem exists_opcode (h : Script.Spelled set tables bytes) {command : Command}
    (hcommand : command ∈ tables.flatMap Table.commands) : ∃ op, set.get? command.opcode = some op := by
  obtain ⟨table, htable, hcommand⟩ := List.mem_flatMap.mp hcommand
  obtain ⟨line, hline, hcommand⟩ := List.mem_flatMap.mp hcommand
  obtain ⟨_, _, hspelled⟩ := h.exists_line htable hline
  obtain ⟨_, _, -, hcommands, -⟩ := hspelled.parts
  obtain ⟨_, _, hspelled⟩ := hcommands.exists_spelled command hcommand
  obtain ⟨op, _, hop, -, -⟩ := hspelled.operands
  exact ⟨op, hop⟩

end Script.Spelled

end Adventure
