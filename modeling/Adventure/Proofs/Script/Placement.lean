import Adventure.Proofs.Instruction.Set
import Adventure.Proofs.Script.Starts
import Adventure.Proofs.Script.Writing

namespace Adventure

open Bytes Script

/-- An operand that can be stored for a kind and read again. -/
inductive Operand.Fits : OperandKind → Operand → Prop
  | byte {value : UInt8} (h : value ≠ varMark) : Fits .byte (.byte value)
  | var (number : UInt8) : Fits .byte (.var number)
  | special {code : UInt16} (h : code ∈ ItemRef.specialItems.map Prod.fst) :
      Fits .item (.item (.special code))
  | item {item : UInt32} (h : item ≠ 1) : Fits .item (.item (.id item))
  | text (ref : TextRef) : Fits .text (.text ref)
  | jump (target : UInt16) : Fits .jump (.jump target)
  | list {values : List UInt16} (h : listEnd ∉ values) : Fits .list (.list values)
  | word {kind : OperandKind} (h : kind.isWord) (value : UInt16) : Fits kind (.word kind value)

/-- The opcode is one of the set, and the operands fit its shape kind by kind. -/
def Command.Fits (set : InstructionSet) (command : Command) : Prop :=
  ∃ op, set.get? command.opcode = some op ∧ List.Forall₂ Operand.Fits op.shape command.operands

/-- The commands fit, and the line has a header exactly in table 0. -/
structure Line.Fits (set : InstructionSet) (table : UInt16) (line : Line) : Prop where
  header : line.header.isSome ↔ table = 0
  commands : ∀ command ∈ line.commands, command.Fits set

def Table.Fits (set : InstructionSet) (table : Table) : Prop :=
  ∀ line ∈ table.lines, line.Fits set table.number

section placing

variable {α : Type}

/-- Items placed one after the other, where each of them takes as many bytes as its size. -/
def Script.placeEach (size : α → Nat) (place : Nat → α → α) (position : Nat) : List α → List α
  | [] => []
  | a :: rest => place position a :: placeEach size place (position + size a) rest

theorem Script.map_placeEach {β : Type} {size : α → Nat} {place : Nat → α → α} {view : α → β}
    (h : ∀ position a, view (place position a) = view a) (position : Nat) (items : List α) :
    (placeEach size place position items).map view = items.map view := by
  induction items generalizing position with
  | nil => rfl
  | cons a items ih => rw [placeEach, List.map_cons, List.map_cons, h, ih]

/-- Items that can be written at any place can be written one after the other. -/
theorem Cursor.Listed.of_placeEach {ε : Type} {write : α → Except ε (List UInt8)} {size : α → Nat}
    {place : Nat → α → α} {spelled : Nat → α → List UInt8 → Prop} {items : List α}
    (h : ∀ a ∈ items, ∀ position, ∃ bytes, write a = .ok bytes ∧ bytes.length = size a ∧
      spelled position (place position a) bytes) (position : Nat) :
    ∃ written, items.mapM write = .ok written ∧
      (∀ n, written.flatten.length + n = items.foldr (fun a rest => size a + rest) n) ∧
      Cursor.Listed spelled position (placeEach size place position items) written.flatten := by
  induction items generalizing position with
  | nil => exact ⟨[], rfl, fun n => Nat.zero_add n, .nil _⟩
  | cons a items ih =>
    obtain ⟨hitem, hitems⟩ := List.forall_mem_cons.mp h
    obtain ⟨bytes, hbytes, hlength, hspelled⟩ := hitem position
    obtain ⟨written, hwritten, hsizes, hlisted⟩ := ih hitems (position + size a)
    refine ⟨bytes :: written, ?_, fun n => ?_, ?_⟩
    · rw [Except.mapM_eq_ok_iff] at hwritten ⊢
      exact .cons hbytes hwritten
    · rw [List.flatten_cons, List.length_append, List.foldr_cons, ← hsizes n, hlength, Nat.add_assoc]
    · rw [List.flatten_cons, placeEach]
      exact .cons hspelled (hlength ▸ hlisted)

end placing

namespace Command

def placed (position : Nat) (command : Command) : Command := { command with offset := position }

/-- A command starts with what is written for it. -/
def WrittenIn (position : Nat) (bytes : List UInt8) (command : Command) : Prop :=
  command.HeldIn (fun command part => command.toBytes = .ok part) position bytes

end Command

/-- The bytes spell an item at a position, and hold its commands where they start. -/
structure Script.Stands {α : Type} (spelled : Nat → α → List UInt8 → Prop) (commands : α → List Command)
    (position : Nat) (a : α) (bytes : List UInt8) : Prop where
  spelled : spelled position a bytes
  written : ∀ command ∈ commands a, command.WrittenIn position bytes

theorem Cursor.Listed.stands {α : Type} {spelled : Nat → α → List UInt8 → Prop}
    {commands : α → List Command} {position : Nat} {items : List α} {bytes : List UInt8}
    (h : Cursor.Listed (Stands spelled commands) position items bytes) :
    Cursor.Listed spelled position items bytes ∧
      ∀ command ∈ items.flatMap commands, command.WrittenIn position bytes :=
  ⟨h.imp fun _ _ _ hstands => hstands.spelled, h.heldIn fun _ _ _ hstands => hstands.written⟩

variable {set : InstructionSet}

theorem Operand.Fits.toBytes {kind : OperandKind} {operand : Operand} (h : Operand.Fits kind operand) :
    ∃ bytes, operand.toBytes = .ok bytes ∧ operand.Spelled kind bytes := by
  cases h with
  | byte h => exact ⟨_, rfl, .byte h⟩
  | var number => exact ⟨_, rfl, .var number⟩
  | @special code h =>
    obtain ⟨special, hspecial, hcode⟩ := List.mem_map.mp h
    have hsome : (ItemRef.specialName? code).isSome := by
      rw [ItemRef.specialName?, Option.isSome_map, List.find?_isSome]
      exact ⟨special, hspecial, by simpa using hcode⟩
    obtain ⟨name, hname⟩ := Option.isSome_iff_exists.mp hsome
    exact ⟨_, rfl, .special hname⟩
  | @item item h =>
    obtain ⟨bytes, hbytes⟩ := Option.ne_none_iff_exists'.mp (mt ItemRef.stored?_eq_none_iff.mp h)
    obtain ⟨word, hword, rfl⟩ := ItemRef.stored?_eq_some hbytes
    refine ⟨word16 0 ++ word32 word, ?_, .item hword⟩
    simp [Operand.toBytes, ItemRef.toBytes, hbytes]
  | text ref =>
    cases ref with
    | none => exact ⟨_, rfl, .noText⟩
    | special => exact ⟨_, rfl, .chosenText⟩
    | id id => exact ⟨_, rfl, .text id⟩
  | jump target => exact ⟨_, rfl, .jump target⟩
  | list h => exact ⟨_, rfl, .list h⟩
  | word h value => exact ⟨_, rfl, .word h value⟩

theorem Operand.AllSpelled.of_fits {shape : List OperandKind} {operands : List Operand}
    (h : List.Forall₂ Operand.Fits shape operands) :
    ∃ parts, operands.mapM Operand.toBytes = .ok parts ∧
      Operand.AllSpelled shape operands parts.flatten := by
  induction h with
  | nil => exact ⟨[], rfl, .nil⟩
  | cons head _ ih =>
    obtain ⟨bytes, hbytes, hspelled⟩ := head.toBytes
    obtain ⟨parts, hparts, hrest⟩ := ih
    refine ⟨bytes :: parts, ?_, ?_⟩
    · rw [Except.mapM_eq_ok_iff] at hparts ⊢
      exact .cons hbytes hparts
    · rw [List.flatten_cons]
      exact .cons hspelled hrest

theorem Command.Fits.placed {command : Command} (h : command.Fits set)
    (hend : set.get? InstructionSet.endOfLine = none) (position : Nat) :
    ∃ bytes, command.toBytes = .ok bytes ∧ bytes.length = command.size ∧
      Stands (Command.Spelled set) (fun command => [command]) position (command.placed position) bytes := by
  obtain ⟨op, hop, hoperands⟩ := h
  obtain ⟨parts, hparts, hspelled⟩ := Operand.AllSpelled.of_fits hoperands
  have hbytes : command.toBytes = .ok (command.opcode :: parts.flatten) := by
    rw [Command.toBytes, hparts]
    rfl
  have hplaced : (command.placed position).Spelled set position (command.opcode :: parts.flatten) := by
    refine ⟨rfl, ?_, op, _, hop, hspelled, rfl⟩
    intro hopcode
    rw [show command.opcode = InstructionSet.endOfLine from hopcode, hend] at hop
    cases hop
  have hwritten : (command.placed position).WrittenIn position (command.opcode :: parts.flatten) :=
    ⟨Nat.le_refl _, _, [], hbytes, by simp [Command.placed]⟩
  exact ⟨_, hbytes, hplaced.length_eq, hplaced, List.forall_mem_singleton.mpr hwritten⟩

namespace Line

/-- The number of bytes that a line of a table takes. -/
def size (table : UInt16) (line : Line) : Nat :=
  line.commands.foldr (fun command size => command.size + size) (3 + LineHeader.size table)

def placed (table : UInt16) (position : Nat) (line : Line) : Line :=
  { line with commands :=
      placeEach Command.size Command.placed (position + 2 + LineHeader.size table) line.commands }

theorem Fits.placed {table : UInt16} {line : Line} (h : line.Fits set table)
    (hend : set.get? InstructionSet.endOfLine = none) (position : Nat) :
    ∃ bytes, line.toBytes = .ok bytes ∧ bytes.length = line.size table ∧
      Stands (Line.Spelled set table) Line.commands position (line.placed table position) bytes := by
  obtain ⟨parts, hparts, hsize, hlisted⟩ := Cursor.Listed.of_placeEach
    (fun command hcommand => (h.commands command hcommand).placed hend)
    (position + 2 + LineHeader.size table)
  obtain ⟨header, hheader⟩ : ∃ bytes, LineHeader.Spelled table line.header bytes := by
    have hpresent := h.header
    generalize line.header = header at hpresent
    cases header with
    | none => exact ⟨[], .absent fun hzero => absurd (hpresent.mpr hzero) (by decide)⟩
    | some header =>
      obtain rfl := hpresent.mp rfl
      exact ⟨_, .present header⟩
  have hspelled : (line.placed table position).Spelled set table position
      (word16 continueMark ++ header ++ parts.flatten ++ [InstructionSet.endOfLine]) :=
    ⟨header, parts.flatten, hheader, hlisted.stands.1, rfl⟩
  refine ⟨_, ?_, ?_, hspelled, ?_⟩
  · rw [Line.toBytes, hparts, ← hheader.toBytes]
    rfl
  · rw [Line.size, ← hsize]
    simp only [List.length_append, length_word16, hheader.length_eq, List.length_singleton]
    omega
  · rw [Nat.add_assoc, ← hheader.length_front] at hlisted
    have hwritten := hlisted.stands.2
    rw [List.flatMap_singleton'] at hwritten
    intro command hcommand
    rw [Line.placed, Nat.add_assoc, ← hheader.length_front] at hcommand
    exact (hwritten command hcommand).append_left.append_right _

end Line

namespace Table

/-- The number of bytes that a table takes. -/
def size (table : Table) : Nat :=
  table.lines.foldr (fun line size => line.size table.number + size) 6

def placed (position : Nat) (table : Table) : Table :=
  { table with lines :=
      placeEach (Line.size table.number) (Line.placed table.number) (position + 4) table.lines }

theorem Fits.placed {table : Table} (h : table.Fits set)
    (hend : set.get? InstructionSet.endOfLine = none) (position : Nat) :
    ∃ bytes, table.toBytes = .ok bytes ∧ bytes.length = table.size ∧
      Stands (Table.Spelled set) Table.commands position (table.placed position) bytes := by
  obtain ⟨parts, hparts, hsize, hlisted⟩ := Cursor.Listed.of_placeEach
    (fun line hline => (h line hline).placed hend) (position + 4)
  refine ⟨_, by rw [Table.toBytes, hparts]; rfl, ?_, ⟨parts.flatten, hlisted.stands.1, rfl⟩, ?_⟩
  · rw [Table.size, ← hsize]
    simp only [List.length_append, length_word16]
    omega
  · intro command hcommand
    have hwritten : command.WrittenIn (position + (word16 continueMark ++ word16 table.number).length)
        parts.flatten := hlisted.stands.2 command hcommand
    exact hwritten.append_left.append_right _

end Table

/-- The table without the positions of its commands. -/
def Table.bare (table : Table) : Table :=
  { table with lines := table.lines.map fun line =>
      { line with commands := line.commands.map (Command.placed 0) } }

namespace Script

/-- The tables with every command at the position where it is written. -/
def placed (tables : List Table) : List Table := placeEach Table.size Table.placed 0 tables

private theorem map_bare_placed (tables : List Table) :
    (placed tables).map Table.bare = tables.map Table.bare := by
  have hcommand : ∀ position command,
      Command.placed 0 (Command.placed position command) = Command.placed 0 command := fun _ _ => rfl
  refine map_placeEach (fun position table => ?_) 0 tables
  rw [Table.bare, Table.bare, Table.placed, Table.mk.injEq]
  refine ⟨rfl, map_placeEach (fun position line => ?_) _ table.lines⟩
  rw [Line.placed, Line.mk.injEq]
  exact ⟨rfl, map_placeEach hcommand _ line.commands⟩

/-- The end of a line is no opcode of a set that layers make. -/
theorem get?_endOfLine (name : String) (layers : List (List OpcodeDefinition)) :
    (InstructionSet.ofLayers name layers).get? InstructionSet.endOfLine = none := by
  refine List.find?_eq_none.mpr fun op hop hcode => ?_
  have hmem := (InstructionSet.map_code_ofLayers name layers).subset (List.mem_map_of_mem hop)
  exact InstructionSet.endOfLine_not_mem_codes (of_decide_eq_true hcode ▸ hmem)

/-- Tables that fit an instruction set can be written. Whatever follows them, they are read as the same
    tables and take the bytes that have been written, and every command says where its bytes are. -/
theorem written_tables_read (name : String) (layers : List (List OpcodeDefinition))
    (tables : List Table) (hnonempty : tables ≠ [])
    (hfits : ∀ table ∈ tables, table.Fits (InstructionSet.ofLayers name layers)) :
    ∃ bytes, tablesBytes tables = .ok bytes ∧
      (∀ tail, ofBlock (InstructionSet.ofLayers name layers) (bytes ++ tail) =
        .ok (ofTables (placed tables), bytes.length)) ∧
      (placed tables).map Table.bare = tables.map Table.bare ∧
      ∀ command ∈ (placed tables).flatMap Table.commands, ∃ written rest,
        command.toBytes = .ok written ∧ bytes.drop command.offset = written ++ rest := by
  have hend := get?_endOfLine name layers
  obtain ⟨parts, hparts, -, hlisted⟩ := Cursor.Listed.of_placeEach
    (fun table htable => (hfits table htable).placed hend) 0
  obtain ⟨hlisted, hwritten⟩ := hlisted.stands
  refine ⟨parts.flatten ++ word16 endMark, ?_, ofBlock_of_listed hlisted, map_bare_placed tables, ?_⟩
  · rw [tablesBytes, if_neg (by simpa using hnonempty), hparts]
    rfl
  · intro command hcommand
    exact ((hwritten command hcommand).append_right _).drop

/-- Two tables of which the first has headers, with operands of several kinds. The offsets that they
    come with do not matter. -/
theorem written_tables_read_two :
    ∃ bytes, tablesBytes [⟨0, [⟨some ⟨1, 2, 3⟩, [⟨7, 0, [.byte 5, .item (.id 0)]⟩]⟩]⟩,
        ⟨9, [⟨none, [⟨0, 1, [.jump 12, .list [4, 6]]⟩, ⟨0, 0, [.var 5, .item (.special 3)]⟩]⟩]⟩] =
        .ok bytes ∧
      ∀ tail, ofBlock (.ofLayers "small" [[⟨0, some "SEE", [.byte, .item]⟩,
          ⟨1, some "GOTO", [.jump, .list]⟩]]) (bytes ++ tail) = .ok (ofTables
        [⟨0, [⟨some ⟨1, 2, 3⟩, [⟨12, 0, [.byte 5, .item (.id 0)]⟩]⟩]⟩,
          ⟨9, [⟨none, [⟨29, 1, [.jump 12, .list [4, 6]]⟩, ⟨38, 0, [.var 5, .item (.special 3)]⟩]⟩]⟩],
        bytes.length) := by
  obtain ⟨bytes, hbytes, hread, -, -⟩ := written_tables_read "small"
    [[⟨0, some "SEE", [.byte, .item]⟩, ⟨1, some "GOTO", [.jump, .list]⟩]]
    [⟨0, [⟨some ⟨1, 2, 3⟩, [⟨7, 0, [.byte 5, .item (.id 0)]⟩]⟩]⟩,
      ⟨9, [⟨none, [⟨0, 1, [.jump 12, .list [4, 6]]⟩, ⟨0, 0, [.var 5, .item (.special 3)]⟩]⟩]⟩]
    (List.cons_ne_nil _ _) (by
      simp only [List.forall_mem_cons, List.not_mem_nil, false_implies, implies_true, and_true]
      refine ⟨List.forall_mem_singleton.mpr ⟨by decide, List.forall_mem_singleton.mpr ?_⟩,
        List.forall_mem_singleton.mpr ⟨by decide, List.forall_mem_cons.mpr
          ⟨?_, List.forall_mem_singleton.mpr ?_⟩⟩⟩
      · exact ⟨_, rfl, .cons (.byte (by decide)) (.cons (.item (by decide)) .nil)⟩
      · exact ⟨_, rfl, .cons (.jump _) (.cons (.list (by decide)) .nil)⟩
      · exact ⟨_, rfl, .cons (.var _) (.cons (.special (by decide)) .nil)⟩)
  exact ⟨bytes, hbytes, hread⟩

end Script

end Adventure
