import Adventure.Script.DecodeError
import Adventure.Script.Table

namespace Adventure

open Bytes

namespace Script

/-- An error, and the position that reading had come to. -/
structure Stop where
  error : DecodeError
  position : Nat
  deriving Repr, DecidableEq

/-- A part of the command at `offset`. -/
def part {α : Type} (offset : Nat) (c : Cursor) (read : Cursor → Except Fault (α × Cursor)) :
    Except Stop (α × Cursor) :=
  (read c).mapError fun _ => ⟨.truncatedOperand offset, c.position⟩

/-- The next value of a list, or none at its end mark. -/
def readListValue (offset : Nat) (c : Cursor) : Except Stop (Option UInt16 × Cursor) := do
  let (value, c) ← part offset c Cursor.word16
  return (if value = listEnd then none else some value, c)

/-- An operand of the command at `offset`. -/
def readOperand (offset : Nat) (kind : OperandKind) (c : Cursor) :
    Except Stop (Operand × Cursor) :=
  match kind with
  | .byte => do
    let (value, c) ← part offset c Cursor.byte
    if value = varMark then
      let (number, c) ← part offset c Cursor.byte
      return (.var number, c)
    return (.byte value, c)
  | .item => do
    let (selector, c) ← part offset c Cursor.word16
    if selector = 0 then
      let (item, c) ← part offset c Cursor.item
      return (.item (.id item), c)
    match ItemRef.specialName? selector with
    | some _ => return (.item (.special selector), c)
    | none => throw ⟨.malformedOperand offset (.itemSelector selector), c.position⟩
  | .text => do
    let (kind, c) ← part offset c Cursor.word16
    if kind = 0 then return (.text .none, c)
    if kind = 1 then
      let (id, c) ← part offset c Cursor.word32
      return (.text (.id id), c)
    if kind = 3 then return (.text .special, c)
    throw ⟨.malformedOperand offset (.textKind kind), c.position⟩
  | .jump => do
    let (target, c) ← part offset c Cursor.word16
    return (.jump target, c)
  | .list => do
    let (values, c) ← c.collect (readListValue offset)
    return (.list values, c)
  | kind => do
    let (value, c) ← part offset c Cursor.word16
    return (.word kind value, c)

/-- The operands of a shape, after those in `gathered`, which are last first. -/
def readOperands (offset : Nat) (gathered : List Operand) :
    List OperandKind → Cursor → Except Stop (List Operand × Cursor)
  | [], c => .ok (gathered.reverse, c)
  | kind :: shape, c =>
    match readOperand offset kind c with
    | .error stop => .error stop
    | .ok (operand, c) => readOperands offset (operand :: gathered) shape c

/-- The next command, or none at the end of the line. -/
def readCommand (set : InstructionSet) (c : Cursor) : Except Stop (Option Command × Cursor) := do
  let offset := c.position
  let (opcode, c) ← c.byte.mapError fun _ => ⟨.unexpectedEnd offset, offset⟩
  if opcode = InstructionSet.endOfLine then return (none, c)
  let shape ← (set.shape opcode).mapError fun _ => ⟨.unknownOpcode opcode offset, c.position⟩
  let (operands, c) ← readOperands offset [] shape c
  return (some ⟨offset, opcode, operands⟩, c)

/-- The commands of a line from a position on: those that can be read, why no more of them can if
    the line has no end, and where reading stopped. -/
structure LineReading where
  commands : List Command
  error : Option DecodeError
  position : Nat
  deriving Repr, DecidableEq

/-- Reads commands as far as they go. A command takes at least a byte, so the bytes left bound
    their number; `gathered` holds the earlier ones, last first. -/
def readLineWithin (set : InstructionSet) :
    List UInt8 → Cursor → List Command → LineReading
  | bound, c, gathered =>
    match readCommand set c with
    | .error stop => ⟨gathered.reverse, some stop.error, stop.position⟩
    | .ok (none, c) => ⟨gathered.reverse, none, c.position⟩
    | .ok (some command, c) =>
      match bound with
      | [] => ⟨(command :: gathered).reverse, none, c.position⟩
      | _ :: bound => readLineWithin set bound c (command :: gathered)

/-- The commands of the rest of a line. -/
def readLineRest (set : InstructionSet) (c : Cursor) : LineReading := readLineWithin set c.rest c []

/-- A word of the structure that starts at `offset`. -/
def structureWord (offset : Nat) (c : Cursor) : Except DecodeError (UInt16 × Cursor) :=
  c.word16.mapError fun _ => .unexpectedEnd offset

/-- A mark: true before one more table or line, false behind the last. -/
def readMark (c : Cursor) : Except DecodeError (Bool × Cursor) := do
  let (mark, next) ← structureWord c.position c
  if mark = continueMark then return (true, next)
  if mark = endMark then return (false, next)
  throw (.unexpectedMarker c.position mark)

/-- The header of a line, which only table 0 has. -/
def readHeader (table : UInt16) (c : Cursor) :
    Except DecodeError (Option LineHeader × Cursor) := do
  if table ≠ 0 then return (none, c)
  let offset := c.position
  let (verb, c) ← structureWord offset c
  let (noun1, c) ← structureWord offset c
  let (noun2, c) ← structureWord offset c
  return (some ⟨verb, noun1, noun2⟩, c)

/-- The next line of a table, or none behind the last. -/
def readLine (set : InstructionSet) (table : UInt16) (c : Cursor) :
    Except DecodeError (Option Line × Cursor) := do
  let (more, c) ← readMark c
  if !more then return (none, c)
  let (header, c) ← readHeader table c
  let (commands, c) ← (c.collect (readCommand set)).mapError (·.error)
  return (some ⟨header, commands⟩, c)

/-- The next table, or none behind the last. -/
def readTable (set : InstructionSet) (c : Cursor) :
    Except DecodeError (Option Table × Cursor) := do
  let (more, c) ← readMark c
  if !more then return (none, c)
  let (number, c) ← structureWord c.position c
  let (lines, c) ← c.collect (readLine set number)
  return (some ⟨number, lines⟩, c)

/-- The tables from here on. The end of the data holds no tables. -/
def readTables (set : InstructionSet) (c : Cursor) : Except DecodeError (List Table × Cursor) :=
  if c.atEnd then .ok ([], c) else c.collect (readTable set)

/-- The script at the start of the data, and the number of bytes that it takes. -/
def ofBlock (set : InstructionSet) (data : List UInt8) : Except DecodeError (Script × Nat) :=
  (readTables set (Cursor.ofBytes data)).map fun (tables, c) => (ofTables tables, c.position)

/-- The script that the data hold and nothing else. -/
def ofRecord (set : InstructionSet) (data : List UInt8) : Except DecodeError Script := do
  let (script, used) ← ofBlock set data
  let length := data.length
  if used ≠ length then throw (.trailingData used (length - used))
  return script

/-- Checks the numbers of the tables against the ranges of the record's file. -/
def checkRanges (script : Script) (ranges : List TableRange) : Except DecodeError Unit :=
  match TableRange.rejected? ranges (script.tables.map (·.number)) with
  | some number => .error (.tableOutOfRange number ranges)
  | none => .ok ()

end Script

end Adventure
