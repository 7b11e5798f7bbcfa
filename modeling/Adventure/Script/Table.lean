import Std.Data.TreeMap
import Adventure.Instruction.Set
import Adventure.Script.Reference

namespace Adventure

open Bytes

inductive Operand where
  | byte (value : UInt8)
  /-- The value of a variable, where a byte could stand. -/
  | var (number : UInt8)
  /-- A plain word of one of the kinds that are stored so. -/
  | word (kind : OperandKind) (value : UInt16)
  | text (ref : TextRef)
  | item (ref : ItemRef)
  | jump (target : UInt16)
  | list (values : List UInt16)
  deriving Repr, DecidableEq

/-- A command. `offset` is where it starts in its record. -/
structure Command where
  offset : Nat
  opcode : UInt8
  operands : List Operand
  deriving Repr, DecidableEq

/-- The words that select a line of table 0. -/
structure LineHeader where
  verb : UInt16
  noun1 : UInt16
  noun2 : UInt16
  deriving Repr, DecidableEq

structure Line where
  header : Option LineHeader
  commands : List Command
  deriving Repr, DecidableEq

structure Table where
  number : UInt16
  lines : List Line
  deriving Repr, DecidableEq

namespace Script

/-- What cannot be stored. -/
inductive Error where
  | unencodableItem (item : UInt32)
  deriving Repr, DecidableEq

def Error.message : Error → String
  | unencodableItem item => s!"item {item} cannot be referenced directly"

/-- The mark before a table or a line. -/
def continueMark : UInt16 := 0

/-- The mark behind the last table or line. -/
def endMark : UInt16 := 1

/-- The word behind the values of a list. -/
def listEnd : UInt16 := 0xffff

/-- The byte before the number of a variable. -/
def varMark : UInt8 := 0xff

end Script

open Script

namespace TextRef

def toBytes : TextRef → List UInt8
  | none => word16 0
  | special => word16 3
  | id number => word16 1 ++ word32 number

end TextRef

namespace ItemRef

def toBytes : ItemRef → Except Error (List UInt8)
  | special code => .ok (word16 code)
  | id item =>
    match stored? item with
    | some word => .ok (word16 0 ++ word)
    | none => .error (.unencodableItem item)

end ItemRef

namespace Operand

def toBytes : Operand → Except Error (List UInt8)
  | byte value => .ok [value]
  | var number => .ok [varMark, number]
  | word _ value => .ok (word16 value)
  | text ref => .ok ref.toBytes
  | item ref => ref.toBytes
  | jump target => .ok (word16 target)
  | list values => .ok (values.flatMap word16 ++ word16 listEnd)

/-- The number of bytes that an operand takes. -/
def size : Operand → Nat
  | byte _ => 1
  | var _ => 2
  | word _ _ => 2
  | text (.id _) => 6
  | text _ => 2
  | item (.id _) => 6
  | item _ => 2
  | jump _ => 2
  | list values => 2 * (values.length + 1)

end Operand

namespace Command

def toBytes (command : Command) : Except Error (List UInt8) :=
  (command.operands.mapM Operand.toBytes).map fun operands => command.opcode :: operands.flatten

def size (command : Command) : Nat :=
  command.operands.foldr (fun operand size => operand.size + size) 1

end Command

namespace LineHeader

def toBytes (header : LineHeader) : List UInt8 :=
  word16 header.verb ++ word16 header.noun1 ++ word16 header.noun2

/-- The number of bytes before the commands of a line of a table, besides its mark. -/
def size (table : UInt16) : Nat := if table = 0 then 6 else 0

end LineHeader

namespace Line

def toBytes (line : Line) : Except Error (List UInt8) :=
  (line.commands.mapM Command.toBytes).map fun commands =>
    word16 continueMark ++ (line.header.map LineHeader.toBytes).getD [] ++ commands.flatten ++
      [InstructionSet.endOfLine]

end Line

namespace Table

def toBytes (table : Table) : Except Error (List UInt8) :=
  (table.lines.mapM Line.toBytes).map fun lines =>
    word16 continueMark ++ word16 table.number ++ lines.flatten ++ word16 endMark

def commands (table : Table) : List Command := table.lines.flatMap Line.commands

end Table

/-- The tables of a record, and the position of every command that starts in it with the number of
    that command, counted from 0. -/
structure Script where
  tables : List Table
  starts : Std.TreeMap Nat Nat

namespace Script

def ofTables (tables : List Table) : Script where
  tables := tables
  starts := (tables.flatMap Table.commands).zipIdx.foldl
    (fun starts (command, ordinal) => starts.insert command.offset ordinal) ∅

def commands (script : Script) : List Command := script.tables.flatMap Table.commands

/-- The number of positions at which a command starts. -/
def count (script : Script) : Nat := script.starts.size

/-- The bytes of tables. No tables at all take no bytes. -/
def tablesBytes (tables : List Table) : Except Error (List UInt8) :=
  if tables.isEmpty then .ok []
  else (tables.mapM Table.toBytes).map fun tables => tables.flatten ++ word16 endMark

end Script

end Adventure
