import Adventure.Bytes.Cursor
import Adventure.Text.Quoted
import Adventure.Text.Utf8

namespace Adventure

open Bytes

/-- Table numbers from `low` to `high`. -/
structure TableRange where
  low : UInt16
  high : UInt16
  deriving Repr, DecidableEq

namespace TableRange

def render (range : TableRange) : List Char :=
  Text.decimal range.low.toNat ++ [':'] ++ Text.decimal range.high.toNat

/-- The ranges with blanks between them, or a tilde if there is none. -/
def renderAll (ranges : List TableRange) : List Char :=
  if ranges.isEmpty then ['~'] else [' '].intercalate (ranges.map render)

/-- The ranges from the first one on that takes `number`. The first range of the list takes only
    numbers from `low` on. -/
def place? (number low : UInt16) : List TableRange → Option (List TableRange)
  | [] => none
  | range :: rest =>
    if low ≤ number ∧ number ≤ range.high then some (range :: rest)
    else place? number ((rest.head?.map (·.low)).getD 0) rest

/-- The first number that has no place, when the first range is left with numbers from `low` on. -/
def rejectedFrom (low : UInt16) (ranges : List TableRange) : List UInt16 → Option UInt16
  | [] => none
  | number :: rest =>
    match place? number low ranges with
    | some ranges => rejectedFrom number ranges rest
    | none => some number

/-- The first of the table numbers that has no place in the ranges. No ranges at all take any
    number. -/
def rejected? (ranges : List TableRange) (numbers : List UInt16) : Option UInt16 :=
  match ranges with
  | [] => none
  | first :: _ => rejectedFrom first.low ranges numbers

/-- Table numbers that do not keep to their ranges. -/
inductive Error where
  | outOfRange (number : UInt16) (ranges : List TableRange)
  deriving Repr, DecidableEq

def Error.message : Error → String
  | outOfRange number ranges =>
    let ranges := String.ofList (renderAll ranges)
    s!"table {number} is outside the declared ranges {ranges}"

/-- Checks that all numbers have a place in the ranges. -/
def check (ranges : List TableRange) (numbers : List UInt16) : Except Error Unit :=
  match rejected? ranges numbers with
  | some number => .error (.outOfRange number ranges)
  | none => .ok ()

end TableRange

/-- A script file and the numbers of the tables in it. -/
structure TableIndexEntry where
  file : String
  ranges : List TableRange
  deriving Repr, DecidableEq

namespace TableIndex

inductive Error where
  /-- The index ends within an entry. -/
  | index (fault : Fault)
  /-- A name is not ASCII. -/
  | indexName (name : String)
  deriving Repr, DecidableEq

def Error.message : Error → String
  | index fault => s!"table index: {fault.message}"
  | indexName name => s!"table index names a non-ascii file {Text.quoted name}"

/-- The next range, or none at the zero word that ends the ranges. -/
def readRange (c : Cursor) : Except Error (Option TableRange × Cursor) := do
  let (low, c) ← c.word16.mapError .index
  if low = 0 then return (none, c)
  let (high, c) ← c.word16.mapError .index
  return (some ⟨low, high⟩, c)

/-- The next entry, or none at the empty name that ends the index. -/
def readEntry (c : Cursor) : Except Error (Option TableIndexEntry × Cursor) := do
  let (name, c) := c.terminated
  if name.isEmpty then return (none, c)
  if !Text.isAscii name then throw (.indexName (Text.ofUtf8 name))
  let (ranges, c) ← c.collect readRange
  return (some ⟨Text.ofAscii name, ranges⟩, c)

def ofBytes (data : List UInt8) : Except Error (List TableIndexEntry) :=
  ((Cursor.ofBytes data).collect readEntry).map (·.1)

def entryBytes (entry : TableIndexEntry) : List UInt8 :=
  terminated (Text.utf8 entry.file) ++
    (entry.ranges.flatMap fun range => word16 range.low ++ word16 range.high) ++ word16 0

def toBytes (index : List TableIndexEntry) : List UInt8 := index.flatMap entryBytes ++ [0]

end TableIndex

end Adventure
