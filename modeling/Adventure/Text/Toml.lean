import Adventure.Text.Toml.Strings
import Adventure.Text.Toml.Table

namespace Adventure.Text.Toml

/-- What follows the line that a text starts in, if only blanks and a comment are left of it. -/
def lineEnd? (text : List Char) : Option (List Char) :=
  let rest := text.dropWhile isSpace
  let rest := if rest.head? = some '#' then rest.dropWhile isPlain else rest
  match rest with
  | [] => some []
  | '\n' :: rest => some rest
  | '\r' :: '\n' :: rest => some rest
  | _ => none

/-- Keys with dots between them, blanks around each, and what follows. There are at most `bound`. -/
def path? : Nat → List Char → Option (List String × List Char)
  | 0, _ => none
  | bound + 1, text => do
    let (key, rest) ← key? (text.dropWhile isSpace)
    match rest.dropWhile isSpace with
    | '.' :: rest =>
      let (path, rest) ← path? bound rest
      return (String.ofList key :: path, rest)
    | rest => return ([String.ofList key], rest)

/-- A path, an equals sign and what `value` reads behind it, and what follows. -/
def entry? (value : List Char → Option (Value × List Char)) (bound : Nat) (text : List Char) :
    Option ((List String × Value) × List Char) := do
  match ← path? bound text with
  | (path, '=' :: rest) =>
    let (found, rest) ← value (rest.dropWhile isSpace)
    return ((path, found), rest)
  | _ => none

/-- The entries of a table between braces, which start in `text` and come behind those of `table`,
    and what follows the closing brace. There are at most `bound`. -/
def members (value : List Char → Option (Value × List Char)) (table : Table) :
    Nat → List Char → Option (Table × List Char)
  | 0, _ => none
  | bound + 1, text => do
    let ((path, found), rest) ← entry? value bound text
    let table ← table.assign found path
    match rest.dropWhile isSpace with
    | ',' :: rest => members value table bound rest
    | '\x7d' :: rest => return (table, rest)
    | _ => none

/-- What follows the bracket that closes an array of blanks, line ends and comments. -/
def arrayEnd? : Nat → List Char → Option (List Char)
  | 0, _ => none
  | bound + 1, text =>
    match text.dropWhile isSpace with
    | [] => none
    | ']' :: rest => some rest
    | text => (lineEnd? text).bind (arrayEnd? bound)

/-- How deep values may stand in each other. -/
def maxDepth : Nat := 80

/-- The value at the start of a text, and what follows it. Tables stand in each other at most
    `depth` deep, and each has at most `bound` entries. -/
def value? (bound : Nat) : Nat → List Char → Option (Value × List Char)
  | 0, _ => none
  | depth + 1, text =>
    match text with
    | '[' :: rest => (arrayEnd? bound rest).map fun rest => (.noElements, rest)
    | '\x7b' :: rest =>
      match rest.dropWhile isSpace with
      | '\x7d' :: rest => some (.table .braces [], rest)
      | rest => (members (value? bound depth) [] bound rest).map fun (table, rest) =>
        (.table .braces table, rest)
    | _ => (string? text).map fun (text, rest) => (.text (String.ofList text), rest)

/-- A line that is not blank. -/
inductive Statement where
  | header (path : List String)
  | entry (path : List String) (value : Value)

/-- The header or the entry that a text starts with, and the lines that follow. -/
def statement? (bound : Nat) (text : List Char) : Option (Statement × List Char) := do
  match text.dropWhile isSpace with
  | '[' :: rest =>
    match ← path? bound rest with
    | (path, ']' :: rest) => return (.header path, ← lineEnd? rest)
    | _ => none
  | text =>
    let ((path, value), rest) ← entry? (value? bound maxDepth) bound text
    return (.entry path value, ← lineEnd? rest)

/-- The statements of at most `bound` lines, after those of `gathered`, last first. -/
def statementsFrom (gathered : List Statement) : Nat → List Char → Option (List Statement)
  | _, [] => some gathered.reverse
  | 0, _ => none
  | bound + 1, text =>
    match lineEnd? text with
    | some rest => statementsFrom gathered bound rest
    | none =>
      match statement? (bound + 1) text with
      | some (found, rest) => statementsFrom (found :: gathered) bound rest
      | none => none

/-- The statements of a document, which may start with a byte order mark. -/
def statements? (document : String) : Option (List Statement) :=
  let text := document.toList
  let text := if text.head? = some '\ufeff' then text.tail else text
  statementsFrom [] text.length text

/-- A document as far as it has been read: its table, and the path of the table whose entries come
    next. -/
structure Reading where
  table : Table
  header : List String

/-- Takes in one more statement. -/
def Reading.add (reading : Reading) : Statement → Option Reading
  | .header path => (reading.table.declare path).map fun table => ⟨table, path⟩
  | .entry path value =>
    (reading.table.within (Table.assign value path) reading.header).map fun table =>
      { reading with table := table }

/-- The table that a document describes. -/
def parse? (document : String) : Option Table := do
  let statements ← statements? document
  let reading ← statements.foldlM Reading.add ⟨[], []⟩
  return reading.table

end Adventure.Text.Toml
