namespace Adventure.Text.Toml

/-- What a table was made by, which decides how it may grow. -/
inductive Origin where
  /-- A pair of braces, which hold all of it. -/
  | braces
  /-- The path of an entry, through which alone more entries come in. -/
  | path
  /-- The header of a table inside it. Its own header may follow. -/
  | innerHeader
  /-- A header of its own. -/
  | header
  deriving Repr, DecidableEq

/-- A value: a text, an array without elements, or a table. -/
inductive Value where
  | text (text : String)
  | noElements
  | table (origin : Origin) (entries : List (String × Value))

/-- The keys of a table and their values. No key occurs twice. -/
abbrev Table := List (String × Value)

namespace Value

/-- An array or a table without anything in it. -/
def isEmpty : Value → Bool
  | text _ => false
  | noElements => true
  | table _ entries => entries.isEmpty

end Value

namespace Table

/-- The table with the value of a key replaced, or with the key put behind all others. -/
def put (key : String) (value : Value) : Table → Table
  | [] => [(key, value)]
  | (other, old) :: rest =>
    if other = key then (key, value) :: rest else (other, old) :: put key value rest

/-- Puts a value at the end of a path. The tables on the way are made by such paths. -/
def assign (value : Value) : List String → Table → Option Table
  | [], _ => none
  | [key], table => if (table.lookup key).isSome then none else some (table.put key value)
  | key :: path, table =>
    match table.lookup key with
    | none => (assign value path []).map fun inner => table.put key (.table .path inner)
    | some (.table .path inner) =>
      (assign value path inner).map fun inner => table.put key (.table .path inner)
    | some _ => none

/-- Opens the table at the end of a path. It has not been opened before, and no table on the way is
    one between braces. -/
def declare : List String → Table → Option Table
  | [], _ => none
  | [key], table =>
    match table.lookup key with
    | none => some (table.put key (.table .header []))
    | some (.table .innerHeader inner) => some (table.put key (.table .header inner))
    | some _ => none
  | key :: path, table =>
    match table.lookup key with
    | none => (declare path []).map fun inner => table.put key (.table .innerHeader inner)
    | some (.table .braces _) => none
    | some (.table origin inner) =>
      (declare path inner).map fun inner => table.put key (.table origin inner)
    | some _ => none

/-- Changes the table at the end of a path. -/
def within (change : Table → Option Table) : List String → Table → Option Table
  | [], table => change table
  | key :: path, table =>
    match table.lookup key with
    | some (.table origin inner) =>
      (within change path inner).map fun inner => table.put key (.table origin inner)
    | _ => none

end Table

end Adventure.Text.Toml
