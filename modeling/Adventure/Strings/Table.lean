import Adventure.CodePage.Page
import Adventure.Strings.Error

namespace Adventure

open Bytes

/-- The strings of one file, as bytes without NUL. The first has the number `base`. -/
structure StringTable where
  base : Nat
  entries : List (List UInt8)
  deriving Repr, DecidableEq

namespace StringTable

/-- Splits the bytes of a file, which is empty or ends with a NUL. -/
def ofBytes (base : Nat) (data : List UInt8) : Except Strings.Error StringTable :=
  match data.getLast? with
  | none => .ok ⟨base, []⟩
  | some last =>
    if last = 0 then .ok ⟨base, data.dropLast.splitOn 0⟩
    else .error (.missingTerminator data.length)

def toBytes (table : StringTable) : List UInt8 := table.entries.flatMap terminated

/-- The number behind the last one in use. -/
def stop (table : StringTable) : Nat := table.base + table.entries.length

/-- The numbers in use, in order. -/
def ids (table : StringTable) : List Nat := List.range' table.base table.entries.length

def get? (table : StringTable) (id : Nat) : Option (List UInt8) :=
  if id < table.base then none else table.entries[id - table.base]?

/-- The strings as texts in a language. -/
def decode (table : StringTable) (language : Language) : List String :=
  table.entries.map language.decode

/-- The table of texts in a language, or the first character without a glyph. -/
def encode (base : Nat) (texts : List String) (language : Language) :
    Except CodePage.Error StringTable :=
  (texts.mapM language.encode).map (⟨base, ·⟩)

end StringTable

end Adventure
