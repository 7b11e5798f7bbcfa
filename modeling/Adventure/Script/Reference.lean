import Adventure.Bytes.Cursor

namespace Adventure

open Bytes

inductive TextRef where
  | none
  /-- The string that the game has chosen before. -/
  | special
  | id (id : UInt32)
  deriving Repr, DecidableEq

inductive ItemRef where
  /-- An item that the game finds while it runs. -/
  | special (code : UInt16)
  | id (id : UInt32)
  deriving Repr, DecidableEq

namespace ItemRef

/-- The codes and names of the special items. -/
def specialItems : List (UInt16 × String) :=
  [(1, "$1"), (3, "$2"), (5, "$ME"), (7, "$AC"), (9, "$RM")]

def specialName? (code : UInt16) : Option String :=
  (specialItems.find? (·.1 = code)).map (·.2)

def specialCode? (name : String) : Option UInt16 :=
  (specialItems.find? (·.2 = name)).map (·.1)

/-- The stored word of item 0. -/
def noItem : UInt32 := 0xffffffff

/-- The stored word of an item. The player has none. -/
def stored? (item : UInt32) : Option (List UInt8) :=
  if item = 0 then some (word32 noItem)
  else if item = 1 then none
  else some (word32 (item - 2))

/-- The item of a stored word. -/
def ofStored (word : UInt32) : UInt32 := if word = noItem then 0 else word + 2

end ItemRef

/-- The next word as an item number. -/
def Cursor.item (c : Cursor) : Except Fault (UInt32 × Cursor) :=
  c.word32.map fun (word, c) => (ItemRef.ofStored word, c)

end Adventure
