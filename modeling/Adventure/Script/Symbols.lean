import Std.Data.TreeMap

namespace Adventure

/-- The strings of a game, the number of the string that names each item, and the number behind
    the last item that is stored or made while the game runs. -/
structure Symbols where
  texts : Std.TreeMap Nat String
  itemNames : Std.TreeMap Nat Nat
  itemCount : Nat

namespace Symbols

def empty : Symbols := ⟨∅, ∅, 0⟩

def text? (symbols : Symbols) (id : Nat) : Option String := symbols.texts[id]?

def itemName? (symbols : Symbols) (item : Nat) : Option String :=
  symbols.itemNames[item]?.bind symbols.text?

/-- The lowest number that a string has among those that are allowed. -/
def findText? (symbols : Symbols) (text : String) (allowed : Nat → Bool) : Option Nat :=
  (symbols.texts.toList.find? fun (id, found) => found = text && allowed id).map (·.1)

/-- The items of a name, in order. -/
def findItems (symbols : Symbols) (name : String) : List Nat :=
  (symbols.itemNames.toList.filter fun (_, id) => symbols.text? id = some name).map (·.1)

end Symbols

end Adventure
