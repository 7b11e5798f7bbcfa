import Adventure.Text.Quoted

namespace Adventure.World

/-- What is wrong with a line or with the block that begins there. -/
inductive LineDefect where
  | duplicateField (key : String)
  | missingField (key : String)
  | unknownField (key : String)
  | badValue (value key : String)
  | badExit (value : String)
  | superRoomForm
  | unannouncedProperties
  | propertyOutsideItem
  | unknownProperty (name : String)
  | itemForm
  | fieldOutsideItem
  deriving Repr, DecidableEq

def LineDefect.message : LineDefect → String
  | duplicateField key => s!"duplicate field {key}"
  | missingField key => s!"missing field {key}"
  | unknownField key => s!"unknown field {key}"
  | badValue value key => s!"bad value {Text.quoted value} for {key}"
  | badExit value => s!"bad exit {Text.quoted value}"
  | superRoomForm => "SUPER_ROOM takes an id and three dimensions"
  | unannouncedProperties => "properties listed while PROPERTIES is 0"
  | propertyOutsideItem => "property outside of an item"
  | unknownProperty name => s!"unknown property type {Text.quoted name}"
  | itemForm => "expected == ITEM <id> =="
  | fieldOutsideItem => "field outside of an item"

inductive Error where
  | malformedLine (line : Nat) (defect : LineDefect)
  | nonContiguous (line expected found : Nat)
  | unencodableItem (item : UInt32)
  /-- A block of rooms has not as many doors as its dimensions ask for. -/
  | exitCount (x y z : UInt16) (wanted found : Nat)
  deriving Repr, DecidableEq

def Error.message : Error → String
  | malformedLine line defect => s!"line {line}: {defect.message}"
  | nonContiguous line expected found => s!"line {line}: expected item {expected}, found {found}"
  | unencodableItem item => s!"item {item} cannot be referenced directly"
  | exitCount x y z wanted found =>
    s!"super room of {x}x{y}x{z} needs {wanted} exits, found {found}"

end Adventure.World
