import Adventure.Script.Symbols
import Adventure.Strings.Escape
import Adventure.Text.Lines
import Adventure.World.Item

namespace Adventure

open Text

namespace Item

def comment (text : Option String) : List Char :=
  match text with
  | some text => " // ".toList ++ Strings.escape text.toList
  | none => []

/-- A field, its value, and what a comment says of it. -/
def field (key : String) (value : List Char) (text : Option String) : List Char :=
  ['\t'] ++ key.toList ++ [' '] ++ value ++ comment text

def wordField (key : String) (value : UInt16) : List Char := field key (decimal value.toNat) none

/-- A field that refers to an item. -/
def itemField (symbols : Symbols) (key : String) (item : UInt32) : List Char :=
  field key (decimal item.toNat) (symbols.itemName? item.toNat)

/-- A field that refers to a string. -/
def textField (symbols : Symbols) (key : String) (text : UInt32) : List Char :=
  field key (decimal text.toNat) (symbols.text? text.toNat)

/-- The key of a door, counted from 1. -/
def exitKey (number : Nat) : String := s!"EXIT{number}"

def exitField (symbols : Symbols) (number : Nat) : Option Exit → List Char
  | some exit =>
    field (exitKey number) (decimal exit.target.toNat ++ [' '] ++ exit.state.name.toList)
      (symbols.itemName? exit.target.toNat)
  | none => field (exitKey number) ['-'] none

def wordList (values : List UInt16) : List Char :=
  [' '].intercalate (values.map fun value => decimal value.toNat)

/-- The fields of a property. -/
def propertyFields (symbols : Symbols) : Property → List (List Char)
  | .room table exits =>
    wordField "TABLE" table ::
      exits.zipIdx.map fun (exit, index) => exitField symbols (index + 1) exit
  | .object name description slots flags =>
    [textField symbols "NAME" name] ++
      (description.map (textField symbols "DESCRIPTION")).toList ++
      (slots.map fun (bit, value) => wordField (ObjectField.name bit) value) ++
      if flags = 0 then [] else [wordField "FLAGS" flags]
  | .superRoom id x y z exits =>
    [field "SUPER_ROOM" (wordList [id, x, y, z]) none, field "EXITS" (wordList exits) none]
  | .container volume flags => [wordField "VOLUME" volume, wordField "FLAGS" flags]
  | .chain item => [itemField symbols "ITEM" item]
  | .inherit item => [itemField symbols "ITEM" item]
  | .userFlag flags => flags.zipIdx.map fun (flag, index) => wordField s!"{index + 1}" flag

def propertyBlock (symbols : Symbols) (property : Property) : List (List Char) :=
  ("==> ".toList ++ property.kind.name.toList) :: propertyFields symbols property

/-- The lines of an item. -/
def block (symbols : Symbols) (number : Nat) (item : Item) : List (List Char) :=
  [ "== ITEM ".toList ++ decimal number ++ " ==".toList,
    wordField "ADJECTIVE" item.adjective,
    wordField "NOUN" item.noun,
    wordField "STATE" item.state,
    itemField symbols "NEXT" item.next,
    itemField symbols "CHILD" item.child,
    itemField symbols "PARENT" item.parent,
    wordField "ACTOR_TABLE" item.actorTable,
    wordField "CLASS" item.className,
    field "PROPERTIES" (decimal item.propertiesInit.toNat) none ] ++
    item.properties.flatMap (propertyBlock symbols)

/-- The objects document of items. -/
def renderAll (items : List Item) (symbols : Symbols) : String :=
  String.ofList (unlines ((numbered items).flatMap fun (number, item) =>
    block symbols (wordNumber number) item))

end Item

end Adventure
