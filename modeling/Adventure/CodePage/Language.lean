namespace Adventure

inductive Language where
  | raw
  | english
  | hebrew
  | polish
  | russian
  deriving Repr, DecidableEq

namespace Language

/-- The short name that is printed and stored. -/
def tag : Language → String
  | raw => "raw"
  | english => "en"
  | hebrew => "he"
  | polish => "pl"
  | russian => "ru"

/-- A name that no language has. -/
inductive Error where
  | unknown (name : String)
  deriving Repr, DecidableEq

def Error.message : Error → String
  | unknown name => s!"unknown language '{name}'"

/-- The language of a tag exactly as it is stored, where `identity` is another name for `raw`. -/
def ofTag? (tag : String) : Option Language :=
  match tag with
  | "raw" | "identity" => some raw
  | "en" => some english
  | "he" => some hebrew
  | "pl" => some polish
  | "ru" => some russian
  | _ => none

/-- The language that a user names, in small or capital ASCII letters. -/
def ofName (name : String) : Except Error Language :=
  match ofTag? (String.ofList (name.toList.map Char.toLower)) with
  | some language => .ok language
  | none => .error (.unknown name)

end Language

end Adventure
