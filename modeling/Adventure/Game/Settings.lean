import Adventure.Game.Variant
import Adventure.Text.Toml

namespace Adventure

structure Settings where
  game : Option String
  language : Option Language
  strings : String
  scripts : String
  objects : String
  /-- The soundbank of the game, if it is to be split. -/
  voices : Option String
  deriving Repr, DecidableEq

namespace Settings

inductive Error where
  /-- The settings cannot be read as text. -/
  | unreadable
  | malformed
  | unknownGame (id : String)
  | noGame
  deriving Repr, DecidableEq

def Error.message : Error → String
  | unreadable => "cannot read the settings"
  | malformed => "malformed settings"
  | unknownGame id => s!"unknown game '{id}'"
  | noGame =>
    let ids := ", ".intercalate Variant.ids
    s!"no game given, use one of: {ids}"

/-- The file of the settings in a game folder. -/
def fileName : String := "magos.toml"

/-- What holds where the settings say nothing. -/
def default : Settings := ⟨none, none, "strings.txt", "scripts.txt", "objects.txt", none⟩

/-- The language that a value names: its tag, or a table in which the tag stands alone and holds
    nothing. -/
def language? : Text.Toml.Value → Option Language
  | .text tag => Language.ofTag? tag
  | .table _ [(tag, inside)] => if inside.isEmpty then Language.ofTag? tag else none
  | _ => none

/-- The settings with the value of a key. No other keys have a meaning, and all of them but the
    language are texts. -/
def set? (settings : Settings) (key : String) (value : Text.Toml.Value) : Option Settings :=
  match key, value with
  | "language", value => (language? value).map fun language =>
      { settings with language := some language }
  | "game", .text value => some { settings with game := some value }
  | "strings", .text value => some { settings with strings := value }
  | "scripts", .text value => some { settings with scripts := value }
  | "objects", .text value => some { settings with objects := value }
  | "voices", .text value => some { settings with voices := some value }
  | _, _ => none

def parse (document : String) : Except Error Settings :=
  let settings := do
    let table ← Text.Toml.parse? document
    table.foldlM (fun (settings : Settings) (key, value) => settings.set? key value) default
  match settings with
  | some settings => .ok settings
  | none => .error .malformed

/-- The release that the settings choose. -/
def variant (settings : Settings) : Except Error Variant :=
  match settings.game with
  | none => .error .noGame
  | some id =>
    match Variant.ofId? id with
    | some variant => .ok variant
    | none => .error (.unknownGame id)

/-- The language chosen, or else the one of the release. -/
def languageFor (settings : Settings) (variant : Variant) : Language :=
  settings.language.getD variant.language

end Settings

end Adventure
