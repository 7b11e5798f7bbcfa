import Adventure.Game.Settings

namespace Adventure

/-- The values of the options that are given, by their long names. -/
structure Options where
  values : List (String × String)
  deriving Repr, DecidableEq

namespace Options

inductive Error where
  | unknown (name : String)
  | noValue (name : String)
  | repeated
  | noFolder
  | language (error : Language.Error)
  deriving Repr, DecidableEq

def Error.message : Error → String
  | unknown name => s!"unknown option '{name}'"
  | noValue name => s!"option '{name}' needs a value"
  | repeated => "an option is given more than once"
  | noFolder => "no game folder given, use --game-dir"
  | language error => error.message

/-- The long name of an option, which may have a short one too. -/
def name? : String → Option String
  | "-d" | "--game-dir" => some "--game-dir"
  | "-o" | "--output" => some "--output"
  | "-g" | "--game" => some "--game"
  | "-l" | "--lang" => some "--lang"
  | "-s" | "--strings" => some "--strings"
  | "--scripts" => some "--scripts"
  | "--objects" => some "--objects"
  | "-v" | "--voices" => some "--voices"
  | "--voice-dir" => some "--voice-dir"
  | _ => none

/-- The options of a command line, where each is a name and a value. -/
def gather : List String → Except Error (List (String × String))
  | [] => .ok []
  | [given] => .error (if (name? given).isSome then .noValue given else .unknown given)
  | given :: value :: rest =>
    match name? given with
    | some name => (gather rest).map ((name, value) :: ·)
    | none => .error (.unknown given)

def parse (words : List String) : Except Error Options := do
  let values ← gather words
  if (values.map (·.1)).Nodup then return ⟨values⟩ else throw .repeated

def value? (options : Options) (name : String) : Option String := options.values.lookup name

def folder (options : Options) : Except Error String :=
  match options.value? "--game-dir" with
  | some folder => .ok folder
  | none => .error .noFolder

/-- Where rebuilt files go. -/
def output (options : Options) : String := (options.value? "--output").getD "rebuilt"

/-- Where the samples of soundbanks are. -/
def voiceFolder (options : Options) : String := (options.value? "--voice-dir").getD "voices"

def language? (options : Options) : Except Error (Option Language) :=
  match options.value? "--lang" with
  | some name => ((Language.ofName name).map some).mapError .language
  | none => .ok none

/-- The settings of a folder, with what the options say in their place. -/
def override (options : Options) (settings : Settings) : Except Error Settings := do
  let language ← options.language?
  return {
    game := options.value? "--game" <|> settings.game
    language := language <|> settings.language
    strings := (options.value? "--strings").getD settings.strings
    scripts := (options.value? "--scripts").getD settings.scripts
    objects := (options.value? "--objects").getD settings.objects
    voices := options.value? "--voices" <|> settings.voices }

end Options

end Adventure
