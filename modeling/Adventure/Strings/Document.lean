import Adventure.Strings.Error
import Adventure.Text.Blank
import Adventure.Text.Lines

namespace Adventure

open Text

/-- One string of a game. `voices` is absent where the game has no voices at all. -/
structure StringEntry where
  file : String
  id : Nat
  text : String
  voices : Option (List UInt16)
  deriving Repr, DecidableEq

namespace StringEntry

/-- The voices field: numbers between commas, or `-1` for none. -/
def renderVoices (voices : List UInt16) : List Char :=
  if voices.isEmpty then ['-', '1']
  else [','].intercalate (voices.map fun voice => decimal voice.toNat)

/-- The line of a string, without its end. -/
def render (entry : StringEntry) : List Char :=
  entry.file.toList ++ ['\t'] ++ decimal entry.id ++ ['\t'] ++ Strings.escape entry.text.toList ++
    match entry.voices with
    | none => []
    | some voices => '\t' :: renderVoices voices

/-- The numbers of a voices field, which may have blanks around them. -/
def parseVoices? (field : List Char) : Option (List UInt16) :=
  if field = ['-', '1'] then some []
  else (field.splitOn ',').mapM fun voice => (decimal? 0x10000 (trim voice)).map UInt16.ofNat

/-- The string that the fields of a line give. -/
def ofFields (fields : List (List Char)) : Except Strings.LineError StringEntry := do
  let (file, idField, textField, voicesField) ← match fields with
    | [file, id, text] => pure (file, id, text, none)
    | [file, id, text, voices] => pure (file, id, text, some voices)
    | _ => throw (.fieldCount fields.length)
  let some id := decimal? 0x100000000 idField | throw (.badId (String.ofList idField))
  let voices ← match voicesField with
    | none => pure none
    | some field =>
      match parseVoices? field with
      | some voices => pure (some voices)
      | none => throw (.badVoices (String.ofList field))
  let text ← (Strings.unescape textField).mapError .badEscape
  return ⟨String.ofList file, id, String.ofList text, voices⟩

end StringEntry

namespace StringsDocument

def render (entries : List StringEntry) : String :=
  String.ofList (unlines (entries.map StringEntry.render))

/-- The string on a line, or none on an empty one. -/
def parseLine (number : Nat) (line : List Char) : Except Strings.Error (Option StringEntry) :=
  let line := dropReturn line
  if line.isEmpty then .ok none
  else ((StringEntry.ofFields (line.splitOn '\t')).map some).mapError (.malformedLine number)

/-- The strings of a document in order. -/
def parse (document : String) : Except Strings.Error (List StringEntry) :=
  ((numbered (lines document.toList)).mapM fun (number, line) => parseLine number line).map
    (List.filterMap id)

/-- The files of a list of strings, in order of their first string. -/
def files (entries : List StringEntry) : List String := (entries.map (·.file)).eraseDups

/-- The strings of each file, in the order of `files`. -/
def group (entries : List StringEntry) : List (String × List StringEntry) :=
  (files entries).map fun file => (file, entries.filter (·.file = file))

/-- The texts of one file's strings, which must be numbered from `base` without a gap. -/
def contiguousTexts (file : String) (entries : List StringEntry) (base : Nat) :
    Except Strings.Error (List String) :=
  entries.zipIdx.mapM fun (entry, index) =>
    if entry.id = base + index then .ok entry.text
    else .error (.nonContiguous file (base + index) entry.id)

end StringsDocument

end Adventure
