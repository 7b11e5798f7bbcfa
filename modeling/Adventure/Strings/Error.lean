import Adventure.Bytes.Field
import Adventure.Strings.Escape
import Adventure.Text.Quoted

namespace Adventure.Strings

/-- What is wrong with one line of a strings document. -/
inductive LineError where
  | fieldCount (found : Nat)
  | badId (field : String)
  | badVoices (field : String)
  | badEscape (error : EscapeError)
  deriving Repr, DecidableEq

def LineError.message : LineError → String
  | fieldCount found => s!"expected 3 or 4 fields, found {found}"
  | badId field => s!"bad string id '{field}'"
  | badVoices field => s!"bad voice list '{field}'"
  | badEscape error => error.message

inductive Error where
  /-- The last string of a table has no NUL behind it. -/
  | missingTerminator (length : Nat)
  /-- The text index ends within an entry, or a name in it is too long. -/
  | index (fault : Bytes.Fault)
  /-- A name in the text index is not ASCII. -/
  | indexName (name : String)
  | malformedLine (line : Nat) (error : LineError)
  /-- The strings of a file do not count up from its base. -/
  | nonContiguous (file : String) (expected found : Nat)
  deriving Repr, DecidableEq

def Error.message : Error → String
  | missingTerminator length => s!"string table of {length} bytes does not end with a terminator"
  | index fault => s!"text index: {fault.message}"
  | indexName name => s!"text index name {Text.quoted name} is not ascii"
  | malformedLine line error => s!"line {line}: {error.message}"
  | nonContiguous file expected found =>
    s!"{file}: expected string {expected} but found {found}"

/-- The characters that an escaped text on a line stands for. -/
def unescapeLine (line : Nat) (text : List Char) : Except Error (List Char) :=
  (unescape text).mapError fun error => .malformedLine line (.badEscape error)

end Adventure.Strings
