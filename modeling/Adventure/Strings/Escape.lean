import Adventure.Text.Numeral

namespace Adventure.Strings

/-- Why a text has no meaning as an escaped string. -/
inductive EscapeError where
  /-- A backslash and an `x` without two digits after them. -/
  | badHex
  /-- A backslash before anything else that starts no escape. -/
  | unknown
  deriving Repr, DecidableEq

def EscapeError.message : EscapeError → String
  | badHex => "bad \\x escape"
  | unknown => "unknown escape sequence"

def escapeChar (c : Char) : List Char :=
  if c = '\\' then ['\\', '\\']
  else if c = '\t' then ['\\', 't']
  else if c = '\n' then ['\\', 'n']
  else if c = '\r' then ['\\', 'r']
  else if c.toNat < 0x20 ∨ c.toNat = 0x7f then ['\\', 'x'] ++ Text.hexPadded 2 c.toNat
  else [c]

def escape (text : List Char) : List Char := text.flatMap escapeChar

/-- The characters that an escaped text stands for. Besides the escapes that `escape` writes, a
    quote may have a backslash. -/
def unescape : List Char → Except EscapeError (List Char)
  | [] => .ok []
  | '\\' :: '\\' :: rest => (unescape rest).map ('\\' :: ·)
  | '\\' :: '"' :: rest => (unescape rest).map ('"' :: ·)
  | '\\' :: 't' :: rest => (unescape rest).map ('\t' :: ·)
  | '\\' :: 'n' :: rest => (unescape rest).map ('\n' :: ·)
  | '\\' :: 'r' :: rest => (unescape rest).map ('\r' :: ·)
  | '\\' :: 'x' :: high :: low :: rest =>
    match Text.numeral? 16 [high, low] with
    | some value => (unescape rest).map (Char.ofNat value :: ·)
    | none => .error .badHex
  | '\\' :: 'x' :: _ => .error .badHex
  | '\\' :: _ => .error .unknown
  | c :: rest => (unescape rest).map (c :: ·)

end Adventure.Strings
