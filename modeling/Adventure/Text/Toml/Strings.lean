import Adventure.Text.Numeral

namespace Adventure.Text.Toml

/-- A character that may stand in a comment or between quotes: no control but the tab. -/
def isPlain (c : Char) : Bool := c = '\t' || (0x20 ≤ c.toNat && c.toNat ≠ 0x7f)

def isSpace (c : Char) : Bool := c = ' ' || c = '\t'

def isBareKey (c : Char) : Bool := c.isAlphanum || c = '_' || c = '-'

/-- The character of a number in hexadecimal digits. Signs are no digits. -/
def codePoint? (digits : List Char) : Option Char :=
  match digits? 16 0 digits with
  | some value => if value.isValidChar then some (Char.ofNat value) else none
  | none => none

/-- The character that a backslash and the next character stand for. -/
def simpleEscape? : Char → Option Char
  | 'b' => some '\x08'
  | 't' => some '\t'
  | 'n' => some '\n'
  | 'f' => some '\x0c'
  | 'r' => some '\r'
  | '"' => some '"'
  | '\\' => some '\\'
  | _ => none

/-- The characters up to the quote that closes a string on one line, and what follows it. -/
def basic : List Char → Option (List Char × List Char)
  | [] => none
  | '"' :: rest => some ([], rest)
  | '\\' :: 'u' :: a :: b :: c :: d :: rest => do
    let char ← codePoint? [a, b, c, d]
    let (text, rest) ← basic rest
    return (char :: text, rest)
  | '\\' :: 'U' :: a :: b :: c :: d :: e :: f :: g :: h :: rest => do
    let char ← codePoint? [a, b, c, d, e, f, g, h]
    let (text, rest) ← basic rest
    return (char :: text, rest)
  | '\\' :: c :: rest => do
    let char ← simpleEscape? c
    let (text, rest) ← basic rest
    return (char :: text, rest)
  | c :: rest => do
    if c = '\\' ∨ !isPlain c then none
    let (text, rest) ← basic rest
    return (c :: text, rest)

/-- As `basic`, between single quotes, where a backslash stands for itself. -/
def literal (text : List Char) : Option (List Char × List Char) :=
  let inner := text.takeWhile (· ≠ '\'')
  match text.dropWhile (· ≠ '\'') with
  | _ :: rest => if inner.all isPlain then some (inner, rest) else none
  | [] => none

/-- A line that ends after blanks. -/
def endsBlank (text : List Char) : Bool :=
  match text.dropWhile isSpace with
  | '\n' :: _ => true
  | '\r' :: '\n' :: _ => true
  | _ => false

/-- The characters up to the three quotes that close a string of several lines, and what follows
    them. One or two quotes may stand before the closing ones. After a backslash at the end of a
    line, `skipping` leaves out blanks and line ends. -/
def lines (quote : Char) (escapes skipping : Bool) : List Char → Option (List Char × List Char)
  | [] => none
  | '\r' :: '\n' :: rest =>
    if skipping then lines quote escapes true rest
    else (lines quote escapes false rest).map fun (text, rest) => ('\n' :: text, rest)
  | '\n' :: rest =>
    if skipping then lines quote escapes true rest
    else (lines quote escapes false rest).map fun (text, rest) => ('\n' :: text, rest)
  | '\\' :: 'u' :: a :: b :: c :: d :: rest =>
    if escapes then do
      let char ← codePoint? [a, b, c, d]
      let (text, rest) ← lines quote escapes false rest
      return (char :: text, rest)
    else (lines quote escapes false ('u' :: a :: b :: c :: d :: rest)).map fun (text, rest) =>
      ('\\' :: text, rest)
  | '\\' :: 'U' :: a :: b :: c :: d :: e :: f :: g :: h :: rest =>
    if escapes then do
      let char ← codePoint? [a, b, c, d, e, f, g, h]
      let (text, rest) ← lines quote escapes false rest
      return (char :: text, rest)
    else (lines quote escapes false
      ('U' :: a :: b :: c :: d :: e :: f :: g :: h :: rest)).map fun (text, rest) =>
        ('\\' :: text, rest)
  | '\\' :: c :: rest =>
    if !escapes then
      (lines quote escapes false (c :: rest)).map fun (text, rest) => ('\\' :: text, rest)
    else if endsBlank (c :: rest) then lines quote escapes true (c :: rest)
    else do
      let char ← simpleEscape? c
      let (text, rest) ← lines quote escapes false rest
      return (char :: text, rest)
  | c :: rest =>
    if skipping && isSpace c then lines quote escapes true rest
    else if c = quote ∧ rest.take 2 = [quote, quote] then
      let quotes := ((c :: rest).takeWhile (· = quote)).length
      let kept := min (quotes - 3) 2
      some (List.replicate kept quote, (c :: rest).drop (kept + 3))
    else if c = '\\' ∧ escapes ∨ !isPlain c then none
    else (lines quote escapes false rest).map fun (text, rest) => (c :: text, rest)

/-- Takes off a line end that follows the opening quotes of a string of several lines. -/
def dropFirstLineEnd : List Char → List Char
  | '\n' :: rest => rest
  | '\r' :: '\n' :: rest => rest
  | text => text

/-- The string at the start of a text, and what follows it. -/
def string? : List Char → Option (List Char × List Char)
  | '"' :: '"' :: '"' :: rest => lines '"' true false (dropFirstLineEnd rest)
  | '"' :: rest => basic rest
  | '\'' :: '\'' :: '\'' :: rest => lines '\'' false false (dropFirstLineEnd rest)
  | '\'' :: rest => literal rest
  | _ => none

/-- The key at the start of a text, and what follows it. -/
def key? (text : List Char) : Option (List Char × List Char) :=
  match text with
  | '"' :: rest => basic rest
  | '\'' :: rest => literal rest
  | _ =>
    let key := text.takeWhile isBareKey
    if key.isEmpty then none else some (key, text.dropWhile isBareKey)

end Adventure.Text.Toml
