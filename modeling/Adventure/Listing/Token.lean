import Adventure.Listing.Error
import Adventure.Text.Blank

namespace Adventure.Listing

/-- A token that has just ended, unless it is empty. Its characters are last first. -/
def closeToken (current : List Char) (tokens : List String) : List String :=
  if current.isEmpty then tokens else String.ofList current.reverse :: tokens

/-- The tokens of the rest of a line, after the characters `current` of a token, last first, and
    the earlier tokens, last first. None if a quote stays open. -/
def tokensFrom (inQuote : Bool) (current : List Char) (tokens : List String) :
    List Char → Option (List String)
  | [] => if inQuote then none else some (closeToken current tokens).reverse
  | c :: rest =>
    if inQuote then
      if c = '\\' then
        match rest with
        | [] => none
        | next :: rest => tokensFrom true (next :: c :: current) tokens rest
      else tokensFrom (c ≠ '"') (c :: current) tokens rest
    else if c = '"' then tokensFrom true (c :: current) tokens rest
    else if c = '/' ∧ rest.head? = some '/' then some (closeToken current tokens).reverse
    else if Text.isBlank c then tokensFrom false [] (closeToken current tokens) rest
    else tokensFrom false (c :: current) tokens rest

def tokens (line : Nat) (content : List Char) : Except Error (List String) :=
  match tokensFrom false [] [] content with
  | some tokens => .ok tokens
  | none => .error (.malformedLine line .unterminatedString)

/-- What stands between two ends that a text has, both present and apart. -/
def between? (opening closing : Char) (token : List Char) : Option (List Char) :=
  match token with
  | [] => none
  | first :: rest =>
    if first = opening ∧ rest.getLast? = some closing then some rest.dropLast else none

/-- The text of a token in quotes, or none for another token. -/
def quotedText? (line : Nat) (token : List Char) : Except Error (Option (List Char)) :=
  match between? '"' '"' token with
  | none => .ok none
  | some inner =>
    match Strings.unescape inner with
    | .ok text => .ok (some text)
    | .error error => .error (.malformedOperand line (String.ofList token) (.escape line error))

end Adventure.Listing
