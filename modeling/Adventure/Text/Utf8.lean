namespace Adventure.Text

/-- A text in UTF-8. -/
def utf8 (text : String) : List UInt8 := text.toUTF8.data.toList

def isAscii (bytes : List UInt8) : Bool := bytes.all (· < 0x80)

/-- The text of ASCII bytes. -/
def ofAscii (bytes : List UInt8) : String :=
  String.ofList (bytes.map fun b => Char.ofNat b.toNat)

/-- Where a reader of UTF-8 stands: between characters, or within one that needs `owed` more
    bytes, of which the next lies between `low` and `high`, after bits that give `value`. -/
inductive Utf8State where
  | between
  | within (owed low high value : Nat)

/-- The character at `value`, or U+FFFD. -/
private def shown (value : Nat) : Char :=
  if value.isValidChar then Char.ofNat value else '\ufffd'

/-- What a first byte begins, with the characters that it completes. -/
def Utf8State.first (b : Nat) : List Char × Utf8State :=
  if b < 0x80 then ([shown b], .between)
  else if 0xc2 ≤ b ∧ b ≤ 0xdf then ([], .within 1 0x80 0xbf (b % 0x20))
  else if b = 0xe0 then ([], .within 2 0xa0 0xbf 0)
  else if b = 0xed then ([], .within 2 0x80 0x9f 0xd)
  else if 0xe1 ≤ b ∧ b ≤ 0xef then ([], .within 2 0x80 0xbf (b % 0x10))
  else if b = 0xf0 then ([], .within 3 0x90 0xbf 0)
  else if 0xf1 ≤ b ∧ b ≤ 0xf3 then ([], .within 3 0x80 0xbf (b % 8))
  else if b = 0xf4 then ([], .within 3 0x80 0x8f 4)
  else (['\ufffd'], .between)

/-- One byte more, with the characters that it completes. -/
def Utf8State.next (state : Utf8State) (b : Nat) : List Char × Utf8State :=
  match state with
  | .between => first b
  | .within owed low high value =>
    if low ≤ b ∧ b ≤ high then
      let value := 64 * value + b % 64
      if owed ≤ 1 then ([shown value], .between) else ([], .within (owed - 1) 0x80 0xbf value)
    else
      let (chars, state) := first b
      ('\ufffd' :: chars, state)

/-- The characters of a byte sequence, from a state on. -/
def utf8Shown : Utf8State → List UInt8 → List Char
  | .between, [] => []
  | .within .., [] => ['\ufffd']
  | state, b :: rest =>
    let (chars, state) := state.next b.toNat
    chars ++ utf8Shown state rest

/-- A byte sequence as text, with U+FFFD in place of what is no UTF-8. -/
def ofUtf8 (bytes : List UInt8) : String := String.ofList (utf8Shown .between bytes)

end Adventure.Text
