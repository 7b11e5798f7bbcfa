namespace Adventure.Text

/-- The value of a digit to a base of at most 36. -/
def digitValue? (base : Nat) (c : Char) : Option Nat :=
  let value :=
    if '0' ≤ c ∧ c ≤ '9' then some (c.toNat - '0'.toNat)
    else if 'a' ≤ c ∧ c ≤ 'z' then some (c.toNat - 'a'.toNat + 10)
    else if 'A' ≤ c ∧ c ≤ 'Z' then some (c.toNat - 'A'.toNat + 10)
    else none
  value.filter (· < base)

/-- The number that `digits` continue, when `value` is what stands before them. -/
def digits? (base value : Nat) : List Char → Option Nat
  | [] => some value
  | c :: rest =>
    match digitValue? base c with
    | some digit => digits? base (base * value + digit) rest
    | none => none

/-- A numeral to a base: digits, at least one, and perhaps a plus sign before them. -/
def numeral? (base : Nat) (text : List Char) : Option Nat :=
  let digits := match text with
    | '+' :: rest => rest
    | _ => text
  if digits.isEmpty then none else digits? base 0 digits

/-- A decimal numeral of a number below `bound`. -/
def decimal? (bound : Nat) (text : List Char) : Option Nat :=
  (numeral? 10 text).filter (· < bound)

/-- The decimal digits of a number. -/
def decimal (n : Nat) : List Char := Nat.toDigits 10 n

/-- The hexadecimal digits of a number, in small letters. -/
def hex (n : Nat) : List Char := Nat.toDigits 16 n

/-- The hexadecimal digits of a number, in small letters, with zeros before them up to `width`. -/
def hexPadded (width n : Nat) : List Char := (hex n).leftpad width '0'

end Adventure.Text
