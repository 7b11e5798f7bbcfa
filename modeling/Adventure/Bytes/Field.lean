namespace Adventure.Bytes

/-- Why a field cannot be read from, or laid into, a byte sequence. -/
inductive Fault where
  /-- `wanted` more bytes were asked for at `position`, and the data ends before. -/
  | endOfData (position wanted : Nat)
  /-- A value of `length` bytes was meant for a field of `width` bytes. -/
  | fieldOverflow (length width : Nat)
  deriving Repr, DecidableEq

namespace Fault

def message : Fault → String
  | endOfData position wanted =>
    s!"unexpected end of data at offset {position}, wanted {wanted} more bytes"
  | fieldOverflow length width => s!"value of {length} bytes does not fit a {width} byte field"

end Fault

/-- The byte of weight `256 ^ place` in `value`. -/
def digit (value place : Nat) : UInt8 := UInt8.ofNat (value >>> (8 * place))

/-- A 16-bit word, high byte first. -/
def word16 (value : UInt16) : List UInt8 :=
  [digit value.toNat 1, digit value.toNat 0]

/-- A 32-bit word, high byte first. -/
def word32 (value : UInt32) : List UInt8 :=
  [digit value.toNat 3, digit value.toNat 2, digit value.toNat 1, digit value.toNat 0]

/-- A 32-bit word, low byte first. -/
def word32Little (value : UInt32) : List UInt8 :=
  [digit value.toNat 0, digit value.toNat 1, digit value.toNat 2, digit value.toNat 3]

/-- The number whose digits to base 256 are `digits`, most significant first. -/
def ofDigits (digits : List UInt8) : Nat :=
  digits.foldl (fun value digit => 256 * value + digit.toNat) 0

/-- A string and the NUL that ends it. -/
def terminated (text : List UInt8) : List UInt8 := text ++ [0]

/-- A string filled up with NULs to exactly `width` bytes. -/
def padded (text : List UInt8) (width : Nat) : Except Fault (List UInt8) :=
  if width < text.length then .error (.fieldOverflow text.length width)
  else .ok (text ++ List.replicate (width - text.length) 0)

/-- The bytes before the first NUL, or all of them when there is none. -/
def untilNul (field : List UInt8) : List UInt8 := field.takeWhile (· != 0)

@[simp] theorem length_word16 (value : UInt16) : (word16 value).length = 2 := rfl

@[simp] theorem length_word32 (value : UInt32) : (word32 value).length = 4 := rfl

@[simp] theorem length_word32Little (value : UInt32) : (word32Little value).length = 4 := rfl

@[simp] theorem length_terminated (text : List UInt8) :
    (terminated text).length = text.length + 1 := by simp [terminated]

/-- The four digits of a 32-bit word rebuild it. -/
theorem ofDigits_word32 (value : UInt32) : ofDigits (word32 value) = value.toNat := by
  have := value.toNat_lt
  simp only [ofDigits, word32, digit, List.foldl_cons, List.foldl_nil, UInt8.toNat_ofNat']
  omega

theorem ofDigits_word16 (value : UInt16) : ofDigits (word16 value) = value.toNat := by
  have := value.toNat_lt
  simp only [ofDigits, word16, digit, List.foldl_cons, List.foldl_nil, UInt8.toNat_ofNat']
  omega

theorem length_padded {text field : List UInt8} {width : Nat}
    (h : padded text width = .ok field) : field.length = width := by
  unfold padded at h
  split at h
  · cases h
  · cases h
    simp
    omega

end Adventure.Bytes
