import Adventure.Bytes.Field

namespace Adventure

open Bytes

/-- A position in `data`, with the bytes from there on kept at hand as `rest`. -/
structure Cursor where
  data : List UInt8
  position : Nat
  rest : List UInt8
  deriving Repr, DecidableEq

namespace Cursor

/-- The start of a buffer. -/
def ofBytes (data : List UInt8) : Cursor := ⟨data, 0, data⟩

/-- The position lies in the buffer and `rest` is what follows it. -/
def Valid (c : Cursor) : Prop := c.position ≤ c.data.length ∧ c.rest = c.data.drop c.position

def remaining (c : Cursor) : Nat := c.rest.length

def atEnd (c : Cursor) : Bool := c.rest.isEmpty

/-- Moves to any position up to the end of the buffer. -/
def seek (c : Cursor) (position : Nat) : Except Fault Cursor :=
  if c.data.length < position then
    .error (.endOfData c.position (position - c.position))
  else .ok { c with position := position, rest := c.data.drop position }

/-- The cursor `n` bytes further on. -/
def advance (c : Cursor) (n : Nat) : Cursor :=
  { c with position := c.position + n, rest := c.rest.drop n }

/-- The next byte, not consumed. -/
def peek (c : Cursor) : Except Fault UInt8 :=
  match c.rest with
  | [] => .error (.endOfData c.position 1)
  | b :: _ => .ok b

def byte (c : Cursor) : Except Fault (UInt8 × Cursor) :=
  match c.rest with
  | [] => .error (.endOfData c.position 1)
  | b :: _ => .ok (b, c.advance 1)

/-- Exactly the next `n` bytes. -/
def bytes (c : Cursor) (n : Nat) : Except Fault (List UInt8 × Cursor) :=
  let field := c.rest.take n
  if field.length < n then .error (.endOfData c.position n)
  else .ok (field, c.advance n)

/-- The next word of two bytes, not consumed. -/
def peekWord16 (c : Cursor) : Except Fault UInt16 :=
  (c.bytes 2).map fun (field, _) => UInt16.ofNat (ofDigits field)

def word16 (c : Cursor) : Except Fault (UInt16 × Cursor) :=
  (c.bytes 2).map fun (field, c) => (UInt16.ofNat (ofDigits field), c)

def word32 (c : Cursor) : Except Fault (UInt32 × Cursor) :=
  (c.bytes 4).map fun (field, c) => (UInt32.ofNat (ofDigits field), c)

def word32Little (c : Cursor) : Except Fault (UInt32 × Cursor) :=
  (c.bytes 4).map fun (field, c) => (UInt32.ofNat (ofDigits field.reverse), c)

/-- All that is left. -/
def takeRest (c : Cursor) : List UInt8 × Cursor :=
  (c.rest, c.advance c.rest.length)

/-- The bytes up to the next NUL, which is consumed too. The end of the data ends a string as
    well, so this read never fails. -/
def terminated (c : Cursor) : List UInt8 × Cursor :=
  let text := untilNul c.rest
  (text, c.advance (min (text.length + 1) c.rest.length))

/-- A field of `width` bytes, cut at its first NUL. -/
def padded (c : Cursor) (width : Nat) : Except Fault (List UInt8 × Cursor) :=
  (c.bytes width).map fun (field, c) => (untilNul field, c)

/-- Takes steps until one answers no item, and gathers the items. An item takes at least a byte, so
    the bytes left bound their number; `gathered` holds the earlier items, last first. -/
def collectWithin {ε α : Type} (step : Cursor → Except ε (Option α × Cursor)) :
    List UInt8 → Cursor → List α → Except ε (List α × Cursor)
  | bound, c, gathered =>
    match step c with
    | .error fault => .error fault
    | .ok (none, c) => .ok (gathered.reverse, c)
    | .ok (some item, c) =>
      match bound with
      | [] => .ok ((item :: gathered).reverse, c)
      | _ :: bound => collectWithin step bound c (item :: gathered)

/-- The items that a step reads from here on, up to where it answers none. -/
def collect {ε α : Type} (step : Cursor → Except ε (Option α × Cursor)) (c : Cursor) :
    Except ε (List α × Cursor) :=
  collectWithin step c.rest c []

/-- Exactly `count` items. -/
def times {ε α : Type} (step : Cursor → Except ε (α × Cursor)) :
    Nat → Cursor → List α → Except ε (List α × Cursor)
  | 0, c, gathered => .ok (gathered.reverse, c)
  | count + 1, c, gathered =>
    match step c with
    | .error fault => .error fault
    | .ok (item, c) => times step count c (item :: gathered)

theorem valid_ofBytes (data : List UInt8) : (ofBytes data).Valid := by simp [ofBytes, Valid]

@[simp] theorem position_advance (c : Cursor) (n : Nat) :
    (c.advance n).position = c.position + n := rfl

@[simp] theorem rest_advance (c : Cursor) (n : Nat) : (c.advance n).rest = c.rest.drop n := rfl

@[simp] theorem advance_zero (c : Cursor) : c.advance 0 = c := rfl

@[simp] theorem advance_advance (c : Cursor) (m n : Nat) :
    (c.advance m).advance n = c.advance (m + n) := by
  simp [advance, Nat.add_assoc, List.drop_drop]

end Cursor

end Adventure
