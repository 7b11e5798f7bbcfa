import Adventure.Proofs.Bytes.Text

namespace Adventure.Cursor

open Bytes

/-- Something that can be done with a cursor. -/
inductive Operation where
  | byte
  | peek
  | peekWord16
  | bytes (count : Nat)
  | word16
  | word32
  | word32Little
  | padded (width : Nat)
  | terminated
  | takeRest
  | item
  | seek (position : Nat)
  deriving Repr, DecidableEq

/-- What an operation answers. -/
inductive Answer where
  | byte (value : UInt8)
  | word16 (value : UInt16)
  | word32 (value : UInt32)
  | bytes (field : List UInt8)
  | moved
  deriving Repr, DecidableEq

def perform (c : Cursor) : Operation → Except Fault (Answer × Cursor)
  | .byte => c.byte.map fun (b, d) => (.byte b, d)
  | .peek => c.peek.map fun b => (.byte b, c)
  | .peekWord16 => c.peekWord16.map fun word => (.word16 word, c)
  | .bytes count => (c.bytes count).map fun (field, d) => (.bytes field, d)
  | .word16 => c.word16.map fun (word, d) => (.word16 word, d)
  | .word32 => c.word32.map fun (word, d) => (.word32 word, d)
  | .word32Little => c.word32Little.map fun (word, d) => (.word32 word, d)
  | .padded width => (c.padded width).map fun (text, d) => (.bytes text, d)
  | .terminated => .ok (.bytes c.terminated.1, c.terminated.2)
  | .takeRest => .ok (.bytes c.takeRest.1, c.takeRest.2)
  | .item => c.item.map fun (item, d) => (.word32 item, d)
  | .seek position => (c.seek position).map fun d => (.moved, d)

/-- The cursor behind an operation, which stays where it is if the operation fails. -/
def step (c : Cursor) (operation : Operation) : Cursor :=
  match c.perform operation with
  | .ok (_, d) => d
  | .error _ => c

/-- The cursor behind operations, one after the other. -/
def run (c : Cursor) (operations : List Operation) : Cursor := operations.foldl step c

/-- The number of bytes that an operation asks for at a position. -/
def Operation.wanted (position : Nat) : Operation → Nat
  | byte | peek => 1
  | peekWord16 | word16 => 2
  | word32 | word32Little | item => 4
  | bytes count => count
  | padded width => width
  | terminated | takeRest => 0
  | seek target => target - position

/-- What a read answers where it passes the bytes `passed` and leaves the bytes `behind`. -/
inductive Reading : Operation → (passed behind : List UInt8) → Answer → Prop
  | byte (b : UInt8) (behind : List UInt8) : Reading .byte [b] behind (.byte b)
  | peek (b : UInt8) (behind : List UInt8) : Reading .peek [] (b :: behind) (.byte b)
  | peekWord16 (word : UInt16) (behind : List UInt8) :
      Reading .peekWord16 [] (Bytes.word16 word ++ behind) (.word16 word)
  | bytes (field behind : List UInt8) : Reading (.bytes field.length) field behind (.bytes field)
  | word16 (word : UInt16) (behind : List UInt8) :
      Reading .word16 (Bytes.word16 word) behind (.word16 word)
  | word32 (word : UInt32) (behind : List UInt8) :
      Reading .word32 (Bytes.word32 word) behind (.word32 word)
  | word32Little (word : UInt32) (behind : List UInt8) :
      Reading .word32Little (Bytes.word32Little word) behind (.word32 word)
  | filled {text : List UInt8} (field behind : List UInt8) (htext : 0 ∉ text)
      (hfield : field = text ∨ ∃ rest, field = text ++ 0 :: rest) :
      Reading (.padded field.length) field behind (.bytes text)
  | terminated {text : List UInt8} (htext : 0 ∉ text) (behind : List UInt8) :
      Reading .terminated (text ++ [0]) behind (.bytes text)
  /-- The end of the buffer ends a text too. -/
  | unterminated {text : List UInt8} (htext : 0 ∉ text) : Reading .terminated text [] (.bytes text)
  | takeRest (field : List UInt8) : Reading .takeRest field [] (.bytes field)
  | noItem (behind : List UInt8) : Reading .item [0xff, 0xff, 0xff, 0xff] behind (.word32 0)
  | item {word : UInt32} (hword : word ≠ 0xffffffff) (behind : List UInt8) :
      Reading .item (Bytes.word32 word) behind (.word32 (word + 2))

/-- What comes of an operation on a cursor. It reads the bytes up to a position further on, or it goes to a
    place in the buffer, or it asks for bytes that are not there. -/
inductive Outcome (c : Cursor) : Operation → Except Fault (Answer × Cursor) → Prop
  | read {operation : Operation} {answer : Answer} {d : Cursor} (hdata : d.data = c.data) (hvalid : d.Valid)
      (hforward : c.position ≤ d.position)
      (hreading : Reading operation ((c.data.take d.position).drop c.position) d.rest answer) :
      Outcome c operation (.ok (answer, d))
  | moved {target : Nat} {d : Cursor} (hdata : d.data = c.data) (hvalid : d.Valid)
      (hposition : d.position = target) : Outcome c (.seek target) (.ok (.moved, d))
  | lacking {operation : Operation} {wanted : Nat} (hwanted : wanted = operation.wanted c.position)
      (hlacking : c.data.length < c.position + wanted)
      (hseek : ∀ target, operation = .seek target → c.position + wanted = target) :
      Outcome c operation (.error (.endOfData c.position wanted))

variable {c d : Cursor} {passed : List UInt8} {answer : Answer} {operation : Operation}

namespace Valid

private theorem remaining_eq (h : c.Valid) : c.remaining = c.data.length - c.position := by
  rw [remaining, h.2, List.length_drop]

private theorem atEnd_iff (h : c.Valid) : c.atEnd ↔ c.position = c.data.length := by
  have hposition := h.1
  rw [atEnd, List.isEmpty_iff_length_eq_zero, h.2, List.length_drop]
  omega

private theorem of_spans (h : c.Valid) (hspan : c.Spans passed d) : d.data = c.data ∧ d.Valid := by
  obtain ⟨hposition, hrest⟩ := h
  have hlength := hspan.length_rest
  rw [hrest, List.length_drop] at hlength
  obtain rfl := hspan.cursor
  refine ⟨rfl, ?_, ?_⟩
  · show c.position + passed.length ≤ c.data.length
    omega
  · rw [rest_advance, hrest, List.drop_drop]
    rfl

/-- The bytes that are passed are those between the two positions. -/
theorem passed_eq (h : c.Valid) (hspan : c.Spans passed d) :
    passed = (c.data.take d.position).drop c.position := by
  have hrest := hspan.rest
  rw [h.2] at hrest
  rw [hspan.position, List.drop_take, Nat.add_sub_cancel_left, hrest, List.take_left]

end Valid

theorem Outcome.of_spans (h : c.Valid) (hspan : c.Spans passed d)
    (hreading : Reading operation passed d.rest answer) : Outcome c operation (.ok (answer, d)) := by
  obtain ⟨hdata, hvalid⟩ := h.of_spans hspan
  refine .read hdata hvalid (hspan.position ▸ Nat.le_add_right _ _) ?_
  rwa [← h.passed_eq hspan]

/-- A position that is not in the buffer lies behind the one that the cursor has, so that the difference of
    the two is exact. -/
theorem Outcome.of_lacking (h : c.Valid)
    (hlacking : c.data.length < c.position + operation.wanted c.position) :
    Outcome c operation (.error (.endOfData c.position (operation.wanted c.position))) := by
  refine .lacking rfl hlacking ?_
  rintro target rfl
  have hposition := h.1
  simp only [Operation.wanted] at hlacking ⊢
  omega

/-- A field of some bytes is passed, unless the buffer ends before. -/
theorem bytes_cases (h : c.Valid) (count : Nat) :
    (∃ field, field.length = count ∧ c.Spans field (c.advance count) ∧
      c.bytes count = .ok (field, c.advance count)) ∨
    (c.data.length < c.position + count ∧ c.bytes count = .error (.endOfData c.position count)) := by
  have hposition := h.1
  by_cases hroom : c.position + count ≤ c.data.length
  · have hlength : (c.rest.take count).length = count := by
      rw [List.length_take, h.2, List.length_drop]
      omega
    have hspan := spans_advance (List.take_append_drop count c.rest).symm
    rw [hlength] at hspan
    exact .inl ⟨_, hlength, hspan, bytes_eq_ok_iff.mpr ⟨hlength, hspan⟩⟩
  · have hshort : (c.rest.take count).length < count := by
      rw [List.length_take, h.2, List.length_drop]
      omega
    exact .inr ⟨Nat.lt_of_not_le hroom, if_pos hshort⟩

/-- A read of a field of some length, from what it makes of the bytes. -/
theorem Outcome.field (h : c.Valid) (read : List UInt8 → Answer)
    (hperform : c.perform operation =
      (c.bytes (operation.wanted c.position)).map fun (field, d) => (read field, d))
    (hread : ∀ field behind, field.length = operation.wanted c.position →
      Reading operation field behind (read field)) :
    Outcome c operation (c.perform operation) := by
  rw [hperform]
  rcases bytes_cases h (operation.wanted c.position) with
    ⟨field, hlength, hspan, hbytes⟩ | ⟨hshort, hbytes⟩
  · rw [hbytes]
    exact .of_spans h hspan (hread field _ hlength)
  · rw [hbytes]
    exact .of_lacking h hshort

private theorem reading_item (word : UInt32) (behind : List UInt8) :
    Reading .item (Bytes.word32 word) behind (.word32 (ItemRef.ofStored word)) := by
  unfold ItemRef.ofStored
  split
  case _ hnone =>
    rw [hnone]
    exact .noItem behind
  case _ hsome => exact .item hsome behind

/-- An operation on a cursor that stands in its buffer has one of the three outcomes. -/
theorem Valid.outcome (h : c.Valid) (operation : Operation) : Outcome c operation (c.perform operation) := by
  have hlacking : c.rest = [] → c.data.length < c.position + 1 := fun hnil => by
    rw [h.2, List.drop_eq_nil_iff] at hnil
    omega
  cases operation with
  | byte =>
    unfold perform byte
    cases hrest : c.rest with
    | nil => exact .of_lacking h (hlacking hrest)
    | cons b rest => exact .of_spans h (spans_advance hrest) (.byte b _)
  | peek =>
    unfold perform peek
    cases hrest : c.rest with
    | nil => exact .of_lacking h (hlacking hrest)
    | cons b rest => exact .of_spans h (.nil c) (hrest ▸ .peek b rest)
  | peekWord16 =>
    unfold perform peekWord16
    rcases bytes_cases h 2 with ⟨field, hlength, hspan, hbytes⟩ | ⟨hshort, hbytes⟩
    · have hreading := Reading.peekWord16 (UInt16.ofNat (ofDigits field)) (c.advance 2).rest
      rw [word16_ofDigits hlength, ← hspan.rest] at hreading
      rw [hbytes]
      exact .of_spans h (.nil c) hreading
    · rw [hbytes]
      exact .of_lacking h hshort
  | bytes count =>
    refine .field h .bytes rfl fun field behind hlength => ?_
    obtain rfl : field.length = count := hlength
    exact .bytes field behind
  | word16 =>
    refine .field h (fun field => .word16 (UInt16.ofNat (ofDigits field))) ?_ fun field behind hlength => ?_
    · rw [perform, Cursor.word16, Except.map_map]
      rfl
    · have hreading := Reading.word16 (UInt16.ofNat (ofDigits field)) behind
      rwa [word16_ofDigits hlength] at hreading
  | word32 =>
    refine .field h (fun field => .word32 (UInt32.ofNat (ofDigits field))) ?_ fun field behind hlength => ?_
    · rw [perform, Cursor.word32, Except.map_map]
      rfl
    · have hreading := Reading.word32 (UInt32.ofNat (ofDigits field)) behind
      rwa [word32_ofDigits hlength] at hreading
  | word32Little =>
    refine .field h (fun field => .word32 (UInt32.ofNat (ofDigits field.reverse))) ?_
      fun field behind hlength => ?_
    · rw [perform, Cursor.word32Little, Except.map_map]
      rfl
    · have hreading := Reading.word32Little (UInt32.ofNat (ofDigits field.reverse)) behind
      rwa [word32Little_ofDigits hlength] at hreading
  | padded width =>
    refine .field h (fun field => .bytes (untilNul field)) ?_ fun field behind hlength => ?_
    · rw [perform, Cursor.padded, Except.map_map]
      rfl
    · obtain rfl : field.length = width := hlength
      exact .filled field behind (zero_not_mem_untilNul field) (eq_untilNul_or field)
  | terminated =>
    obtain ⟨htext, hspan | ⟨hspan, hend⟩⟩ := spans_of_terminated (c := c) rfl
    · exact .of_spans h hspan (.terminated htext _)
    · exact .of_spans h hspan (hend ▸ .unterminated htext)
  | takeRest =>
    have hspan := spans_advance (c := c) (List.append_nil c.rest).symm
    have hend : (c.advance c.rest.length).rest = [] := by rw [rest_advance, List.drop_length]
    exact .of_spans h hspan (hend ▸ .takeRest c.rest)
  | item =>
    refine .field h (fun field => .word32 (ItemRef.ofStored (UInt32.ofNat (ofDigits field)))) ?_
      fun field behind hlength => ?_
    · rw [perform, Cursor.item, Cursor.word32, Except.map_map, Except.map_map]
      rfl
    · have hreading := reading_item (UInt32.ofNat (ofDigits field)) behind
      rwa [word32_ofDigits hlength] at hreading
  | seek target =>
    rw [perform, seek]
    split
    case _ hbeyond =>
      have hposition := h.1
      have hlacking : c.data.length < c.position + (target - c.position) := by omega
      exact .of_lacking h hlacking
    case _ hinside => exact .moved rfl ⟨Nat.le_of_not_lt hinside, rfl⟩ rfl

theorem Valid.step (h : c.Valid) (operation : Operation) :
    (c.step operation).data = c.data ∧ (c.step operation).Valid := by
  have houtcome := h.outcome operation
  unfold Cursor.step
  generalize c.perform operation = result at houtcome
  cases houtcome with
  | read hdata hvalid => exact ⟨hdata, hvalid⟩
  | moved hdata hvalid => exact ⟨hdata, hvalid⟩
  | lacking => exact ⟨rfl, h⟩

theorem Valid.run (h : c.Valid) (operations : List Operation) :
    (c.run operations).data = c.data ∧ (c.run operations).Valid := by
  induction operations generalizing c with
  | nil => exact ⟨rfl, h⟩
  | cons operation operations ih =>
    obtain ⟨hdata, hvalid⟩ := h.step operation
    obtain ⟨hrun, hvalid⟩ := ih hvalid
    exact ⟨hrun.trans hdata, hvalid⟩

/-- After any operations on a cursor, it stands in its buffer and tells how many bytes are left. What it is
    asked for next it reads from the bytes between the position that it has then and the one that it comes
    to, both of them in the buffer, unless there are too few bytes: then it stays where it is, and the fault
    tells its position and the number of bytes that it was asked for. -/
theorem operations_keep_inside (data : List UInt8) (history : List Operation) :
    let c := (ofBytes data).run history
    (c.data = data ∧ c.position ≤ data.length ∧ c.remaining = data.length - c.position ∧
      (c.atEnd ↔ c.position = data.length)) ∧
    ∀ operation, Outcome c operation (c.perform operation) ∧
      ∀ fault, c.perform operation = .error fault → c.step operation = c := by
  obtain ⟨hdata, hvalid⟩ := (valid_ofBytes data).run history
  generalize (ofBytes data).run history = c at hdata hvalid
  subst hdata
  refine ⟨⟨rfl, hvalid.1, hvalid.remaining_eq, hvalid.atEnd_iff⟩, fun operation => ?_⟩
  refine ⟨hvalid.outcome operation, fun fault hfault => ?_⟩
  rw [step, hfault]

/-- Too few bytes for one read can be enough for the next one. -/
example : ((ofBytes [0xaa, 0xbb, 0xcc]).run [.byte, .word32]).perform .word16 =
    .ok (.word16 0xbbcc, ⟨[0xaa, 0xbb, 0xcc], 3, []⟩) := by rfl

end Adventure.Cursor
