import Adventure.Proofs.Bytes.Reading

namespace Adventure

/-- Bytes written for a value that has been read from `bytes`. They are as many, and the same unless
    `loses` finds something there that the value does not have. It looks no further than these bytes. -/
structure Kept (loses : List UInt8 → Bool) (bytes written : List UInt8) : Prop where
  length : written.length = bytes.length
  eq_iff : written = bytes ↔ loses bytes = false
  settled : ∀ tail, loses (bytes ++ tail) = loses bytes

/-- Something that holds of one of the items that stand one after the other, in the bytes from this item
    on. Each item takes as many bytes as its size. -/
def anyAt {α : Type} (size : α → Nat) (holds : α → List UInt8 → Bool) : List α → List UInt8 → Bool
  | [], _ => false
  | a :: rest, bytes => holds a bytes || anyAt size holds rest (bytes.drop (size a))

/-- Items that have a size each take their sizes one after the other. -/
theorem Cursor.Listed.length_eq {α : Type} {size : α → Nat} {spelled : Nat → α → List UInt8 → Prop}
    {position : Nat} {items : List α} {bytes : List UInt8}
    (h : Cursor.Listed spelled position items bytes)
    (hsize : ∀ position a bytes, spelled position a bytes → bytes.length = size a) (n : Nat) :
    bytes.length + n = items.foldr (fun a rest => size a + rest) n := by
  induction h with
  | nil => exact Nat.zero_add n
  | cons head _ ih => rw [List.length_append, List.foldr_cons, ← ih, hsize _ _ _ head, Nat.add_assoc]

namespace Kept

variable {loses loses' : List UInt8 → Bool} {bytes written rest written' : List UInt8}

theorem same (bytes : List UInt8) : Kept (fun _ => false) bytes bytes := ⟨rfl, by simp, fun _ => rfl⟩

theorem congr (h : Kept loses bytes written)
    (hsame : ∀ tail, loses' (bytes ++ tail) = loses (bytes ++ tail)) : Kept loses' bytes written := by
  have hbytes : loses' bytes = loses bytes := by simpa using hsame []
  exact ⟨h.length, hbytes ▸ h.eq_iff, fun tail => by rw [hsame, h.settled, hbytes]⟩

theorem append (h : Kept loses bytes written) (h' : Kept loses' rest written') :
    Kept (fun all => loses all || loses' (all.drop bytes.length)) (bytes ++ rest)
      (written ++ written') where
  length := by rw [List.length_append, List.length_append, h.length, h'.length]
  eq_iff := by
    have hparts : written ++ written' = bytes ++ rest ↔ written = bytes ∧ written' = rest :=
      ⟨fun heq => List.append_inj heq h.length, fun ⟨hfront, hback⟩ => by rw [hfront, hback]⟩
    rw [hparts, h.eq_iff, h'.eq_iff, h.settled, List.drop_left, Bool.or_eq_false_iff]
  settled tail := by
    rw [List.append_assoc, h.settled, h.settled, List.drop_left, List.drop_left, h'.settled]

/-- Bytes that are written as they are may stand around the others. -/
theorem between (h : Kept loses bytes written) (front back : List UInt8) :
    Kept (fun all => loses (all.drop front.length)) (front ++ bytes ++ back)
      (front ++ written ++ back) :=
  (((same front).append h).append (same back)).congr fun _ => by simp

private theorem isPrefixOf_append_of_length {other : List UInt8} (h : other.length = bytes.length)
    (tail : List UInt8) : other.isPrefixOf (bytes ++ tail) = decide (other = bytes) := by
  rw [Bool.eq_iff_iff, List.isPrefixOf_iff_prefix, decide_eq_true_iff]
  constructor
  · intro hprefix
    exact (List.prefix_of_prefix_length_le hprefix (List.prefix_append bytes tail)
      (Nat.le_of_eq h)).eq_of_length h
  · rintro rfl
    exact List.prefix_append _ _

/-- Bytes for which others are written in one case. -/
theorem unless_eq {other : List UInt8} (hlength : other.length = bytes.length)
    (hwritten : written.length = bytes.length) (h : written = bytes ↔ other ≠ bytes) :
    Kept other.isPrefixOf bytes written := by
  have hbytes := isPrefixOf_append_of_length hlength []
  rw [List.append_nil] at hbytes
  refine ⟨hwritten, ?_, fun tail => ?_⟩
  · rw [h, hbytes, decide_eq_false_iff_not]
  · rw [hbytes, isPrefixOf_append_of_length hlength]

section items

variable {α ε : Type} {size : α → Nat} {loses : α → List UInt8 → Bool}

theorem cons {a : α} {as : List α} (head : Kept (loses a) bytes written)
    (hsize : bytes.length = size a) (tail : Kept (anyAt size loses as) rest written') :
    Kept (anyAt size loses (a :: as)) (bytes ++ rest) (written ++ written') :=
  (head.append tail).congr fun _ => by rw [anyAt, hsize]

/-- Items of which each is kept are kept one after the other. -/
theorem listed {spelled : Nat → α → List UInt8 → Prop} {write : α → Except ε (List UInt8)}
    {position : Nat} {items : List α} {parts : List (List UInt8)}
    (h : Cursor.Listed spelled position items bytes) (hparts : items.mapM write = .ok parts)
    (hsize : ∀ position a bytes, spelled position a bytes → bytes.length = size a)
    (hitem : ∀ position a bytes written, spelled position a bytes → write a = .ok written →
      Kept (loses a) bytes written) :
    Kept (anyAt size loses items) bytes parts.flatten := by
  rw [Except.mapM_eq_ok_iff] at hparts
  induction h generalizing parts with
  | nil =>
    cases hparts
    exact (same []).congr fun _ => rfl
  | cons head _ ih =>
    cases hparts with
    | cons hfirst hothers =>
      rw [List.flatten_cons]
      exact (hitem _ _ _ _ head hfirst).cons (hsize _ _ _ head) (ih hothers)

end items

end Kept

end Adventure
