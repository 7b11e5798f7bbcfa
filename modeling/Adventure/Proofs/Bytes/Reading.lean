import Adventure.Script.Reference
import Adventure.Proofs.Outcome

namespace Adventure

open Bytes

namespace Bytes

theorem word16_ofDigits {field : List UInt8} (h : field.length = 2) :
    word16 (UInt16.ofNat (ofDigits field)) = field := by
  obtain ⟨high, low, rfl⟩ := List.length_eq_two.mp h
  have hhigh := high.toNat_lt
  have hlow := low.toNat_lt
  simp only [word16, digit, ofDigits, List.foldl_cons, List.foldl_nil, List.cons.injEq,
    ← UInt8.toNat_inj, UInt8.toNat_ofNat', UInt16.toNat_ofNat', and_true]
  omega

theorem word32_ofDigits {field : List UInt8} (h : field.length = 4) :
    word32 (UInt32.ofNat (ofDigits field)) = field := by
  obtain ⟨a, b, c, d, rfl⟩ : ∃ a b c d, field = [a, b, c, d] := by
    match field, h with
    | [a, b, c, d], _ => exact ⟨a, b, c, d, rfl⟩
  have ha := a.toNat_lt
  have hb := b.toNat_lt
  have hc := c.toNat_lt
  have hd := d.toNat_lt
  simp only [word32, digit, ofDigits, List.foldl_cons, List.foldl_nil, List.cons.injEq,
    ← UInt8.toNat_inj, UInt8.toNat_ofNat', UInt32.toNat_ofNat', and_true]
  omega

theorem word32Little_ofDigits {field : List UInt8} (h : field.length = 4) :
    word32Little (UInt32.ofNat (ofDigits field.reverse)) = field := by
  have hreverse : ∀ value, word32Little value = (word32 value).reverse := fun _ => rfl
  rw [hreverse, word32_ofDigits (by rw [List.length_reverse, h]), List.reverse_reverse]

theorem length_flatMap_word32Little (values : List UInt32) :
    (values.flatMap word32Little).length = 4 * values.length := by
  induction values with
  | nil => rfl
  | cons value values ih =>
    rw [List.flatMap_cons, List.length_append, ih, length_word32Little, List.length_cons]
    omega

private theorem ofNat_ofDigits_word16 (value : UInt16) : UInt16.ofNat (ofDigits (word16 value)) = value := by
  rw [ofDigits_word16, UInt16.ofNat_toNat]

private theorem ofNat_ofDigits_word32 (value : UInt32) : UInt32.ofNat (ofDigits (word32 value)) = value := by
  rw [ofDigits_word32, UInt32.ofNat_toNat]

theorem word16_inj {value other : UInt16} (h : word16 value = word16 other) : value = other := by
  rw [← ofNat_ofDigits_word16 value, h, ofNat_ofDigits_word16]

theorem word32_inj {value other : UInt32} (h : word32 value = word32 other) : value = other := by
  rw [← ofNat_ofDigits_word32 value, h, ofNat_ofDigits_word32]

end Bytes

namespace Cursor

/-- `after` stands behind `bytes`, which follow `c`. -/
structure Spans (c : Cursor) (bytes : List UInt8) (after : Cursor) : Prop where
  rest : c.rest = bytes ++ after.rest
  cursor : after = c.advance bytes.length

theorem spans_advance {c : Cursor} {bytes tail : List UInt8} (h : c.rest = bytes ++ tail) :
    c.Spans bytes (c.advance bytes.length) :=
  ⟨by simp [h], rfl⟩

namespace Spans

variable {c d e : Cursor} {xs ys : List UInt8}

theorem nil (c : Cursor) : c.Spans [] c := ⟨rfl, rfl⟩

theorem nil_iff : c.Spans [] d ↔ d = c :=
  ⟨fun h => by simpa using h.cursor, fun h => h ▸ nil c⟩

theorem position (h : c.Spans xs d) : d.position = c.position + xs.length := by
  rw [h.cursor, position_advance]

theorem length_rest (h : c.Spans xs d) : c.rest.length = xs.length + d.rest.length := by
  rw [h.rest, List.length_append]

theorem append (hx : c.Spans xs d) (hy : d.Spans ys e) : c.Spans (xs ++ ys) e where
  rest := by rw [hx.rest, hy.rest, List.append_assoc]
  cursor := by rw [hy.cursor, hx.cursor, advance_advance, List.length_append]

/-- The bytes passed from the start of a buffer are those before the position. -/
theorem take_ofBytes {data : List UInt8} (h : (ofBytes data).Spans xs d) :
    d.position = xs.length ∧ data.take d.position = xs ∧ d.position ≤ data.length := by
  have hdata : data = xs ++ d.rest := h.rest
  have hposition : d.position = xs.length := h.position.trans (Nat.zero_add _)
  refine ⟨hposition, ?_, ?_⟩
  · rw [hposition, hdata, List.take_left]
  · rw [hposition, hdata, List.length_append]
    exact Nat.le_add_right _ _

/-- Bytes in two parts are passed one part after the other. -/
theorem append_iff : c.Spans (xs ++ ys) e ↔ ∃ d, c.Spans xs d ∧ d.Spans ys e := by
  constructor
  · intro h
    have hx : c.Spans xs (c.advance xs.length) := spans_advance (by rw [h.rest, List.append_assoc])
    have hrest : (c.advance xs.length).rest = ys ++ e.rest := by simp [h.rest]
    have hy := spans_advance hrest
    rw [advance_advance, ← List.length_append, ← h.cursor] at hy
    exact ⟨_, hx, hy⟩
  · rintro ⟨d, hx, hy⟩
    exact hx.append hy

end Spans

section primitive

variable {c c' : Cursor}

theorem byte_eq_ok_iff {b : UInt8} : c.byte = .ok (b, c') ↔ c.Spans [b] c' := by
  unfold byte
  constructor
  · intro h
    split at h
    · cases h
    case _ head tail hrest =>
      cases h
      exact spans_advance hrest
  · intro h
    have hrest := h.rest
    simp only [List.singleton_append] at hrest
    rw [hrest, h.cursor]
    rfl

theorem bytes_eq_ok_iff {n : Nat} {field : List UInt8} :
    c.bytes n = .ok (field, c') ↔ field.length = n ∧ c.Spans field c' := by
  simp only [bytes]
  constructor
  · intro h
    split at h
    · cases h
    · cases h
      have hlength : (c.rest.take n).length = n := by
        have := List.length_take_le n c.rest
        omega
      refine ⟨hlength, ?_⟩
      have h := spans_advance (c := c) (List.take_append_drop n c.rest).symm
      rwa [hlength] at h
  · rintro ⟨rfl, h⟩
    have htake : c.rest.take field.length = field := by rw [h.rest, List.take_left]
    rw [htake, h.cursor]
    simp

theorem word16_eq_ok_iff {v : UInt16} : c.word16 = .ok (v, c') ↔ c.Spans (Bytes.word16 v) c' := by
  unfold word16
  simp only [Except.map_eq_ok_iff, Prod.exists, bytes_eq_ok_iff, Prod.mk.injEq]
  constructor
  · rintro ⟨field, d, ⟨hlength, h⟩, rfl, rfl⟩
    rwa [word16_ofDigits hlength]
  · intro h
    exact ⟨_, _, ⟨rfl, h⟩, ofNat_ofDigits_word16 v, rfl⟩

theorem word32_eq_ok_iff {v : UInt32} : c.word32 = .ok (v, c') ↔ c.Spans (Bytes.word32 v) c' := by
  unfold word32
  simp only [Except.map_eq_ok_iff, Prod.exists, bytes_eq_ok_iff, Prod.mk.injEq]
  constructor
  · rintro ⟨field, d, ⟨hlength, h⟩, rfl, rfl⟩
    rwa [word32_ofDigits hlength]
  · intro h
    exact ⟨_, _, ⟨rfl, h⟩, ofNat_ofDigits_word32 v, rfl⟩

theorem word32Little_eq_ok_iff {v : UInt32} :
    c.word32Little = .ok (v, c') ↔ c.Spans (Bytes.word32Little v) c' := by
  unfold word32Little
  simp only [Except.map_eq_ok_iff, Prod.exists, bytes_eq_ok_iff, Prod.mk.injEq]
  constructor
  · rintro ⟨field, d, ⟨hlength, h⟩, rfl, rfl⟩
    rwa [word32Little_ofDigits hlength]
  · intro h
    exact ⟨_, _, ⟨rfl, h⟩, ofNat_ofDigits_word32 v, rfl⟩

theorem item_eq_ok_iff {item : UInt32} :
    c.item = .ok (item, c') ↔ ∃ word, ItemRef.ofStored word = item ∧ c.Spans (Bytes.word32 word) c' := by
  unfold Cursor.item
  simp only [Except.map_eq_ok_iff, Prod.exists, word32_eq_ok_iff, Prod.mk.injEq]
  constructor
  · rintro ⟨word, d, h, hitem, rfl⟩
    exact ⟨word, hitem, h⟩
  · rintro ⟨word, hitem, h⟩
    exact ⟨word, c', h, hitem, rfl⟩

end primitive

section readers

variable {ε α : Type}

/-- A reader answers a value exactly where bytes follow that spell it, and passes them. How a value
    is spelled may depend on its position. -/
def Reads (read : Cursor → Except ε (α × Cursor)) (spelled : Nat → α → List UInt8 → Prop) : Prop :=
  ∀ c a c', read c = .ok (a, c') ↔ ∃ bytes, spelled c.position a bytes ∧ c.Spans bytes c'

/-- As `Reads`, for a step that may also answer that no item follows. An item takes some bytes. -/
structure ReadsItem (step : Cursor → Except ε (Option α × Cursor))
    (spelled : Nat → α → List UInt8 → Prop) : Prop where
  some_iff : ∀ c a c',
    step c = .ok (some a, c') ↔ ∃ bytes, spelled c.position a bytes ∧ c.Spans bytes c'
  ne_nil : ∀ position a bytes, spelled position a bytes → bytes ≠ []

/-- Items that are spelled one after the other from a position on. -/
inductive Listed (spelled : Nat → α → List UInt8 → Prop) : Nat → List α → List UInt8 → Prop
  | nil (position : Nat) : Listed spelled position [] []
  | cons {position : Nat} {a : α} {as : List α} {bytes rest : List UInt8}
      (head : spelled position a bytes)
      (tail : Listed spelled (position + bytes.length) as rest) :
      Listed spelled position (a :: as) (bytes ++ rest)

theorem Listed.exists_spelled {spelled : Nat → α → List UInt8 → Prop} {position : Nat} {items : List α}
    {bytes : List UInt8} (h : Listed spelled position items bytes) :
    ∀ item ∈ items, ∃ position bytes, spelled position item bytes := by
  induction h with
  | nil => simp
  | cons head _ ih => exact List.forall_mem_cons.mpr ⟨⟨_, _, head⟩, ih⟩

theorem Listed.imp {spelled spelled' : Nat → α → List UInt8 → Prop} {position : Nat} {items : List α}
    {bytes : List UInt8} (h : Listed spelled position items bytes)
    (himp : ∀ position a bytes, spelled position a bytes → spelled' position a bytes) :
    Listed spelled' position items bytes := by
  induction h with
  | nil position => exact .nil position
  | cons head _ ih => exact .cons (himp _ _ _ head) ih

/-- Items of which each is written in bytes that spell it, wherever they stand, are written one after the
    other. -/
theorem Listed.of_mapM {spelled : Nat → α → List UInt8 → Prop} {write : α → Except ε (List UInt8)}
    {items : List α} {parts : List (List UInt8)} (hparts : items.mapM write = .ok parts)
    (hitem : ∀ a ∈ items, ∀ bytes, write a = .ok bytes → ∀ position, spelled position a bytes)
    (position : Nat) : Listed spelled position items parts.flatten := by
  rw [Except.mapM_eq_ok_iff] at hparts
  induction hparts generalizing position with
  | nil => exact .nil _
  | cons head _ ih =>
    obtain ⟨hfirst, hrest⟩ := List.forall_mem_cons.mp hitem
    exact .cons (hfirst _ head _) (ih hrest _)

/-- Items that are each spelled in one way, wherever they stand, are spelled by what is written for them
    one after the other. -/
theorem listed_iff_flatMap {spelled : Nat → α → List UInt8 → Prop} {fits : α → Prop} {write : α → List UInt8}
    (hspelled : ∀ position a bytes, spelled position a bytes ↔ fits a ∧ bytes = write a) {position : Nat}
    {items : List α} {bytes : List UInt8} :
    Listed spelled position items bytes ↔ (∀ a ∈ items, fits a) ∧ bytes = items.flatMap write := by
  induction items generalizing position bytes with
  | nil =>
    refine ⟨fun h => by cases h; exact ⟨by simp, rfl⟩, ?_⟩
    rintro ⟨-, rfl⟩
    exact .nil _
  | cons a as ih =>
    rw [List.forall_mem_cons, List.flatMap_cons]
    constructor
    · rintro (_ | ⟨hhead, htail⟩)
      obtain ⟨ha, rfl⟩ := (hspelled _ _ _).mp hhead
      obtain ⟨has, rfl⟩ := ih.mp htail
      exact ⟨⟨ha, has⟩, rfl⟩
    · rintro ⟨⟨ha, has⟩, rfl⟩
      exact .cons ((hspelled _ _ _).mpr ⟨ha, rfl⟩) (ih.mpr ⟨has, rfl⟩)

/-- Steps that answer items, up to one that answers none. -/
inductive Steps (step : Cursor → Except ε (Option α × Cursor)) :
    Cursor → List α → Cursor → Prop
  | stop {c c' : Cursor} (h : step c = .ok (none, c')) : Steps step c [] c'
  | item {c d c' : Cursor} {a : α} {as : List α} (h : step c = .ok (some a, d))
      (tail : Steps step d as c') : Steps step c (a :: as) c'

variable {step : Cursor → Except ε (Option α × Cursor)}
  {spelled : Nat → α → List UInt8 → Prop} {c c' : Cursor}

private theorem steps_iff_listed (hstep : ReadsItem step spelled) {items : List α} :
    Steps step c items c' ↔ ∃ bytes d,
      Listed spelled c.position items bytes ∧ c.Spans bytes d ∧ step d = .ok (none, c') := by
  constructor
  · intro h
    induction h with
    | stop h => exact ⟨[], _, .nil _, .nil _, h⟩
    | @item c d c' a as h _ ih =>
      obtain ⟨bytes, hbytes, hspan⟩ := (hstep.some_iff c a d).mp h
      obtain ⟨rest, e, hrest, hspan', hstop⟩ := ih
      rw [hspan.position] at hrest
      exact ⟨bytes ++ rest, e, .cons hbytes hrest, hspan.append hspan', hstop⟩
  · rintro ⟨bytes, d, hlisted, hspan, hstop⟩
    generalize hposition : c.position = position at hlisted
    induction hlisted generalizing c with
    | nil =>
      rw [Spans.nil_iff] at hspan
      exact .stop (hspan ▸ hstop)
    | cons head tail ih =>
      obtain ⟨e, hhead, htail⟩ := Spans.append_iff.mp hspan
      have hitem := (hstep.some_iff c _ e).mpr ⟨_, hposition ▸ head, hhead⟩
      exact .item hitem (ih htail (by rw [hhead.position, hposition]))

/-- The bytes left bound the number of items, so the bound that a collection goes by is never
    used up. -/
theorem collectWithin_eq_ok_iff (hstep : ReadsItem step spelled) {bound : List UInt8}
    {gathered items : List α} (hbound : c.rest.length ≤ bound.length) :
    collectWithin step bound c gathered = .ok (items, c') ↔
      ∃ new, items = gathered.reverse ++ new ∧ Steps step c new c' := by
  fun_induction collectWithin step bound c gathered with
  | case1 bound c gathered fault hc =>
    simp only [reduceCtorEq, false_iff]
    rintro ⟨new, -, hsteps⟩
    cases hsteps <;> simp_all
  | case2 bound c gathered d hc =>
    simp only [Except.ok.injEq, Prod.mk.injEq]
    constructor
    · rintro ⟨rfl, rfl⟩
      exact ⟨[], by simp, .stop hc⟩
    · rintro ⟨new, rfl, hsteps⟩
      cases hsteps <;> simp_all
  | case3 c gathered a d hc =>
    obtain ⟨bytes, hbytes, hspan⟩ := (hstep.some_iff c a d).mp hc
    have hpositive := List.length_pos_of_ne_nil (hstep.ne_nil _ _ _ hbytes)
    have hlength := hspan.length_rest
    simp only [List.length_nil] at hbound
    omega
  | case4 c gathered a d hc b bound ih =>
    obtain ⟨bytes, hbytes, hspan⟩ := (hstep.some_iff c a d).mp hc
    have hpositive := List.length_pos_of_ne_nil (hstep.ne_nil _ _ _ hbytes)
    have hlength := hspan.length_rest
    simp only [List.length_cons] at hbound
    rw [ih (by omega)]
    constructor
    · rintro ⟨new, rfl, hsteps⟩
      exact ⟨a :: new, by simp, .item hc hsteps⟩
    · rintro ⟨new, rfl, hsteps⟩
      cases hsteps with
      | stop h => simp_all
      | item h tail =>
        rw [hc] at h
        cases h
        exact ⟨_, by simp, tail⟩

/-- Collecting answers the items that the bytes spell one after the other, up to where the step
    answers none. -/
theorem collect_eq_ok_iff (hstep : ReadsItem step spelled) {items : List α} :
    c.collect step = .ok (items, c') ↔ ∃ bytes d,
      Listed spelled c.position items bytes ∧ c.Spans bytes d ∧ step d = .ok (none, c') := by
  rw [collect, collectWithin_eq_ok_iff hstep (Nat.le_refl _), ← steps_iff_listed hstep]
  simp

/-- Taking a number of items answers as many as the bytes spell one after the other. -/
theorem times_eq_ok_iff {read : Cursor → Except ε (α × Cursor)} (hread : Reads read spelled)
    {count : Nat} {gathered items : List α} :
    times read count c gathered = .ok (items, c') ↔ ∃ new bytes, items = gathered.reverse ++ new ∧
      new.length = count ∧ Listed spelled c.position new bytes ∧ c.Spans bytes c' := by
  induction count generalizing c gathered with
  | zero =>
    simp only [times, Except.ok.injEq, Prod.mk.injEq, List.length_eq_zero_iff]
    constructor
    · rintro ⟨rfl, rfl⟩
      exact ⟨[], [], by simp, rfl, .nil _, .nil _⟩
    · rintro ⟨new, bytes, rfl, rfl, hlisted, hspan⟩
      cases hlisted
      exact ⟨by simp, (Spans.nil_iff.mp hspan).symm⟩
  | succ count ih =>
    unfold times
    constructor
    · intro h
      split at h
      · cases h
      case _ a d hc =>
        obtain ⟨bytes, hbytes, hspan⟩ := (hread c a d).mp hc
        obtain ⟨new, rest, rfl, rfl, hlisted, hspan'⟩ := ih.mp h
        rw [hspan.position] at hlisted
        exact ⟨a :: new, bytes ++ rest, by simp, rfl, .cons hbytes hlisted, hspan.append hspan'⟩
    · rintro ⟨new, bytes, rfl, hlength, hlisted, hspan⟩
      cases hlisted with
      | nil => simp at hlength
      | @cons _ a as bytes rest head tail =>
        obtain ⟨d, hhead, htail⟩ := Spans.append_iff.mp hspan
        have hc := (hread c a d).mpr ⟨_, head, hhead⟩
        rw [← hhead.position] at tail
        simp only [hc]
        exact ih.mpr ⟨as, rest, by simp, by simpa using hlength, tail, htail⟩

end readers

end Cursor

end Adventure
