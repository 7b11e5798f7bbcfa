import Mathlib.Tactic.Cases
import Adventure.Proofs.Outcome
import Adventure.Proofs.Strings.Escape

namespace Adventure.Strings

open Text

/-- A hexadecimal digit, which stands at the place of its value among all of them. -/
def IsHexDigit (c : Char) (value : Nat) : Prop :=
  "0123456789abcdef".toList[value]? = some c ∨ "0123456789ABCDEF".toList[value]? = some c

instance (c : Char) (value : Nat) : Decidable (IsHexDigit c value) :=
  inferInstanceAs (Decidable (_ ∨ _))

/-- Two hexadecimal digits of a number. -/
def TwoDigits (high low : Char) (value : Nat) : Prop :=
  ∃ h l, IsHexDigit high h ∧ IsHexDigit low l ∧ value = 16 * h + l

/-- A plus sign before the only digit of a number. -/
def SignedDigit (sign low : Char) (value : Nat) : Prop := sign = '+' ∧ IsHexDigit low value

/-- The escapes and the characters that they denote. `number` tells which two characters spell the code of
    one. -/
inductive Escape (number : Char → Char → Nat → Prop) : List Char → Char → Prop
  | backslash : Escape number ['\\', '\\'] '\\'
  | quote : Escape number ['\\', '"'] '"'
  | tab : Escape number ['\\', 't'] '\t'
  | newline : Escape number ['\\', 'n'] '\n'
  | carriageReturn : Escape number ['\\', 'r'] '\r'
  | code {high low : Char} {value : Nat} (h : number high low value) :
      Escape number ['\\', 'x', high, low] (Char.ofNat value)

/-- From the left on, every backslash of a text starts an escape. The text denotes the characters of its
    escapes and all its other characters. -/
inductive Denotes (number : Char → Char → Nat → Prop) : List Char → List Char → Prop
  | nil : Denotes number [] []
  | plain {c : Char} {text out : List Char} (hc : c ≠ '\\') (rest : Denotes number text out) :
      Denotes number (c :: text) (c :: out)
  | escape {spelling : List Char} {c : Char} {text out : List Char} (head : Escape number spelling c)
      (rest : Denotes number text out) : Denotes number (spelling ++ text) (c :: out)

private theorem digitValue?_eq_some_iff {c : Char} {value : Nat} :
    digitValue? 16 c = some value ↔ IsHexDigit c value := by
  have hsmall : ∀ n : Fin 128, ∀ value : Fin 16,
      digitValue? 16 (Char.ofNat n) = some value.val ↔ IsHexDigit (Char.ofNat n) value := by decide +kernel
  have hascii : c.toNat < 128 → value < 16 →
      (digitValue? 16 c = some value ↔ IsHexDigit c value) := by
    intro hc hvalue
    have h := hsmall ⟨c.toNat, hc⟩ ⟨value, hvalue⟩
    rwa [Char.ofNat_toNat] at h
  constructor
  · intro h
    obtain ⟨hdigit, hvalue⟩ := Option.filter_eq_some_iff.mp h
    refine (hascii ?_ (of_decide_eq_true hvalue)).mp h
    have hle : ∀ d : Char, c ≤ d → c.toNat ≤ d.toNat := fun _ hcd => hcd
    split at hdigit
    case _ hc => exact Nat.lt_of_le_of_lt (hle _ hc.2) (by decide)
    split at hdigit
    case _ hc => exact Nat.lt_of_le_of_lt (hle _ hc.2) (by decide)
    split at hdigit
    case _ hc => exact Nat.lt_of_le_of_lt (hle _ hc.2) (by decide)
    cases hdigit
  · intro h
    have hall : ("0123456789abcdef".toList ++ "0123456789ABCDEF".toList).all (·.toNat < 128) := by
      decide +kernel
    have hmem : c ∈ "0123456789abcdef".toList ++ "0123456789ABCDEF".toList :=
      List.mem_append.mpr (h.imp List.mem_of_getElem? List.mem_of_getElem?)
    have hvalue : value < 16 := by
      rcases h with h | h
      · exact (List.getElem?_eq_some_iff.mp h).1
      · exact (List.getElem?_eq_some_iff.mp h).1
    exact (hascii (of_decide_eq_true (List.all_eq_true.mp hall c hmem)) hvalue).mpr h

private theorem not_isHexDigit_plus (value : Nat) : ¬IsHexDigit '+' value := by
  rw [← digitValue?_eq_some_iff]
  have hnone : digitValue? 16 '+' = none := by decide
  rw [hnone]
  exact Option.some_ne_none _ ∘ Eq.symm

/-- The reader of numerals takes two digits, or a plus sign and one. -/
theorem numeral?_pair_eq_some_iff {high low : Char} {value : Nat} :
    numeral? 16 [high, low] = some value ↔ TwoDigits high low value ∨ SignedDigit high low value := by
  by_cases hplus : high = '+'
  · subst hplus
    have hnot : ¬TwoDigits '+' low value := fun ⟨h, _, hhigh, _⟩ => not_isHexDigit_plus h hhigh
    have hread : numeral? 16 ['+', low] = digitValue? 16 low := by
      simp only [numeral?, digits?, List.isEmpty_cons, Bool.false_eq_true, if_false]
      cases digitValue? 16 low <;> simp
    rw [hread, digitValue?_eq_some_iff]
    simp [hnot, SignedDigit]
  · have hread : numeral? 16 [high, low] = digits? 16 0 [high, low] := by
      unfold numeral?
      split
      · simp_all
      · rfl
    have hnot : ¬SignedDigit high low value := fun h => hplus h.1
    rw [hread, or_iff_left hnot]
    simp only [digits?, TwoDigits, ← digitValue?_eq_some_iff]
    cases digitValue? 16 high <;> cases digitValue? 16 low <;> simp [eq_comm]

variable {number : Char → Char → Nat → Prop} {spelling text out : List Char} {c : Char}

theorem Escape.mono {number' : Char → Char → Nat → Prop}
    (hnumber : ∀ high low value, number high low value → number' high low value)
    (h : Escape number spelling c) : Escape number' spelling c := by
  cases h with
  | code h => exact .code (hnumber _ _ _ h)
  | _ => constructor

theorem Escape.exists_cons (h : Escape number spelling c) : ∃ rest, spelling = '\\' :: rest := by
  cases h <;> exact ⟨_, rfl⟩

/-- No escape is the start of another one. -/
theorem Escape.eq_of_append {other rest rest' : List Char} {d : Char} (h : Escape number spelling c)
    (h' : Escape number other d) (heq : spelling ++ rest = other ++ rest') : spelling = other := by
  cases h <;> cases h' <;> simp_all

namespace Denotes

theorem mono {number' : Char → Char → Nat → Prop}
    (hnumber : ∀ high low value, number high low value → number' high low value)
    (h : Denotes number text out) : Denotes number' text out := by
  induction h with
  | nil => exact .nil
  | plain hc _ ih => exact .plain hc ih
  | escape head _ ih => exact .escape (head.mono hnumber) ih

/-- What stands behind a text that denotes something is read by itself. -/
theorem of_append {rest : List Char} {all : List Char} (h : Denotes number text out)
    (hall : Denotes number (text ++ rest) all) : ∃ out, Denotes number rest out := by
  induction h generalizing all with
  | nil => exact ⟨all, hall⟩
  | @plain c text out hc _ ih =>
    rw [List.cons_append] at hall
    generalize hwhole : c :: (text ++ rest) = whole at hall
    cases hall with
    | nil => cases hwhole
    | plain _ htail =>
      cases hwhole
      exact ih htail
    | escape head _ =>
      obtain ⟨_, rfl⟩ := head.exists_cons
      exact absurd (List.cons.inj hwhole).1 hc
  | @escape spelling c text out head _ ih =>
    rw [List.append_assoc] at hall
    generalize hwhole : spelling ++ (text ++ rest) = whole at hall
    cases hall with
    | nil =>
      obtain ⟨_, rfl⟩ := head.exists_cons
      cases hwhole
    | plain hc _ =>
      obtain ⟨_, rfl⟩ := head.exists_cons
      exact absurd (List.cons.inj hwhole).1.symm hc
    | escape head' htail =>
      obtain rfl := head.eq_of_append head' hwhole
      exact ih (List.append_cancel_left hwhole ▸ htail)

end Denotes

/-- The numbers that the reader takes behind `\x`. -/
def TakenDigits (high low : Char) (value : Nat) : Prop :=
  TwoDigits high low value ∨ SignedDigit high low value

private theorem unescape_escape_append (h : Escape TakenDigits spelling c) (text : List Char) :
    unescape (spelling ++ text) = (unescape text).map (c :: ·) := by
  cases h with
  | backslash | quote | tab | newline | carriageReturn => rw [List.cons_append, List.singleton_append, unescape]
  | code h =>
    rw [List.cons_append, List.cons_append, List.cons_append, List.singleton_append, unescape,
      numeral?_pair_eq_some_iff.mpr h]

/-- An escape in front of a text that is read puts its character in front of what the text denotes. -/
theorem Denotes.of_unescape (head : Escape TakenDigits spelling c)
    (ih : ∀ out, unescape text = .ok out → Denotes TakenDigits text out)
    (h : (unescape text).map (c :: ·) = .ok out) : Denotes TakenDigits (spelling ++ text) out := by
  obtain ⟨out, hrest, rfl⟩ := Except.map_eq_ok_iff.mp h
  exact .escape head (ih out hrest)

/-- A text is unescaped exactly to what it denotes. -/
theorem unescape_eq_ok_iff : unescape text = .ok out ↔ Denotes TakenDigits text out := by
  constructor
  · intro h
    fun_induction unescape text generalizing out with
    | case1 =>
      cases h
      exact .nil
    | case2 rest ih => exact .of_unescape .backslash @ih h
    | case3 rest ih => exact .of_unescape .quote @ih h
    | case4 rest ih => exact .of_unescape .tab @ih h
    | case5 rest ih => exact .of_unescape .newline @ih h
    | case6 rest ih => exact .of_unescape .carriageReturn @ih h
    | case7 high low rest value hvalue ih =>
      exact .of_unescape (.code (numeral?_pair_eq_some_iff.mp hvalue)) @ih h
    | case8 | case9 | case10 => cases h
    | case11 c rest _ _ _ _ _ _ _ hc ih =>
      obtain ⟨out, hrest, rfl⟩ := Except.map_eq_ok_iff.mp h
      exact .plain hc (ih hrest)
  · intro h
    induction h with
    | nil => rfl
    | plain hc _ ih => rw [unescape_cons hc, ih, Except.map]
    | escape head _ ih => rw [unescape_escape_append head, ih, Except.map]

/-- Behind escapes that are all spelled with two digits, a plus sign stands where the first digit of another
    one should. -/
def SignedAt (text : List Char) : Prop :=
  ∃ front out back, Denotes TwoDigits front out ∧ text = front ++ '\\' :: 'x' :: '+' :: back

private theorem not_denotes_signed (back out : List Char) :
    ¬Denotes TwoDigits ('\\' :: 'x' :: '+' :: back) out := by
  intro h
  generalize hwhole : '\\' :: 'x' :: '+' :: back = whole at h
  cases h with
  | nil => cases hwhole
  | plain hc _ => exact hc (List.cons.inj hwhole).1.symm
  | escape head _ =>
    cases head with
    | code h =>
      obtain ⟨value, -, hhigh, -⟩ := h
      simp only [List.cons_append, List.cons.injEq, true_and] at hwhole
      exact not_isHexDigit_plus value (hwhole.1 ▸ hhigh)
    | _ => simp at hwhole

/-- Texts that are read are spelled with two digits throughout, unless a plus sign has been taken for one. -/
theorem denotes_twoDigits_iff :
    Denotes TwoDigits text out ↔ Denotes TakenDigits text out ∧ ¬SignedAt text := by
  constructor
  · intro h
    refine ⟨h.mono fun _ _ _ => .inl, ?_⟩
    rintro ⟨front, done, back, hfront, rfl⟩
    obtain ⟨rest, hrest⟩ := hfront.of_append h
    exact not_denotes_signed back rest hrest
  · rintro ⟨h, hnone⟩
    induction h with
    | nil => exact .nil
    | @plain c text out hc _ ih =>
      refine .plain hc (ih ?_)
      rintro ⟨front, done, back, hfront, rfl⟩
      exact hnone ⟨c :: front, c :: done, back, .plain hc hfront, rfl⟩
    | @escape spelling c text out head _ ih =>
      have hspelled : Escape TwoDigits spelling c := by
        cases head with
        | code h =>
          rcases h with h | ⟨rfl, -⟩
          · exact .code h
          · exact absurd ⟨[], [], _, .nil, rfl⟩ hnone
        | _ => constructor
      refine .escape hspelled (ih ?_)
      rintro ⟨front, done, back, hfront, rfl⟩
      exact hnone ⟨spelling ++ front, c :: done, back, .escape hspelled hfront, (List.append_assoc _ _ _).symm⟩

/-- A text is unescaped if each of its backslashes, from the left on, starts an escape, and then to the
    characters that it denotes. As a code counts what two digits spell and what a plus sign and one digit do:
    where no such sign is met, exactly the escapes with two digits are read. -/
theorem unescape_reads_escapes (text : List Char) :
    (∀ out, unescape text = .ok out ↔ Denotes TakenDigits text out) ∧
      (∀ out, Denotes TwoDigits text out ↔ unescape text = .ok out ∧ ¬SignedAt text) ∧
      unescape (escape text) = .ok text := by
  refine ⟨fun out => unescape_eq_ok_iff, fun out => ?_, unescape_escape text⟩
  rw [denotes_twoDigits_iff, unescape_eq_ok_iff]

/-- A plus sign is taken for a digit. -/
theorem unescape_signed : unescape ['\\', 'x', '+', 'f'] = .ok ['\x0f'] ∧
    ¬∃ out, Denotes TwoDigits ['\\', 'x', '+', 'f'] out :=
  ⟨by decide, fun ⟨out, h⟩ => not_denotes_signed ['f'] out h⟩

end Adventure.Strings
