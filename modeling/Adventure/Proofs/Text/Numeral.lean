import Adventure.Text.Blank
import Adventure.Text.Numeral

namespace Adventure.Text

private theorem toNat_of_isDigit {c : Char} (h : c.isDigit) : 48 ≤ c.toNat ∧ c.toNat ≤ 57 := by
  simpa [Char.isDigit, UInt32.le_iff_toNat_le] using h

private theorem digitValue?_ten_of_isDigit {c : Char} (h : c.isDigit) :
    digitValue? 10 c = some (c.toNat - '0'.toNat) := by
  obtain ⟨hlow, hhigh⟩ := toNat_of_isDigit h
  have hvalue : c.toNat - '0'.toNat < 10 := by
    have hzero : '0'.toNat = 48 := rfl
    omega
  rw [digitValue?, if_pos (show '0' ≤ c ∧ c ≤ '9' from ⟨hlow, hhigh⟩), Option.filter_some, if_pos (decide_eq_true hvalue)]

theorem digits?_ten_of_isDigit {text : List Char} (h : ∀ c ∈ text, c.isDigit) (value : Nat) :
    digits? 10 value text = some (Nat.ofDigitChars 10 text value) := by
  induction text generalizing value with
  | nil => simp [digits?]
  | cons c text ih =>
    obtain ⟨hc, htext⟩ := List.forall_mem_cons.mp h
    rw [digits?, digitValue?_ten_of_isDigit hc, Nat.ofDigitChars_cons]
    exact ih htext _

theorem isDigit_of_mem_decimal {n : Nat} {c : Char} (h : c ∈ decimal n) : c.isDigit :=
  Nat.isDigit_of_mem_toDigits (by decide) (by decide) h

theorem decimal_ne_nil (n : Nat) : decimal n ≠ [] := Nat.toDigits_ne_nil

/-- A numeral of digits is not changed by taking a plus sign off it. -/
theorem numeral?_of_isDigit {base : Nat} {text : List Char} (h : ∀ c ∈ text, c.isDigit)
    (hne : text ≠ []) : numeral? base text = digits? base 0 text := by
  unfold numeral?
  split
  case _ rest => exact absurd (h '+' List.mem_cons_self) (by decide)
  case _ => rw [if_neg (by simpa using hne)]

theorem numeral?_decimal (n : Nat) : numeral? 10 (decimal n) = some n := by
  have hdigits : ∀ c ∈ decimal n, c.isDigit := fun _ => isDigit_of_mem_decimal
  rw [numeral?_of_isDigit hdigits (decimal_ne_nil n), digits?_ten_of_isDigit hdigits, decimal,
    Nat.ofDigitChars_toDigits (by decide) (by decide)]

theorem decimal?_decimal {n bound : Nat} (h : n < bound) : decimal? bound (decimal n) = some n := by
  rw [decimal?, numeral?_decimal, Option.filter_some, if_pos (decide_eq_true h)]

theorem decimal?_eq_some_lt {bound n : Nat} {text : List Char} (h : decimal? bound text = some n) :
    n < bound := by
  unfold decimal? at h
  simpa using (Option.filter_eq_some_iff.mp h).2

theorem not_isBlank_of_isDigit {c : Char} (h : c.isDigit) : isBlank c = false := by
  obtain ⟨hlow, hhigh⟩ := toNat_of_isDigit h
  simp only [isBlank, Bool.or_eq_false_iff, Bool.and_eq_false_iff, decide_eq_false_iff_not,
    beq_eq_false_iff_ne]
  omega

/-- A character that is no digit stands in no decimal numeral. -/
theorem not_mem_decimal {c : Char} (h : c.isDigit = false) (n : Nat) : c ∉ decimal n := by
  intro hc
  rw [isDigit_of_mem_decimal hc] at h
  cases h

end Adventure.Text
