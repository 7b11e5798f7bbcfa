import Mathlib.Data.List.Basic
import Mathlib.Tactic.SplitIfs
import Adventure.Strings.Escape

namespace Adventure.Strings

theorem unescape_cons {c : Char} (h : c ≠ '\\') (rest : List Char) :
    unescape (c :: rest) = (unescape rest).map (c :: ·) := by
  rw [unescape.eq_def]
  split <;> simp_all

private theorem unescape_hex {n : Nat} (h : n < 128) (rest : List Char) :
    unescape (['\\', 'x'] ++ Text.hexPadded 2 n ++ rest) = (unescape rest).map (Char.ofNat n :: ·) := by
  have hdigits : ∀ n : Fin 128, ∃ high low, Text.hexPadded 2 n.val = [high, low] ∧
      Text.numeral? 16 [high, low] = some n.val := by
    have hlength : ∀ n : Fin 128, (Text.hexPadded 2 n.val).length = 2 ∧
        Text.numeral? 16 (Text.hexPadded 2 n.val) = some n.val := by decide +kernel
    intro n
    obtain ⟨htwo, hvalue⟩ := hlength n
    obtain ⟨high, low, heq⟩ := List.length_eq_two.mp htwo
    exact ⟨high, low, heq, heq ▸ hvalue⟩
  obtain ⟨high, low, heq, hvalue⟩ := hdigits ⟨n, h⟩
  dsimp only at heq hvalue
  rw [heq]
  show unescape ('\\' :: 'x' :: high :: low :: rest) = _
  rw [unescape, hvalue]

theorem unescape_escapeChar (c : Char) (rest : List Char) :
    unescape (escapeChar c ++ rest) = (unescape rest).map (c :: ·) := by
  unfold escapeChar
  split_ifs with hbackslash htab hnewline hreturn hcontrol
  · rw [hbackslash, List.cons_append, List.singleton_append, unescape]
  · rw [htab, List.cons_append, List.singleton_append, unescape]
  · rw [hnewline, List.cons_append, List.singleton_append, unescape]
  · rw [hreturn, List.cons_append, List.singleton_append, unescape]
  · have hlt : c.toNat < 128 := by omega
    rw [unescape_hex hlt, Char.ofNat_toNat]
  · rw [List.singleton_append, unescape_cons hbackslash]

theorem unescape_escape (text : List Char) : unescape (escape text) = .ok text := by
  induction text with
  | nil => rfl
  | cons c text ih =>
    rw [escape, List.flatMap_cons, unescape_escapeChar]
    rw [escape] at ih
    rw [ih]
    rfl

/-- A tab, a newline or a carriage return is never written as itself. -/
theorem not_mem_escape {c : Char} (h : c = '\t' ∨ c = '\n' ∨ c = '\r') (text : List Char) :
    c ∉ escape text := by
  have hhex : ∀ n : Fin 128, '\t' ∉ Text.hexPadded 2 n.val ∧ '\n' ∉ Text.hexPadded 2 n.val ∧
      '\r' ∉ Text.hexPadded 2 n.val := by decide +kernel
  rw [escape, List.mem_flatMap]
  rintro ⟨d, -, hd⟩
  unfold escapeChar at hd
  split_ifs at hd with hbackslash htab hnewline hreturn hcontrol
  · rcases h with rfl | rfl | rfl <;> simp at hd
  · rcases h with rfl | rfl | rfl <;> simp at hd
  · rcases h with rfl | rfl | rfl <;> simp at hd
  · rcases h with rfl | rfl | rfl <;> simp at hd
  · have hlt : d.toNat < 128 := by omega
    have hdigits := hhex ⟨d.toNat, hlt⟩
    dsimp only at hdigits
    rcases h with rfl | rfl | rfl <;> simp [hdigits] at hd
  · obtain rfl := List.mem_singleton.mp hd
    rcases h with rfl | rfl | rfl
    · exact htab rfl
    · exact hnewline rfl
    · exact hreturn rfl

end Adventure.Strings
