import Adventure.Proofs.Text.Lines
import Adventure.Proofs.Text.Numeral

namespace Adventure.Text

variable {c : Char} {word text rest : List Char}

theorem words_append_blank (h : isBlank c) (text rest : List Char) :
    words (text ++ c :: rest) = words text ++ words rest := by
  rw [words, List.splitOnP_append_cons _ _ h, List.filter_append]
  rfl

theorem words_singleton (hword : ∀ c ∈ word, isBlank c = false) (hne : word ≠ []) :
    words word = [word] := by
  rw [words, List.splitOnP_eq_singleton hword, List.filter_cons_of_pos (by simpa using hne)]
  rfl

private theorem words_trimRight (text : List Char) : words (trimRight text) = words text := by
  refine trimRight_congr (fun text c hc => ?_) text
  rw [words_append_blank hc]
  exact List.append_nil _

theorem words_trim (text : List Char) : words (trim text) = words text := by
  rw [trim, words_trimRight]
  induction text with
  | nil => rfl
  | cons c text ih =>
    by_cases hc : isBlank c
    · rw [List.dropWhile_cons_of_pos hc, ih]
      exact (words_append_blank hc [] text).symm
    · rw [List.dropWhile_cons_of_neg hc]

theorem words_intercalate {content : List (List Char)}
    (h : ∀ word ∈ content, word ≠ [] ∧ ∀ c ∈ word, isBlank c = false) :
    words ([' '].intercalate content) = content := by
  induction content with
  | nil => rfl
  | cons word content ih =>
    obtain ⟨⟨hne, hword⟩, hcontent⟩ := List.forall_mem_cons.mp h
    cases content with
    | nil => simpa using words_singleton hword hne
    | cons next content =>
      rw [List.intercalate_cons_cons, List.append_assoc]
      have hblank := words_append_blank (c := ' ') (by decide) word
      have hwords := hblank ([' '].intercalate (next :: content))
      rw [ih hcontent, words_singleton hword hne] at hwords
      exact hwords

theorem trim_trimRight (text : List Char) : trim (trimRight text) = trim text :=
  trimRight_congr (fun _ _ hc => trim_concat_blank hc) text

theorem trim_decimal (n : Nat) : trim (decimal n) = decimal n :=
  trim_eq_self fun _ hc => not_isBlank_of_isDigit (isDigit_of_mem_decimal hc)

theorem trimRight_append_word (hword : ∀ c ∈ word, isBlank c = false) (rest : List Char) :
    trimRight (word ++ rest) = word ++ trimRight rest := by
  induction word with
  | nil => rfl
  | cons c word ih =>
    obtain ⟨hc, hword⟩ := List.forall_mem_cons.mp hword
    rw [List.cons_append, trimRight_cons hc, ih hword, List.cons_append]

/-- What is trimmed off the end leaves the start. -/
theorem eq_of_trimRight_cons {first : Char} {tail : List Char}
    (h : trimRight (c :: text) = first :: tail) : first = c := by
  have hprefix : trimRight (c :: text) <+: c :: text := by
    rw [trimRight, ← List.reverse_suffix, List.reverse_reverse]
    exact List.dropWhile_suffix _
  rw [h] at hprefix
  exact (List.cons_prefix_cons.mp hprefix).1

/-- A text that begins and ends with characters that are not blank. -/
theorem trim_between {first last : Char} (hfirst : isBlank first = false) (hlast : isBlank last = false)
    (text : List Char) : trim (first :: text ++ [last]) = first :: text ++ [last] := by
  rw [List.cons_append, trim_cons hfirst, trimRight_append_cons text hlast]
  rfl

end Adventure.Text
