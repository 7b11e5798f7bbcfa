import Mathlib.Data.List.Induction
import Adventure.Text.Blank
import Adventure.Text.Lines

namespace Adventure.Text

section blanks

variable {c : Char} {text rest : List Char}

private theorem trimRight_concat_blank (h : isBlank c) : trimRight (text ++ [c]) = trimRight text := by
  simp [trimRight, h]

/-- What stands up to a character that is not blank stays. -/
theorem trimRight_append_cons (text : List Char) (h : isBlank c = false) :
    trimRight (text ++ c :: rest) = text ++ c :: trimRight rest := by
  simp only [trimRight, List.reverse_append, List.reverse_cons, List.append_assoc]
  rw [List.dropWhile_append]
  split
  case _ hall =>
    have hnil : rest.reverse.dropWhile isBlank = [] := by simpa using hall
    simp [hnil, h]
  case _ => simp

theorem trimRight_cons (h : isBlank c = false) : trimRight (c :: rest) = c :: trimRight rest :=
  trimRight_append_cons [] h

theorem trim_cons_blank (h : isBlank c) : trim (c :: rest) = trim rest := by
  simp [trim, h]

theorem trim_cons (h : isBlank c = false) : trim (c :: rest) = c :: trimRight rest := by
  rw [trim, List.dropWhile_cons_of_neg (by simp [h]), trimRight_cons h]

private theorem trimRight_eq_self (h : ∀ c ∈ text, isBlank c = false) : trimRight text = text := by
  induction text with
  | nil => rfl
  | cons c text ih =>
    obtain ⟨hc, htext⟩ := List.forall_mem_cons.mp h
    rw [trimRight_cons hc, ih htext]

theorem trim_eq_self (h : ∀ c ∈ text, isBlank c = false) : trim text = text := by
  cases text with
  | nil => rfl
  | cons c text =>
    obtain ⟨hc, htext⟩ := List.forall_mem_cons.mp h
    rw [trim_cons hc, trimRight_eq_self htext]

/-- What does not see a blank at the end of a text does not see it trimmed there. -/
theorem trimRight_congr {α : Type} {f : List Char → α}
    (hf : ∀ text c, isBlank c → f (text ++ [c]) = f text) (text : List Char) :
    f (trimRight text) = f text := by
  induction text using List.reverseRecOn with
  | nil => rfl
  | append_singleton text c ih =>
    by_cases hc : isBlank c
    · rw [trimRight_concat_blank hc, ih, hf text c hc]
    · rw [trimRight_append_cons text (by simpa using hc)]
      rfl

theorem trim_concat_blank (h : isBlank c) : trim (text ++ [c]) = trim text := by
  unfold trim
  rw [List.dropWhile_append]
  split
  case _ hall =>
    have hnil : text.dropWhile isBlank = [] := by simpa using hall
    simp [hnil, h]
  case _ => rw [trimRight_concat_blank h]

theorem trim_blanks_append {blanks : List Char} (h : ∀ c ∈ blanks, isBlank c) (text : List Char) :
    trim (blanks ++ text) = trim text := by
  induction blanks with
  | nil => rfl
  | cons c blanks ih =>
    obtain ⟨hc, hblanks⟩ := List.forall_mem_cons.mp h
    rw [List.cons_append, trim_cons_blank hc, ih hblanks]

theorem trim_append_blanks {blanks : List Char} (h : ∀ c ∈ blanks, isBlank c) (text : List Char) :
    trim (text ++ blanks) = trim text := by
  induction blanks using List.reverseRecOn with
  | nil => rw [List.append_nil]
  | append_singleton blanks c ih =>
    obtain ⟨hblanks, hc⟩ := List.forall_mem_append.mp h
    rw [← List.append_assoc, trim_concat_blank (hc c (List.mem_singleton_self c)), ih hblanks]

theorem head?_of_trimRight (h : (trimRight text).head? = some c) : text.head? = some c := by
  have hprefix : trimRight text <+: text := by
    rw [← List.reverse_suffix, trimRight, List.reverse_reverse]
    exact List.dropWhile_suffix _
  obtain ⟨blanks, htext⟩ := hprefix
  rw [← htext, List.head?_append, h]
  rfl

/-- A line of blanks, or the blanks before the first other character. -/
theorem blanks_or_exists_cons (text : List Char) : (∀ c ∈ text, isBlank c) ∨
    ∃ blanks c rest, text = blanks ++ c :: rest ∧ (∀ c ∈ blanks, isBlank c) ∧ isBlank c = false := by
  induction text with
  | nil => exact .inl (List.forall_mem_nil _)
  | cons c text ih =>
    cases hc : isBlank c with
    | false => exact .inr ⟨[], c, text, rfl, List.forall_mem_nil _, hc⟩
    | true =>
      rcases ih with hall | ⟨blanks, d, rest, rfl, hblanks, hd⟩
      · exact .inl (List.forall_mem_cons.mpr ⟨hc, hall⟩)
      · exact .inr ⟨c :: blanks, d, rest, rfl, List.forall_mem_cons.mpr ⟨hc, hblanks⟩, hd⟩

end blanks

section joined

variable {c separator : Char} {word : List Char} {words : List (List Char)}

theorem intercalate_cons (separator : Char) (word : List Char) (words : List (List Char)) :
    [separator].intercalate (word :: words) = word ++ words.flatMap (separator :: ·) := by
  induction words generalizing word with
  | nil => simp
  | cons next words ih => rw [List.intercalate_cons_cons, ih, List.flatMap_cons]; simp

theorem eq_or_mem_of_mem_intercalate (h : c ∈ [separator].intercalate words) :
    c = separator ∨ ∃ word ∈ words, c ∈ word := by
  cases words with
  | nil => cases h
  | cons word words =>
    rw [intercalate_cons, List.mem_append, List.mem_flatMap] at h
    rcases h with hword | ⟨next, hnext, hc⟩
    · exact .inr ⟨word, List.mem_cons_self, hword⟩
    · rcases List.mem_cons.mp hc with hseparator | hc
      · exact .inl hseparator
      · exact .inr ⟨next, List.mem_cons_of_mem _ hnext, hc⟩

end joined

theorem trim_dropReturn (line : List Char) : trim (dropReturn line) = trim line := by
  unfold dropReturn
  split
  case _ hlast =>
    obtain ⟨front, rfl⟩ := List.getLast?_eq_some_iff.mp hlast
    rw [List.dropLast_concat, trim_concat_blank (by decide)]
  case _ => rfl

theorem dropReturn_eq_self {line : List Char} (h : '\r' ∉ line) : dropReturn line = line :=
  if_neg fun hlast => h (List.mem_of_getLast? hlast)

theorem numbered_map_snd (content : List (List Char)) : (numbered content).map Prod.snd = content := by
  rw [numbered, List.map_map]
  exact (List.map_congr_left fun _ _ => rfl).trans (List.zipIdx_map_fst 0 content)

private theorem splitOn_unlines {content : List (List Char)} (h : ∀ line ∈ content, '\n' ∉ line) :
    (unlines content).splitOn '\n' = content ++ [[]] := by
  induction content with
  | nil => rfl
  | cons line content ih =>
    obtain ⟨hline, hcontent⟩ := List.forall_mem_cons.mp h
    have hunlines : unlines (line :: content) = line ++ '\n' :: unlines content := by
      simp [unlines]
    rw [hunlines, List.splitOn_append_cons_self_of_not_mem hline, ih hcontent, List.cons_append]

/-- Lines that are joined to a document are its lines again. -/
theorem lines_unlines {content : List (List Char)} (h : ∀ line ∈ content, '\n' ∉ line) :
    lines (unlines content) = content.map dropReturn := by
  simp [lines, splitOn_unlines h]

end Adventure.Text
