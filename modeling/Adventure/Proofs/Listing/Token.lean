import Mathlib.Algebra.Ring.Nat
import Adventure.Listing.Token
import Adventure.Proofs.Text.Lines
import Adventure.Proofs.Text.Numeral

namespace Adventure.Listing

variable {inQuote : Bool} {c : Char} {current text rest : List Char} {tokens found : List String}

section steps

theorem tokensFrom_escape : tokensFrom true current tokens ('\\' :: c :: rest) =
    tokensFrom true (c :: '\\' :: current) tokens rest := by
  simp [tokensFrom.eq_def true current tokens ('\\' :: c :: rest)]

theorem tokensFrom_inside (h : c ≠ '\\') : tokensFrom true current tokens (c :: rest) =
    tokensFrom (c ≠ '"') (c :: current) tokens rest := by
  simp [tokensFrom.eq_def true current tokens (c :: rest), h]

theorem tokensFrom_quote : tokensFrom false current tokens ('"' :: rest) =
    tokensFrom true ('"' :: current) tokens rest := by
  simp [tokensFrom.eq_def false current tokens ('"' :: rest)]

private theorem tokensFrom_comment (h : rest.head? = some '/') :
    tokensFrom false current tokens ('/' :: rest) = some (closeToken current tokens).reverse := by
  simp [tokensFrom.eq_def false current tokens ('/' :: rest), h]

theorem tokensFrom_blank (h : Text.isBlank c) : tokensFrom false current tokens (c :: rest) =
    tokensFrom false [] (closeToken current tokens) rest := by
  have hquote : c ≠ '"' := by
    rintro rfl
    cases h
  have hslash : c ≠ '/' := by
    rintro rfl
    cases h
  simp [tokensFrom.eq_def false current tokens (c :: rest), hquote, hslash, h]

theorem tokensFrom_char (hquote : c ≠ '"') (hcomment : ¬(c = '/' ∧ rest.head? = some '/'))
    (hblank : ¬Text.isBlank c) : tokensFrom false current tokens (c :: rest) =
      tokensFrom false (c :: current) tokens rest := by
  rw [tokensFrom.eq_def false current tokens (c :: rest)]
  simp only [Bool.false_eq_true, if_false, if_neg hquote, if_neg hcomment, if_neg hblank]

theorem closeToken_of_ne_nil (h : current ≠ []) :
    closeToken current tokens = String.ofList current.reverse :: tokens := by
  simp [closeToken, h]

end steps

section lengths

private theorem sum_length_closeToken :
    ((closeToken current tokens).map String.length).sum =
      current.length + (tokens.map String.length).sum := by
  unfold closeToken
  split
  case _ hempty => simp [List.isEmpty_iff.mp hempty]
  case _ => simp

/-- Tokens hold no more characters than their line. -/
theorem sum_length_tokensFrom (h : tokensFrom inQuote current tokens text = some found) :
    (found.map String.length).sum ≤
      current.length + text.length + (tokens.map String.length).sum := by
  fun_induction tokensFrom inQuote current tokens text with
  | case1 => cases h
  | case2 =>
    cases h
    simp [List.map_reverse, List.sum_reverse, sum_length_closeToken]
  | case3 => cases h
  | case4 _ _ _ _ ih =>
    have := ih h
    simp only [List.length_cons] at this ⊢
    omega
  | case5 _ _ _ _ _ ih =>
    have := ih h
    simp only [List.length_cons] at this ⊢
    omega
  | case6 _ _ _ _ _ ih =>
    have := ih h
    simp only [List.length_cons] at this ⊢
    omega
  | case7 =>
    cases h
    simp only [List.map_reverse, List.sum_reverse, sum_length_closeToken]
    omega
  | case8 _ _ _ _ _ _ _ _ _ ih =>
    have := ih h
    rw [sum_length_closeToken] at this
    simp only [List.length_cons, List.length_nil] at this ⊢
    omega
  | case9 _ _ _ _ _ _ _ _ _ ih =>
    have := ih h
    simp only [List.length_cons] at this ⊢
    omega

end lengths

section blanks

variable {blank : Char}

/-- A blank at the end of a line separates nothing. -/
theorem tokensFrom_concat_blank (hblank : Text.isBlank blank) :
    tokensFrom inQuote current tokens (text ++ [blank]) = tokensFrom inQuote current tokens text := by
  have hescape : blank ≠ '\\' := by
    rintro rfl
    cases hblank
  have hquote : blank ≠ '"' := by
    rintro rfl
    cases hblank
  have hslash : blank ≠ '/' := by
    rintro rfl
    cases hblank
  fun_induction tokensFrom inQuote current tokens text with
  | case1 =>
    rw [List.nil_append, tokensFrom_inside hescape, decide_eq_true hquote, tokensFrom.eq_def]
    rfl
  | case2 inQuote current tokens h =>
    obtain rfl : inQuote = false := by simpa using h
    rw [List.nil_append, tokensFrom_blank hblank]
    rfl
  | case3 =>
    rw [List.singleton_append, tokensFrom_escape, tokensFrom.eq_def]
    rfl
  | case4 _ _ _ _ ih => rw [List.cons_append, List.cons_append, tokensFrom_escape, ih]
  | case5 _ _ _ _ hc ih => rw [List.cons_append, tokensFrom_inside hc, ih]
  | case6 inQuote _ _ _ h ih =>
    obtain rfl : inQuote = false := by simpa using h
    rw [List.cons_append, tokensFrom_quote, ih]
  | case7 inQuote _ _ _ rest h _ hcomment =>
    obtain rfl : inQuote = false := by simpa using h
    obtain ⟨rfl, hhead⟩ := hcomment
    rw [List.cons_append, tokensFrom_comment]
    rw [List.head?_append, hhead]
    rfl
  | case8 inQuote _ _ _ _ h _ _ hc ih =>
    obtain rfl : inQuote = false := by simpa using h
    rw [List.cons_append, tokensFrom_blank hc, ih]
  | case9 inQuote _ _ c rest h hc hcomment hspace ih =>
    obtain rfl : inQuote = false := by simpa using h
    rw [List.cons_append, tokensFrom_char hc ?_ hspace, ih]
    rintro ⟨rfl, hhead⟩
    cases rest with
    | nil => exact hslash (by simpa using hhead)
    | cons next rest => exact hcomment ⟨rfl, hhead⟩

theorem tokens_trimRight (line : Nat) (content : List Char) :
    Listing.tokens line (Text.trimRight content) = Listing.tokens line content := by
  refine Text.trimRight_congr (fun text blank hblank => ?_) content
  rw [Listing.tokens, tokensFrom_concat_blank hblank, Listing.tokens]

/-- Text that goes on with a token to its end is set off by a blank behind it. -/
theorem tokensFrom_append_blank (hblank : Text.isBlank blank)
    (h : tokensFrom inQuote current [] text = some [String.ofList (current.reverse ++ text)])
    (hne : current.reverse ++ text ≠ []) :
    tokensFrom inQuote current tokens (text ++ blank :: rest) =
      tokensFrom false [] (String.ofList (current.reverse ++ text) :: tokens) rest := by
  generalize hnone : ([] : List String) = none at h
  fun_induction tokensFrom inQuote current none text with
  | case1 => cases h
  | case2 inQuote current _ hquote =>
    obtain rfl : inQuote = false := by simpa using hquote
    have hcurrent : current ≠ [] := by simpa using hne
    rw [List.nil_append, tokensFrom_blank hblank, closeToken_of_ne_nil hcurrent, List.append_nil]
  | case3 => cases h
  | case4 current _ c text ih =>
    rw [List.cons_append, List.cons_append, tokensFrom_escape]
    simpa using ih (by simp) hnone (by simpa using h)
  | case5 current _ c text hc ih =>
    rw [List.cons_append, tokensFrom_inside hc]
    simpa using ih (by simp) hnone (by simpa using h)
  | case6 inQuote current _ text hquote ih =>
    obtain rfl : inQuote = false := by simpa using hquote
    rw [List.cons_append, tokensFrom_quote]
    simpa using ih (by simp) hnone (by simpa using h)
  | case7 inQuote current _ c text hquote hc hcomment =>
    subst hnone
    have hlength := congrArg (fun tokens => (tokens.map String.length).sum) (Option.some.inj h)
    simp only [List.map_reverse, List.sum_reverse, sum_length_closeToken] at hlength
    simp at hlength
  | case8 inQuote current _ c text hquote hc hcomment hspace ih =>
    subst hnone
    have hlength := sum_length_tokensFrom h
    rw [sum_length_closeToken] at hlength
    simp at hlength
    omega
  | case9 inQuote current _ c text hquote hc hcomment hspace ih =>
    obtain rfl : inQuote = false := by simpa using hquote
    have hcomment' : ¬(c = '/' ∧ (text ++ blank :: rest).head? = some '/') := by
      rintro ⟨rfl, hhead⟩
      cases text with
      | nil =>
        obtain rfl : blank = '/' := by simpa using hhead
        cases hblank
      | cons next text => exact hcomment ⟨rfl, hhead⟩
    rw [List.cons_append, tokensFrom_char hc hcomment' hspace]
    simpa using ih (by simp) hnone (by simpa using h)

end blanks

section words

/-- A word that alone is one token of a line. -/
def IsToken (word : List Char) : Prop :=
  tokensFrom false [] [] word = some [String.ofList word] ∧ '\n' ∉ word

instance (word : List Char) : Decidable (IsToken word) := inferInstanceAs (Decidable (_ ∧ _))

theorem IsToken.ne_nil {word : List Char} (h : IsToken word) : word ≠ [] := by
  rintro rfl
  cases h.1

/-- Earlier tokens stand before those of the rest of a line. -/
theorem tokensFrom_eq_map (inQuote : Bool) (current text : List Char) (tokens : List String) :
    tokensFrom inQuote current tokens text =
      (tokensFrom inQuote current [] text).map (tokens.reverse ++ ·) := by
  have hclose : ∀ (current : List Char) (earlier : List String),
      closeToken current (earlier ++ tokens) = closeToken current earlier ++ tokens := by
    intro current earlier
    unfold closeToken
    split <;> rfl
  suffices h : ∀ earlier, tokensFrom inQuote current (earlier ++ tokens) text =
      (tokensFrom inQuote current earlier text).map (tokens.reverse ++ ·) from h []
  intro earlier
  fun_induction tokensFrom inQuote current earlier text with
  | case1 => rfl
  | case2 inQuote _ _ hquote =>
    obtain rfl : inQuote = false := by simpa using hquote
    rw [tokensFrom.eq_def, hclose]
    simp
  | case3 => rfl
  | case4 _ _ _ _ ih => rw [tokensFrom_escape, ih]
  | case5 _ _ _ _ hc ih => rw [tokensFrom_inside hc, ih]
  | case6 inQuote _ _ _ hquote ih =>
    obtain rfl : inQuote = false := by simpa using hquote
    rw [tokensFrom_quote, ih]
  | case7 inQuote _ _ _ _ hquote _ hcomment =>
    obtain rfl : inQuote = false := by simpa using hquote
    obtain ⟨rfl, hhead⟩ := hcomment
    rw [tokensFrom_comment hhead, hclose]
    simp
  | case8 inQuote _ _ _ _ hquote _ _ hspace ih =>
    obtain rfl : inQuote = false := by simpa using hquote
    rw [tokensFrom_blank hspace, hclose, ih]
  | case9 inQuote _ _ _ _ hquote hc hcomment hspace ih =>
    obtain rfl : inQuote = false := by simpa using hquote
    rw [tokensFrom_char hc hcomment hspace, ih]

/-- A token begins with a character that neither separates tokens nor begins a comment. -/
theorem IsToken.exists_cons {word : List Char} (h : IsToken word) : ∃ c rest, word = c :: rest ∧
    Text.isBlank c = false ∧ ¬(c = '/' ∧ rest.head? = some '/') := by
  cases word with
  | nil => exact absurd rfl h.ne_nil
  | cons c rest =>
    refine ⟨c, rest, rfl, ?_, ?_⟩
    · by_contra hblank
      have htokens := h.1
      rw [tokensFrom_blank (by simpa using hblank)] at htokens
      have hlength := sum_length_tokensFrom htokens
      have hnone : closeToken [] [] = [] := rfl
      simp only [hnone, List.map_cons, List.map_nil, List.sum_cons, List.sum_nil, String.length_ofList,
        List.length_cons, List.length_nil] at hlength
      omega
    · rintro ⟨rfl, hhead⟩
      have htokens := h.1
      rw [tokensFrom_comment hhead] at htokens
      cases htokens

/-- What follows a word on its line: words that blanks set off, and perhaps a comment behind them. -/
inductive SetOff : List (List Char) → List Char → Prop
  | nil {gap : List Char} (hgap : ∀ c ∈ gap, Text.isBlank c) : SetOff [] gap
  | comment {gap comment : List Char} (hgap : ∀ c ∈ gap, Text.isBlank c) (hne : gap ≠ []) :
      SetOff [] (gap ++ '/' :: '/' :: comment)
  | word {gap word rest : List Char} {words : List (List Char)} (hgap : ∀ c ∈ gap, Text.isBlank c)
      (hne : gap ≠ []) (tail : SetOff words rest) : SetOff (word :: words) (gap ++ (word ++ rest))

theorem SetOff.isBlank_head {words : List (List Char)} (h : SetOff words rest) (hc : rest.head? = some c) :
    Text.isBlank c := by
  have hgap : ∀ {gap more : List Char}, (∀ c ∈ gap, Text.isBlank c) → gap ≠ [] →
      (gap ++ more).head? = some c → Text.isBlank c := by
    intro gap more hgap hne hc
    obtain ⟨blank, gap, rfl⟩ := List.exists_cons_of_ne_nil hne
    cases hc
    exact hgap _ List.mem_cons_self
  cases h with
  | nil hblanks => exact hblanks c (List.mem_of_head? hc)
  | comment hblanks hne => exact hgap hblanks hne hc
  | word hblanks hne => exact hgap hblanks hne hc

/-- A character that is not blank is no part of what is set off. -/
theorem SetOff.head?_append {words : List (List Char)} (h : SetOff words rest) (hc : Text.isBlank c = false)
    (text : List Char) : (text ++ rest).head? = some c ↔ text.head? = some c := by
  cases text with
  | nil =>
    have hne : rest.head? ≠ some c := fun hhead => by
      have hblank := h.isBlank_head hhead
      rw [hc] at hblank
      cases hblank
    simp [hne]
  | cons next text => rfl

private theorem tokensFrom_gap {gap : List Char} (hgap : ∀ c ∈ gap, Text.isBlank c) :
    tokensFrom false [] tokens (gap ++ rest) = tokensFrom false [] tokens rest := by
  induction gap with
  | nil => rfl
  | cons c gap ih =>
    obtain ⟨hc, hgap⟩ := List.forall_mem_cons.mp hgap
    rw [List.cons_append, tokensFrom_blank hc]
    exact ih hgap

/-- Blanks and a comment end a token and add none. -/
theorem tokensFrom_of_setOff (h : SetOff [] rest) :
    tokensFrom false current tokens rest = some (closeToken current tokens).reverse := by
  have hend : ∀ {gap more : List Char}, (∀ c ∈ gap, Text.isBlank c) → gap ≠ [] →
      tokensFrom false current tokens (gap ++ more) = tokensFrom false [] (closeToken current tokens) more := by
    intro gap more hgap hne
    obtain ⟨blank, gap, rfl⟩ := List.exists_cons_of_ne_nil hne
    obtain ⟨hblank, hgap⟩ := List.forall_mem_cons.mp hgap
    rw [List.cons_append, tokensFrom_blank hblank, tokensFrom_gap hgap]
  cases h with
  | nil hgap =>
    rcases eq_or_ne rest [] with rfl | hne
    · rw [tokensFrom.eq_def]
      rfl
    · rw [← List.append_nil rest, hend hgap hne, tokensFrom.eq_def]
      rfl
  | comment hgap hne =>
    rw [hend hgap hne, tokensFrom_comment rfl]
    rfl

/-- The tokens of a line are those of a longer line, where blanks and a comment are behind them. -/
theorem tokensFrom_append_setOff (hrest : SetOff [] rest)
    (h : tokensFrom inQuote current tokens text = some found) :
    tokensFrom inQuote current tokens (text ++ rest) = some found := by
  fun_induction tokensFrom inQuote current tokens text with
  | case1 => cases h
  | case2 inQuote _ _ hquote =>
    obtain rfl : inQuote = false := by simpa using hquote
    rw [List.nil_append, tokensFrom_of_setOff hrest, h]
  | case3 => cases h
  | case4 _ _ _ _ ih => rw [List.cons_append, List.cons_append, tokensFrom_escape, ih h]
  | case5 _ _ _ _ hc ih => rw [List.cons_append, tokensFrom_inside hc, ih h]
  | case6 inQuote _ _ _ hquote ih =>
    obtain rfl : inQuote = false := by simpa using hquote
    rw [List.cons_append, tokensFrom_quote, ih h]
  | case7 inQuote _ _ _ _ hquote _ hcomment =>
    obtain rfl : inQuote = false := by simpa using hquote
    obtain ⟨rfl, hhead⟩ := hcomment
    rw [List.cons_append, tokensFrom_comment, h]
    rw [List.head?_append, hhead]
    rfl
  | case8 inQuote _ _ _ _ hquote _ _ hspace ih =>
    obtain rfl : inQuote = false := by simpa using hquote
    rw [List.cons_append, tokensFrom_blank hspace, ih h]
  | case9 inQuote _ _ c text hquote hc hcomment hspace ih =>
    obtain rfl : inQuote = false := by simpa using hquote
    rw [List.cons_append, tokensFrom_char hc ?_ hspace, ih h]
    rwa [hrest.head?_append (by decide)]

theorem tokens_append_setOff {line : Nat} (hrest : SetOff [] rest) (h : Listing.tokens line text = .ok found) :
    Listing.tokens line (text ++ rest) = .ok found := by
  unfold Listing.tokens at h ⊢
  split at h
  case _ htokens =>
    rw [tokensFrom_append_setOff hrest htokens]
    exact h
  case _ => cases h

private theorem tokensFrom_word {word gap : List Char} (h : IsToken word) (hgap : ∀ c ∈ gap, Text.isBlank c)
    (hne : gap ≠ []) : tokensFrom false [] tokens (word ++ (gap ++ rest)) =
      tokensFrom false [] (String.ofList word :: tokens) rest := by
  obtain ⟨blank, gap, rfl⟩ := List.exists_cons_of_ne_nil hne
  obtain ⟨hblank, hgap⟩ := List.forall_mem_cons.mp hgap
  rw [List.cons_append, tokensFrom_append_blank hblank h.1 (by simpa using h.ne_nil), tokensFrom_gap hgap]
  rfl

/-- Words that are set off are the tokens of a line. -/
theorem tokensFrom_setOff {word : List Char} {words : List (List Char)} (h : IsToken word)
    (hrest : SetOff words rest) (hwords : ∀ word ∈ words, IsToken word) :
    tokensFrom false [] tokens (word ++ rest) =
      some (tokens.reverse ++ (word :: words).map String.ofList) := by
  induction hrest generalizing word tokens with
  | nil hgap =>
    rw [tokensFrom_eq_map, tokensFrom_append_setOff (.nil hgap) h.1]
    rfl
  | comment hgap hne =>
    rw [tokensFrom_eq_map, tokensFrom_append_setOff (.comment hgap hne) h.1]
    rfl
  | word hgap hne _ ih =>
    obtain ⟨hnext, hwords⟩ := List.forall_mem_cons.mp hwords
    rw [tokensFrom_word h hgap hne, ih hnext hwords]
    simp

/-- What may stand behind the last token of a line: nothing, or a comment. -/
def Tail (text : List Char) : Prop := text = [] ∨ ∃ comment, text = " //".toList ++ comment

theorem SetOff.of_tail {tail : List Char} (htail : Tail tail) (words : List (List Char)) :
    SetOff words (words.flatMap (' ' :: ·) ++ tail) := by
  have hblank : ∀ c ∈ [' '], Text.isBlank c := List.forall_mem_singleton.mpr rfl
  have hne : [' '] ≠ [] := List.cons_ne_nil _ _
  induction words with
  | nil =>
    rcases htail with rfl | ⟨comment, rfl⟩
    · exact .nil (by simp)
    · exact .comment hblank hne
  | cons word words ih =>
    rw [List.flatMap_cons, List.append_assoc]
    exact .word hblank hne ih

/-- Words with blanks between them are the tokens of a line. -/
theorem tokensFrom_words {word tail : List Char} {words : List (List Char)} (h : IsToken word)
    (hwords : ∀ word ∈ words, IsToken word) (htail : Tail tail) :
    tokensFrom false [] tokens (word ++ words.flatMap (' ' :: ·) ++ tail) =
      some (tokens.reverse ++ (word :: words).map String.ofList) := by
  rw [List.append_assoc]
  exact tokensFrom_setOff h (.of_tail htail words) hwords

/-- A word without blanks, quotes and comments. -/
structure Plain (word : List Char) : Prop where
  ne_nil : word ≠ []
  noBlank : ∀ c ∈ word, Text.isBlank c = false
  noQuote : '"' ∉ word
  noComment : ¬['/', '/'] <:+: word

theorem Plain.isToken {word : List Char} (h : Plain word) : IsToken word := by
  have hgo : ∀ text current : List Char, current.reverse ++ text = word →
      tokensFrom false current [] text = some [String.ofList word] := by
    intro text
    induction text with
    | nil =>
      intro current hword
      have hne : current ≠ [] := by
        rintro rfl
        exact h.ne_nil hword.symm
      rw [tokensFrom.eq_def]
      simp [closeToken_of_ne_nil hne, ← hword]
    | cons c text ih =>
      intro current hword
      have hmem : c ∈ word := by simp [← hword]
      have hquote : c ≠ '"' := by
        rintro rfl
        exact h.noQuote hmem
      have hcomment : ¬(c = '/' ∧ text.head? = some '/') := by
        rintro ⟨rfl, hhead⟩
        obtain ⟨rest, rfl⟩ := List.head?_eq_some_iff.mp hhead
        exact h.noComment ⟨current.reverse, rest, by rw [← hword]; simp⟩
      have hblank : ¬Text.isBlank c := by simp [h.noBlank c hmem]
      rw [tokensFrom_char hquote hcomment hblank]
      exact ih (c :: current) (by simpa using hword)
  refine ⟨hgo word [] rfl, fun hnewline => ?_⟩
  have hblank := h.noBlank '\n' hnewline
  revert hblank
  decide

/-- A character that ends no word wherever it stands. -/
def wordChar (c : Char) : Bool := !Text.isBlank c && c != '"' && c != '/'

theorem wordChar_of_isDigit {c : Char} (h : c.isDigit) : wordChar c := by
  have hquote : c ≠ '"' := by
    rintro rfl
    cases h
  have hslash : c ≠ '/' := by
    rintro rfl
    cases h
  simp [wordChar, Text.not_isBlank_of_isDigit h, hquote, hslash]

theorem plain_of_wordChar {word : List Char} (hne : word ≠ []) (h : ∀ c ∈ word, wordChar c) :
    Plain word where
  ne_nil := hne
  noBlank c hc := by
    have := h c hc
    simp only [wordChar, Bool.and_eq_true, Bool.not_eq_true'] at this
    exact this.1.1
  noQuote hquote := by
    have := h '"' hquote
    revert this
    decide
  noComment := by
    rintro ⟨front, rest, rfl⟩
    have := h '/' (by simp)
    revert this
    decide

end words

section ends

variable {opening closing : Char} {inner token : List Char}

theorem between?_eq_some_iff :
    between? opening closing token = some inner ↔ token = opening :: inner ++ [closing] := by
  unfold between?
  split
  · simp
  case _ first rest =>
    constructor
    · intro h
      split at h
      case _ hends =>
        obtain ⟨rfl, hlast⟩ := hends
        cases h
        obtain ⟨front, rfl⟩ := List.getLast?_eq_some_iff.mp hlast
        simp
      case _ => cases h
    · intro h
      obtain ⟨rfl, rfl⟩ := List.cons.inj h
      simp

theorem between?_eq_none (h : token.head? ≠ some opening) : between? opening closing token = none := by
  rw [Option.eq_none_iff_forall_ne_some]
  intro inner hinner
  rw [between?_eq_some_iff] at hinner
  exact h (by simp [hinner])

theorem quotedText?_eq_ok_none_iff {line : Nat} :
    quotedText? line token = .ok none ↔ between? '"' '"' token = none := by
  unfold quotedText?
  split
  case _ hbetween => simp [hbetween]
  case _ hbetween =>
    split <;> simp [hbetween]

theorem quotedText?_eq_ok_some_iff {line : Nat} {text : List Char} :
    quotedText? line token = .ok (some text) ↔
      ∃ inner, token = '"' :: inner ++ ['"'] ∧ Strings.unescape inner = .ok text := by
  simp only [← between?_eq_some_iff]
  unfold quotedText?
  split
  case _ hbetween => simp [hbetween]
  case _ inner hbetween =>
    simp only [hbetween, Option.some.injEq, exists_eq_left']
    cases Strings.unescape inner <;> simp

end ends

end Adventure.Listing
