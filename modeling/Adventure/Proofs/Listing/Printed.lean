import Adventure.Listing.Print
import Adventure.Listing.Source
import Adventure.Proofs.Listing.Token
import Adventure.Proofs.Strings.Escape

namespace Adventure.Listing

open Text

section characters

theorem wordChar_decimal (n : Nat) : ∀ c ∈ decimal n, wordChar c :=
  fun _ hc => wordChar_of_isDigit (isDigit_of_mem_decimal hc)

private theorem wordChar_commaList (values : List UInt16) : ∀ c ∈ commaList values, wordChar c := by
  intro c hc
  rcases eq_or_mem_of_mem_intercalate hc with rfl | ⟨word, hword, hc⟩
  · decide
  · obtain ⟨value, -, rfl⟩ := List.mem_map.mp hword
    exact wordChar_decimal _ c hc

private theorem wordChar_labelName (ordinal : Nat) : ∀ c ∈ Labels.name ordinal, wordChar c := by
  simp only [Labels.name, List.leftpad, List.forall_mem_cons, List.forall_mem_append,
    List.mem_replicate]
  refine ⟨by decide, ?_, wordChar_decimal ordinal⟩
  rintro c ⟨-, rfl⟩
  decide

private theorem wordChar_marker (opcode : UInt8) : ∀ c ∈ Context.marker opcode, wordChar c := by
  have h : ∀ n : Fin 256, ("(0x".toList ++ hexPadded 2 n.val ++ [')']).all wordChar := by
    decide +kernel
  exact List.all_eq_true.mp (h ⟨opcode.toNat, opcode.toNat_lt⟩)

end characters

namespace Context

variable (context : Context)

private theorem operand_plain (operand : Operand) : Plain (context.operand operand) := by
  have hdigits := wordChar_decimal
  cases operand with
  | byte value => exact plain_of_wordChar (decimal_ne_nil _) (hdigits _)
  | var number =>
    refine plain_of_wordChar (by simp [operand]) ?_
    simp only [operand, List.forall_mem_append, List.forall_mem_singleton]
    exact ⟨⟨by decide, hdigits _⟩, by decide⟩
  | word kind value => exact plain_of_wordChar (decimal_ne_nil _) (hdigits _)
  | text ref =>
    cases ref with
    | none => exact plain_of_wordChar (by simp [operand]) (List.all_eq_true.mp rfl)
    | special => exact plain_of_wordChar (by simp [operand]) (List.all_eq_true.mp rfl)
    | id id => exact plain_of_wordChar (decimal_ne_nil _) (hdigits _)
  | item ref =>
    cases ref with
    | special code =>
      simp only [operand]
      split
      case _ name hname =>
        have hnames : ∀ special ∈ ItemRef.specialItems,
            special.2.toList ≠ [] ∧ special.2.toList.all wordChar := by decide
        obtain ⟨special, hspecial, rfl⟩ := Option.map_eq_some_iff.mp hname
        obtain ⟨hne, hchars⟩ := hnames special (List.mem_of_find?_eq_some hspecial)
        exact plain_of_wordChar hne (List.all_eq_true.mp hchars)
      case _ =>
        refine plain_of_wordChar (List.cons_ne_nil _ _) ?_
        exact List.forall_mem_cons.mpr ⟨by decide, hdigits _⟩
    | id item =>
      refine plain_of_wordChar (by simp [operand]) ?_
      simp only [operand, List.forall_mem_append, List.forall_mem_singleton]
      exact ⟨⟨by decide, hdigits _⟩, by decide⟩
  | jump target =>
    simp only [operand]
    split
    · exact plain_of_wordChar (List.cons_ne_nil _ _) (wordChar_labelName _)
    · exact plain_of_wordChar (decimal_ne_nil _) (hdigits _)
  | list values =>
    refine plain_of_wordChar (by simp [operand]) ?_
    simp only [operand, List.forall_mem_append, List.forall_mem_singleton]
    exact ⟨⟨by decide, wordChar_commaList values⟩, by decide⟩

private theorem newline_not_mem_notes {operand : Operand} {note : List Char}
    (h : note ∈ context.notes operand) : '\n' ∉ note := by
  have hcommaList : ∀ values, '\n' ∉ commaList values := fun values hnewline => by
    have := wordChar_commaList values '\n' hnewline
    revert this
    decide
  unfold notes at h
  split at h
  case _ id =>
    simp only [List.mem_cons] at h
    rcases h with rfl | h
    · split <;> simp [Strings.not_mem_escape]
    · split at h
      · rw [List.mem_singleton] at h
        subst h
        simp [hcommaList]
      · cases h
  case _ item =>
    split at h
    · rw [List.mem_singleton] at h
      subst h
      simp [Strings.not_mem_escape]
    · cases h
  case _ => cases h

/-- The words of a command before its comment. -/
def commandWords (command : Command) : List (List Char) :=
  (context.labels[command.offset]?.map fun ordinal => Labels.name ordinal ++ [':']).toList ++
    [marker command.opcode, (context.mnemonic command.opcode).toList] ++
    command.operands.map context.operand

variable {context} {command : Command}

private theorem commandWords_isToken (h : IsToken (context.mnemonic command.opcode).toList) :
    ∀ word ∈ context.commandWords command, IsToken word := by
  have hmarker : IsToken (marker command.opcode) :=
    (plain_of_wordChar (by simp [marker]) (wordChar_marker _)).isToken
  have hlabel : ∀ ordinal, IsToken (Labels.name ordinal ++ [':']) := fun ordinal => by
    refine (plain_of_wordChar (by simp) ?_).isToken
    rw [List.forall_mem_append, List.forall_mem_singleton]
    exact ⟨wordChar_labelName ordinal, by decide⟩
  intro word hword
  simp only [commandWords, List.mem_append, Option.mem_toList, List.mem_map,
    Option.map_eq_some_iff, List.mem_cons, List.not_mem_nil, or_false] at hword
  rcases hword with (⟨ordinal, -, rfl⟩ | rfl | rfl) | ⟨operand, -, rfl⟩
  · exact hlabel ordinal
  · exact hmarker
  · exact h
  · exact (context.operand_plain operand).isToken

/-- The comment behind a command, which may be empty. -/
def comment (context : Context) (command : Command) : List Char :=
  let notes := command.operands.flatMap context.notes
  if notes.isEmpty then [] else " // ".toList ++ [' '].intercalate notes

private theorem comment_tail (context : Context) (command : Command) : Tail (context.comment command) := by
  by_cases hnotes : (command.operands.flatMap context.notes).isEmpty
  · exact .inl (if_pos hnotes)
  · exact .inr ⟨' ' :: [' '].intercalate (command.operands.flatMap context.notes), if_neg hnotes⟩

private theorem newline_not_mem_comment (context : Context) (command : Command) :
    '\n' ∉ context.comment command := by
  intro h
  by_cases hnotes : (command.operands.flatMap context.notes).isEmpty
  · rw [show context.comment command = [] from if_pos hnotes] at h
    cases h
  · rw [show context.comment command = _ from if_neg hnotes, List.mem_append] at h
    rcases h with h | h
    · revert h
      decide
    · rcases eq_or_mem_of_mem_intercalate h with h | ⟨note, hnote, h⟩
      · cases h
      · obtain ⟨operand, -, hnote⟩ := List.mem_flatMap.mp hnote
        exact context.newline_not_mem_notes hnote h

/-- The parts of a printed command. -/
theorem command_def (context : Context) (command : Command) : context.command command =
    ((context.labels[command.offset]?.map fun ordinal => Labels.name ordinal ++ [':', ' ']).getD []) ++
      marker command.opcode ++ [' '] ++ (context.mnemonic command.opcode).toList ++
      command.operands.flatMap (fun operand => ' ' :: context.operand operand) ++
      context.comment command := by
  rw [Context.command]
  cases context.labels[command.offset]? <;> rfl

/-- A command is its words with blanks between them, and a comment. -/
theorem command_eq (context : Context) (command : Command) :
    ∃ word words, context.commandWords command = word :: words ∧
      context.command command = word ++ words.flatMap (' ' :: ·) ++ context.comment command := by
  have hoperands : command.operands.flatMap (fun operand => ' ' :: context.operand operand) =
      (command.operands.map context.operand).flatMap (' ' :: ·) := by
    rw [List.flatMap_map]
  cases hlabel : context.labels[command.offset]? with
  | none =>
    refine ⟨marker command.opcode,
      (context.mnemonic command.opcode).toList :: command.operands.map context.operand,
      by simp [commandWords, hlabel], ?_⟩
    rw [command_def, hlabel, hoperands]
    simp
  | some ordinal =>
    refine ⟨Labels.name ordinal ++ [':'], marker command.opcode ::
      (context.mnemonic command.opcode).toList :: command.operands.map context.operand,
      by simp [commandWords, hlabel], ?_⟩
    rw [command_def, hlabel, hoperands]
    simp

/-- The tokens of a printed command are its words. -/
theorem tokens_command (h : IsToken (context.mnemonic command.opcode).toList) (line : Nat) :
    tokens line (context.command command) =
      .ok ((context.commandWords command).map String.ofList) := by
  obtain ⟨word, words, hwords, hcommand⟩ := context.command_eq command
  have htokens := commandWords_isToken h
  rw [hwords, List.forall_mem_cons] at htokens
  rw [hcommand, hwords, tokens,
    tokensFrom_words htokens.1 htokens.2 (context.comment_tail command)]
  rfl

theorem newline_not_mem_command (h : IsToken (context.mnemonic command.opcode).toList) :
    '\n' ∉ context.command command := by
  obtain ⟨word, words, hwords, hcommand⟩ := context.command_eq command
  have htokens := commandWords_isToken h
  rw [hwords, List.forall_mem_cons] at htokens
  rw [hcommand]
  simp only [List.mem_append, List.mem_flatMap, not_or, not_exists, not_and]
  refine ⟨⟨htokens.1.2, fun word hword hnewline => ?_⟩, context.newline_not_mem_comment command⟩
  rcases List.mem_cons.mp hnewline with hblank | hnewline
  · cases hblank
  · exact (htokens.2 word hword).2 hnewline

end Context

end Adventure.Listing
