import Adventure.Proofs.Outcome
import Adventure.Proofs.Listing.Printed

namespace Adventure.Listing

open Text

/-- A command of a script text says what a command of a record is printed as. -/
structure CommandListed (context : Context) (command : Command) (source : SourceCommand) : Prop where
  label : source.label =
    context.labels[command.offset]?.map fun ordinal => String.ofList (Labels.name ordinal)
  marker : source.marker = some (String.ofList (Context.marker command.opcode))
  mnemonic : source.mnemonic = context.mnemonic command.opcode
  operands : source.operands =
    command.operands.map fun operand => String.ofList (context.operand operand)

structure LineListed (context : Context) (line : Line) (source : SourceLine) : Prop where
  header : source.header = line.header
  commands : List.Forall₂ (CommandListed context) line.commands source.commands

structure TableListed (context : Context) (table : Table) (source : SourceTable) : Prop where
  number : source.number = table.number
  lines : List.Forall₂ (LineListed context) table.lines source.lines

/-- The lines and commands of an outline are last first. -/
def SourceLine.flip (line : SourceLine) : SourceLine := { line with commands := line.commands.reverse }

def SourceTable.flip (table : SourceTable) : SourceTable :=
  { table with lines := (table.lines.map SourceLine.flip).reverse }

section words

private theorem splitLabel_name (ordinal : Nat) (rest : List String) :
    splitLabel (String.ofList (Labels.name ordinal ++ [':']) :: rest) =
      (some (String.ofList (Labels.name ordinal)), rest) := by
  have hne : Labels.name ordinal ≠ [] := List.cons_ne_nil _ _
  simp only [splitLabel, String.toList_ofList, List.dropLast_concat, List.getLast?_concat]
  simp [hne]

private theorem splitLabel_marker (opcode : UInt8) (rest : List String) :
    splitLabel (String.ofList (Context.marker opcode) :: rest) =
      (none, String.ofList (Context.marker opcode) :: rest) := by
  have hlast : (Context.marker opcode).getLast? = some ')' := List.getLast?_concat
  simp [splitLabel, hlast]

private theorem splitMarker_marker (opcode : UInt8) (rest : List String) :
    splitMarker (String.ofList (Context.marker opcode) :: rest) =
      (some (String.ofList (Context.marker opcode)), rest) := by
  have hlast : (Context.marker opcode).getLast? = some ')' := List.getLast?_concat
  have h : isMarker (Context.marker opcode) := by
    rw [isMarker, hlast]
    rfl
  simp [splitMarker, h]

/-- The words of a printed command make that command. -/
theorem sourceCommand_commandWords (context : Context) (command : Command) (line : Nat) :
    ∃ source, sourceCommand line ((context.commandWords command).map String.ofList) = .ok source ∧
      CommandListed context command source := by
  have hmnemonic : String.ofList (context.mnemonic command.opcode).toList =
      context.mnemonic command.opcode := String.ofList_toList
  cases hlabel : context.labels[command.offset]? with
  | none =>
    refine ⟨⟨line, none, _, _, _⟩, ?_, ⟨by rw [hlabel]; rfl, rfl, rfl, rfl⟩⟩
    simp only [Context.commandWords, hlabel, Option.map_none, Option.toList_none, List.nil_append,
      List.cons_append, List.map_cons, List.map_map, sourceCommand, splitLabel_marker,
      splitMarker_marker, hmnemonic]
    rfl
  | some ordinal =>
    refine ⟨⟨line, some _, _, _, _⟩, ?_, ⟨by rw [hlabel]; rfl, rfl, rfl, rfl⟩⟩
    simp only [Context.commandWords, hlabel, Option.map_some, Option.toList_some, List.cons_append,
      List.nil_append, List.map_cons, List.map_map, sourceCommand, splitLabel_name,
      splitMarker_marker, hmnemonic]
    rfl

private theorem word_decimal (line : Nat) (what : String) (value : UInt16) :
    word line what (String.ofList (decimal value.toNat)) = .ok value := by
  simp [word, decimal?_decimal value.toNat_lt]

private theorem sourceHeader_def (line : Nat) (header : LineHeader) :
    sourceHeader line ("DEF" :: ([header.verb, header.noun1, header.noun2].map fun value =>
      decimal value.toNat).map String.ofList) = .ok (some header) := by
  simp only [List.map_cons, List.map_nil]
  unfold sourceHeader
  simp only [word_decimal]
  rfl

private theorem range?_render_eq_some_iff {range found : TableRange} : range? range.render = some found ↔
    (0 < range.low ∧ range.low ≤ range.high) ∧ found = range := by
  have hcolon : ':' ∉ decimal range.low.toNat := not_mem_decimal (by decide) _
  have hne : ∀ c ∈ decimal range.low.toNat, (c ≠ ':') = true := fun c hc => by
    have : c ≠ ':' := by
      rintro rfl
      exact hcolon hc
    simp [this]
  have hrender : range.render = decimal range.low.toNat ++ ':' :: decimal range.high.toNat := by
    simp [TableRange.render]
  have hbefore : range.render.takeWhile (· ≠ ':') = decimal range.low.toNat := by
    rw [hrender, List.takeWhile_append_of_pos (by simpa using hne)]
    simp
  have hbehind : range.render.dropWhile (· ≠ ':') = ':' :: decimal range.high.toNat := by
    rw [hrender, List.dropWhile_append_of_pos (by simpa using hne)]
    simp
  have hproper : (0 < range.low ∧ range.low ≤ range.high) ↔
      ¬(range.low.toNat = 0 ∨ range.high.toNat < range.low.toNat) := by
    rw [UInt16.lt_iff_toNat_lt, UInt16.le_iff_toNat_le, UInt16.toNat_zero]
    omega
  rw [range?, hbefore, hbehind, List.tail_cons, decimal?_decimal range.low.toNat_lt,
    decimal?_decimal range.high.toNat_lt, hproper]
  simp only [bind, Option.bind]
  split
  case _ hbad => simp [hbad]
  case _ hgood =>
    simp only [UInt16.ofNat_toNat, Option.some.injEq, hgood, not_false_eq_true, true_and]
    exact eq_comm

/-- The words of ranges, as the line of a file prints them. -/
def rangeWords (ranges : List TableRange) : List (List Char) :=
  if ranges.isEmpty then [['~']] else ranges.map TableRange.render

private theorem wordChar_render (range : TableRange) : ∀ c ∈ range.render, wordChar c := by
  simp only [TableRange.render, List.forall_mem_append, List.forall_mem_singleton]
  exact ⟨⟨wordChar_decimal _, by decide⟩, wordChar_decimal _⟩

private theorem rangeWords_isToken (ranges : List TableRange) : ∀ word ∈ rangeWords ranges, IsToken word := by
  unfold rangeWords
  split
  · decide
  · intro word hword
    obtain ⟨range, -, rfl⟩ := List.mem_map.mp hword
    exact (plain_of_wordChar (by simp [TableRange.render]) (wordChar_render range)).isToken

private theorem renderAll_eq (ranges : List TableRange) : ∃ word words, rangeWords ranges = word :: words ∧
    TableRange.renderAll ranges = word ++ words.flatMap (' ' :: ·) := by
  cases ranges with
  | nil => exact ⟨['~'], [], rfl, rfl⟩
  | cons range ranges =>
    exact ⟨range.render, ranges.map TableRange.render, rfl, intercalate_cons ' ' _ _⟩

/-- Ranges that begin above zero and end where they begin or behind it. -/
def RangesProper (ranges : List TableRange) : Prop :=
  ∀ range ∈ ranges, 0 < range.low ∧ range.low ≤ range.high

/-- A printed range has a colon in it. -/
theorem ofList_render_ne (range : TableRange) {word : String} (hword : ':' ∉ word.toList) :
    String.ofList range.render ≠ word := by
  rintro rfl
  rw [String.toList_ofList] at hword
  exact hword (by simp [TableRange.render])

private theorem rangeWord_eq_ok_iff {range found : TableRange} {line : Nat} :
    (match range? (String.ofList range.render).toList with
      | some range => .ok range
      | none => .error (.malformedLine line (.badRange (String.ofList range.render))) :
        Except Error TableRange) = .ok found ↔
      (0 < range.low ∧ range.low ≤ range.high) ∧ found = range := by
  rw [← range?_render_eq_some_iff, String.toList_ofList]
  cases range? range.render <;> simp

private theorem ranges_rangeWords_eq_ok_iff {given found : List TableRange} {line : Nat} :
    ranges line ((rangeWords given).map String.ofList) = .ok found ↔ RangesProper given ∧ found = given := by
  cases given with
  | nil =>
    have hnone : ranges line ((rangeWords []).map String.ofList) = .ok [] := rfl
    have hproper : RangesProper [] := fun _ hrange => nomatch hrange
    rw [hnone, Except.ok.injEq, and_iff_right hproper]
    exact eq_comm
  | cons first rest =>
    have hwords : rangeWords (first :: rest) = (first :: rest).map TableRange.render := rfl
    have htilde : ((first :: rest).map TableRange.render).map String.ofList ≠ ["~"] := fun htilde =>
      ofList_render_ne first (by decide) (List.cons.inj htilde).1
    rw [ranges, hwords, if_neg htilde, Except.mapM_eq_ok_iff, List.map_map, List.forall₂_map_left_iff]
    generalize first :: rest = given
    constructor
    · intro h
      induction h with
      | nil => exact ⟨fun _ hmem => absurd hmem List.not_mem_nil, rfl⟩
      | cons head _ ih =>
        obtain ⟨hproper, rfl⟩ := ih
        obtain ⟨hfirst, rfl⟩ := rangeWord_eq_ok_iff.mp head
        exact ⟨List.forall_mem_cons.mpr ⟨hfirst, hproper⟩, rfl⟩
    · rintro ⟨hproper, rfl⟩
      exact List.forall₂_same.mpr fun range hmem => rangeWord_eq_ok_iff.mpr ⟨hproper range hmem, rfl⟩

/-- The words behind the name of a printed file are its ranges. -/
theorem sourceFile_fileHeader_eq_ok_iff {given : List TableRange} {line : Nat} {name : String}
    {file : SourceFile} : sourceFile line (name :: (rangeWords given).map String.ofList) = .ok file ↔
      RangesProper given ∧ file = ⟨line, name, .tables given []⟩ := by
  have hraw : (rangeWords given).map String.ofList ≠ ["RAW"] := by
    cases given with
    | nil => decide
    | cons first rest => exact fun hraw => ofList_render_ne first (by decide) (List.cons.inj hraw).1
  have hranges : ∀ found, ranges line ((rangeWords given).map String.ofList) = .ok found ↔
      RangesProper given ∧ found = given := fun _ => ranges_rangeWords_eq_ok_iff
  obtain ⟨word, words, hwords, -⟩ := renderAll_eq given
  rw [hwords, List.map_cons] at hraw hranges ⊢
  unfold sourceFile
  split
  case _ heq => cases heq
  case _ heq => cases heq
  case _ heq => exact absurd (List.cons.inj heq).2 hraw
  case _ heq =>
    cases heq
    simp only [Except.map_eq_ok_iff, hranges]
    constructor
    · rintro ⟨found, ⟨hproper, rfl⟩, rfl⟩
      exact ⟨hproper, rfl⟩
    · rintro ⟨hproper, rfl⟩
      exact ⟨given, ⟨hproper, rfl⟩, rfl⟩

end words

section lines

variable {outline : Outline} {line : Nat}

private theorem readLine_dropReturn (content : List Char) :
    outline.readLine line (dropReturn content) = outline.readLine line content := by
  rw [Outline.readLine, trim_dropReturn, Outline.readLine]

theorem readLine_blanks_append {blanks : List Char} (h : ∀ c ∈ blanks, isBlank c) (content : List Char) :
    outline.readLine line (blanks ++ content) = outline.readLine line content := by
  rw [Outline.readLine, trim_blanks_append h, Outline.readLine]

/-- A line that begins neither as a comment nor as a section is a command. -/
theorem readLine_of_command {c : Char} {rest : List Char} (hblank : isBlank c = false)
    (hcomment : ¬(c = '/' ∧ rest.head? = some '/')) (hsection : ¬(c = '=' ∧ rest.head? = some '=')) :
    outline.readLine line (c :: rest) = outline.readCommand line (c :: rest) := by
  have htokens : Listing.tokens line (c :: trimRight rest) = Listing.tokens line (c :: rest) := by
    rw [← trimRight_cons hblank, tokens_trimRight]
  have hequals : ∀ behind, c :: trimRight rest ≠ '=' :: '=' :: behind := fun behind heq => by
    obtain ⟨rfl, htrim⟩ := List.cons.inj heq
    exact hsection ⟨rfl, head?_of_trimRight (htrim ▸ rfl)⟩
  rw [Outline.readLine, trim_cons hblank]
  split
  case _ heq => cases heq
  case _ heq =>
    obtain ⟨rfl, htrim⟩ := List.cons.inj heq
    exact absurd ⟨rfl, head?_of_trimRight (htrim ▸ rfl)⟩ hcomment
  case _ heq => exact absurd heq (hequals _)
  case _ heq => exact absurd heq (hequals _)
  case _ => rw [Outline.readCommand, htokens, Outline.readCommand]

private theorem readLine_command {c : Char} {rest : List Char} (hblank : isBlank c = false) (hslash : c ≠ '/')
    (hequals : c ≠ '=') :
    outline.readLine line ('\t' :: c :: rest) = outline.readCommand line (c :: rest) := by
  have htab : ∀ c ∈ ['\t'], isBlank c := List.forall_mem_singleton.mpr rfl
  rw [← List.singleton_append, readLine_blanks_append htab]
  exact readLine_of_command hblank (fun hcomment => hslash hcomment.1) fun hsection => hequals hsection.1

theorem readLine_lineStart (rest : List Char) :
    outline.readLine line ("==>".toList ++ rest) = outline.readLineStart line rest := by
  have htrim : trim ("==>".toList ++ rest) = '=' :: '=' :: '>' :: trimRight rest := by
    rw [show "==>".toList ++ rest = '=' :: '=' :: '>' :: rest from rfl, trim_cons (by decide),
      trimRight_cons (by decide), trimRight_cons (by decide)]
  rw [Outline.readLine, htrim]
  show outline.readLineStart line (trimRight rest) = _
  rw [Outline.readLineStart, tokens_trimRight, Outline.readLineStart]

/-- A line that begins with two equals signs is a section, unless it starts a line of commands. -/
theorem readLine_of_section {rest : List Char} (hstart : rest.head? ≠ some '>') :
    outline.readLine line ('=' :: '=' :: rest) = outline.readSection line rest := by
  rw [Outline.readLine, trim_cons (by decide), trimRight_cons (by decide)]
  split
  case _ heq => cases heq
  case _ heq => cases heq
  case _ heq => exact absurd (head?_of_trimRight ((List.cons.inj (List.cons.inj heq).2).2 ▸ rfl)) hstart
  case _ heq =>
    obtain rfl := (List.cons.inj (List.cons.inj heq).2).2
    rw [Outline.readSection, tokens_trimRight, Outline.readSection]
  case _ hsection => exact absurd rfl (hsection _)

/-- The line of a file or table, which begins with a word. -/
theorem readLine_section (c : Char) (rest : List Char) :
    outline.readLine line ("== ".toList ++ c :: rest) =
      outline.readSection line (' ' :: c :: rest) := by
  have hstart : (' ' :: c :: rest).head? ≠ some '>' := by simp
  exact readLine_of_section hstart

end lines

section outlines

/-- An outline after the lines of a text from one on, which are numbered. -/
def Outline.readLines (outline : Outline) (first : Nat) (content : List (List Char)) :
    Except Error Outline :=
  (content.zipIdx first).foldlM (fun outline (content, index) => outline.readLine (index + 1) content)
    outline

variable {outline middle after : Outline} {first : Nat}

theorem Outline.readLines_append_eq_bind (content rest : List (List Char)) :
    outline.readLines first (content ++ rest) =
      outline.readLines first content >>= (·.readLines (first + content.length) rest) := by
  unfold Outline.readLines
  rw [List.zipIdx_append, List.foldlM_append]

theorem Outline.readLines_cons_eq_bind (content : List Char) (rest : List (List Char)) :
    outline.readLines first (content :: rest) =
      outline.readLine (first + 1) content >>= (·.readLines (first + 1) rest) := by
  unfold Outline.readLines
  rw [List.zipIdx_cons, List.foldlM_cons]

theorem Outline.readLines_append_eq_ok_iff {content rest : List (List Char)} :
    outline.readLines first (content ++ rest) = .ok after ↔ ∃ middle,
      outline.readLines first content = .ok middle ∧
        middle.readLines (first + content.length) rest = .ok after := by
  rw [readLines_append_eq_bind, Except.bind_eq_ok_iff]

theorem Outline.readLines_cons_eq_ok_iff {content : List Char} {rest : List (List Char)} :
    outline.readLines first (content :: rest) = .ok after ↔ ∃ middle,
      outline.readLine (first + 1) content = .ok middle ∧
        middle.readLines (first + 1) rest = .ok after := by
  rw [readLines_cons_eq_bind, Except.bind_eq_ok_iff]

theorem Outline.readLines_append {content rest : List (List Char)}
    (h : outline.readLines first content = .ok middle)
    (hrest : middle.readLines (first + content.length) rest = .ok after) :
    outline.readLines first (content ++ rest) = .ok after :=
  readLines_append_eq_ok_iff.mpr ⟨middle, h, hrest⟩

theorem Outline.readLines_cons {content : List Char} {rest : List (List Char)}
    (h : outline.readLine (first + 1) content = .ok middle)
    (hrest : middle.readLines (first + 1) rest = .ok after) :
    outline.readLines first (content :: rest) = .ok after :=
  readLines_cons_eq_ok_iff.mpr ⟨middle, h, hrest⟩

theorem Outline.readLines_dropReturn (content : List (List Char)) :
    outline.readLines first (content.map dropReturn) = outline.readLines first content := by
  induction content generalizing outline first with
  | nil => rfl
  | cons line content ih =>
    unfold Outline.readLines at ih ⊢
    simp only [List.map_cons, List.zipIdx_cons, List.foldlM_cons, readLine_dropReturn, ih]

/-- A text of lines is read line by line. -/
theorem parse_unlines {content : List (List Char)} (h : ∀ line ∈ content, '\n' ∉ line) :
    parse (String.ofList (unlines content)) = (Outline.readLines [] 0 content).map Outline.files := by
  rw [← Outline.readLines_dropReturn]
  unfold Outline.readLines
  rw [parse, String.toList_ofList, lines_unlines h, numbered, List.foldlM_map]

variable {context : Context} {file : Nat} {name : String} {ranges : List TableRange}
  {tables : List SourceTable} {files : List SourceFile}

/-- An outline whose last file has tables. -/
abbrev Outline.tabled (file : Nat) (name : String) (ranges : List TableRange)
    (tables : List SourceTable) (files : List SourceFile) : Outline :=
  ⟨file, name, .tables ranges tables⟩ :: files

private theorem readLine_printedCommand {command : Command} {table : SourceTable} {line : SourceLine}
    {lines : List SourceLine} (h : IsToken (context.mnemonic command.opcode).toList) (number : Nat) :
    ∃ source, CommandListed context command source ∧
      (Outline.tabled file name ranges ({ table with lines := line :: lines } :: tables) files).readLine
        number ('\t' :: context.command command) =
      .ok (.tabled file name ranges ({ table with lines :=
        { line with commands := source :: line.commands } :: lines } :: tables) files) := by
  obtain ⟨source, hsource, hlisted⟩ := sourceCommand_commandWords context command number
  refine ⟨source, hlisted, ?_⟩
  obtain ⟨c, rest, hcommand, hblank, hslash, hequals⟩ : ∃ c rest, context.command command = c :: rest ∧
      isBlank c = false ∧ c ≠ '/' ∧ c ≠ '=' := by
    cases hlabel : context.labels[command.offset]? with
    | none => exact ⟨'(', _, by rw [Context.command_def, hlabel]; rfl, by decide⟩
    | some ordinal => exact ⟨'L', _, by rw [Context.command_def, hlabel]; rfl, by decide⟩
  have hne : ((context.commandWords command).map String.ofList).isEmpty = false := by
    simp [Context.commandWords]
  rw [hcommand, readLine_command hblank hslash hequals, ← hcommand, Outline.readCommand,
    Context.tokens_command h]
  simp only [bind, Except.bind, hne, Bool.false_eq_true, if_false, Outline.lastLine?,
    Outline.lastTable?, hsource]
  rfl

/-- The commands of a printed line. -/
theorem readLines_commands {commands : List Command} {table : SourceTable} {line : SourceLine}
    {lines : List SourceLine}
    (h : ∀ command ∈ commands, IsToken (context.mnemonic command.opcode).toList) :
    ∃ sources, List.Forall₂ (CommandListed context) commands sources ∧
      (Outline.tabled file name ranges ({ table with lines := line :: lines } :: tables) files).readLines
        first (commands.map fun command => '\t' :: context.command command) =
      .ok (.tabled file name ranges ({ table with lines :=
        { line with commands := sources.reverse ++ line.commands } :: lines } :: tables) files) := by
  induction commands generalizing first line with
  | nil => exact ⟨[], .nil, rfl⟩
  | cons command commands ih =>
    obtain ⟨hcommand, hcommands⟩ := List.forall_mem_cons.mp h
    obtain ⟨source, hlisted, hread⟩ := readLine_printedCommand hcommand (first + 1)
    obtain ⟨sources, hrest, hreads⟩ := ih hcommands
    refine ⟨source :: sources, .cons hlisted hrest, ?_⟩
    rw [List.map_cons]
    refine Outline.readLines_cons hread (hreads.trans ?_)
    simp

/-- The line that starts a line of table 0 has five words. -/
theorem lineHeader_some (header : LineHeader) :
    Context.lineHeader (some header) = "==>".toList ++ ' ' :: ("DEF".toList ++
      ([header.verb, header.noun1, header.noun2].map fun value =>
        decimal value.toNat).flatMap (' ' :: ·) ++ []) := by
  have hline : Context.lineHeader (some header) = "==> DEF ".toList ++
      decimal header.verb.toNat ++ [' '] ++ decimal header.noun1.toNat ++ [' '] ++
      decimal header.noun2.toNat := rfl
  have hwords : "==> DEF ".toList = "==>".toList ++ ' ' :: ("DEF".toList ++ [' ']) := by decide
  rw [hline, hwords]
  generalize "==>".toList = mark
  generalize "DEF".toList = word
  simp

private theorem readLine_printedHeader {header : Option LineHeader} {table : SourceTable}
    (hheader : header.isSome = (table.number = 0)) (number : Nat) :
    (Outline.tabled file name ranges (table :: tables) files).readLine number
        (Context.lineHeader header) =
      .ok (.tabled file name ranges
        ({ table with lines := ⟨number, header, []⟩ :: table.lines } :: tables) files) := by
  have hsource : ∃ rest words, Context.lineHeader header = "==>".toList ++ rest ∧
      Listing.tokens number rest = .ok words ∧ sourceHeader number words = .ok header := by
    cases header with
    | none => exact ⟨[], [], rfl, rfl, rfl⟩
    | some header =>
      have hdecimal : ∀ value : UInt16, IsToken (decimal value.toNat) := fun value =>
        (plain_of_wordChar (decimal_ne_nil _) (wordChar_decimal _)).isToken
      have hdef : IsToken "DEF".toList := by decide
      let numbers := [header.verb, header.noun1, header.noun2].map fun value => decimal value.toNat
      refine ⟨' ' :: ("DEF".toList ++ numbers.flatMap (' ' :: ·) ++ []),
        "DEF" :: numbers.map String.ofList, ?_, ?_, ?_⟩
      · exact lineHeader_some header
      · have hnumbers : ∀ number ∈ numbers, IsToken number := by simp [numbers, hdecimal]
        rw [Listing.tokens, tokensFrom_blank (by decide), tokensFrom_words hdef hnumbers (.inl rfl)]
        simp [closeToken]
      · exact sourceHeader_def number header
  obtain ⟨rest, words, hline, htokens, hsource⟩ := hsource
  rw [hline, readLine_lineStart, Outline.readLineStart, htokens]
  simp only [bind, Except.bind, Outline.lastTable?, hsource, hheader]
  rw [if_neg (not_not.mpr rfl)]
  rfl

/-- A printed line of a table. -/
theorem readLines_line {line : Line} {table : SourceTable}
    (hheader : line.header.isSome = (table.number = 0))
    (h : ∀ command ∈ line.commands, IsToken (context.mnemonic command.opcode).toList) :
    ∃ source, LineListed context line source ∧
      (Outline.tabled file name ranges (table :: tables) files).readLines first (context.line line) =
      .ok (.tabled file name ranges ({ table with lines := source.flip :: table.lines } :: tables)
        files) := by
  obtain ⟨sources, hlisted, hread⟩ := readLines_commands h
  refine ⟨⟨first + 1, line.header, sources⟩, ⟨rfl, hlisted⟩, ?_⟩
  refine Outline.readLines_cons (readLine_printedHeader hheader (first + 1)) (hread.trans ?_)
  rw [List.append_nil]
  rfl

/-- The lines of a printed table. -/
theorem readLines_lines {lines : List Line} {table : SourceTable}
    (hheaders : ∀ line ∈ lines, line.header.isSome = (table.number = 0))
    (h : ∀ line ∈ lines, ∀ command ∈ line.commands,
      IsToken (context.mnemonic command.opcode).toList) :
    ∃ sources, List.Forall₂ (LineListed context) lines sources ∧
      (Outline.tabled file name ranges (table :: tables) files).readLines first
        (lines.flatMap context.line) =
      .ok (.tabled file name ranges
        ({ table with lines := (sources.map SourceLine.flip).reverse ++ table.lines } :: tables)
        files) := by
  induction lines generalizing first table with
  | nil => exact ⟨[], .nil, rfl⟩
  | cons line lines ih =>
    obtain ⟨hheader, hheaders⟩ := List.forall_mem_cons.mp hheaders
    obtain ⟨hline, hlines⟩ := List.forall_mem_cons.mp h
    obtain ⟨source, hlisted, hread⟩ := readLines_line hheader hline
    have hheaders : ∀ line ∈ lines, line.header.isSome =
        (({ table with lines := source.flip :: table.lines } : SourceTable).number = 0) := hheaders
    obtain ⟨sources, hrest, hreads⟩ := ih hheaders hlines
    refine ⟨source :: sources, .cons hlisted hrest, ?_⟩
    rw [List.flatMap_cons]
    refine Outline.readLines_append hread (hreads.trans ?_)
    simp

/-- A printed table. -/
theorem readLines_table {table : Table}
    (hheaders : ∀ line ∈ table.lines, line.header.isSome = (table.number = 0))
    (h : ∀ command ∈ table.commands, IsToken (context.mnemonic command.opcode).toList) :
    ∃ source, TableListed context table source ∧
      (Outline.tabled file name ranges tables files).readLines first (context.table table) =
      .ok (.tabled file name ranges (source.flip :: tables) files) := by
  have hnumber : (Outline.tabled file name ranges tables files).readLine (first + 1)
      ("== TABLE ".toList ++ decimal table.number.toNat) =
      .ok (.tabled file name ranges (⟨first + 1, table.number, []⟩ :: tables) files) := by
    have hline : "== TABLE ".toList ++ decimal table.number.toNat =
        "== ".toList ++ 'T' :: ("ABLE ".toList ++ decimal table.number.toNat) := rfl
    have hcontent : ' ' :: 'T' :: ("ABLE ".toList ++ decimal table.number.toNat) =
        ' ' :: ("TABLE".toList ++ [decimal table.number.toNat].flatMap (' ' :: ·) ++ []) := by simp
    have htokens : Listing.tokens (first + 1)
        (' ' :: 'T' :: ("ABLE ".toList ++ decimal table.number.toNat)) =
        .ok ["TABLE", String.ofList (decimal table.number.toNat)] := by
      have hdecimal := (plain_of_wordChar (decimal_ne_nil _)
        (wordChar_decimal table.number.toNat)).isToken
      rw [hcontent, Listing.tokens, tokensFrom_blank (by decide),
        tokensFrom_words (by decide) (by simpa using hdecimal) (.inl rfl)]
      simp [closeToken]
    rw [hline, readLine_section, Outline.readSection, htokens]
    simp only [bind, Except.bind, word_decimal]
    rfl
  have hheaders : ∀ line ∈ table.lines, line.header.isSome =
      ((⟨first + 1, table.number, []⟩ : SourceTable).number = 0) := hheaders
  obtain ⟨sources, hlisted, hread⟩ := readLines_lines hheaders fun line hline command hcommand =>
    h command (List.mem_flatMap.mpr ⟨line, hline, hcommand⟩)
  refine ⟨⟨first + 1, table.number, sources⟩, ⟨rfl, hlisted⟩, ?_⟩
  refine Outline.readLines_cons hnumber (hread.trans ?_)
  rw [List.append_nil]
  rfl

/-- Printed tables. -/
theorem readLines_tables {given : List Table}
    (hheaders : ∀ table ∈ given, ∀ line ∈ table.lines, line.header.isSome = (table.number = 0))
    (h : ∀ command ∈ given.flatMap Table.commands,
      IsToken (context.mnemonic command.opcode).toList) :
    ∃ sources, List.Forall₂ (TableListed context) given sources ∧
      (Outline.tabled file name ranges tables files).readLines first (context.tables given) =
      .ok (.tabled file name ranges ((sources.map SourceTable.flip).reverse ++ tables) files) := by
  induction given generalizing first tables with
  | nil => exact ⟨[], .nil, rfl⟩
  | cons table given ih =>
    obtain ⟨hheader, hheaders⟩ := List.forall_mem_cons.mp hheaders
    rw [List.flatMap_cons, List.forall_mem_append] at h
    obtain ⟨source, hlisted, hread⟩ := readLines_table hheader h.1
    obtain ⟨sources, hrest, hreads⟩ := ih hheaders h.2
    refine ⟨source :: sources, .cons hlisted hrest, ?_⟩
    rw [Context.tables, List.flatMap_cons]
    refine Outline.readLines_append hread (hreads.trans ?_)
    simp

end outlines

section sections

variable {context : Context} {name : String} {ranges : List TableRange} {files : List SourceFile}
  {first : Nat}

private theorem fileHeader_eq (name : String) (ranges : List TableRange) : fileHeader name ranges =
    "== FILE ".toList ++ name.toList ++ [' '] ++ TableRange.renderAll ranges := rfl

private theorem rawHeader_eq (name reason : String) : rawHeader name reason =
    "== FILE ".toList ++ name.toList ++ " RAW // ".toList ++
      reason.toList.map fun c => if c = '\n' then ' ' else c := rfl

/-- The line of a file that is listed can be read if its ranges are proper ones. -/
theorem readLine_fileHeader_eq_ok_iff (hname : IsToken name.toList) {number : Nat} {after : Outline} :
    Outline.readLine files number (fileHeader name ranges) = .ok after ↔
      RangesProper ranges ∧ after = .tabled number name ranges [] files := by
  obtain ⟨word, words, hwords, hrender⟩ := renderAll_eq ranges
  have hfile : IsToken "FILE".toList := by decide
  have htokens : ∀ word ∈ name.toList :: rangeWords ranges, IsToken word :=
    List.forall_mem_cons.mpr ⟨hname, rangeWords_isToken ranges⟩
  have hline : fileHeader name ranges = "== ".toList ++ 'F' :: ("ILE".toList ++
      (name.toList :: rangeWords ranges).flatMap (' ' :: ·)) := by
    have hword : "== FILE ".toList = "== ".toList ++ 'F' :: ("ILE".toList ++ [' ']) := by decide
    rw [fileHeader_eq, hword, hrender, hwords]
    generalize "== ".toList = mark
    generalize "ILE".toList = rest
    simp
  have hcontent : 'F' :: ("ILE".toList ++ (name.toList :: rangeWords ranges).flatMap (' ' :: ·)) =
      "FILE".toList ++ (name.toList :: rangeWords ranges).flatMap (' ' :: ·) ++ [] := by
    rw [List.append_nil]
    rfl
  have hname' : String.ofList name.toList = name := String.ofList_toList
  rw [hline, readLine_section, Outline.readSection, hcontent, Listing.tokens,
    tokensFrom_blank (by decide), tokensFrom_words hfile htokens (.inl rfl)]
  simp only [closeToken, List.isEmpty_nil, if_true, List.reverse_nil, List.nil_append, List.map_cons,
    hname', bind, Except.bind]
  show (do return (← sourceFile number (name :: (rangeWords ranges).map String.ofList)) :: files) = _ ↔ _
  simp only [Except.bind_eq_ok_iff, sourceFile_fileHeader_eq_ok_iff, Except.pure_eq_ok_iff]
  constructor
  · rintro ⟨_, ⟨hranges, rfl⟩, rfl⟩
    exact ⟨hranges, rfl⟩
  · rintro ⟨hranges, rfl⟩
    exact ⟨_, ⟨hranges, rfl⟩, rfl⟩

/-- The line of a file that is kept as it is, whatever the comment behind it says. -/
theorem readLine_rawHeader (hname : IsToken name.toList) (reason : String) (number : Nat) :
    Outline.readLine files number (rawHeader name reason) = .ok (⟨number, name, .raw⟩ :: files) := by
  have hfile : IsToken "FILE".toList := by decide
  have hraw : IsToken "RAW".toList := by decide
  let comment := ' ' :: reason.toList.map fun c => if c = '\n' then ' ' else c
  have hline : rawHeader name reason = "== ".toList ++ 'F' :: ("ILE".toList ++
      [name.toList, "RAW".toList].flatMap (' ' :: ·) ++ (" //".toList ++ comment)) := by
    have hword : "== FILE ".toList = "== ".toList ++ 'F' :: ("ILE".toList ++ [' ']) := by decide
    have hbehind : " RAW // ".toList = ' ' :: "RAW".toList ++ (" //".toList ++ [' ']) := by decide
    rw [rawHeader_eq, hword, hbehind]
    generalize "== ".toList = mark
    generalize "ILE".toList = rest
    generalize "RAW".toList = word
    generalize " //".toList = slashes
    simp [comment]
  have hcontent : 'F' :: ("ILE".toList ++ [name.toList, "RAW".toList].flatMap (' ' :: ·) ++
      (" //".toList ++ comment)) = "FILE".toList ++
        [name.toList, "RAW".toList].flatMap (' ' :: ·) ++ (" //".toList ++ comment) := rfl
  have hname' : String.ofList name.toList = name := String.ofList_toList
  have hraw' : String.ofList "RAW".toList = "RAW" := String.ofList_toList
  rw [hline, readLine_section, Outline.readSection, hcontent, Listing.tokens,
    tokensFrom_blank (by decide),
    tokensFrom_words hfile (by simpa using ⟨hname, hraw⟩) (.inr ⟨comment, rfl⟩)]
  simp only [closeToken, List.isEmpty_nil, if_true, List.reverse_nil, List.nil_append, List.map_cons,
    List.map_nil, hname', hraw', bind, Except.bind]
  rfl

/-- The section of a listed file. -/
theorem readLines_file {given : List Table} (hname : IsToken name.toList)
    (hranges : RangesProper ranges)
    (hheaders : ∀ table ∈ given, ∀ line ∈ table.lines, line.header.isSome = (table.number = 0))
    (h : ∀ command ∈ given.flatMap Table.commands,
      IsToken (context.mnemonic command.opcode).toList) :
    ∃ sources, List.Forall₂ (TableListed context) given sources ∧
      Outline.readLines files first (fileHeader name ranges :: context.tables given) =
      .ok (.tabled (first + 1) name ranges (sources.map SourceTable.flip).reverse files) := by
  obtain ⟨sources, hlisted, hread⟩ := readLines_tables hheaders h
  rw [List.append_nil] at hread
  exact ⟨sources, hlisted, Outline.readLines_cons
    ((readLine_fileHeader_eq_ok_iff hname).mpr ⟨hranges, rfl⟩) hread⟩

theorem SourceTable.flip_files (sources : List SourceTable) :
    ((sources.map SourceTable.flip).reverse.reverse.map fun table =>
      { table with lines := table.lines.reverse.map fun line =>
          { line with commands := line.commands.reverse } }) = sources := by
  have hline : ∀ line : SourceLine,
      { line.flip with commands := line.flip.commands.reverse } = line := by
    simp [SourceLine.flip]
  have htable : ∀ table : SourceTable, { table.flip with lines := (table.flip.lines.reverse.map
      fun line => { line with commands := line.commands.reverse }) } = table := by
    intro table
    simp only [SourceTable.flip, List.reverse_reverse, List.map_map]
    rw [show ((fun line : SourceLine => { line with commands := line.commands.reverse }) ∘
      SourceLine.flip) = id from funext hline, List.map_id]
  rw [List.reverse_reverse, List.map_map]
  exact (List.map_congr_left fun table _ => htable table).trans (List.map_id _)

theorem files_tabled (file : Nat) (sources : List SourceTable) :
    Outline.files (.tabled file name ranges (sources.map SourceTable.flip).reverse files) =
      Outline.files files ++ [⟨file, name, .tables ranges sources⟩] := by
  simp only [Outline.files, List.reverse_cons, List.map_append, List.map_cons, List.map_nil,
    SourceTable.flip_files]

end sections

section newlines

variable {context : Context}

private theorem newline_not_mem_of_wordChar {word : List Char} (h : ∀ c ∈ word, wordChar c) :
    '\n' ∉ word := by
  intro hnewline
  have := h '\n' hnewline
  revert this
  decide

private theorem newline_not_mem_lineHeader (header : Option LineHeader) :
    '\n' ∉ Context.lineHeader header := by
  cases header with
  | none => decide
  | some header =>
    rw [lineHeader_some]
    simp [newline_not_mem_of_wordChar (wordChar_decimal _)]

theorem newline_not_mem_fileHeader {name : String} (hname : IsToken name.toList)
    (ranges : List TableRange) : '\n' ∉ fileHeader name ranges := by
  obtain ⟨word, words, hwords, hrender⟩ := renderAll_eq ranges
  have htokens := rangeWords_isToken ranges
  rw [hwords, List.forall_mem_cons] at htokens
  have hword : '\n' ∉ "== FILE ".toList := by decide
  rw [fileHeader_eq, hrender]
  simp only [List.mem_append, List.mem_flatMap, List.mem_cons, List.not_mem_nil, or_false, hword,
    hname.2, htokens.1.2, false_or, not_or, not_exists, not_and]
  exact ⟨by decide, fun word hword => ⟨by decide, (htokens.2 word hword).2⟩⟩

theorem newline_not_mem_rawHeader {name : String} (hname : IsToken name.toList) (reason : String) :
    '\n' ∉ rawHeader name reason := by
  have hword : '\n' ∉ "== FILE ".toList := by decide
  have hraw : '\n' ∉ " RAW // ".toList := by decide
  rw [rawHeader_eq]
  simp only [List.mem_append, hword, hname.2, hraw, false_or, List.mem_map, not_exists, not_and]
  intro c _
  split
  · decide
  · assumption

theorem newline_not_mem_tables {given : List Table}
    (h : ∀ command ∈ given.flatMap Table.commands,
      IsToken (context.mnemonic command.opcode).toList) :
    ∀ line ∈ context.tables given, '\n' ∉ line := by
  intro text htext
  obtain ⟨table, htable, htext⟩ := List.mem_flatMap.mp htext
  rcases List.mem_cons.mp htext with rfl | htext
  · simp [newline_not_mem_of_wordChar (wordChar_decimal _)]
  · obtain ⟨line, hline, htext⟩ := List.mem_flatMap.mp htext
    rcases List.mem_cons.mp htext with rfl | htext
    · exact newline_not_mem_lineHeader _
    · obtain ⟨command, hcommand, rfl⟩ := List.mem_map.mp htext
      have htoken := h command (List.mem_flatMap.mpr
        ⟨table, htable, List.mem_flatMap.mpr ⟨line, hline, hcommand⟩⟩)
      simp [Context.newline_not_mem_command htoken]

/-- The text of a listed file is read as that file. -/
theorem parse_file {name : String} {ranges : List TableRange} {given : List Table}
    (hname : IsToken name.toList) (hranges : RangesProper ranges)
    (hheaders : ∀ table ∈ given, ∀ line ∈ table.lines, line.header.isSome = (table.number = 0))
    (h : ∀ command ∈ given.flatMap Table.commands,
      IsToken (context.mnemonic command.opcode).toList) :
    ∃ sources, List.Forall₂ (TableListed context) given sources ∧
      parse (String.ofList (context.file name ranges given)) =
        .ok [⟨1, name, .tables ranges sources⟩] := by
  obtain ⟨sources, hlisted, hread⟩ := readLines_file hname hranges hheaders h
  refine ⟨sources, hlisted, ?_⟩
  rw [Context.file, parse_unlines ?_, hread, Except.map, files_tabled]
  · rfl
  · exact List.forall_mem_cons.mpr
      ⟨newline_not_mem_fileHeader hname ranges, newline_not_mem_tables h⟩

end newlines

end Adventure.Listing
