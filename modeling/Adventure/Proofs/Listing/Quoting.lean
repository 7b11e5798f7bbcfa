import Adventure.Proofs.Listing.Declared
import Adventure.Proofs.Listing.Parsing

namespace Adventure.Listing

open Text

/-- A quote within quotes needs a backslash. -/
def escapeQuote (c : Char) : List Char := if c = '"' then ['\\', '"'] else [c]

/-- A text that is escaped for a place between quotes. -/
def enclose (text : List Char) : List Char := (Strings.escape text).flatMap escapeQuote

def quoted (text : String) : List Char := '"' :: (enclose text.toList ++ ['"'])

/-- What a text in quotes is written for. -/
inductive Quoting where
  /-- A string that has the text. -/
  | text
  /-- A new string. -/
  | declared
  /-- The item that is named by the text. -/
  | name
  deriving Repr, DecidableEq

def Quoting.token (text : String) : Quoting → List Char
  | .text => quoted text
  | .declared => '+' :: quoted text
  | .name => '<' :: (quoted text ++ ['>'])

def Quoting.written (quoting : Quoting) (text : String) : String := String.ofList (quoting.token text)

section enclosed

/-- Characters that do not close a quote that is open before them: each quote among them has a backslash,
    and so has each backslash. -/
inductive Enclosed : List Char → Prop
  | nil : Enclosed []
  | char {c : Char} {rest : List Char} (hquote : c ≠ '"') (hescape : c ≠ '\\') (tail : Enclosed rest) :
      Enclosed (c :: rest)
  | escape {c : Char} {rest : List Char} (tail : Enclosed rest) : Enclosed ('\\' :: c :: rest)

variable {inner other current rest : List Char} {tokens : List String}

theorem Enclosed.append (h : Enclosed inner) (h' : Enclosed other) : Enclosed (inner ++ other) := by
  induction h with
  | nil => exact h'
  | char hquote hescape _ ih => exact .char hquote hescape ih
  | escape _ ih => exact .escape ih

private theorem tokensFrom_enclosed (h : Enclosed inner) :
    tokensFrom true current tokens (inner ++ rest) =
      tokensFrom true (inner.reverse ++ current) tokens rest := by
  induction h generalizing current with
  | nil => rfl
  | char hquote hescape _ ih =>
    rw [List.cons_append, tokensFrom_inside hescape, decide_eq_true hquote, ih]
    simp
  | escape _ ih =>
    rw [List.cons_append, List.cons_append, tokensFrom_escape, ih]
    simp

/-- What is enclosed in quotes stays in the token that the first quote stands in. -/
theorem tokensFrom_between_quotes (h : Enclosed inner) :
    tokensFrom false current tokens ('"' :: (inner ++ '"' :: rest)) =
      tokensFrom false ('"' :: (inner.reverse ++ '"' :: current)) tokens rest := by
  rw [tokensFrom_quote, tokensFrom_enclosed h, tokensFrom_inside (by decide)]
  rfl

theorem Enclosed.of_not_mem (hquote : '"' ∉ inner) (hescape : '\\' ∉ inner) : Enclosed inner := by
  induction inner with
  | nil => exact .nil
  | cons c inner ih =>
    rw [List.mem_cons, not_or] at hquote hescape
    exact .char (Ne.symm hquote.1) (Ne.symm hescape.1) (ih hquote.2 hescape.2)

end enclosed

section characters

private theorem not_mem_hexPadded {n : Nat} (h : n < 128) :
    '"' ∉ hexPadded 2 n ∧ '\\' ∉ hexPadded 2 n := by
  have hall : ∀ n : Fin 128, '"' ∉ hexPadded 2 n.val ∧ '\\' ∉ hexPadded 2 n.val := by decide +kernel
  exact hall ⟨n, h⟩

private theorem enclosed_escapeChar {c : Char} (h : c ≠ '"') : Enclosed (Strings.escapeChar c) := by
  unfold Strings.escapeChar
  split_ifs with hbackslash htab hnewline hreturn hcontrol
  · exact .escape .nil
  · exact .escape .nil
  · exact .escape .nil
  · exact .escape .nil
  · obtain ⟨hquote, hescape⟩ := not_mem_hexPadded (n := c.toNat) (by omega)
    exact .escape (.of_not_mem hquote hescape)
  · exact .char h hbackslash .nil

private theorem quote_not_mem_escapeChar {c : Char} (h : c ≠ '"') : '"' ∉ Strings.escapeChar c := by
  unfold Strings.escapeChar
  split_ifs with hbackslash htab hnewline hreturn hcontrol
  · decide
  · decide
  · decide
  · decide
  · simp [not_mem_hexPadded (n := c.toNat) (by omega)]
  · simpa using Ne.symm h

/-- A character is escaped the same between quotes and elsewhere, unless it is a quote. -/
theorem flatMap_escapeQuote_escapeChar (c : Char) : (Strings.escapeChar c).flatMap escapeQuote =
    if c = '"' then ['\\', '"'] else Strings.escapeChar c := by
  by_cases hquote : c = '"'
  · subst hquote
    rfl
  · have hkept : ∀ d ∈ Strings.escapeChar c, escapeQuote d = [d] := by
      intro d hd
      refine if_neg ?_
      rintro rfl
      exact quote_not_mem_escapeChar hquote hd
    rw [if_neg hquote, List.flatMap_congr hkept]
    exact List.flatMap_singleton' _

private theorem enclose_cons (c : Char) (text : List Char) : enclose (c :: text) =
    (if c = '"' then ['\\', '"'] else Strings.escapeChar c) ++ enclose text := by
  rw [enclose, Strings.escape, List.flatMap_cons, List.flatMap_append, flatMap_escapeQuote_escapeChar]
  rfl

private theorem enclosed_enclose (text : List Char) : Enclosed (enclose text) := by
  induction text with
  | nil => exact .nil
  | cons c text ih =>
    rw [enclose_cons]
    refine Enclosed.append ?_ ih
    split
    · exact .escape .nil
    case _ hquote => exact enclosed_escapeChar hquote

private theorem unescape_enclose (text : List Char) : Strings.unescape (enclose text) = .ok text := by
  induction text with
  | nil => rfl
  | cons c text ih =>
    rw [enclose_cons]
    split
    case _ hquote =>
      rw [List.cons_append, List.singleton_append, Strings.unescape, ih, hquote]
      rfl
    · rw [Strings.unescape_escapeChar, ih]
      rfl

private theorem newline_not_mem_enclose (text : List Char) : '\n' ∉ enclose text := by
  rw [enclose, List.mem_flatMap]
  rintro ⟨c, hc, hnewline⟩
  unfold escapeQuote at hnewline
  split at hnewline
  · simp at hnewline
  · obtain rfl := List.mem_singleton.mp hnewline
    exact Strings.not_mem_escape (.inr (.inl rfl)) _ hc

end characters

section tokens

/-- A text in quotes is one token of a line, and so it is behind a plus sign or between angles. -/
theorem Quoting.isToken (quoting : Quoting) (text : String) : IsToken (quoting.token text) := by
  have henclosed := enclosed_enclose text.toList
  have hnewline := newline_not_mem_enclose text.toList
  have hclosed : ∀ {current : List Char}, current ≠ [] →
      tokensFrom false current [] [] = some [String.ofList current.reverse] := by
    intro current hne
    rw [tokensFrom.eq_def]
    simp [closeToken_of_ne_nil hne]
  cases quoting with
  | text =>
    refine ⟨?_, by simp [token, quoted, hnewline]⟩
    rw [token, quoted, tokensFrom_between_quotes henclosed, hclosed (List.cons_ne_nil _ _)]
    simp
  | declared =>
    refine ⟨?_, by simp [token, quoted, hnewline]⟩
    rw [token, quoted, tokensFrom_char (by decide) (by simp) (by decide),
      tokensFrom_between_quotes henclosed, hclosed (List.cons_ne_nil _ _)]
    simp
  | name =>
    refine ⟨?_, by simp [token, quoted, hnewline]⟩
    rw [token, quoted, tokensFrom_char (by decide) (by simp) (by decide), List.cons_append,
      List.append_assoc, List.singleton_append, tokensFrom_between_quotes henclosed,
      tokensFrom_char (by decide) (by simp) (by decide), hclosed (List.cons_ne_nil _ _)]
    simp

end tokens

section lines

variable {outline : Outline} {number : Nat} {lead word rest : List Char} {words : List (List Char)}

/-- A line of words is read as a command, unless it begins like a section. -/
theorem readLine_setOff (hlead : ∀ c ∈ lead, isBlank c) (hword : IsToken word)
    (hsection : ¬"==".toList <+: word) (hrest : SetOff words rest) :
    outline.readLine number (lead ++ (word ++ rest)) = outline.readCommand number (word ++ rest) := by
  obtain ⟨c, chars, rfl, hblank, hcomment⟩ := hword.exists_cons
  rw [readLine_blanks_append hlead, List.cons_append]
  refine readLine_of_command hblank ?_ ?_
  · rwa [hrest.head?_append (by decide)]
  · rw [hrest.head?_append (by decide)]
    rintro ⟨rfl, hhead⟩
    obtain ⟨chars, rfl⟩ := List.head?_eq_some_iff.mp hhead
    exact hsection ⟨chars, rfl⟩

end lines

section commands

variable {number : Nat} {tokens more : List String} {command : SourceCommand}

private theorem splitLabel_append (hne : tokens ≠ []) (more : List String) :
    splitLabel (tokens ++ more) = ((splitLabel tokens).1, (splitLabel tokens).2 ++ more) := by
  obtain ⟨first, rest, rfl⟩ := List.exists_cons_of_ne_nil hne
  unfold splitLabel
  dsimp only [List.cons_append]
  split <;> rfl

private theorem splitMarker_append (hne : tokens ≠ []) (more : List String) :
    splitMarker (tokens ++ more) = ((splitMarker tokens).1, (splitMarker tokens).2 ++ more) := by
  obtain ⟨first, rest, rfl⟩ := List.exists_cons_of_ne_nil hne
  unfold splitMarker
  dsimp only [List.cons_append]
  split <;> rfl

/-- Tokens behind those of a command are further operands of the command. -/
theorem sourceCommand_append (h : sourceCommand number tokens = .ok command) (more : List String) :
    sourceCommand number (tokens ++ more) =
      .ok { command with operands := command.operands ++ more } := by
  have hne : tokens ≠ [] := by
    rintro rfl
    cases h
  unfold sourceCommand at h ⊢
  rw [splitLabel_append hne]
  generalize splitLabel tokens = labelled at h ⊢
  obtain ⟨label, rest⟩ := labelled
  have hrest : rest ≠ [] := by
    rintro rfl
    cases h
  dsimp only at h ⊢
  rw [splitMarker_append hrest]
  generalize splitMarker rest = marked at h ⊢
  obtain ⟨marker, _ | ⟨mnemonic, operands⟩⟩ := marked
  · cases h
  · cases h
    rfl

end commands

/-- A place for an operand in a script text: a line in a table where the operand would stand behind the
    mnemonic of a command, set off by blanks. -/
structure Place (token : List Char) where
  front : List (List Char)
  back : List (List Char)
  outline : Outline
  table : SourceTable
  last : SourceLine
  lines : List SourceLine
  command : SourceCommand
  lead : List Char
  word : List Char
  before : List (List Char)
  behind : List (List Char)
  rest : List Char
  newlines : ∀ line ∈ front ++ (lead ++ (word ++ rest)) :: back, '\n' ∉ line
  read : Outline.readLines [] 0 front = .ok outline
  lastLine : outline.lastLine? = some (table, last, lines)
  isTokens : ∀ other ∈ word :: (before ++ behind), IsToken other
  notSection : ¬"==".toList <+: word
  mnemonic : sourceCommand (front.length + 1) ((word :: before).map String.ofList) = .ok command
  blanks : ∀ c ∈ lead, isBlank c
  setOff : SetOff (before ++ token :: behind) rest

namespace Place

variable {token : List Char}

/-- The script text with the operand. -/
def text (place : Place token) : String :=
  String.ofList (unlines (place.front ++ (place.lead ++ (place.word ++ place.rest)) :: place.back))

/-- The command with the operand. -/
def filled (place : Place token) : SourceCommand :=
  { place.command with
    operands := place.command.operands ++ String.ofList token :: place.behind.map String.ofList }

/-- What has been read up to the command with the operand. -/
def after (place : Place token) : Outline :=
  place.outline.replaceTable { place.table with lines :=
    { place.last with commands := place.filled :: place.last.commands } :: place.lines }

private theorem tokens_eq (place : Place token) (htoken : IsToken token) (number : Nat) :
    tokens number (place.word ++ place.rest) = .ok ((place.word :: place.before).map String.ofList ++
      String.ofList token :: place.behind.map String.ofList) := by
  obtain ⟨hword, hothers⟩ := List.forall_mem_cons.mp place.isTokens
  obtain ⟨hbefore, hbehind⟩ := List.forall_mem_append.mp hothers
  have hwords : ∀ word ∈ place.before ++ token :: place.behind, IsToken word :=
    List.forall_mem_append.mpr ⟨hbefore, List.forall_mem_cons.mpr ⟨htoken, hbehind⟩⟩
  rw [tokens, tokensFrom_setOff hword place.setOff hwords]
  simp

private theorem readCommand_eq (place : Place token) (htoken : IsToken token) :
    place.outline.readCommand (place.front.length + 1) (place.word ++ place.rest) = .ok place.after := by
  rw [Outline.readCommand, place.tokens_eq htoken]
  simp only [bind, Except.bind, place.lastLine, sourceCommand_append place.mnemonic]
  rfl

/-- A token in a place for an operand is read as one operand, whatever stands around it. -/
theorem parse_text (place : Place token) (htoken : IsToken token) :
    parse place.text =
      (place.after.readLines (place.front.length + 1) place.back).map Outline.files := by
  have hword := place.isTokens place.word List.mem_cons_self
  have hline : place.outline.readLine (place.front.length + 1) (place.lead ++ (place.word ++ place.rest)) =
      .ok place.after := by
    rw [readLine_setOff place.blanks hword place.notSection place.setOff, place.readCommand_eq htoken]
  rw [text, parse_unlines place.newlines, Outline.readLines_append_eq_bind, place.read]
  show Except.map _ (Outline.readLines _ (0 + _) _) = _
  rw [Outline.readLines_cons_eq_bind, Nat.zero_add, hline]
  rfl

end Place

section resolved

variable (assembler : Assembler) (target : Target) (line : Nat) (pool : StringPool) (text : String)

/-- What the assembler makes of a text in quotes, where an operand is expected that it can be. -/
def Quoting.operand (quoting : Quoting) : Assembly DraftOperand :=
  assembler.operand target line (if quoting = .name then .item else .text) (quoting.written text)

/-- How a text in quotes is resolved, whatever the text is: by itself to the lowest string that has it and
    that the file may use, behind a plus sign to a declared text, and between angles to the one item of the
    name. -/
structure Resolves : Prop where
  known : ∀ id, assembler.symbols.text? id = some text → target.allows id →
    (∀ other < id, target.allows other → assembler.symbols.text? other ≠ some text) →
      Quoting.text.operand assembler target line text pool = .ok (.known (.text (.id (.ofNat id)))) pool
  unknown : (∀ id, target.allows id → assembler.symbols.text? id ≠ some text) →
    Quoting.text.operand assembler target line text pool =
      .error (.unresolvedReference line (Quoting.text.written text)) pool
  declared : text ∈ pool.added ∨ pool.first + pool.added.length < pool.limit →
    ∃ id after, Quoting.declared.operand assembler target line text pool =
        .ok (.known (.text (.id (.ofNat id)))) after ∧
      pool.Extends after ∧ after.get? id = some text
  full : text ∉ pool.added → pool.limit ≤ pool.first + pool.added.length →
    Quoting.declared.operand assembler target line text pool =
      .error (.malformedOperand line (Quoting.declared.written text) .noIdsLeft) pool
  named : ∀ item, (∀ other, assembler.symbols.itemName? other = some text ↔ other = item) →
    Quoting.name.operand assembler target line text pool = .ok (.known (.item (.id (.ofNat item)))) pool
  unnamed : (∀ item, assembler.symbols.itemName? item ≠ some text) →
    Quoting.name.operand assembler target line text pool =
      .error (.unresolvedReference line (Quoting.name.written text)) pool
  shared : ∀ item other, item ≠ other → assembler.symbols.itemName? item = some text →
    assembler.symbols.itemName? other = some text →
      ∃ items, (∀ found, found ∈ items ↔ assembler.symbols.itemName? found = some text) ∧
        Quoting.name.operand assembler target line text pool =
          .error (.malformedOperand line (Quoting.name.written text) (.sharedName items)) pool

private theorem quotedText?_quoted : quotedText? line (quoted text) = .ok (some text.toList) :=
  quotedText?_eq_ok_some_iff.mpr ⟨enclose text.toList, rfl, unescape_enclose _⟩

private theorem operand_text : Quoting.text.operand assembler target line text pool =
    match assembler.symbols.findText? text target.allows with
    | some id => .ok (.known (.text (.id (.ofNat id)))) pool
    | none => .error (.unresolvedReference line (Quoting.text.written text)) pool := by
  have htoken : (Quoting.text.written text).toList = quoted text := String.toList_ofList
  have hknown : assembler.knownText target pool line (Quoting.text.written text) =
      match assembler.symbols.findText? text target.allows with
      | some id => .ok (.id (.ofNat id))
      | none => .error (.unresolvedReference line (Quoting.text.written text)) := by
    unfold Assembler.knownText
    rw [htoken, quotedText?_quoted]
    simp only [bind, Except.bind, String.ofList_toList]
    rfl
  have htext : assembler.text target line (Quoting.text.written text) =
      (do check (assembler.knownText target (← get) line (Quoting.text.written text))) := by
    unfold Assembler.text
    rw [htoken]
    rfl
  show (do return .known (.text (← assembler.text target line _)) : Assembly DraftOperand) pool = _
  rw [htext]
  simp only [bind, EStateM.bind, EStateM.get_apply, check, hknown]
  cases assembler.symbols.findText? text target.allows <;> rfl

private theorem operand_declared : Quoting.declared.operand assembler target line text pool =
    match pool.add text with
    | some (id, after) => .ok (.known (.text (.id (.ofNat id)))) after
    | none =>
      .error (.malformedOperand line (Quoting.declared.written text) .noIdsLeft) pool := by
  have htoken : (Quoting.declared.written text).toList = '+' :: quoted text :=
    String.toList_ofList
  have htext : assembler.text target line (Quoting.declared.written text) =
      Assembler.newText line (Quoting.declared.written text) (quoted text) := by
    unfold Assembler.text
    rw [htoken]
    rfl
  show (do return .known (.text (← assembler.text target line _)) : Assembly DraftOperand) pool = _
  rw [htext, Assembler.newText, quotedText?_quoted]
  simp only [bind, EStateM.bind, EStateM.get_apply, check, String.ofList_toList]
  cases pool.add text <;> rfl

private theorem operand_name : Quoting.name.operand assembler target line text pool =
    match assembler.symbols.findItems text with
    | [] => .error (.unresolvedReference line (Quoting.name.written text)) pool
    | [item] => .ok (.known (.item (.id (.ofNat item)))) pool
    | items =>
      .error (.malformedOperand line (Quoting.name.written text) (.sharedName items)) pool := by
  have htoken : (Quoting.name.written text).toList = '<' :: (quoted text ++ ['>']) :=
    String.toList_ofList
  have hbetween : between? '<' '>' ('<' :: (quoted text ++ ['>'])) = some (quoted text) :=
    between?_eq_some_iff.mpr rfl
  have hitem : assembler.item line (Quoting.name.written text) =
      assembler.numberedItem line (Quoting.name.written text) (quoted text) := by
    unfold Assembler.item
    rw [htoken, hbetween]
    rfl
  show (do return .known (.item (← check (assembler.item line _))) : Assembly DraftOperand) pool = _
  rw [hitem, Assembler.numberedItem, quotedText?_quoted]
  simp only [bind, EStateM.bind, Except.bind, check, String.ofList_toList]
  rcases assembler.symbols.findItems text with _ | ⟨item, _ | ⟨other, items⟩⟩ <;> rfl

/-- A text in quotes is resolved to what has the text, and else is an error. -/
theorem resolves : Resolves assembler target line pool text where
  known id htext hallows hlowest := by
    rw [operand_text, Symbols.findText?_of_lowest htext hallows hlowest]
  unknown h := by rw [operand_text, Symbols.findText?_eq_none h]
  declared h := by
    rw [operand_declared]
    cases hadd : pool.add text with
    | none =>
      obtain ⟨hnew, hlimit⟩ := StringPool.add_eq_none_iff.mp hadd
      exact absurd (h.resolve_left hnew) (Nat.not_lt.mpr hlimit)
    | some added =>
      obtain ⟨id, after⟩ := added
      obtain ⟨hextends, index, hindex, rfl⟩ := StringPool.add_eq_some hadd
      exact ⟨_, after, rfl, hextends, StringPool.get?_of_idxOf? hindex⟩
  full hnew hlimit := by rw [operand_declared, StringPool.add_eq_none_iff.mpr ⟨hnew, hlimit⟩]
  named item h := by rw [operand_name, Symbols.findItems_of_itemName?_iff h]
  unnamed h := by
    have hnone : assembler.symbols.findItems text = [] :=
      List.eq_nil_iff_forall_not_mem.mpr fun item hitem => h item (Symbols.mem_findItems_iff.mp hitem)
    rw [operand_name, hnone]
  shared item other hne hitem hother := by
    refine ⟨_, fun found => Symbols.mem_findItems_iff, ?_⟩
    rw [← Symbols.mem_findItems_iff] at hitem hother
    rw [operand_name]
    split
    case _ hnone => simp [hnone] at hitem
    case _ found hfound =>
      rw [hfound, List.mem_singleton] at hitem hother
      exact absurd (hitem.trans hother.symm) hne
    case _ => rfl

end resolved

/-- Any text can be quoted: in quotes it is one operand wherever operands may stand in a script text, and
    the assembler resolves this operand to what has the text. -/
theorem quoted_text_resolves (text : String) :
    (∀ (quoting : Quoting) (place : Place (quoting.token text)), parse place.text =
      (place.after.readLines (place.front.length + 1) place.back).map Outline.files) ∧
    ∀ (assembler : Assembler) (target : Target) (line : Nat) (pool : StringPool),
      Resolves assembler target line pool text :=
  ⟨fun quoting place => place.parse_text (quoting.isToken text),
    fun assembler target line pool => resolves assembler target line pool text⟩

/-- A text of characters that end texts, tokens and lines. -/
def hostile : String := "\"a\\ // \t\n\\"

/-- The name of an item between the mnemonic of a command and another operand. -/
def hostilePlace : Place (Quoting.name.token hostile) where
  front := ["== FILE S1 1:5".toList, "== TABLE 1".toList, "==>".toList]
  back := ["// end".toList]
  outline := [⟨1, "S1", .tables [⟨1, 5⟩] [⟨2, 1, [⟨3, none, []⟩]⟩]⟩]
  table := ⟨2, 1, [⟨3, none, []⟩]⟩
  last := ⟨3, none, []⟩
  lines := []
  command := ⟨4, none, none, "TAKE", []⟩
  lead := ['\t']
  word := "TAKE".toList
  before := []
  behind := [['2']]
  rest := [' '] ++ (Quoting.name.token hostile ++ (['\t', ' '] ++ (['2'] ++ ([' '] ++ "// \"".toList))))
  newlines := by decide +kernel
  read := Except.eq_ok_of_toOption (by decide +kernel)
  lastLine := rfl
  isTokens := by decide
  notSection := by decide
  mnemonic := Except.eq_ok_of_toOption (by decide +kernel)
  blanks := List.forall_mem_singleton.mpr rfl
  setOff := .word (List.forall_mem_singleton.mpr rfl) (by decide)
    (.word (List.forall_mem_cons.mpr ⟨rfl, List.forall_mem_singleton.mpr rfl⟩) (by decide)
      (.comment (List.forall_mem_singleton.mpr rfl) (by decide)))

/-- The symbols of a game where this text names an item. -/
def hostileSymbols : Symbols :=
  ⟨(∅ : Std.TreeMap Nat String).insert 3 hostile, (∅ : Std.TreeMap Nat Nat).insert 12 3, 13⟩

theorem quoted_text_resolves_hostile :
    parse hostilePlace.text = .ok [⟨1, "S1", .tables [⟨1, 5⟩] [⟨2, 1, [⟨3, none,
      [⟨4, none, none, "TAKE", [Quoting.name.written hostile, "2"]⟩]⟩]⟩]⟩] ∧
    Quoting.name.operand ⟨.simon, hostileSymbols⟩ ⟨"S1", none⟩ 4 hostile (.startingAt 0) =
      .ok (.known (.item (.id 12))) (.startingAt 0) := by
  have hitem : ∀ other, hostileSymbols.itemName? other = some hostile ↔ other = 12 := by
    intro other
    by_cases hother : other = 12
    · subst hother
      simp [Symbols.itemName?, Symbols.text?, hostileSymbols]
    · simp [Symbols.itemName?, hostileSymbols, hother, Ne.symm hother]
  obtain ⟨hread, hresolves⟩ := quoted_text_resolves hostile
  exact ⟨hread .name hostilePlace, (hresolves ⟨.simon, hostileSymbols⟩ _ 4 _).named 12 hitem⟩

end Adventure.Listing
