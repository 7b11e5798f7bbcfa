import Mathlib.Logic.Relation
import Mathlib.Order.Monotone.Basic
import Adventure.Proofs.Listing.Numbering
import Adventure.Proofs.Listing.Quoting

namespace Adventure.Listing

open Text

section edits

/-- A line with more blanks at one of its ends, or with a comment. Blanks may stand behind what is added, as a
    carriage return does, which is a blank itself. -/
inductive Dressed : List Char → List Char → Prop
  | indented {blanks : List Char} (hblanks : ∀ c ∈ blanks, isBlank c) (line : List Char) :
      Dressed line (blanks ++ line)
  | trailing {blanks behind : List Char} (hblanks : ∀ c ∈ blanks, isBlank c)
      (hbehind : ∀ c ∈ behind, isBlank c) (line : List Char) :
      Dressed (line ++ behind) (line ++ (blanks ++ behind))
  | comment {behind : List Char} (hbehind : ∀ c ∈ behind, isBlank c) (line comment : List Char) :
      Dressed (line ++ behind) (line ++ (" // ".toList ++ comment ++ behind))

/-- A line without anything but blanks and a comment. -/
inductive Idle : List Char → Prop
  | blank {line : List Char} (hblanks : ∀ c ∈ line, isBlank c) : Idle line
  | comment {blanks : List Char} (hblanks : ∀ c ∈ blanks, isBlank c) (comment : List Char) :
      Idle (blanks ++ '/' :: '/' :: comment)

/-- The lines of a text, and those of the text where one of them is dressed or an idle one is inserted. -/
inductive Edit : List (List Char) → List (List Char) → Prop
  | line {line line' : List Char} (before after : List (List Char)) (h : Dressed line line') :
      Edit (before ++ line :: after) (before ++ line' :: after)
  | inserted {line : List Char} (before after : List (List Char)) (h : Idle line) :
      Edit (before ++ after) (before ++ line :: after)

end edits

section lines

variable {outline after : Outline} {number : Nat} {line line' tail : List Char}

private theorem readLine_idle (h : Idle line) : outline.readLine number line = .ok outline := by
  cases h with
  | blank hblanks =>
    rw [← List.append_nil line, readLine_blanks_append hblanks]
    rfl
  | comment hblanks comment =>
    rw [readLine_blanks_append hblanks, Outline.readLine, trim_cons (by decide), trimRight_cons (by decide)]
    rfl

theorem Idle.append_setOff (h : Idle line) (htail : SetOff [] tail) : Idle (line ++ tail) := by
  cases h with
  | blank hblanks =>
    cases htail with
    | nil hgap => exact .blank (List.forall_mem_append.mpr ⟨hblanks, hgap⟩)
    | comment hgap =>
      rw [← List.append_assoc]
      exact .comment (List.forall_mem_append.mpr ⟨hblanks, hgap⟩) _
  | comment hblanks comment =>
    rw [List.append_assoc]
    exact .comment hblanks _

/-- What is made of the tokens of a line is made of them when blanks and a comment are behind them. -/
theorem tokens_bind_append_setOff {f : List String → Except Error Outline} (htail : SetOff [] tail)
    (h : (tokens number line >>= f) = .ok after) : (tokens number (line ++ tail) >>= f) = .ok after := by
  obtain ⟨found, htokens, hfound⟩ := Except.bind_eq_ok_iff.mp h
  exact Except.bind_eq_ok_iff.mpr ⟨found, tokens_append_setOff htail htokens, hfound⟩

/-- A line that can be read says the same with blanks and a comment behind it. -/
theorem readLine_append_setOff (htail : SetOff [] tail) (h : outline.readLine number line = .ok after) :
    outline.readLine number (line ++ tail) = .ok after := by
  have hidle : Idle line → outline.readLine number (line ++ tail) = .ok after := fun hidle => by
    rw [readLine_idle (hidle.append_setOff htail), ← h, readLine_idle hidle]
  rcases blanks_or_exists_cons line with hblanks | ⟨blanks, c, rest, rfl, hblanks, hc⟩
  · exact hidle (.blank hblanks)
  · by_cases hcomment : c = '/' ∧ rest.head? = some '/'
    · obtain ⟨rfl, hhead⟩ := hcomment
      obtain ⟨rest, rfl⟩ := List.head?_eq_some_iff.mp hhead
      exact hidle (.comment hblanks rest)
    rw [readLine_blanks_append hblanks] at h
    rw [List.append_assoc, readLine_blanks_append hblanks, List.cons_append]
    by_cases hsection : c = '=' ∧ rest.head? = some '='
    · obtain ⟨rfl, hhead⟩ := hsection
      obtain ⟨rest, rfl⟩ := List.head?_eq_some_iff.mp hhead
      by_cases hstart : rest.head? = some '>'
      · obtain ⟨rest, rfl⟩ := List.head?_eq_some_iff.mp hstart
        have hline : ∀ rest, outline.readLine number ('=' :: '=' :: '>' :: rest) =
            outline.readLineStart number rest := readLine_lineStart
        rw [hline] at h
        rw [List.cons_append, List.cons_append, hline]
        exact tokens_bind_append_setOff htail h
      · rw [readLine_of_section hstart] at h
        rw [← htail.head?_append (by decide)] at hstart
        rw [List.cons_append, readLine_of_section hstart]
        exact tokens_bind_append_setOff htail h
    · rw [readLine_of_command hc hcomment hsection] at h
      rw [← htail.head?_append (by decide)] at hcomment hsection
      rw [readLine_of_command hc hcomment hsection]
      exact tokens_bind_append_setOff htail h

private theorem readLine_append_blanks {blanks : List Char} (h : ∀ c ∈ blanks, isBlank c) (line : List Char) :
    outline.readLine number (line ++ blanks) = outline.readLine number line := by
  rw [Outline.readLine, trim_append_blanks h, Outline.readLine]

/-- A line that can be read says the same however it is dressed. -/
theorem readLine_dressed (h : Dressed line line') (hread : outline.readLine number line = .ok after) :
    outline.readLine number line' = .ok after := by
  cases h with
  | indented hblanks => rwa [readLine_blanks_append hblanks]
  | trailing hblanks hbehind =>
    rw [readLine_append_blanks hbehind] at hread
    rwa [readLine_append_blanks (List.forall_mem_append.mpr ⟨hblanks, hbehind⟩)]
  | @comment behind hbehind line comment =>
    rw [readLine_append_blanks hbehind] at hread
    have hblank : ∀ c ∈ [' '], isBlank c := List.forall_mem_singleton.mpr rfl
    have htail : SetOff [] ([' '] ++ '/' :: '/' :: (' ' :: comment ++ behind)) :=
      .comment hblank (List.cons_ne_nil _ _)
    exact readLine_append_setOff htail hread

end lines

section texts

variable {outline : Outline} {lines lines' : List (List Char)}

/-- A text is read as all that stands between its newlines: carriage returns and an empty end say nothing. -/
theorem parse_eq_readLines (text : String) :
    parse text = (Outline.readLines [] 0 (text.toList.splitOn '\n')).map Outline.files := by
  have hparse : parse text = (Outline.readLines [] 0 (Text.lines text.toList)).map Outline.files := by
    rw [parse, numbered, List.foldlM_map]
    rfl
  obtain ⟨front, last, hpieces⟩ :=
    (List.eq_nil_or_concat (text.toList.splitOn '\n')).resolve_left (List.splitOn_ne_nil _ _)
  have hlines : Text.lines text.toList = front.map dropReturn ++ if last.isEmpty then [] else [last] := by
    simp [Text.lines, hpieces]
  rw [hparse, hlines, hpieces, List.concat_eq_append, Outline.readLines_append_eq_bind,
    Outline.readLines_append_eq_bind, Outline.readLines_dropReturn, List.length_map]
  cases last <;> rfl

/-- An edit moves lines, and in all else the text says the same. -/
theorem Edit.exists_renumber (h : Edit lines lines') : ∃ move, StrictMono move ∧
    ∀ outline, Outline.readLines [] 0 lines = .ok outline →
      Outline.readLines [] 0 lines' = .ok (outline.renumber move) := by
  cases h with
  | line before after hdressed =>
    refine ⟨id, strictMono_id, fun outline hread => ?_⟩
    obtain ⟨middle, hbefore, hrest⟩ := Outline.readLines_append_eq_ok_iff.mp hread
    obtain ⟨next, hline, hafter⟩ := Outline.readLines_cons_eq_ok_iff.mp hrest
    rw [Outline.renumber_id]
    exact Outline.readLines_append hbefore (Outline.readLines_cons (readLine_dressed hdressed hline) hafter)
  | inserted before after hidle =>
    let move (number : Nat) : Nat := if number ≤ before.length then number else number + 1
    have hmono : StrictMono move := by
      intro number number' hlt
      dsimp only [move]
      split_ifs <;> omega
    refine ⟨move, hmono, fun outline hread => ?_⟩
    obtain ⟨middle, hbefore, hafter⟩ := Outline.readLines_append_eq_ok_iff.mp hread
    have hfront : Outline.readLines [] 0 before = .ok (middle.renumber move) := by
      have hmove : ∀ index < before.length, move (0 + index + 1) = 0 + index + 1 := fun index hindex =>
        if_pos (by omega)
      have hmoved := Outline.readLines_renumber move [] hmove
      rwa [hbefore] at hmoved
    have hback : ∀ index < after.length,
        move (0 + before.length + index + 1) = 0 + before.length + 1 + index + 1 := fun index _ =>
      (if_neg (by omega)).trans (by omega)
    have hrest := middle.readLines_renumber move hback
    rw [hafter] at hrest
    exact Outline.readLines_append hfront (Outline.readLines_cons (readLine_idle hidle) hrest)

private theorem exists_renumber_of_edits (h : Relation.ReflTransGen Edit lines lines') :
    ∃ move, StrictMono move ∧ ∀ outline, Outline.readLines [] 0 lines = .ok outline →
      Outline.readLines [] 0 lines' = .ok (outline.renumber move) := by
  induction h with
  | refl => exact ⟨id, strictMono_id, fun outline hread => by rwa [Outline.renumber_id]⟩
  | tail _ hedit ih =>
    obtain ⟨move, hmono, hread⟩ := ih
    obtain ⟨move', hmono', hread'⟩ := hedit.exists_renumber
    refine ⟨move' ∘ move, hmono'.comp hmono, fun outline houtline => ?_⟩
    rw [← Outline.renumber_renumber]
    exact hread' _ (hread outline houtline)

/-- Comments, blank lines, blanks around lines and the kind of line ends carry no meaning. A text that can
    be read is read as the same files after any such edits, but for line numbers, which keep their order.
    A file of the edited text is assembled to the same record and leaves the same texts in the pool, or it
    fails for the same reason on another line. -/
theorem comments_and_blanks_say_nothing {text text' : String} {files : List SourceFile}
    (hparse : parse text = .ok files)
    (hedits : Relation.ReflTransGen Edit (text.toList.splitOn '\n') (text'.toList.splitOn '\n')) :
    ∃ move, StrictMono move ∧ parse text' = .ok (files.map (·.renumber move)) ∧
      ∀ (assembler : Assembler) (file : SourceFile) (texts : Option (Nat × Nat)) (pool : StringPool),
        assembler.assembleWith (file.renumber move) texts pool =
          ((assembler.assembleWith file texts pool).1.mapError (·.renumber move),
            (assembler.assembleWith file texts pool).2) := by
  rw [parse_eq_readLines, Except.map_eq_ok_iff] at hparse
  obtain ⟨outline, hread, rfl⟩ := hparse
  obtain ⟨move, hmono, hmoved⟩ := exists_renumber_of_edits hedits
  refine ⟨move, hmono, ?_, fun assembler file texts pool => assembler.assembleWith_renumber move pool file texts⟩
  rw [parse_eq_readLines, hmoved outline hread, ← Outline.files_renumber]
  rfl

/-- A comment that would open a quote, a section and an escape, lines that are indented, and line ends with
    carriage returns. -/
theorem commented_listing_says_the_same :
    let plain := "== FILE S1 1:5\n== TABLE 1\n==>\n\tTAKE \"a // b\" 2"
    let commented := "== FILE S1 1:5 // \" == TABLE \\\r\n\r\n" ++
      "  == TABLE 1\n// ==>\n==>\n\tTAKE \"a // b\" 2\t\n"
    let files : List SourceFile := [⟨1, "S1", .tables [⟨1, 5⟩] [⟨2, 1, [⟨3, none,
      [⟨4, none, none, "TAKE", ["\"a // b\"", "2"]⟩]⟩]⟩]⟩]
    parse plain = .ok files ∧
      ∃ move, StrictMono move ∧ parse commented = .ok (files.map (·.renumber move)) := by
  intro plain commented files
  have hparse : parse plain = .ok files := Except.eq_ok_of_toOption (by decide +kernel)
  let file := "== FILE S1 1:5".toList
  let table := "== TABLE 1".toList
  let start := "==>".toList
  let take := "\tTAKE \"a // b\" 2".toList
  let comment := "\" == TABLE \\\r".toList
  have hplain : plain.toList.splitOn '\n' = [file ++ [], table, start, take ++ []] := by decide +kernel
  have hcommented : commented.toList.splitOn '\n' = [file ++ (" // ".toList ++ comment ++ []), ['\r'],
      [' ', ' '] ++ table, [] ++ '/' :: '/' :: " ==>".toList, start, take ++ (['\t'] ++ []), []] := by
    decide +kernel
  have hnone : ∀ c ∈ [], isBlank c := List.forall_mem_nil _
  have htab : ∀ c ∈ ['\t'], isBlank c := List.forall_mem_singleton.mpr rfl
  have hreturn : ∀ c ∈ ['\r'], isBlank c := List.forall_mem_singleton.mpr rfl
  have hspaces : ∀ c ∈ [' ', ' '], isBlank c :=
    List.forall_mem_cons.mpr ⟨rfl, List.forall_mem_singleton.mpr rfl⟩
  have hedits : Relation.ReflTransGen Edit (plain.toList.splitOn '\n') (commented.toList.splitOn '\n') := by
    rw [hplain, hcommented]
    refine .head (.line [] [table, start, take ++ []] (.comment hnone file comment)) ?_
    refine .head (.line [_] [start, take ++ []] (.indented hspaces table)) ?_
    refine .head (.line [_, _, start] [] (.trailing htab hnone take)) ?_
    refine .head (.inserted [_] _ (.blank hreturn)) ?_
    refine .head (.inserted [_, _, _] _ (.comment hnone " ==>".toList)) ?_
    exact .single (.inserted [_, _, _, _, _, _] [] (.blank hnone))
  obtain ⟨move, hmono, hmoved, -⟩ := comments_and_blanks_say_nothing hparse hedits
  exact ⟨hparse, move, hmono, hmoved⟩

end texts

end Adventure.Listing
