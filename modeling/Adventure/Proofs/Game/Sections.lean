import Adventure.Game.Extract
import Adventure.Proofs.Listing.Parsing

namespace Adventure.Game

open Listing Text

/-- A file of a script text says what a script file is listed as. -/
structure ScriptFile.Listed (context : Labels → Context) (file : ScriptFile) (source : SourceFile) :
    Prop where
  name : source.name = file.name
  body : match file.script with
    | .ok (script, labels) => ∃ sources, source.body = .tables file.ranges sources ∧
      List.Forall₂ (TableListed (context labels)) script.tables sources
    | .error _ => source.body = .raw

/-- What makes the section of a script file one that is read line by line. -/
structure ScriptFile.Printable (context : Labels → Context) (file : ScriptFile) : Prop where
  name : IsToken file.name.toList
  headers : ∀ script labels, file.script = .ok (script, labels) → ∀ table ∈ script.tables,
    ∀ line ∈ table.lines, line.header.isSome = (table.number = 0)
  mnemonics : ∀ script labels, file.script = .ok (script, labels) →
    ∀ command ∈ script.tables.flatMap Table.commands,
      IsToken ((context labels).mnemonic command.opcode).toList

/-- The lines of the section of a script file. -/
def sectionLines (context : Labels → Context) (file : ScriptFile) : List (List Char) :=
  match file.script with
  | .ok (script, labels) => fileHeader file.name file.ranges :: (context labels).tables script.tables
  | .error error => [rawHeader file.name error.message]

variable {context : Labels → Context} {file : ScriptFile}

private theorem listing_eq (context : Labels → Context) (file : ScriptFile) :
    listing context file = unlines (sectionLines context file) := by
  unfold listing sectionLines
  cases file.script <;> rfl

private theorem newline_not_mem_sectionLines (h : file.Printable context) :
    ∀ line ∈ sectionLines context file, '\n' ∉ line := by
  unfold sectionLines
  split
  case _ script labels hscript =>
    exact List.forall_mem_cons.mpr ⟨newline_not_mem_fileHeader h.name file.ranges,
      newline_not_mem_tables (h.mnemonics script labels hscript)⟩
  case _ error _ =>
    exact List.forall_mem_singleton.mpr (newline_not_mem_rawHeader h.name error.message)

/-- A section that can be read is read as one file. -/
theorem readLines_section (h : file.Printable context) {files after : Outline} {first : Nat}
    (hread : files.readLines first (sectionLines context file) = .ok after) :
    ∃ source, file.Listed context source ∧ after.files = files.files ++ [source] := by
  unfold sectionLines at hread
  split at hread
  case _ script labels hscript =>
    obtain ⟨middle, hheader, -⟩ := Outline.readLines_cons_eq_ok_iff.mp hread
    obtain ⟨hranges, -⟩ := (readLine_fileHeader_eq_ok_iff h.name).mp hheader
    obtain ⟨sources, hlisted, htables⟩ := readLines_file h.name hranges
      (h.headers script labels hscript) (h.mnemonics script labels hscript)
    rw [htables] at hread
    cases hread
    refine ⟨⟨first + 1, file.name, .tables file.ranges sources⟩, ⟨rfl, ?_⟩, files_tabled _ _⟩
    rw [hscript]
    exact ⟨sources, rfl, hlisted⟩
  case _ error hscript =>
    obtain ⟨middle, hheader, hrest⟩ := Outline.readLines_cons_eq_ok_iff.mp hread
    rw [readLine_rawHeader h.name] at hheader
    cases hheader
    cases hrest
    refine ⟨⟨first + 1, file.name, .raw⟩, ⟨rfl, ?_⟩, ?_⟩
    · rw [hscript]
    · simp [Outline.files]

private theorem readLines_sections {files : List ScriptFile} (h : ∀ file ∈ files, file.Printable context)
    {outline after : Outline} {first : Nat}
    (hread : outline.readLines first (files.flatMap (sectionLines context)) = .ok after) :
    ∃ sources, List.Forall₂ (ScriptFile.Listed context) files sources ∧
      after.files = outline.files ++ sources := by
  induction files generalizing outline first with
  | nil =>
    cases hread
    exact ⟨[], .nil, (List.append_nil _).symm⟩
  | cons file files ih =>
    obtain ⟨hfile, hfiles⟩ := List.forall_mem_cons.mp h
    rw [List.flatMap_cons, Outline.readLines_append_eq_ok_iff] at hread
    obtain ⟨middle, hsection, hrest⟩ := hread
    obtain ⟨source, hlisted, hmiddle⟩ := readLines_section hfile hsection
    obtain ⟨sources, hothers, hafter⟩ := ih hfiles hrest
    refine ⟨source :: sources, .cons hlisted hothers, ?_⟩
    rw [hafter, hmiddle, List.append_assoc, List.singleton_append]

/-- The document of script files is read as one file for each of them. -/
theorem parse_listings {files : List ScriptFile} (h : ∀ file ∈ files, file.Printable context)
    {sources : List SourceFile}
    (hparse : parse (String.ofList (files.flatMap (listing context))) = .ok sources) :
    List.Forall₂ (ScriptFile.Listed context) files sources := by
  have hlines : files.flatMap (listing context) = unlines (files.flatMap (sectionLines context)) := by
    rw [unlines, List.flatMap_assoc]
    exact List.flatMap_congr fun file _ => listing_eq context file
  have hnewlines : ∀ line ∈ files.flatMap (sectionLines context), '\n' ∉ line := by
    intro line hline
    obtain ⟨file, hfile, hline⟩ := List.mem_flatMap.mp hline
    exact newline_not_mem_sectionLines (h file hfile) line hline
  rw [hlines, parse_unlines hnewlines, Except.map_eq_ok_iff] at hparse
  obtain ⟨after, hread, rfl⟩ := hparse
  obtain ⟨sources, hlisted, hfiles⟩ := readLines_sections h hread
  rw [hfiles]
  exact hlisted

end Adventure.Game
