import Adventure.Listing.Source
import Adventure.Proofs.Outcome

namespace Adventure.Listing

/-- A line has a header exactly in table 0. -/
def HeaderPlaced (table : UInt16) (line : SourceLine) : Prop :=
  line.header.isSome = true ↔ table = 0

/-- All lines of a table have headers exactly in table 0. -/
def HeadersPlaced (table : SourceTable) : Prop :=
  ∀ line ∈ table.lines, HeaderPlaced table.number line

/-- All tables of a file have their headers where they belong. -/
def SourceFile.HeadersPlaced (file : SourceFile) : Prop :=
  ∀ ranges tables, file.body = .tables ranges tables → ∀ table ∈ tables, Listing.HeadersPlaced table

namespace Outline

variable {outline after : Outline} {table : SourceTable} {number : Nat} {content : List Char}

/-- What a line of a script text adds to what has been read before it. -/
inductive Reads (outline : Outline) (number : Nat) : Outline → Prop
  | nothing : Reads outline number outline
  | file {tokens : List String} {file : SourceFile} (h : sourceFile number tokens = .ok file) :
      Reads outline number (file :: outline)
  | table {value : UInt16} {after : Outline} (h : outline.addTable? ⟨number, value, []⟩ = some after) :
      Reads outline number after
  | line {table : SourceTable} {header : Option LineHeader} (htable : outline.lastTable? = some table)
      (hheader : HeaderPlaced table.number ⟨number, header, []⟩) :
      Reads outline number (outline.addLine table ⟨number, header, []⟩)
  | command {table : SourceTable} {last : SourceLine} {lines : List SourceLine} {command : SourceCommand}
      (htable : outline.lastTable? = some table) (hlines : table.lines = last :: lines) :
      Reads outline number (outline.replaceTable { table with lines :=
        { last with commands := command :: last.commands } :: lines })

private theorem lastLine?_eq_some {last : SourceLine} {lines : List SourceLine}
    (h : outline.lastLine? = some (table, last, lines)) :
    outline.lastTable? = some table ∧ table.lines = last :: lines := by
  unfold lastLine? at h
  split at h
  case _ htable =>
    split at h
    case _ hlines =>
      cases h
      exact ⟨htable, hlines⟩
    case _ => cases h
  case _ => cases h

private theorem readLineStart_reads (h : outline.readLineStart number content = .ok after) :
    outline.Reads number after := by
  obtain ⟨tokens, -, h⟩ := Except.bind_eq_ok_iff.mp h
  cases htable : outline.lastTable? with
  | none =>
    rw [htable] at h
    cases h
  | some table =>
    rw [htable] at h
    obtain ⟨header, -, h⟩ := Except.bind_eq_ok_iff.mp h
    split at h
    · cases h
    case _ hplaced =>
      cases h
      rw [ne_eq, not_not] at hplaced
      exact .line htable (iff_of_eq hplaced)

private theorem readSection_reads (h : outline.readSection number content = .ok after) :
    outline.Reads number after := by
  obtain ⟨tokens, -, h⟩ := Except.bind_eq_ok_iff.mp h
  split at h
  · obtain ⟨file, hfile, h⟩ := Except.bind_eq_ok_iff.mp h
    cases h
    exact .file hfile
  · obtain ⟨value, -, h⟩ := Except.bind_eq_ok_iff.mp h
    split at h
    case _ added hadd =>
      cases h
      exact .table hadd
    case _ => cases h
  · cases h
  · cases h

private theorem readCommand_reads (h : outline.readCommand number content = .ok after) :
    outline.Reads number after := by
  obtain ⟨tokens, -, h⟩ := Except.bind_eq_ok_iff.mp h
  split at h
  · cases h
    exact .nothing
  · cases hlast : outline.lastLine? with
    | none =>
      rw [hlast] at h
      cases h
    | some last =>
      obtain ⟨table, last, lines⟩ := last
      rw [hlast] at h
      obtain ⟨command, -, h⟩ := Except.bind_eq_ok_iff.mp h
      cases h
      obtain ⟨htable, hlines⟩ := lastLine?_eq_some hlast
      exact .command htable hlines

theorem readLine_reads (h : outline.readLine number content = .ok after) : outline.Reads number after := by
  unfold Outline.readLine at h
  split at h
  · cases h
    exact .nothing
  · cases h
    exact .nothing
  · exact readLineStart_reads h
  · exact readSection_reads h
  · exact readCommand_reads h

/-- All files that have been read have their headers where they belong. -/
def HeadersPlaced (outline : Outline) : Prop := ∀ file ∈ outline, file.HeadersPlaced

theorem HeadersPlaced.lastTable (h : outline.HeadersPlaced) (htable : outline.lastTable? = some table) :
    Listing.HeadersPlaced table := by
  unfold lastTable? at htable
  split at htable
  · cases htable
    exact h _ List.mem_cons_self _ _ rfl _ List.mem_cons_self
  · cases htable

theorem HeadersPlaced.replaceTable (h : outline.HeadersPlaced) (htable : Listing.HeadersPlaced table) :
    (outline.replaceTable table).HeadersPlaced := by
  unfold Outline.replaceTable
  split
  case _ line name ranges old tables files =>
    obtain ⟨hfile, hfiles⟩ := List.forall_mem_cons.mp h
    refine List.forall_mem_cons.mpr ⟨?_, hfiles⟩
    intro ranges' tables' hbody
    cases hbody
    exact List.forall_mem_cons.mpr ⟨htable, fun other hother =>
      hfile _ _ rfl other (List.mem_cons_of_mem _ hother)⟩
  case _ => exact h

theorem HeadersPlaced.addTable (h : outline.HeadersPlaced) (htable : Listing.HeadersPlaced table)
    (hadd : outline.addTable? table = some after) : after.HeadersPlaced := by
  unfold addTable? at hadd
  split at hadd
  case _ line name ranges tables files =>
    cases hadd
    obtain ⟨hfile, hfiles⟩ := List.forall_mem_cons.mp h
    refine List.forall_mem_cons.mpr ⟨?_, hfiles⟩
    intro ranges' tables' hbody
    cases hbody
    exact List.forall_mem_cons.mpr ⟨htable, fun other hother => hfile _ _ rfl other hother⟩
  case _ => cases hadd

private theorem sourceFile_headersPlaced {tokens : List String} {file : SourceFile}
    (h : sourceFile number tokens = .ok file) : file.HeadersPlaced := by
  unfold sourceFile at h
  split at h
  · cases h
  · cases h
  · cases h
    intro ranges tables hbody
    cases hbody
  · obtain ⟨ranges, -, rfl⟩ := Except.map_eq_ok_iff.mp h
    intro ranges' tables hbody
    cases hbody
    simp

theorem HeadersPlaced.readLine (h : outline.HeadersPlaced)
    (hread : outline.readLine number content = .ok after) : after.HeadersPlaced := by
  cases readLine_reads hread with
  | nothing => exact h
  | file hfile => exact List.forall_mem_cons.mpr ⟨sourceFile_headersPlaced hfile, h⟩
  | table hadd => exact h.addTable (fun _ hline => by cases hline) hadd
  | line htable hheader =>
    exact h.replaceTable (List.forall_mem_cons.mpr ⟨hheader, h.lastTable htable⟩)
  | command htable hlines =>
    have hplaced := h.lastTable htable
    rw [Listing.HeadersPlaced, hlines, List.forall_mem_cons] at hplaced
    exact h.replaceTable (List.forall_mem_cons.mpr hplaced)

theorem HeadersPlaced.files (h : outline.HeadersPlaced) : ∀ file ∈ outline.files, file.HeadersPlaced := by
  intro file hfile
  obtain ⟨read, hmem, rfl⟩ := List.mem_map.mp hfile
  have hread := h read (List.mem_reverse.mp hmem)
  intro ranges tables hbody table htable
  split at hbody
  case _ hraw =>
    rw [hraw] at hbody
    cases hbody
  case _ given read hgiven =>
    cases hbody
    obtain ⟨table, hmem, rfl⟩ := List.mem_map.mp htable
    have hplaced := hread _ _ hgiven table (List.mem_reverse.mp hmem)
    intro line hline
    obtain ⟨line, hmem, rfl⟩ := List.mem_map.mp hline
    exact hplaced line (List.mem_reverse.mp hmem)

end Outline

/-- A text that is read has its headers where they belong, in each of its files. -/
theorem parse_headersPlaced {text : String} {files : List SourceFile} (h : parse text = .ok files) :
    ∀ file ∈ files, file.HeadersPlaced := by
  obtain ⟨outline, houtline, rfl⟩ := Except.map_eq_ok_iff.mp h
  refine Outline.HeadersPlaced.files ?_
  refine Except.foldlM_invariant Outline.HeadersPlaced ?_ (fun _ hfile => by cases hfile) houtline
  rintro ⟨number, content⟩ - before after hbefore hread
  exact hbefore.readLine hread

end Adventure.Listing
