import Adventure.Proofs.Listing.Declared
import Adventure.Proofs.Listing.Outline
import Adventure.Proofs.Listing.Parsing
import Adventure.Proofs.Script.Ranges

namespace Adventure.Listing

/-- The lines on which the tables of a file begin. -/
def SourceFile.tableLines (file : SourceFile) : List Nat :=
  match file.body with
  | .raw => []
  | .tables _ tables => tables.map (·.line)

namespace Outline

/-- The tables of each file that has been read begin before the line `next`, the last one first. -/
def Descends (outline : Outline) (next : Nat) : Prop :=
  ∀ lines ∈ outline.map SourceFile.tableLines, (next :: lines).Pairwise (· > ·)

variable {outline after : Outline} {table : SourceTable} {number first : Nat}

private theorem map_tableLines_replaceTable {other : SourceTable} (h : outline.lastTable? = some table)
    (hline : other.line = table.line) :
    (outline.replaceTable other).map SourceFile.tableLines = outline.map SourceFile.tableLines := by
  unfold lastTable? at h
  split at h
  · cases h
    simp [replaceTable, SourceFile.tableLines, hline]
  · cases h

private theorem map_tableLines_addTable (h : outline.addTable? table = some after) :
    ∃ lines rest, outline.map SourceFile.tableLines = lines :: rest ∧
      after.map SourceFile.tableLines = (table.line :: lines) :: rest := by
  unfold addTable? at h
  split at h
  · cases h
    exact ⟨_, _, rfl, rfl⟩
  · cases h

theorem Descends.replaceTable {other : SourceTable} {next : Nat} (h : outline.Descends next)
    (htable : outline.lastTable? = some table) (hline : other.line = table.line) :
    (outline.replaceTable other).Descends next := by
  unfold Descends
  rwa [map_tableLines_replaceTable htable hline]

theorem Descends.succ (h : outline.Descends number) : outline.Descends (number + 1) := by
  intro lines hlines
  obtain ⟨hnext, hrest⟩ := List.pairwise_cons.mp (h lines hlines)
  exact List.pairwise_cons.mpr ⟨fun line hline => Nat.lt_succ_of_lt (hnext line hline), hrest⟩

theorem Reads.descends (h : outline.Reads number after) (hbefore : outline.Descends number) :
    after.Descends (number + 1) := by
  cases h with
  | nothing => exact hbefore.succ
  | @file tokens file hfile =>
    have hnone : file.tableLines = [] := by
      unfold sourceFile at hfile
      split at hfile
      · cases hfile
      · cases hfile
      · cases hfile
        rfl
      · obtain ⟨ranges, -, rfl⟩ := Except.map_eq_ok_iff.mp hfile
        rfl
    refine List.forall_mem_cons.mpr ⟨?_, hbefore.succ⟩
    rw [hnone]
    exact List.pairwise_singleton _ _
  | table hadd =>
    obtain ⟨lines, rest, hlines, hafter⟩ := map_tableLines_addTable hadd
    unfold Descends at hbefore ⊢
    rw [hlines] at hbefore
    rw [hafter]
    obtain ⟨hfirst, hrest⟩ := List.forall_mem_cons.mp hbefore
    refine List.forall_mem_cons.mpr ⟨List.pairwise_cons.mpr ⟨?_, hfirst⟩, fun lines hlines => ?_⟩
    · intro line hline
      rcases List.mem_cons.mp hline with rfl | hline
      · exact Nat.lt_succ_self _
      · exact Nat.lt_succ_of_lt ((List.pairwise_cons.mp hfirst).1 line hline)
    · obtain ⟨hnext, hpairs⟩ := List.pairwise_cons.mp (hrest lines hlines)
      exact List.pairwise_cons.mpr ⟨fun line hline => Nat.lt_succ_of_lt (hnext line hline), hpairs⟩
  | line htable => exact hbefore.succ.replaceTable htable rfl
  | command htable => exact hbefore.succ.replaceTable htable rfl

private theorem readLines_descends {content : List (List Char)}
    (h : outline.readLines first content = .ok after)
    (hbefore : outline.Descends (first + 1)) : after.Descends (first + content.length + 1) := by
  induction content generalizing outline first with
  | nil =>
    cases h
    exact hbefore
  | cons line content ih =>
    obtain ⟨middle, hline, hrest⟩ := readLines_cons_eq_ok_iff.mp h
    have hafter := ih hrest ((readLine_reads hline).descends hbefore)
    rwa [List.length_cons, Nat.add_comm content.length, ← Nat.add_assoc]

private theorem tableLines_files : ∀ file ∈ outline.files, ∃ read ∈ outline,
    file.tableLines = read.tableLines.reverse := by
  intro file hfile
  obtain ⟨read, hmem, rfl⟩ := List.mem_map.mp hfile
  refine ⟨read, List.mem_reverse.mp hmem, ?_⟩
  split
  case _ hraw => simp [SourceFile.tableLines, hraw]
  case _ hbody => simp [SourceFile.tableLines, hbody, Function.comp_def]

end Outline

/-- The tables of a text that is read begin on lines in order. -/
theorem parse_tableLines {text : String} {files : List SourceFile} (h : parse text = .ok files) :
    ∀ file ∈ files, file.tableLines.Pairwise (· < ·) := by
  obtain ⟨outline, houtline, rfl⟩ := Except.map_eq_ok_iff.mp h
  have hread : Outline.readLines [] 0 (Text.lines text.toList) = .ok outline := by
    rw [Text.numbered, List.foldlM_map] at houtline
    exact houtline
  have hdescends := Outline.readLines_descends hread (List.forall_mem_nil _)
  intro file hfile
  obtain ⟨read, hmem, hlines⟩ := Outline.tableLines_files file hfile
  rw [hlines, List.pairwise_reverse]
  exact (List.pairwise_cons.mp (hdescends _ (List.mem_map_of_mem hmem))).2

/-- The table at a position is the first one with which the numbers of the tables do not pass the check of
    the ranges. -/
structure FirstMisplaced (ranges : List TableRange) (tables : List SourceTable) (index : Nat)
    (table : SourceTable) : Prop where
  here : tables[index]? = some table
  passed : ∀ earlier ≤ index, TableRange.check ranges ((tables.take earlier).map (·.number)) = .ok ()
  rejected : TableRange.check ranges ((tables.take (index + 1)).map (·.number)) ≠ .ok ()

variable {ranges : List TableRange} {tables : List SourceTable} {number : UInt16}

private theorem rejected?_numbers_eq_some_iff :
    TableRange.rejected? ranges (tables.map (·.number)) = some number ↔
      ∃ index table, FirstMisplaced ranges tables index table ∧ table.number = number := by
  have hpasses : ∀ count, TableRange.check ranges ((tables.take count).map (·.number)) = .ok () ↔
      ranges = [] ∨ TableRange.Assignable ranges ((tables.map (·.number)).take count) := by
    intro count
    rw [TableRange.check_eq_ok_iff, TableRange.rejected?_eq_none_iff, List.map_take]
  rw [TableRange.rejected?_eq_some_iff]
  constructor
  · rintro ⟨hranges, index, hnumber, hpassed, hrejected⟩
    rw [List.getElem?_map, Option.map_eq_some_iff] at hnumber
    obtain ⟨table, htable, rfl⟩ := hnumber
    refine ⟨index, table, ⟨htable, fun earlier hle => (hpasses _).mpr (.inr (hpassed earlier hle)), ?_⟩,
      rfl⟩
    rw [ne_eq, hpasses, not_or]
    exact ⟨hranges, hrejected⟩
  · rintro ⟨index, table, ⟨htable, hpassed, hrejected⟩, rfl⟩
    rw [ne_eq, hpasses, not_or] at hrejected
    refine ⟨hrejected.1, index, ?_, fun earlier hle => ?_, hrejected.2⟩
    · rw [List.getElem?_map, htable, Option.map_some]
    · exact ((hpasses _).mp (hpassed earlier hle)).resolve_left hrejected.1

/-- The first table of a number is the one at a position exactly if its line is, and no table before that
    position has the number. -/
theorem line_find?_number {index : Nat} {table named : SourceTable}
    (hlines : (tables.map (·.line)).Pairwise (· < ·)) (htable : tables[index]? = some table)
    (hnamed : tables.find? (·.number = table.number) = some named) :
    named.line = table.line ↔ ∀ other ∈ tables.take index, other.number ≠ table.number := by
  obtain ⟨hnumber, front, back, rfl, hfront⟩ := List.find?_eq_some_iff_append.mp hnamed
  have hnumber : named.number = table.number := of_decide_eq_true hnumber
  have hfront : ∀ other ∈ front, other.number ≠ table.number := by simpa using hfront
  rcases Nat.lt_trichotomy index front.length with hbefore | rfl | hbehind
  · rw [List.getElem?_append_left hbefore] at htable
    exact absurd rfl (hfront table (List.mem_of_getElem? htable))
  · rw [List.getElem?_append_right (Nat.le_refl _), Nat.sub_self] at htable
    cases htable
    rw [List.take_left]
    exact iff_of_true rfl hfront
  · refine iff_of_false (fun hline => ?_) fun hnone => hnone named ?_ hnumber
    · have hbound := (List.getElem?_eq_some_iff.mp htable).1
      have hlt := List.pairwise_iff_getElem.mp hlines front.length index (by simp) (by simpa using hbound) hbehind
      have hnamed : (front ++ named :: back)[front.length] = named := by simp
      have htable : (front ++ named :: back)[index] = table := (List.getElem?_eq_some_iff.mp htable).2
      rw [List.getElem_map, List.getElem_map, hnamed, htable, hline] at hlt
      exact Nat.lt_irrefl _ hlt
    · refine List.mem_of_getElem? (i := front.length) ?_
      rw [List.getElem?_take_of_lt hbehind]
      simp

variable {text : String} {files : List SourceFile} {file : SourceFile}

/-- A file whose tables do not keep to its ranges is refused with the number of the first table that does
    not, and no other file is refused so. The line is that of the first table of this number: it is the line
    of the table that is misplaced exactly if the number has not come before. -/
theorem misplaced_table_refused (hparse : parse text = .ok files) (hfile : file ∈ files)
    (hbody : file.body = .tables ranges tables) (assembler : Assembler) (texts : Option (Nat × Nat))
    (pool : StringPool) :
    (∀ line number declared,
      (assembler.assembleWith file texts pool).1 = .error (.tableOutOfRange line number declared) →
      ∃ index table, FirstMisplaced ranges tables index table ∧ number = table.number ∧ declared = ranges) ∧
    ∀ index table, FirstMisplaced ranges tables index table → ∃ named ∈ tables,
      (assembler.assembleWith file texts pool).1 = .error (.tableOutOfRange named.line table.number ranges) ∧
      named.number = table.number ∧
      (named.line = table.line ↔ ∀ other ∈ tables.take index, other.number ≠ table.number) := by
  have hlines : (tables.map (·.line)).Pairwise (· < ·) := by
    have := parse_tableLines hparse file hfile
    rwa [SourceFile.tableLines, hbody] at this
  constructor
  · intro line number declared herror
    rcases Assembler.assembleWith_faults (Prod.ext herror rfl) with ⟨ranges', tables', hbody', hranges⟩ | hfaults
    · rw [hbody] at hbody'
      cases hbody'
      unfold Assembler.checkRanges at hranges
      split at hranges
      · cases hranges
      case _ found hrejected =>
        cases hranges
        obtain ⟨index, table, hmisplaced, hnumber⟩ := rejected?_numbers_eq_some_iff.mp hrejected
        exact ⟨index, table, hmisplaced, hnumber.symm, rfl⟩
    · cases hfaults.range
  · intro index table hmisplaced
    have hrejected := rejected?_numbers_eq_some_iff.mpr ⟨index, table, hmisplaced, rfl⟩
    obtain ⟨named, hnamed⟩ : ∃ named, tables.find? (·.number = table.number) = some named := by
      refine Option.isSome_iff_exists.mp (List.find?_isSome.mpr ⟨table, ?_, decide_eq_true rfl⟩)
      exact List.mem_of_getElem? hmisplaced.here
    have herror : Assembler.checkRanges file.line ranges tables =
        .error (.tableOutOfRange named.line table.number ranges) := by
      rw [Assembler.checkRanges, hrejected]
      dsimp only
      rw [hnamed]
      rfl
    have hnumber : named.number = table.number := by simpa using List.find?_some hnamed
    refine ⟨named, List.mem_of_find?_eq_some hnamed, ?_, hnumber,
      line_find?_number hlines hmisplaced.here hnamed⟩
    have hassemble : assembler.assemble file texts pool =
        .error (.tableOutOfRange named.line table.number ranges) pool := by
      unfold Assembler.assemble
      rw [hbody]
      dsimp only
      rw [herror]
      rfl
    rw [Assembler.assembleWith, EStateM.run, hassemble]

/-- The third table comes after table 7 with a number below it, but the line is that of the first one. -/
theorem misplaced_table_refused_again : ∃ line,
    parse "== FILE S1 1:10\n== TABLE 5\n== TABLE 7\n== TABLE 5\n" =
      .ok [⟨1, "S1", .tables [⟨1, 10⟩] [⟨2, 5, []⟩, ⟨3, 7, []⟩, ⟨4, 5, []⟩]⟩] ∧
    FirstMisplaced [⟨1, 10⟩] [⟨2, 5, []⟩, ⟨3, 7, []⟩, ⟨4, 5, []⟩] 2 ⟨4, 5, []⟩ ∧
    (Assembler.assembleWith ⟨.ofLayers "" [], .empty⟩
      ⟨1, "S1", .tables [⟨1, 10⟩] [⟨2, 5, []⟩, ⟨3, 7, []⟩, ⟨4, 5, []⟩]⟩ none (.startingAt 0)).1 =
        .error (.tableOutOfRange line 5 [⟨1, 10⟩]) ∧ line ≠ 4 := by
  have hparse : parse "== FILE S1 1:10\n== TABLE 5\n== TABLE 7\n== TABLE 5\n" =
      .ok [⟨1, "S1", .tables [⟨1, 10⟩] [⟨2, 5, []⟩, ⟨3, 7, []⟩, ⟨4, 5, []⟩]⟩] := by decide +kernel
  have hmisplaced : FirstMisplaced [⟨1, 10⟩] [⟨2, 5, []⟩, ⟨3, 7, []⟩, ⟨4, 5, []⟩] 2 ⟨4, 5, []⟩ :=
    ⟨rfl, by decide, by decide⟩
  obtain ⟨named, -, herror, -, hline⟩ := (misplaced_table_refused hparse List.mem_cons_self rfl
    ⟨.ofLayers "" [], .empty⟩ none (.startingAt 0)).2 2 _ hmisplaced
  exact ⟨named.line, hparse, hmisplaced, herror, fun heq => hline.mp heq ⟨2, 5, []⟩ (by decide) rfl⟩

end Adventure.Listing
