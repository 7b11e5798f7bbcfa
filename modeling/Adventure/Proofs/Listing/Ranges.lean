import Adventure.Proofs.Listing.Outline
import Adventure.Proofs.Listing.Parsing

namespace Adventure.Listing

/-- The ranges of a file, unless its record is kept as it is. -/
def SourceFile.ranges? (file : SourceFile) : Option (List TableRange) :=
  match file.body with
  | .raw => none
  | .tables ranges _ => some ranges

private theorem range?_proper {token : List Char} {range : TableRange} (h : range? token = some range) :
    0 < range.low ∧ range.low ≤ range.high := by
  simp only [range?, Option.bind_eq_bind, Option.bind_eq_some_iff] at h
  obtain ⟨low, hlow, high, hhigh, h⟩ := h
  split at h
  · cases h
  case _ hproper =>
    cases h
    rw [UInt16.lt_iff_toNat_lt, UInt16.le_iff_toNat_le, UInt16.toNat_zero,
      UInt16.toNat_ofNat_of_lt' (Text.decimal?_eq_some_lt hlow),
      UInt16.toNat_ofNat_of_lt' (Text.decimal?_eq_some_lt hhigh)]
    omega

private theorem ranges_proper {line : Nat} {tokens : List String} {found : List TableRange}
    (h : ranges line tokens = .ok found) : RangesProper found := by
  unfold ranges at h
  split at h
  · cases h
    exact fun _ hrange => absurd hrange List.not_mem_nil
  · intro range hrange
    obtain ⟨token, -, htoken⟩ := forall₂_exists_left (Except.mapM_eq_ok_iff.mp h) hrange
    split at htoken
    case _ found hfound =>
      cases htoken
      exact range?_proper hfound
    case _ => cases htoken

private theorem sourceFile_proper {line : Nat} {tokens : List String} {file : SourceFile}
    {found : List TableRange} (h : sourceFile line tokens = .ok file)
    (hranges : file.ranges? = some found) : RangesProper found := by
  unfold sourceFile at h
  split at h
  · cases h
  · cases h
  · cases h
    cases hranges
  · obtain ⟨given, hgiven, rfl⟩ := Except.map_eq_ok_iff.mp h
    cases hranges
    exact ranges_proper hgiven

namespace Outline

variable {outline after : Outline} {number : Nat} {content : List Char}

private theorem map_ranges?_addTable {table : SourceTable} (h : outline.addTable? table = some after) :
    after.map SourceFile.ranges? = outline.map SourceFile.ranges? := by
  unfold addTable? at h
  split at h
  · cases h
    rfl
  · cases h

private theorem map_ranges?_replaceTable (table : SourceTable) :
    (outline.replaceTable table).map SourceFile.ranges? = outline.map SourceFile.ranges? := by
  unfold replaceTable
  split <;> rfl

/-- A line begins a file, or it leaves the ranges of all files. -/
theorem readLine_ranges? (h : outline.readLine number content = .ok after) :
    after.map SourceFile.ranges? = outline.map SourceFile.ranges? ∨
      ∃ tokens file, sourceFile number tokens = .ok file ∧ after = file :: outline := by
  cases readLine_reads h with
  | nothing => exact .inl rfl
  | file hfile => exact .inr ⟨_, _, hfile, rfl⟩
  | table hadd => exact .inl (map_ranges?_addTable hadd)
  | line => exact .inl (map_ranges?_replaceTable _)
  | command => exact .inl (map_ranges?_replaceTable _)

private theorem map_ranges?_files (outline : Outline) :
    outline.files.map SourceFile.ranges? = (outline.map SourceFile.ranges?).reverse := by
  rw [files, List.map_map, ← List.map_reverse]
  refine List.map_congr_left fun file _ => ?_
  rw [Function.comp_apply]
  split
  · rfl
  case _ ranges tables hbody => simp only [SourceFile.ranges?, hbody]

/-- All files that have been read have proper ranges. -/
def Ranged (outline : Outline) : Prop :=
  ∀ found, some found ∈ outline.map SourceFile.ranges? → RangesProper found

theorem Ranged.readLine (h : outline.Ranged) (hread : outline.readLine number content = .ok after) :
    after.Ranged := by
  intro found hfound
  rcases readLine_ranges? hread with hsame | ⟨tokens, file, hfile, rfl⟩
  · exact h found (hsame ▸ hfound)
  · rcases List.mem_cons.mp hfound with hnew | hfound
    · exact sourceFile_proper hfile hnew.symm
    · exact h found hfound

end Outline

/-- The ranges of the files of a text that is read are proper. -/
theorem parse_rangesProper {text : String} {files : List SourceFile} (h : parse text = .ok files)
    {file : SourceFile} (hfile : file ∈ files) {ranges : List TableRange} {tables : List SourceTable}
    (hbody : file.body = .tables ranges tables) : RangesProper ranges := by
  obtain ⟨outline, houtline, rfl⟩ := Except.map_eq_ok_iff.mp h
  have hranged : outline.Ranged := by
    refine Except.foldlM_invariant Outline.Ranged ?_
      (fun _ hfound => absurd hfound List.not_mem_nil) houtline
    rintro ⟨number, content⟩ - before after hbefore hread
    exact hbefore.readLine hread
  refine hranged ranges ?_
  rw [← List.mem_reverse, ← Outline.map_ranges?_files]
  refine List.mem_map.mpr ⟨file, hfile, ?_⟩
  rw [SourceFile.ranges?, hbody]

end Adventure.Listing
