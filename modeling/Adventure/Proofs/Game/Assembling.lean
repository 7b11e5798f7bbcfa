import Adventure.Game.Rebuild
import Adventure.Proofs.Listing.Declared

namespace Adventure.Game

open Listing

/-- The numbers that a script file is limited to. The resident script may use all of them. -/
def textsOf (game : Game) (file : String) : Option (Nat × Nat) :=
  if file = game.variant.baseFile then none else game.textRange? file

namespace Assemblies

variable {game : Game} {resident : Resident} {assembler : Assembler} {files : List SourceFile}
  {file : SourceFile} {start before after final : Assemblies} {record : Assembled}

/-- A section is assembled to a record: its file is one of the game, and has no record yet. -/
structure Added (game : Game) (resident : Resident) (assembler : Assembler) (before : Assemblies)
    (file : SourceFile) (record : Assembled) (after : Assemblies) : Prop where
  body : ∃ tables, file.body = .tables record.ranges tables
  name : record.file = file.name
  known : file.name = game.variant.baseFile ∨ file.name ∈ game.tableIndex.map (·.file)
  resident : file.name = game.variant.baseFile → resident.script.isOk
  fresh : file.name ∉ before.records.map (·.file)
  assembled : assembler.assembleWith file (game.textsOf file.name) before.pool =
    (.ok record.data, after.pool)
  records : after.records = record :: before.records

/-- A section without tables is passed over, and any other one is assembled. -/
theorem add_eq_ok (h : add game resident assembler before file = .ok after) :
    (file.body = .raw ∧ after = before) ∨
      ∃ record, Added game resident assembler before file record after := by
  unfold add at h
  cases hbody : file.body with
  | raw =>
    simp only [hbody] at h
    cases h
    exact .inl ⟨rfl, rfl⟩
  | tables ranges tables =>
    simp only [hbody, Except.bind_eq_ok_iff, Except.throw_else_eq_ok_iff, Except.pure_eq_ok_iff,
      Except.mapError_eq_ok_iff] at h
    obtain ⟨hknown, hresident, hfresh, data, hdata, rfl⟩ := h
    refine .inr ⟨⟨file.name, data, ranges⟩, ⟨tables, hbody⟩, rfl, ?_, ?_, ?_, ?_, rfl⟩
    · by_cases hfile : file.name = game.variant.baseFile
      · exact .inl hfile
      · simp only [decide_eq_false hfile, Bool.not_false, Bool.true_and, Bool.not_eq_true,
          Bool.not_eq_false', List.any_eq_true, decide_eq_true_eq] at hknown
        exact .inr (by simpa using hknown)
    · intro hfile
      simpa [hfile] using hresident
    · simpa [find?] using hfresh
    · exact Prod.ext hdata rfl

/-- Records that have been assembled stay. -/
theorem add_extends (h : add game resident assembler before file = .ok after) :
    before.pool.Extends after.pool ∧ before.records <:+ after.records := by
  obtain ⟨-, rfl⟩ | ⟨record, hadded⟩ := add_eq_ok h
  · exact ⟨.refl _, List.suffix_refl _⟩
  · exact ⟨Assembler.assembleWith_extends hadded.assembled, hadded.records ▸ List.suffix_cons _ _⟩

theorem foldlM_extends (h : files.foldlM (add game resident assembler) start = .ok final) :
    start.pool.Extends final.pool ∧ start.records <:+ final.records := by
  refine Except.foldlM_invariant (fun current : Assemblies =>
    start.pool.Extends current.pool ∧ start.records <:+ current.records) ?_
    ⟨.refl _, List.suffix_refl _⟩ h
  rintro file - before after ⟨hpool, hrecords⟩ hadd
  obtain ⟨hpool', hrecords'⟩ := add_extends hadd
  exact ⟨hpool.trans hpool', hrecords.trans hrecords'⟩

private theorem add_declares (h : add game resident assembler before file = .ok after) :
    before.pool.Declares (file.declared assembler.set) after.pool := by
  obtain ⟨hraw, rfl⟩ | ⟨record, hadded⟩ := add_eq_ok h
  · rw [SourceFile.declared, hraw]
    exact .nil _
  · exact Assembler.assembleWith_declares hadded.assembled

/-- The sections add the texts that they declare, one section after the other. -/
theorem foldlM_declares (h : files.foldlM (add game resident assembler) start = .ok final) :
    start.pool.Declares (files.flatMap (SourceFile.declared assembler.set)) final.pool := by
  induction files generalizing start with
  | nil =>
    cases h
    exact .nil _
  | cons file files ih =>
    rw [List.foldlM_cons, Except.bind_eq_ok_iff] at h
    obtain ⟨next, hadd, hrest⟩ := h
    rw [List.flatMap_cons]
    exact (add_declares hadd).append (ih hrest)

/-- Every record has been assembled from a section, behind those before it. -/
theorem exists_section (h : files.foldlM (add game resident assembler) start = .ok final)
    (hrecord : record ∈ final.records) (hstart : record ∉ start.records) :
    ∃ front file back before after, files = front ++ file :: back ∧
      front.foldlM (add game resident assembler) start = .ok before ∧
      Added game resident assembler before file record after ∧ after.pool.Extends final.pool := by
  induction files generalizing start with
  | nil =>
    cases h
    exact absurd hrecord hstart
  | cons file files ih =>
    rw [List.foldlM_cons, Except.bind_eq_ok_iff] at h
    obtain ⟨next, hadd, hrest⟩ := h
    by_cases hnext : record ∈ next.records
    · obtain ⟨-, rfl⟩ | ⟨added, hadded⟩ := add_eq_ok hadd
      · exact absurd hnext hstart
      · rw [hadded.records] at hnext
        obtain rfl := (List.mem_cons.mp hnext).resolve_right hstart
        exact ⟨[], file, files, start, next, rfl, rfl, hadded, (foldlM_extends hrest).1⟩
    · obtain ⟨front, found, back, before, after, rfl, hfront, hadded⟩ := ih hrest hnext
      refine ⟨file :: front, found, back, before, after, rfl, ?_, hadded⟩
      rw [List.foldlM_cons, hadd]
      exact hfront

/-- Every section that holds tables has a record. -/
theorem exists_record (h : files.foldlM (add game resident assembler) start = .ok final)
    (hfile : file ∈ files) (hbody : file.body ≠ .raw) :
    ∃ record ∈ final.records, record.file = file.name := by
  obtain ⟨front, back, before, after, -, -, hadd, hback⟩ := Except.exists_foldlM_of_mem hfile h
  obtain ⟨hraw, -⟩ | ⟨record, hadded⟩ := add_eq_ok hadd
  · exact absurd hraw hbody
  · have hafter : record ∈ after.records := hadded.records ▸ List.mem_cons_self
    exact ⟨record, (foldlM_extends hback).2.subset hafter, hadded.name⟩

end Assemblies

end Adventure.Game
