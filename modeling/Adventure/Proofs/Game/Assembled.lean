import Adventure.Proofs.Game.Assembling
import Adventure.Proofs.Game.Sections
import Adventure.Proofs.Listing.RoundTrip

namespace Adventure.Game

open Listing

/-- The script of a file that could be listed is one that a record can hold, with its labels. -/
def ScriptFile.Sound (set : InstructionSet) (file : ScriptFile) : Prop :=
  ∀ script labels, file.script = .ok (script, labels) → script = .ofTables script.tables ∧
    (∃ spelling, Script.Spelled set script.tables spelling) ∧ Labels.ofScript script = .ok labels

/-- A record holds the tables of one of the files that could be listed. -/
def Assembled.IsOf (files : List ScriptFile) (record : Assembled) : Prop :=
  ∃ file ∈ files, ∃ script labels, file.script = .ok (script, labels) ∧ record.file = file.name ∧
    record.ranges = file.ranges ∧ Script.tablesBytes script.tables = .ok record.data

theorem labelled_eq_ok {script : Script} {result : Labelled} (h : labelled script = .ok result) :
    result.1 = script ∧ Labels.ofScript script = .ok result.2 := by
  obtain ⟨labels, hlabels, rfl⟩ := Except.map_eq_ok_iff.mp h
  exact ⟨rfl, hlabels⟩

theorem decodeRecord_eq_ok_iff {set : InstructionSet} {ranges : List TableRange} {data : List UInt8}
    {script : Script} {labels : Labels} : decodeRecord set ranges data = .ok (script, labels) ↔
      Script.ofRecord set data = .ok script ∧ script.checkRanges ranges = .ok () ∧
        Labels.ofScript script = .ok labels := by
  simp only [decodeRecord, labelled, Except.bind_eq_ok_iff, Except.map_eq_ok_iff, Prod.mk.injEq]
  constructor
  · rintro ⟨_, hrecord, ⟨⟩, hranges, _, hlabels, rfl, rfl⟩
    exact ⟨hrecord, hranges, hlabels⟩
  · rintro ⟨hrecord, hranges, hlabels⟩
    exact ⟨script, hrecord, (), hranges, labels, hlabels, rfl, rfl⟩

/-- A record may hold its script in the bytes that are written for it. -/
theorem decodeRecord_tablesBytes {set : InstructionSet} {ranges : List TableRange}
    {data written : List UInt8} {script : Script} {labels : Labels}
    (h : decodeRecord set ranges data = .ok (script, labels))
    (hwritten : Script.tablesBytes script.tables = .ok written) :
    decodeRecord set ranges written = .ok (script, labels) := by
  obtain ⟨hrecord, hranges, hlabels⟩ := decodeRecord_eq_ok_iff.mp h
  obtain ⟨heq, hspelled⟩ := Script.ofRecord_eq_ok_iff.mp hrecord
  obtain ⟨bytes, hbytes, hagain⟩ := hspelled.tablesBytes
  rw [hwritten] at hbytes
  cases hbytes
  exact decodeRecord_eq_ok_iff.mpr ⟨Script.ofRecord_eq_ok_iff.mpr ⟨heq, hagain⟩, hranges, hlabels⟩

variable {game : Game} {resident : Resident} {files : List ScriptFile}

/-- A script file is the resident script or one of the table index. -/
theorem mem_scriptFiles (h : game.scriptFiles resident = .ok files) {file : ScriptFile}
    (hfile : file ∈ files) :
    file = ⟨game.variant.baseFile, [], resident.script >>= fun (script, _) => labelled script⟩ ∨
      ∃ entry ∈ game.tableIndex, ∃ data, game.record? entry.file = some data ∧
        file = ⟨entry.file, entry.ranges, decodeRecord game.variant.set entry.ranges data⟩ := by
  unfold scriptFiles at h
  obtain ⟨found, hfound, heq⟩ := Except.bind_eq_ok_iff.mp h
  cases heq
  rcases List.mem_cons.mp hfile with heq | hfile
  · exact .inl heq
  · obtain ⟨entry, hentry, hread⟩ := forall₂_exists_left (Except.mapM_eq_ok_iff.mp hfound) hfile
    split at hread
    case _ data hdata =>
      cases hread
      exact .inr ⟨entry, hentry, data, hdata, rfl⟩
    case _ => cases hread

/-- The script files of a game hold scripts that its records can hold. -/
theorem sound_scriptFiles
    (hresident : resident.script = Script.ofBlock game.variant.set resident.rest)
    (h : game.scriptFiles resident = .ok files) : ∀ file ∈ files, file.Sound game.variant.set := by
  intro file hfile script labels hscript
  rcases mem_scriptFiles h hfile with rfl | ⟨entry, -, data, -, rfl⟩
  · obtain ⟨⟨read, used⟩, hread, hlabelled⟩ := Except.bind_eq_ok_iff.mp hscript
    obtain ⟨rfl, hlabels⟩ := labelled_eq_ok hlabelled
    rw [hresident] at hread
    obtain ⟨heq, hspelled⟩ := Script.ofBlock_eq_ok hread
    exact ⟨heq, hspelled, hlabels⟩
  · obtain ⟨hrecord, -, hlabels⟩ := decodeRecord_eq_ok_iff.mp hscript
    obtain ⟨heq, hspelled⟩ := Script.ofRecord_eq_ok_iff.mp hrecord
    exact ⟨heq, ⟨data, hspelled⟩, hlabels⟩

variable {context : Labels → Context} {symbols : Symbols} {pool : StringPool}

theorem ScriptFile.Sound.printable {file : ScriptFile} {set : InstructionSet} (h : file.Sound set)
    (hset : set.Listable) (hcontext : ∀ labels, (context labels).set = set)
    (hname : IsToken file.name.toList) : file.Printable context where
  name := hname
  headers script labels hscript table htable line hline := by
    obtain ⟨-, ⟨_, hspelled⟩, -⟩ := h script labels hscript
    exact propext (hspelled.header_isSome htable hline)
  mnemonics script labels hscript := by
    obtain ⟨-, ⟨_, hspelled⟩, -⟩ := h script labels hscript
    rw [← hcontext labels] at hset hspelled
    exact mnemonic_isToken hset hspelled

/-- A file of the document of script files is assembled to the tables of its script, if it can be. -/
theorem assembleWith_of_listed {set : InstructionSet} {file : ScriptFile} {source : SourceFile}
    {script : Script} {labels : Labels} {texts : Option (Nat × Nat)} {bytes : List UInt8}
    {after : StringPool} (hset : set.Listable) (hcontext : ∀ labels, (context labels).set = set)
    (hlabelsOf : ∀ labels, (context labels).labels = labels) (hsound : file.Sound set)
    (hlisted : file.Listed context source) (hscript : file.script = .ok (script, labels))
    (hassemble : Assembler.assembleWith ⟨set, symbols⟩ source texts pool = (.ok bytes, after)) :
    Script.tablesBytes script.tables = .ok bytes ∧ after = pool := by
  obtain ⟨hofTables, ⟨data, hspelled⟩, hlabels⟩ := hsound script labels hscript
  have hbody := hlisted.body
  rw [hscript] at hbody
  obtain ⟨sources, hbody, htables⟩ := hbody
  rw [← hcontext labels] at hset hspelled
  rw [hofTables, ← hlabelsOf labels] at hlabels
  have hassembler : (⟨set, symbols⟩ : Assembler).set = (context labels).set := (hcontext labels).symm
  obtain ⟨hranges, hresolves⟩ := resolves_of_assembleWith hset hassembler hspelled htables hbody hassemble
  obtain ⟨written, hwritten, hagain⟩ := assembleWith_listed hset hassembler hspelled hlabels htables hbody
    hranges hresolves
  rw [hassemble] at hagain
  obtain ⟨hbytes, hafter⟩ := Prod.mk.inj hagain
  cases hbytes
  exact ⟨hwritten, hafter⟩

/-- Whatever is assembled from the document of the script files is one of them, unchanged. -/
theorem ofDocument_listings {assemblies : Assemblies} (hset : game.variant.set.Listable)
    (hcontext : ∀ labels, (context labels).set = game.variant.set)
    (hlabelsOf : ∀ labels, (context labels).labels = labels)
    (hsound : ∀ file ∈ files, file.Sound game.variant.set)
    (hnames : ∀ file ∈ files, IsToken file.name.toList)
    (h : Assemblies.ofDocument game resident symbols pool
      (some (String.ofList (files.flatMap (listing context)))) = .ok assemblies) :
    assemblies.pool = pool ∧ ∀ record ∈ assemblies.records, record.IsOf files := by
  have hprintable : ∀ file ∈ files, file.Printable context := fun file hfile =>
    (hsound file hfile).printable hset hcontext (hnames file hfile)
  unfold Assemblies.ofDocument at h
  dsimp only at h
  split at h
  · cases h
    exact ⟨rfl, by simp⟩
  · simp only [Except.bind_eq_ok_iff, Except.mapError_eq_ok_iff] at h
    obtain ⟨sources, hparse, hfold⟩ := h
    have hlisted := parse_listings hprintable hparse
    refine Except.foldlM_invariant (fun assemblies : Assemblies =>
      assemblies.pool = pool ∧ ∀ record ∈ assemblies.records, record.IsOf files) ?_
      ⟨rfl, by simp⟩ hfold
    rintro source hsource before after ⟨hpool, hrecords⟩ hadd
    obtain ⟨file, hfile, hsource⟩ := forall₂_exists_left hlisted hsource
    have hbody := hsource.body
    obtain ⟨-, rfl⟩ | ⟨record, hadded⟩ := Assemblies.add_eq_ok hadd
    · exact ⟨hpool, hrecords⟩
    · obtain ⟨tables, htables⟩ := hadded.body
      cases hscript : file.script with
      | error error =>
        rw [hscript, htables] at hbody
        cases hbody
      | ok labelled =>
        obtain ⟨script, labels⟩ := labelled
        rw [hscript, htables] at hbody
        obtain ⟨sources, hsources, -⟩ := hbody
        obtain ⟨hbytes, hsame⟩ := assembleWith_of_listed hset hcontext hlabelsOf (hsound file hfile)
          hsource hscript hadded.assembled
        refine ⟨hsame.trans hpool, ?_⟩
        rw [hadded.records]
        exact List.forall_mem_cons.mpr ⟨⟨file, hfile, script, labels, hscript,
          hadded.name.trans hsource.name, (SourceBody.tables.inj hsources).1, hbytes⟩, hrecords⟩

end Adventure.Game
