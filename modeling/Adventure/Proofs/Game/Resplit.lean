import Adventure.Proofs.Game.Edited

namespace Adventure.Game

open Listing

/-- The tables of the resident script when a game has been rebuilt: those that the section of the base
    file has been assembled to, or the old ones if no section has tables for it. -/
inductive ResidentEdited (game : Game) (language : Language) (parts : Parts) (old : List Table) :
    List Table → Prop
  | kept (hsections : ∀ file ∈ parts.sections, file.name = game.variant.baseFile → file.body = .raw) :
      ResidentEdited game language parts old old
  | assembled {front back : List SourceFile} {file : SourceFile} {ranges : List TableRange}
      {sources : List SourceTable} {before : Assemblies} {tables : List Table} {pool : StringPool}
      (hsections : parts.sections = front ++ file :: back) (hname : file.name = game.variant.baseFile)
      (hbody : file.body = .tables ranges sources)
      (hbefore : front.foldlM (Assemblies.add game parts.resident (parts.assembler game language))
        (parts.start game) = .ok before)
      (htables : (parts.assembler game language).tables ⟨file.name, none⟩ sources before.pool =
        .ok tables pool) : ResidentEdited game language parts old tables

variable {game : Game} {language : Language} {edits : Edits} {rebuilt : Rebuilt}

namespace Parts.Of

variable {parts : Parts}

/-- Where the resident script has not been assembled, no section has tables for it. -/
theorem raw_of_script?_none (h : parts.Of game language edits rebuilt)
    (hnone : parts.script? game = none) :
    ∀ file ∈ parts.sections, file.name = game.variant.baseFile → file.body = .raw := by
  rintro file hfile hname
  by_contra hbody
  obtain ⟨record, hrecord, hsame⟩ := Assemblies.exists_record h.assemblies hfile hbody
  simpa [hsame, hname] using List.find?_eq_none.mp hnone record hrecord

/-- The resident script that has been assembled spells the tables of its section. -/
theorem tables_of_script? (h : parts.Of game language edits rebuilt) (hsound : game.Sound)
    {record : Assembled} (hrecord : parts.script? game = some record) :
    ∃ tables, (∀ old, ResidentEdited game language parts old tables) ∧
      Script.Spelled game.variant.set tables record.data ∧
      (tables = [] → ∃ file ∈ parts.sections, file.name = game.variant.baseFile ∧
        ∃ ranges, file.body = .tables ranges []) := by
  have hfile : record.file = game.variant.baseFile := by simpa using List.find?_some hrecord
  obtain ⟨front, file, back, before, after, hsections, hbefore, hadded, -⟩ :=
    h.exists_section (List.mem_of_find?_eq_some hrecord)
  have hname : file.name = game.variant.baseFile := hadded.name.symm.trans hfile
  have hassembled := hadded.assembled
  rw [textsOf, if_pos hname] at hassembled
  obtain ⟨ranges, sources, tables, hbody, -, htables, hbytes⟩ :=
    Assembler.assembleWith_eq_ok_iff.mp hassembled
  obtain ⟨hspelled, labels, hmatches⟩ := h.record_spelled hsound hsections hbody htables hbytes
  refine ⟨tables, fun old => .assembled hsections hname hbody hbefore htables, hspelled, ?_⟩
  rintro rfl
  cases hmatches
  exact ⟨file, by simp [hsections], hname, ranges, hbody⟩

/-- The rebuilt items are found where the objects have been stored, and behind them what has been stored
    there. -/
theorem resident_basefile (h : parts.Of game language edits rebuilt) :
    { game with basefile := (parts.basefile game).recounted }.resident =
      .ok ⟨parts.items, parts.objects.length, storedRest parts.resident (parts.script? game),
        Script.ofBlock game.variant.set (storedRest parts.resident (parts.script? game))⟩ := by
  obtain ⟨hlisted, -⟩ := editItems_eq_ok h.resident h.items
  have hcount : (parts.basefile game).recounted.objectCount = parts.items.length :=
    (Basefile.counts_of_setObjectCount h.counted).1
  have hdata : (parts.basefile game).recounted.data =
      parts.objects ++ storedRest parts.resident (parts.script? game) := rfl
  simp only [Game.resident, hdata, hcount, Item.readAll_of_listed hlisted]
  rfl

end Parts.Of

/-- The base file that a rebuild answers can be read, and splits into the items that it has been rebuilt
    with, a resident script whose tables are those of its section or the old ones, and the bytes that
    followed the old script. This needs that the section has tables or that nothing followed: a script
    without tables is stored as nothing, and the bytes behind it would be read in its place. It needs as
    well that the global strings take less than 4 GiB, as their size is a word of 32 bits. -/
theorem rebuilt_basefile_resplits {variant : Variant} (hvariant : variant ∈ Variant.all) {files : Files}
    (hload : load variant files.source = .ok game) {resident : Resident}
    (hresident : game.resident = .ok resident) {script : Script} {used : Nat}
    (hscript : resident.script = .ok (script, used))
    (hrebuild : game.rebuild language edits = .ok rebuilt)
    (hsize : game.StringsFit language edits rebuilt)
    (hemptied : ∀ sections, edits.sections variant = .ok sections → ∀ file ∈ sections,
      file.name = variant.baseFile → ∀ ranges, file.body = .tables ranges [] →
        resident.rest.drop used = []) :
    ∃ (parts : Parts) (base : Basefile) (again : Resident) (tables : List Table) (stop : Nat),
      parts.Of game language edits rebuilt ∧ Basefile.ofBytes rebuilt.basefile = .ok base ∧
      { game with basefile := base }.resident = .ok again ∧ again.items = parts.items ∧
      ResidentEdited game language parts script.tables tables ∧
      again.script = .ok (.ofTables tables, stop) ∧
      again.rest.drop stop = resident.rest.drop used := by
  have hsound := sound_of_load hvariant hload
  obtain ⟨parts, hparts⟩ := rebuild_eq_ok_iff.mp hrebuild
  obtain ⟨rfl, -⟩ := load_eq_ok_iff.mp hload
  obtain rfl : parts.resident = resident := Except.ok.inj (hparts.resident.symm.trans hresident)
  obtain ⟨-, hold⟩ := resident_eq_ok hresident
  have hread : Basefile.ofBytes rebuilt.basefile = .ok (parts.basefile game).recounted := by
    rw [hparts.basefile, ← Basefile.toBytes_recounted]
    exact (hparts.basefile_consistent hsound (hsize parts hparts)).ofBytes_toBytes
  have hresplit := hparts.resident_basefile
  cases hedited : parts.script? game with
  | none =>
    have hrest : storedRest parts.resident none = parts.resident.rest := rfl
    have hofTables := (Script.ofBlock_eq_ok (hold.symm.trans hscript)).1
    rw [hedited, hrest, ← hold, hscript] at hresplit
    exact ⟨parts, _, _, script.tables, used, hparts, hread, hresplit, rfl,
      .kept (hparts.raw_of_script?_none hedited), by rw [← hofTables], rfl⟩
  | some record =>
    obtain ⟨tables, hresidentEdited, hspelled, hempty⟩ := hparts.tables_of_script? hsound hedited
    have hrest : storedRest parts.resident (some record) =
        record.data ++ parts.resident.rest.drop used := by
      simp only [storedRest, hscript]
    rw [hedited, hrest] at hresplit
    generalize record.data = bytes at hspelled hresplit
    cases hspelled with
    | empty =>
      obtain ⟨file, hfile, hname, ranges, hbody⟩ := hempty rfl
      have hnothing := hemptied _ hparts.sections file hfile hname ranges hbody
      rw [hnothing] at hresplit
      exact ⟨parts, _, _, [], 0, hparts, hread, hresplit, rfl, hresidentEdited _, rfl, hnothing.symm⟩
    | @tables _ bytes hlisted =>
      rw [Script.ofBlock_of_listed hlisted] at hresplit
      exact ⟨parts, _, _, tables, _, hparts, hread, hresplit, rfl, hresidentEdited _, rfl,
        List.drop_left⟩

theorem rebuilt_basefile_resplits_scripted :
    ∃ (parts : Parts) (base : Basefile) (again : Resident) (script : Script) (tables : List Table) (stop : Nat),
      parts.Of scriptedGame .english scriptedEdits scriptedRebuilt ∧
      Basefile.ofBytes scriptedRebuilt.basefile = .ok base ∧
      { scriptedGame with basefile := base }.resident = .ok again ∧ again.items = parts.items ∧
      ResidentEdited scriptedGame .english parts script.tables tables ∧
      again.script = .ok (.ofTables tables, stop) ∧ again.rest.drop stop = [0xaa, 0xbb] := by
  have hparts : (scriptedGame.resident.toOption.bind fun resident =>
      resident.script.toOption.map fun found => resident.rest.drop found.2) = some [0xaa, 0xbb] := by
    decide +kernel
  obtain ⟨resident, hfound, hparts⟩ := Option.bind_eq_some_iff.mp hparts
  obtain ⟨⟨script, used⟩, hscript, htail⟩ := Option.map_eq_some_iff.mp hparts
  have hsections : scriptedEdits.sections .simon1 = .ok
      [⟨1, "S1", .tables [⟨2, 6⟩] [⟨2, 2, [⟨3, none, [⟨4, none, none, "AT", ["<2>"]⟩,
        ⟨5, none, none, "MSG", ["+\"N\""]⟩]⟩]⟩]⟩, ⟨6, "GAMEPC", .tables [] [⟨7, 3, [⟨8, none, []⟩]⟩]⟩] :=
    Except.eq_ok_of_toOption (by decide +kernel)
  obtain ⟨parts, base, again, tables, stop, hof, hbase, hagain, hitems, hresident, hstop, hrest⟩ :=
    rebuilt_basefile_resplits (by simp [Variant.all]) load_scripted (Except.eq_ok_of_toOption hfound)
      (Except.eq_ok_of_toOption hscript) rebuild_scripted (stringsFit_of_length_lt (by decide))
      fun sections hfiles file hfile _ ranges hbody => by
        rw [hsections] at hfiles
        cases hfiles
        simp only [List.mem_cons, List.not_mem_nil, or_false] at hfile
        rcases hfile with rfl | rfl <;> cases hbody
  exact ⟨parts, base, again, script, tables, stop, hof, hbase, hagain, hitems, hresident, hstop,
    hrest.trans htail⟩

/-- The base file of `scriptedGame` without its resident script. -/
def emptiedBasefile : Basefile :=
  { scriptedGame.basefile with data := scriptedGame.basefile.data.take 26 ++ [0xaa, 0xbb] }

/-- A resident script that loses its tables is stored as nothing, not even a mark that ends it, and the
    bytes that followed it are read in its place. -/
theorem emptied_script_not_read : ∃ again : Resident,
    scriptedGame.rebuild .english ⟨none, some "== FILE GAMEPC ~\n", none⟩ =
        .ok ⟨emptiedBasefile.toBytes, none, []⟩ ∧
      Basefile.ofBytes emptiedBasefile.toBytes = .ok emptiedBasefile ∧
      { scriptedGame with basefile := emptiedBasefile }.resident = .ok again ∧
      again.rest = [0xaa, 0xbb] ∧ again.script = .error (.unexpectedMarker 0 0xaabb) := by
  have hagain : { scriptedGame with basefile := emptiedBasefile }.resident.toOption.map Resident.rest =
      some [0xaa, 0xbb] := by
    decide +kernel
  obtain ⟨again, hresident, hrest⟩ := Option.map_eq_some_iff.mp hagain
  have hresident := Except.eq_ok_of_toOption hresident
  obtain ⟨-, hscript⟩ := resident_eq_ok hresident
  refine ⟨again, Except.eq_ok_of_toOption (by decide +kernel), Except.eq_ok_of_toOption (by decide +kernel),
    hresident, hrest, ?_⟩
  rw [hscript, hrest]
  rfl

end Adventure.Game
