import Adventure.Proofs.Game.Unedited

namespace Adventure.Game

/-- Whenever a game is extracted and can be rebuilt from the documents as they are, the files that the
    rebuild answers, installed over those of the game, are loaded and extracted to the same documents,
    with the same failures and the same voices. -/
theorem unedited_rebuild_extracts_same {variant : Variant} (hvariant : variant ∈ Variant.all)
    {files : Files} {game : Game} (hload : load variant files.source = .ok game) {language : Language}
    {extraction : Extraction} (hextract : game.extract language = .ok extraction) {rebuilt : Rebuilt}
    (hrebuild : game.rebuild language ⟨some extraction.strings, some extraction.scripts,
      some extraction.objects⟩ = .ok rebuilt) (hnames : game.DistinctNames)
    (hbare : ∀ resident, game.resident = .ok resident →
      ∀ tail, resident.rest = Bytes.word16 Script.endMark ++ tail → tail = []) :
    ∃ again, load variant (rebuilt.install variant files).source = .ok again ∧
      again.extract language = .ok extraction := by
  have hsound := sound_of_load hvariant hload
  obtain ⟨parts, hparts⟩ := rebuild_own hsound hnames hextract hrebuild
  have hkept := hparts.kept hsound hnames (hbare _ hparts.resident)
  obtain ⟨rfl, -⟩ := load_eq_ok_iff.mp hload
  exact ⟨parts.stored game, hparts.reload hsound hnames hload, hkept.extract hextract⟩

/-- The files of a game with one item, one text file and one script file. -/
def smallFiles : Files := (∅ : Files)
  |>.insert "GAMEPC" [0, 0, 0, 3, 0, 0, 0, 128, 0, 0, 0, 1, 0, 0, 0, 1, 0, 0, 0, 2, 65, 0, 0, 0, 0, 5, 0, 0,
    255, 255, 255, 255, 255, 255, 255, 255, 255, 255, 255, 255, 0, 0, 0, 0, 0, 0, 0, 0, 0, 2, 0xaa, 0xbb]
  |>.insert "STRIPPED.TXT" [84, 49, 0, 0, 0, 0, 0, 0x80, 0x10]
  |>.insert "TBLLIST" [83, 49, 0, 0, 1, 0, 5, 0, 0, 0]
  |>.insert "T1" [66, 0]
  |>.insert "S1" [0, 0, 0, 1, 0, 0, 0xff, 0, 1, 0, 1]

/-- The game of `smallFiles`. Its resident script cannot be read. -/
def smallGame : Game where
  variant := .simon1
  basefile := ⟨⟨3, 128, 1, 1, 2⟩, ⟨0, [[65]]⟩, [0, 0, 0, 5, 0, 0, 255, 255, 255, 255, 255, 255, 255, 255, 255,
    255, 255, 255, 0, 0, 0, 0, 0, 0, 0, 0, 0, 2, 0xaa, 0xbb]⟩
  textIndex := [⟨"T1", 0x8010⟩]
  tableIndex := [⟨"S1", [⟨1, 5⟩]⟩]
  records := [⟨⟨"T1", .text⟩, [66, 0]⟩, ⟨⟨"S1", .tables⟩, [0, 0, 0, 1, 0, 0, 0xff, 0, 1, 0, 1]⟩]
  extra := none

theorem unedited_rebuild_extracts_same_small :
    ∃ extraction rebuilt again, load .simon1 smallFiles.source = .ok smallGame ∧
      smallGame.extract .english = .ok extraction ∧
      extraction.strings = "GAMEPC\t0\tA\nT1\t32768\tB\n" ∧
      smallGame.rebuild .english ⟨some extraction.strings, some extraction.scripts,
        some extraction.objects⟩ = .ok rebuilt ∧
      load .simon1 (rebuilt.install .simon1 smallFiles).source = .ok again ∧
      again.extract .english = .ok extraction := by
  have hload : load .simon1 smallFiles.source = .ok smallGame := by
    refine load_eq_ok_iff.mpr ⟨rfl, ⟨smallGame.basefile.toBytes, ?_, ?_⟩, ?_, ?_, ?_⟩
    · decide +kernel
    all_goals exact Except.eq_ok_of_toOption (by decide +kernel)
  have hdocuments : (smallGame.extract .english).toOption.map (fun extraction =>
      (extraction.strings, extraction.scripts, extraction.objects)) =
        some ("GAMEPC\t0\tA\nT1\t32768\tB\n",
          "== FILE GAMEPC RAW // unexpected marker 0x0002 at offset 0\n== FILE S1 1:5\n== TABLE 1\n==>\n",
          "== ITEM 2 ==\n\tADJECTIVE 0\n\tNOUN 5\n\tSTATE 0\n\tNEXT 0\n\tCHILD 0\n\tPARENT 0\n" ++
            "\tACTOR_TABLE 0\n\tCLASS 0\n\tPROPERTIES 0\n") := by
    decide +kernel
  obtain ⟨extraction, hextraction, hparts⟩ := Option.map_eq_some_iff.mp hdocuments
  have hextract : smallGame.extract .english = .ok extraction := Except.eq_ok_of_toOption hextraction
  obtain ⟨hstrings, hothers⟩ := Prod.mk.inj hparts
  obtain ⟨hscripts, hobjects⟩ := Prod.mk.inj hothers
  have hrebuild : smallGame.rebuild .english ⟨some extraction.strings, some extraction.scripts,
      some extraction.objects⟩ = .ok ⟨smallGame.basefile.toBytes, none, []⟩ := by
    rw [hstrings, hscripts, hobjects]
    exact Except.eq_ok_of_toOption (by decide +kernel)
  have hrest : smallGame.resident.toOption.map (·.rest) = some [0, 2, 0xaa, 0xbb] := by decide +kernel
  have hvariant : Variant.simon1 ∈ Variant.all := by simp [Variant.all]
  obtain ⟨again, hagain, hsame⟩ := unedited_rebuild_extracts_same hvariant hload hextract hrebuild
    (by decide +kernel) fun resident hresident tail htail => by
      rw [hresident] at hrest
      have hrest : resident.rest = [0, 2, 0xaa, 0xbb] := Option.some.inj hrest
      rw [hrest] at htail
      cases htail
  exact ⟨extraction, _, again, hload, hextract, hstrings, hrebuild, hagain, hsame⟩

end Adventure.Game
