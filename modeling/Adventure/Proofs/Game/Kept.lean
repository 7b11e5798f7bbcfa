import Adventure.Game.Extract
import Adventure.Proofs.Outcome

namespace Adventure.Game

theorem basesFrom_congr {index : List TextIndexEntry} {isEmpty isEmpty' : String → Bool} {base : Nat}
    {bounds : List Nat} (h : ∀ entry ∈ index, isEmpty entry.name = isEmpty' entry.name) :
    TextIndex.basesFrom isEmpty base bounds index = TextIndex.basesFrom isEmpty' base bounds index := by
  induction index generalizing base bounds with
  | nil => rfl
  | cons entry index ih =>
    obtain ⟨hentry, hindex⟩ := List.forall_mem_cons.mp h
    rw [TextIndex.basesFrom, TextIndex.basesFrom, hentry, ih hindex, ih hindex]

/-- The tables of text files depend on the text index and on the records of its files. -/
theorem textTables_congr {game kept : Game} (hindex : kept.textIndex = game.textIndex)
    (htexts : ∀ entry ∈ game.textIndex, kept.record? entry.name = game.record? entry.name) :
    kept.textTables = game.textTables := by
  have hbases : kept.textBases = game.textBases := by
    unfold textBases TextIndex.bases
    rw [hindex]
    exact basesFrom_congr fun entry hentry => by rw [htexts entry hentry]
  unfold textTables
  rw [hbases, hindex]
  refine Except.mapM_congr fun (entry, base) hentry => ?_
  dsimp only
  rw [htexts entry (List.of_mem_zip hentry).1]

/-- The second game stores the strings, the scripts and the items of the first one. -/
structure Kept (game kept : Game) : Prop where
  variant : kept.variant = game.variant
  strings : kept.basefile.strings = game.basefile.strings
  textIndex : kept.textIndex = game.textIndex
  tableIndex : kept.tableIndex = game.tableIndex
  texts : ∀ entry ∈ game.textIndex, kept.record? entry.name = game.record? entry.name
  scripts : ∀ entry ∈ game.tableIndex,
    (kept.record? entry.file).map (decodeRecord game.variant.set entry.ranges) =
      (game.record? entry.file).map (decodeRecord game.variant.set entry.ranges)
  resident : ∀ resident, game.resident = .ok resident → ∃ again, kept.resident = .ok again ∧
    again.items = resident.items ∧ again.script.map Prod.fst = resident.script.map Prod.fst

namespace Kept

variable {game kept : Game} {resident again : Resident}

/-- A script file is listed as before. -/
theorem scriptFile (h : game.Kept kept) {entry : TableIndexEntry} (hentry : entry ∈ game.tableIndex) :
    (do
      let some data := kept.record? entry.file | throw (.missingFile entry.file)
      return ⟨entry.file, entry.ranges, decodeRecord kept.variant.set entry.ranges data⟩ :
        Except Error ScriptFile) = (do
      let some data := game.record? entry.file | throw (.missingFile entry.file)
      return ⟨entry.file, entry.ranges, decodeRecord game.variant.set entry.ranges data⟩) := by
  have hdecoded := h.scripts entry hentry
  rw [h.variant]
  cases hnew : kept.record? entry.file with
  | none =>
    cases hold : game.record? entry.file with
    | none => rfl
    | some old =>
      rw [hnew, hold] at hdecoded
      cases hdecoded
  | some new =>
    cases hold : game.record? entry.file with
    | none =>
      rw [hnew, hold] at hdecoded
      cases hdecoded
    | some old =>
      rw [hnew, hold] at hdecoded
      simp only [Option.map_some, Option.some.injEq] at hdecoded
      simp only [hdecoded]

/-- The resident script is listed as before. -/
theorem labelled_bind (hscript : again.script.map Prod.fst = resident.script.map Prod.fst) :
    (again.script >>= fun (script, _) => labelled script) =
      (resident.script >>= fun (script, _) => labelled script) := by
  cases hnew : again.script with
  | error error =>
    cases hold : resident.script with
    | error other =>
      rw [hnew, hold] at hscript
      cases hscript
      rfl
    | ok old =>
      rw [hnew, hold] at hscript
      cases hscript
  | ok new =>
    cases hold : resident.script with
    | error other =>
      rw [hnew, hold] at hscript
      cases hscript
    | ok old =>
      rw [hnew, hold] at hscript
      obtain ⟨script, used⟩ := new
      obtain ⟨old, before⟩ := old
      cases hscript
      rfl

/-- The script files are listed as before, or cannot be listed for the same reasons. -/
theorem scriptFiles (h : game.Kept kept)
    (hscript : again.script.map Prod.fst = resident.script.map Prod.fst) :
    kept.scriptFiles again = game.scriptFiles resident := by
  unfold Game.scriptFiles
  rw [h.tableIndex, ← h.variant]
  congr 1
  · refine Except.mapM_congr fun entry hentry => ?_
    have hfile := h.scriptFile hentry
    rw [h.variant] at hfile ⊢
    exact hfile
  · funext files
    exact congrArg (fun script => Except.ok (⟨kept.variant.baseFile, [], script⟩ :: files))
      (labelled_bind hscript)

/-- A game that stores what another one stores is extracted to the same documents. -/
theorem extract (h : game.Kept kept) {language : Language} {extraction : Extraction}
    (hextract : game.extract language = .ok extraction) : kept.extract language = .ok extraction := by
  unfold Game.extract at hextract ⊢
  simp only [Except.bind_eq_ok_iff] at hextract
  obtain ⟨tables, htables, resident, hresident, files, hfiles, hresult⟩ := hextract
  obtain ⟨again, hagain, hitems, hscript⟩ := h.resident resident hresident
  have htexts : kept.texts tables language = game.texts tables language := by
    unfold Game.texts
    rw [h.strings]
  have hvoices : kept.voices resident.items files = game.voices resident.items files := by
    unfold Game.voices
    rw [h.variant]
  simp only [textTables_congr h.textIndex h.texts, htables, hagain, h.scriptFiles hscript, hfiles, bind, Except.bind, hitems,
    htexts, hvoices, h.variant, h.strings]
  exact hresult

end Kept

end Adventure.Game
