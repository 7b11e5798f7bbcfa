import Adventure.Proofs.Game.Assembled
import Adventure.Proofs.Game.Damaged
import Adventure.Proofs.Script.Voices
import Adventure.Proofs.Strings.Document

namespace Adventure.Game

open Listing Text

/-- A script that can be listed: the resident one, or that of a record which holds nothing else and whose tables
    keep to the ranges of its file. All its jumps go to commands. -/
inductive Lists (game : Game) : Script → Prop
  | resident {resident : Resident} {script : Script} {used : Nat} {labels : Labels}
      (hresident : game.resident = .ok resident) (hscript : resident.script = .ok (script, used))
      (hlabels : Labels.ofScript script = .ok labels) : Lists game script
  | record {entry : TableIndexEntry} {data : List UInt8} {script : Script} {labels : Labels}
      (hentry : entry ∈ game.tableIndex) (hdata : game.record? entry.file = some data)
      (hscript : Script.ofRecord game.variant.set data = .ok script)
      (hranges : script.checkRanges entry.ranges = .ok ())
      (hlabels : Labels.ofScript script = .ok labels) : Lists game script

/-- Something in a game speaks a string with a voice: an object that the string describes, or a command of a
    script that can be listed. -/
inductive Speaks (game : Game) (text : Nat) (voice : UInt16) : Prop
  | object {resident : Resident} {item : Item} {name description : UInt32} {slots : List (Nat × UInt16)}
      {flags : UInt16} (hresident : game.resident = .ok resident) (hitem : item ∈ resident.items)
      (hobject : .object name (some description) slots flags ∈ item.properties)
      (htext : description.toNat = text) (hvoice : slots.lookup ObjectField.voiceBit = some voice)
  | command {script : Script} {command : Command} (hscript : game.Lists script)
      (hcommand : command ∈ script.commands) (hspeaks : command.Speaks text voice)

/-- The voices that speak a string, each once and in ascending order. -/
structure VoicesOf (game : Game) (text : Nat) (voices : List UInt16) : Prop where
  ascending : voices.Pairwise (· < ·)
  mem_iff : ∀ voice, voice ∈ voices ↔ game.Speaks text voice

/-- The line of a string ends with the field of the voices that speak it, which is -1 exactly if none does. -/
structure Voiced (game : Game) (entry : StringEntry) (field : List Char) : Prop where
  render : entry.render = entry.file.toList ++ ['\t'] ++ decimal entry.id ++ ['\t'] ++
    Strings.escape entry.text.toList ++ ['\t'] ++ field
  voices : ∃ voices, game.VoicesOf entry.id voices ∧ field = StringEntry.renderVoices voices
  silent : field = ['-', '1'] ↔ ∀ voice, ¬game.Speaks entry.id voice

/-- The notes on an operand, where `context` knows nothing of voices. If something speaks a string, a note of
    the voices stands behind the one of its text, and no other operand has such a note. -/
inductive NotesOf (game : Game) (context : Context) : Operand → List (List Char) → Prop
  | spoken {id : UInt32} {voices : List UInt16} (hne : voices ≠ []) (hvoices : game.VoicesOf id.toNat voices) :
      NotesOf game context (.text (.id id))
        (context.notes (.text (.id id)) ++ ["[voice ".toList ++ commaList voices ++ [']']])
  | silent {id : UInt32} (hnone : ∀ voice, ¬game.Speaks id.toNat voice) :
      NotesOf game context (.text (.id id)) (context.notes (.text (.id id)))
  | other {operand : Operand} (hother : ∀ id, operand ≠ .text (.id id)) :
      NotesOf game context operand (context.notes operand)

/-- The line of a command: behind its words stand the notes on its operands, as a comment. -/
def Annotated (game : Game) (context : Context) (command : Command) (line : List Char) : Prop :=
  ∃ notes, List.Forall₂ (game.NotesOf context) command.operands notes ∧
    line = '\t' :: [' '].intercalate (context.commandWords command) ++
      if notes.flatten = [] then [] else " //".toList ++ notes.flatten.flatMap (' ' :: ·)

/-- The section of a script file. Where the file can be listed, the lines of commands, which begin with a tab,
    are those of its script in order. -/
inductive SectionOf (game : Game) (context : Labels → Context) (file : ScriptFile) : List Char → Prop
  | tables {script : Script} {labels : Labels} {lines : List (List Char)}
      (hscript : file.script = .ok (script, labels))
      (hlines : List.Forall₂ (game.Annotated (context labels)) script.commands
        (lines.filter (·.head? = some '\t'))) :
      SectionOf game context file (unlines (fileHeader file.name file.ranges :: lines))
  | raw {error : DecodeError} (hscript : file.script = .error error) :
      SectionOf game context file (rawFile file.name error.message)

/-- The documents of a game show with every string the voices that speak it: on its own line, and behind every
    command that it is an operand of. -/
structure CrossReferenced (game : Game) (language : Language) (extraction : Extraction) : Prop where
  strings : ∃ tables entries, game.textTables = .ok tables ∧
    entries.map (fun entry => { entry with voices := none }) = game.lines language tables none ∧
    extraction.strings = StringsDocument.render entries ∧ ∀ entry ∈ entries, ∃ field, game.Voiced entry field
  scripts : ∃ tables resident files sections, game.textTables = .ok tables ∧ game.resident = .ok resident ∧
    game.scriptFiles resident = .ok files ∧
    (∀ script, game.Lists script ↔ ∃ file ∈ files, ∃ labels, file.script = .ok (script, labels)) ∧
    extraction.scripts = String.ofList sections.flatten ∧
    List.Forall₂ (game.SectionOf (game.contextOf language tables resident none)) files sections

variable {game : Game} {resident : Resident} {files : List ScriptFile}

private theorem mem_itemVoices_iff {items : List Item} {text : Nat} {voice : UInt16} :
    (text, voice) ∈ Item.voices items ↔ ∃ item ∈ items, ∃ name description slots flags,
      .object name (some description) slots flags ∈ item.properties ∧ description.toNat = text ∧
        slots.lookup ObjectField.voiceBit = some voice := by
  have hproperty : ∀ property, Item.propertyVoice? property = some (text, voice) ↔
      ∃ name description slots flags, property = .object name (some description) slots flags ∧
        description.toNat = text ∧ slots.lookup ObjectField.voiceBit = some voice := by
    intro property
    unfold Item.propertyVoice?
    split
    · simp [and_comm]
    case _ hother =>
      simp only [reduceCtorEq, false_iff]
      rintro ⟨name, description, slots, flags, rfl, -⟩
      exact hother name description slots flags rfl
  simp only [Item.voices, List.mem_flatMap, List.mem_filterMap, hproperty]
  constructor
  · rintro ⟨item, hitem, _, hmem, name, description, slots, flags, rfl, hvoice⟩
    exact ⟨item, hitem, name, description, slots, flags, hmem, hvoice⟩
  · rintro ⟨item, hitem, name, description, slots, flags, hmem, hvoice⟩
    exact ⟨item, hitem, _, hmem, name, description, slots, flags, rfl, hvoice⟩

/-- The scripts that can be listed are those of the script files. -/
theorem lists_iff (hresident : game.resident = .ok resident) (hfiles : game.scriptFiles resident = .ok files)
    {script : Script} :
    game.Lists script ↔ ∃ file ∈ files, ∃ labels, file.script = .ok (script, labels) := by
  obtain ⟨listed, hlisted, rfl⟩ := scriptFiles_eq_ok_iff.mp hfiles
  rw [Except.mapM_eq_ok_iff] at hlisted
  have hindexed : ∀ entry file, game.indexedFile entry = .ok file ↔ ∃ data,
      game.record? entry.file = some data ∧
        ⟨entry.file, entry.ranges, decodeRecord game.variant.set entry.ranges data⟩ = file := by
    intro entry file
    unfold indexedFile
    cases game.record? entry.file with
    | none => simp [throw, throwThe, MonadExceptOf.throw]
    | some data => simp [pure, Except.pure]
  constructor
  · rintro (⟨hresident', hscript, hlabels⟩ | ⟨hentry, hdata, hscript, hranges, hlabels⟩)
    · obtain rfl := Except.ok.inj (hresident.symm.trans hresident')
      have hlabelled : labelled script = .ok (script, _) := Except.map_eq_ok_iff.mpr ⟨_, hlabels, rfl⟩
      exact ⟨_, List.mem_cons_self, _, Except.bind_eq_ok_iff.mpr ⟨_, hscript, hlabelled⟩⟩
    · obtain ⟨file, hfile, hread⟩ := forall₂_exists_right hlisted hentry
      obtain ⟨data, hdata', rfl⟩ := (hindexed _ _).mp hread
      obtain rfl := Option.some.inj (hdata.symm.trans hdata')
      exact ⟨_, List.mem_cons_of_mem _ hfile, _, decodeRecord_eq_ok_iff.mpr ⟨hscript, hranges, hlabels⟩⟩
  · rintro ⟨file, hfile, labels, hscript⟩
    rcases List.mem_cons.mp hfile with rfl | hfile
    · obtain ⟨⟨found, used⟩, hfound, hlabelled⟩ := Except.bind_eq_ok_iff.mp hscript
      obtain ⟨rfl, hlabels⟩ := labelled_eq_ok hlabelled
      exact .resident hresident hfound hlabels
    · obtain ⟨entry, hentry, hread⟩ := forall₂_exists_left hlisted hfile
      obtain ⟨data, hdata, rfl⟩ := (hindexed _ _).mp hread
      obtain ⟨hrecord, hranges, hlabels⟩ := decodeRecord_eq_ok_iff.mp hscript
      exact .record hentry hdata hrecord hranges hlabels

/-- Files that cannot be listed add no voice, and the others add those of their commands. -/
theorem gathers_files {voices : VoiceMap} {spoken : Nat → UInt16 → Prop} (h : voices.Gathers spoken)
    (files : List ScriptFile) :
    VoiceMap.Gathers (files.foldl (fun voices file =>
      match file.script with
      | .ok (script, _) => voices.addAll script.voices
      | .error _ => voices) voices) fun text voice =>
        (∃ file ∈ files, ∃ script labels, file.script = .ok (script, labels) ∧ (text, voice) ∈ script.voices) ∨
          spoken text voice := by
  induction files generalizing voices spoken with
  | nil => exact h.congr (by simp)
  | cons file files ih =>
    rw [List.foldl_cons]
    cases hscript : file.script with
    | error error => exact (ih h).congr (by simp [hscript])
    | ok found =>
      obtain ⟨script, labels⟩ := found
      refine (ih (h.addAll script.voices)).congr fun text voice => ?_
      simp only [List.exists_mem_cons_iff, hscript, Except.ok.injEq, Prod.mk.injEq, ← or_assoc]
      refine or_congr_left (or_comm.trans (or_congr_left ?_))
      constructor
      · exact fun hvoice => ⟨script, labels, ⟨rfl, rfl⟩, hvoice⟩
      · rintro ⟨_, _, ⟨rfl, rfl⟩, hvoice⟩
        exact hvoice

/-- What is gathered for a string is what speaks it. -/
theorem voices_gathers (hspoken : game.variant.hasVoices) (hresident : game.resident = .ok resident)
    (hfiles : game.scriptFiles resident = .ok files) :
    (game.voices resident.items files).Gathers game.Speaks := by
  rw [voices, if_pos hspoken]
  refine (gathers_files (VoiceMap.Gathers.empty.addAll _) files).congr fun text voice => ?_
  simp only [mem_itemVoices_iff, Script.mem_voices_iff, or_false]
  constructor
  · rintro (⟨file, hfile, script, labels, hscript, command, hcommand, hspeaks⟩ |
      ⟨item, hitem, name, description, slots, flags, hobject, htext, hvoice⟩)
    · exact .command ((lists_iff hresident hfiles).mpr ⟨file, hfile, labels, hscript⟩) hcommand hspeaks
    · exact .object hresident hitem hobject htext hvoice
  · rintro (⟨hresident', hitem, hobject, htext, hvoice⟩ | ⟨hscript, hcommand, hspeaks⟩)
    · obtain rfl := Except.ok.inj (hresident.symm.trans hresident')
      exact .inr ⟨_, hitem, _, _, _, _, hobject, htext, hvoice⟩
    · obtain ⟨file, hfile, labels, hfound⟩ := (lists_iff hresident hfiles).mp hscript
      exact .inl ⟨file, hfile, _, labels, hfound, _, hcommand, hspeaks⟩

/-- Distinct voices are printed as distinct fields, so the field is -1 only where nothing speaks the string. -/
theorem VoicesOf.renderVoices_eq_iff {text : Nat} {voices : List UInt16} (h : game.VoicesOf text voices) :
    StringEntry.renderVoices voices = ['-', '1'] ↔ ∀ voice, ¬game.Speaks text voice := by
  have hnil : StringEntry.renderVoices voices = ['-', '1'] ↔ voices = [] := by
    constructor
    · intro hrender
      have hparse := StringEntry.parseVoices?_renderVoices voices
      rw [hrender] at hparse
      exact (Option.some.inj hparse).symm
    · rintro rfl
      rfl
  rw [hnil, List.eq_nil_iff_forall_not_mem]
  exact forall_congr' fun voice => not_congr (h.mem_iff voice)

section shown

variable {voices : VoiceMap} (h : voices.Gathers game.Speaks)
include h

private theorem voicesOf_getD (text : Nat) : game.VoicesOf text (voices.getD text []) :=
  ⟨h.ascending text, h.mem_iff text⟩

/-- The lines of strings show the voices that have been gathered. -/
theorem voiced_lines {language : Language} {tables : List (String × StringTable)} {entry : StringEntry}
    (hentry : entry ∈ game.lines language tables (some voices)) : ∃ field, game.Voiced entry field := by
  obtain ⟨⟨file, table⟩, -, hentry⟩ := List.mem_flatMap.mp hentry
  obtain ⟨⟨id, text⟩, -, rfl⟩ := List.mem_map.mp hentry
  have hvoices := voicesOf_getD h id
  exact ⟨_, by simp [StringEntry.render], ⟨_, hvoices, rfl⟩, hvoices.renderVoices_eq_iff⟩

/-- The notes on an operand show them as well. -/
theorem notesOf_notes {context : Context} (hcontext : context.voices = some voices) (operand : Operand) :
    game.NotesOf context.unvoiced operand (context.notes operand) := by
  cases operand with
  | text ref =>
    cases ref with
    | id id =>
      have hvoices := voicesOf_getD h id.toNat
      have hfound : context.voices.bind (·[id.toNat]?) =
          if voices.getD id.toNat [] = [] then none else some (voices.getD id.toNat []) := by
        rw [hcontext, ← h.getElem?_eq]
        rfl
      by_cases hnil : voices.getD id.toNat [] = []
      · rw [if_pos hnil] at hfound
        rw [context.notes_of_no_voices hfound]
        rw [hnil] at hvoices
        exact .silent fun voice hspeaks => List.not_mem_nil ((hvoices.mem_iff voice).mpr hspeaks)
      · rw [if_neg hnil] at hfound
        rw [context.notes_of_voices hfound]
        exact .spoken hnil hvoices
    | none | special => exact .other (by simp)
  | item ref => cases ref <;> exact .other (by simp)
  | _ => exact .other (by simp)

private theorem annotated_command (context : Context) (hcontext : context.voices = some voices)
    (command : Command) : game.Annotated context.unvoiced command ('\t' :: context.command command) := by
  have hoperand : context.unvoiced.operand = context.operand := funext context.operand_unvoiced
  have hsame : context.unvoiced.commandWords command = context.commandWords command := by
    rw [Context.commandWords, hoperand]
    rfl
  obtain ⟨word, words, hwords, hcommand⟩ := context.command_eq command
  refine ⟨command.operands.map context.notes, ?_, ?_⟩
  · rw [List.forall₂_map_right_iff, List.forall₂_same]
    exact fun operand _ => notesOf_notes h hcontext operand
  · rw [hsame, hcommand, hwords, intercalate_cons, context.comment_eq, ← List.flatMap_def, List.cons_append]

end shown

/-- Among the lines of tables, those that begin with a tab are the lines of the commands. -/
theorem filter_tables (context : Context) (script : Script) :
    (context.tables script.tables).filter (·.head? = some '\t') =
      script.commands.map fun command => '\t' :: context.command command := by
  have hcommands : ∀ commands : List Command,
      (commands.map fun command => '\t' :: context.command command).filter (·.head? = some '\t') =
        commands.map fun command => '\t' :: context.command command := by
    intro commands
    rw [List.filter_eq_self, List.forall_mem_map]
    exact fun _ _ => rfl
  have hline : ∀ line : Line, (context.line line).filter (·.head? = some '\t') =
      line.commands.map fun command => '\t' :: context.command command := by
    intro line
    have hheader : (Context.lineHeader line.header).head? = some '=' := by
      cases line.header <;> rfl
    rw [Context.line, List.filter_cons_of_neg (by rw [hheader]; decide), hcommands]
  have htable : ∀ table : Table, (context.table table).filter (·.head? = some '\t') =
      table.commands.map fun command => '\t' :: context.command command := by
    intro table
    have hheader : ("== TABLE ".toList ++ decimal table.number.toNat).head? = some '=' := rfl
    rw [Context.table, List.filter_cons_of_neg (by rw [hheader]; decide), List.filter_flatMap, Table.commands,
      List.map_flatMap]
    simp only [hline]
  rw [Context.tables, List.filter_flatMap, Script.commands, List.map_flatMap]
  simp only [htable]

/-- The section of a file is one that shows the voices. -/
theorem sectionOf_listing {voices : VoiceMap} (h : voices.Gathers game.Speaks) {language : Language}
    {tables : List (String × StringTable)} (file : ScriptFile) :
    game.SectionOf (game.contextOf language tables resident none) file
      (listing (game.contextOf language tables resident (some voices)) file) := by
  unfold listing
  cases hscript : file.script with
  | error error => exact .raw hscript
  | ok found =>
    obtain ⟨script, labels⟩ := found
    refine .tables hscript ?_
    rw [filter_tables, List.forall₂_map_right_iff, List.forall₂_same]
    exact fun command _ => annotated_command h (game.contextOf language tables resident _ labels) rfl command

/-- In the documents of a spoken game, the line of each string and the comments behind commands show the voices
    that speak it, whichever object or script of the game says so. -/
theorem extract_voices {language : Language} {extraction : Extraction} (hspoken : game.variant.hasVoices)
    (hextract : game.extract language = .ok extraction) : game.CrossReferenced language extraction := by
  obtain ⟨tables, resident, files, htables, hresident, hfiles, rfl⟩ := extract_eq_ok_iff.mp hextract
  have hgathers := voices_gathers hspoken hresident hfiles
  have hshown : game.shown resident files = some (game.voices resident.items files) := if_pos hspoken
  constructor
  case strings =>
    refine ⟨tables, _, htables, ?_, rfl, fun entry hentry => voiced_lines hgathers (hshown ▸ hentry)⟩
    simp only [lines, stringEntries, List.map_flatMap, List.map_map]
    rfl
  case scripts =>
    refine ⟨tables, resident, files, files.map _, htables, hresident, hfiles,
      fun script => lists_iff hresident hfiles, congrArg String.ofList List.flatMap_def, ?_⟩
    rw [List.forall₂_map_right_iff, List.forall₂_same, hshown]
    exact fun file _ => sectionOf_listing hgathers file

/-- A spoken game. An object and a script file each name a voice for its first string. -/
def spokenGame : Game where
  variant := .feeble
  basefile := ⟨⟨3, 128, 1, 2, 4⟩, ⟨0, [[65], [66]]⟩, [0, 0, 0, 5, 0, 0, 255, 255, 255, 255, 255, 255, 255, 255, 255,
    255, 255, 255, 0, 0, 0, 0, 0, 0, 0, 1, 0, 2, 0, 0, 2, 1, 0, 0, 0, 0, 0, 7, 0, 0, 0, 1, 0, 0, 0, 0, 0, 1, 0, 0,
    255, 0, 1, 0, 1]⟩
  textIndex := []
  tableIndex := [⟨"S1", [⟨1, 5⟩]⟩]
  records := [⟨⟨"S1", .tables⟩, [0, 0, 0, 1, 0, 0, 0x43, 1, 0, 1, 0, 0, 0, 0, 0, 9, 255, 0, 1, 0, 1]⟩]
  extra := none

theorem extract_voices_spoken : ∃ extraction, spokenGame.variant.hasVoices ∧
    spokenGame.extract .english = .ok extraction ∧
    extraction.strings = "GAME22\t0\tA\t7,9\nGAME22\t1\tB\t-1\n" ∧
    spokenGame.CrossReferenced .english extraction := by
  have hstrings : (spokenGame.extract .english).toOption.map (·.strings) =
      some "GAME22\t0\tA\t7,9\nGAME22\t1\tB\t-1\n" := by decide +kernel
  cases hextract : spokenGame.extract .english with
  | error error =>
    rw [hextract] at hstrings
    cases hstrings
  | ok extraction =>
    rw [hextract] at hstrings
    exact ⟨extraction, rfl, rfl, Option.some.inj hstrings, extract_voices rfl hextract⟩

end Adventure.Game
