import Adventure.Proofs.Listing.Assembled
import Adventure.Proofs.Listing.Operands

namespace Adventure.Listing

open Bytes Script Assembler

section laid

variable {σ δ ι : Type} {one : Nat → StringPool → σ → δ → Nat → StringPool → Prop}
  {spelled : Nat → ι → List UInt8 → Prop} {listed : ι → σ → Prop} {position after : Nat}
  {pool pool' : StringPool} {items : List ι} {sources : List σ} {drafts : List δ} {bytes : List UInt8}

/-- Sources are laid out where the items lie that they list, if each of them is. -/
theorem Laid.of_listed {drafted : δ → ι → Prop} (h : Cursor.Listed spelled position items bytes)
    (hsources : List.Forall₂ listed items sources)
    (hone : ∀ position item bytes source, item ∈ items → spelled position item bytes →
      listed item source → ∃ draft, one position pool source draft (position + bytes.length) pool ∧
        drafted draft item) :
    ∃ drafts, Laid one position pool sources drafts (position + bytes.length) pool ∧
      List.Forall₂ drafted drafts items := by
  induction h generalizing sources with
  | nil =>
    cases hsources
    exact ⟨[], .nil _ _, .nil⟩
  | cons head tail ih =>
    cases hsources with
    | cons hsource hsources =>
      obtain ⟨draft, hlaid, hdraft⟩ := hone _ _ _ _ List.mem_cons_self head hsource
      obtain ⟨drafts, hrest, hdrafts⟩ := ih hsources fun _ _ _ _ hitem =>
        hone _ _ _ _ (List.mem_cons_of_mem _ hitem)
      refine ⟨draft :: drafts, .cons hlaid ?_, .cons hdraft hdrafts⟩
      rw [List.length_append, ← Nat.add_assoc]
      exact hrest

/-- What holds of each item that is laid out from what lists it, holds of all of them. -/
theorem Laid.to_listed {P : ι → Prop} (h : Cursor.Listed spelled position items bytes)
    (hsources : List.Forall₂ listed items sources)
    (hlaid : Laid one position pool sources drafts after pool')
    (hone : ∀ position item bytes source draft after pool', spelled position item bytes →
      listed item source → one position pool source draft after pool' →
      P item ∧ after = position + bytes.length ∧ pool' = pool) :
    (∀ item ∈ items, P item) ∧ after = position + bytes.length ∧ pool' = pool := by
  induction h generalizing sources drafts with
  | nil =>
    cases hsources
    cases hlaid
    exact ⟨by simp, rfl, rfl⟩
  | cons head tail ih =>
    cases hsources with
    | cons hsource hsources =>
      cases hlaid with
      | cons hdraft hdrafts =>
        obtain ⟨hitem, rfl, rfl⟩ := hone _ _ _ _ _ _ _ head hsource hdraft
        obtain ⟨hitems, rfl, rfl⟩ := ih hsources hdrafts
        rw [List.length_append, ← Nat.add_assoc]
        exact ⟨List.forall_mem_cons.mpr ⟨hitem, hitems⟩, rfl, rfl⟩

end laid

/-- A draft that stands for a command of a record whose jumps wait for the labels of a listing. -/
structure CommandDrafts (context : Context) (draft : DraftCommand) (command : Command) : Prop where
  offset : draft.offset = command.offset
  opcode : draft.opcode = command.opcode
  operands : draft.operands = command.operands.map context.draft

section laying

variable {context : Context} {assembler : Assembler} {target : Target} {line position after : Nat}
  {pool pool' : StringPool} {bytes : List UInt8}

theorem Context.size_draft (operand : Operand) : (context.draft operand).size = operand.size := by
  unfold Context.draft
  split
  · split <;> rfl
  · rfl

private theorem operandsDrafted_printed_iff {shape : List OperandKind} {operands : List Operand}
    (h : Operand.AllSpelled shape operands bytes) {drafts : List DraftOperand} :
    assembler.OperandsDrafted target line pool shape
        (operands.map fun operand => String.ofList (context.operand operand)) drafts pool' ↔
      (∀ operand ∈ operands, assembler.Resolves target pool operand) ∧
        drafts = operands.map context.draft ∧ pool' = pool := by
  induction h generalizing drafts with
  | nil =>
    constructor
    · intro h
      cases h
      exact ⟨by simp, rfl, rfl⟩
    · rintro ⟨-, rfl, rfl⟩
      exact .nil _
  | cons head _ ih =>
    rw [List.map_cons, List.map_cons, List.forall_mem_cons]
    constructor
    · intro h
      cases h with
      | cons hoperand hoperands =>
        obtain ⟨hresolves, rfl, rfl⟩ := (operand_printed_iff head).mp hoperand
        obtain ⟨hrest, rfl, rfl⟩ := ih.mp hoperands
        exact ⟨⟨hresolves, hrest⟩, rfl, rfl⟩
    · rintro ⟨⟨hresolves, hrest⟩, rfl, rfl⟩
      exact .cons ((operand_printed_iff head).mpr ⟨hresolves, rfl, rfl⟩) (ih.mpr ⟨hrest, rfl, rfl⟩)

/-- A listed command is laid out exactly if what it refers to can be named, and then as the command
    that was listed. -/
theorem commandLaid_listed_iff {command : Command} {source : SourceCommand} {draft : DraftCommand}
    (hset : context.set.Listable) (hassembler : assembler.set = context.set)
    (h : command.Spelled context.set position bytes) (hlisted : CommandListed context command source) :
    assembler.CommandLaid target position pool source draft after pool' ↔
      (∀ operand ∈ command.operands, assembler.Resolves target pool operand) ∧
        draft = ⟨source.line, command.offset, command.opcode, command.operands.map context.draft⟩ ∧
        after = position + bytes.length ∧ pool' = pool := by
  have hsize : (DraftCommand.mk source.line command.offset command.opcode
      (command.operands.map context.draft)).size = bytes.length := by
    rw [h.length_eq, DraftCommand.size, List.foldr_map]
    simp only [Context.size_draft]
    rfl
  obtain ⟨op, rest, hop, hoperands, -⟩ := h.operands
  have hcode : op.code = command.opcode := by simpa using List.find?_some hop
  have hmnemonic : source.mnemonic = op.mnemonic := by
    rw [hlisted.mnemonic, Context.mnemonic, hop]
  have hlookup : assembler.set.lookup? source.mnemonic = some op := by
    rw [hassembler, hmnemonic]
    exact (hset _ _ hop).1
  constructor
  · rintro ⟨⟨hline, hoffset, -, op', hop', hopcode, hdrafted⟩, rfl⟩
    rw [hlookup] at hop'
    cases hop'
    rw [hlisted.operands, operandsDrafted_printed_iff hoperands] at hdrafted
    obtain ⟨hresolves, hdrafts, rfl⟩ := hdrafted
    obtain ⟨line, offset, opcode, operands⟩ := draft
    obtain rfl : offset = command.offset := hoffset.trans h.offset.symm
    obtain rfl : opcode = command.opcode := hopcode.trans hcode
    subst hline hdrafts
    exact ⟨hresolves, rfl, by rw [hsize], rfl⟩
  · rintro ⟨hresolves, rfl, rfl, rfl⟩
    refine ⟨⟨rfl, h.offset, ?_, op, hlookup, hcode.symm, ?_⟩, by rw [hsize]⟩
    · rw [hlisted.marker]
      rintro marker heq
      cases heq
      exact markedOpcode?_marker _
    · rw [hlisted.operands, operandsDrafted_printed_iff hoperands]
      exact ⟨hresolves, rfl, rfl⟩

private theorem commandLaid_of_listed {command : Command} {source : SourceCommand}
    (hset : context.set.Listable)
    (hassembler : assembler.set = context.set) (h : command.Spelled context.set position bytes)
    (hlisted : CommandListed context command source)
    (hresolves : ∀ operand ∈ command.operands, assembler.Resolves target pool operand) :
    ∃ draft, assembler.CommandLaid target position pool source draft (position + bytes.length) pool ∧
      CommandDrafts context draft command :=
  ⟨_, (commandLaid_listed_iff hset hassembler h hlisted).mpr ⟨hresolves, rfl, rfl, rfl⟩, rfl, rfl, rfl⟩

private theorem lineLaid_of_listed {table : UInt16} {item : Line} {source : SourceLine}
    (hset : context.set.Listable) (hassembler : assembler.set = context.set)
    (h : item.Spelled context.set table position bytes) (hlisted : LineListed context item source)
    (hresolves : ∀ command ∈ item.commands, ∀ operand ∈ command.operands,
      assembler.Resolves target pool operand) :
    ∃ draft, assembler.LineLaid target table position pool source draft (position + bytes.length) pool ∧
      LineDrafts (CommandDrafts context) draft item := by
  obtain ⟨header, commands, hheader, hcommands, rfl⟩ := h.parts
  obtain ⟨drafts, hlaid, hdrafts⟩ := Laid.of_listed hcommands hlisted.commands
    fun position command bytes source hmem hspelled hsource =>
      commandLaid_of_listed hset hassembler hspelled hsource (hresolves command hmem)
  refine ⟨(source.header, drafts), ⟨rfl, _, ?_, hlaid⟩, hlisted.header, hdrafts⟩
  simp only [List.length_append, length_word16, hheader.length_eq, List.length_singleton]
  omega

private theorem tableLaid_of_listed {item : Table} {source : SourceTable} (hset : context.set.Listable)
    (hassembler : assembler.set = context.set) (h : item.Spelled context.set position bytes)
    (hlisted : TableListed context item source)
    (hresolves : ∀ command ∈ item.commands, ∀ operand ∈ command.operands,
      assembler.Resolves target pool operand) :
    ∃ draft, assembler.TableLaid target position pool source draft (position + bytes.length) pool ∧
      TableDrafts (CommandDrafts context) draft item := by
  obtain ⟨lines, hlines, rfl⟩ := h.parts
  obtain ⟨drafts, hlaid, hdrafts⟩ := Laid.of_listed hlines hlisted.lines
    fun position line bytes source hmem hspelled hsource =>
      lineLaid_of_listed hset hassembler hspelled hsource fun command hcommand =>
        hresolves command (List.mem_flatMap.mpr ⟨line, hmem, hcommand⟩)
  rw [← hlisted.number] at hlaid
  refine ⟨(source.number, drafts), ⟨rfl, _, ?_, hlaid⟩, hlisted.number, hdrafts⟩
  simp only [List.length_append, length_word16]
  omega

private theorem lineLaid_listed {table : UInt16} {item : Line} {source : SourceLine} {draft : DraftLine}
    (hset : context.set.Listable) (hassembler : assembler.set = context.set)
    (h : item.Spelled context.set table position bytes) (hlisted : LineListed context item source)
    (hlaid : assembler.LineLaid target table position pool source draft after pool') :
    (∀ command ∈ item.commands, ∀ operand ∈ command.operands, assembler.Resolves target pool operand) ∧
      after = position + bytes.length ∧ pool' = pool := by
  obtain ⟨header, commands, hheader, hcommands, rfl⟩ := h.parts
  obtain ⟨-, stop, rfl, hlaid⟩ := hlaid
  obtain ⟨hresolves, rfl, rfl⟩ := Laid.to_listed hcommands hlisted.commands hlaid
    (P := fun command => ∀ operand ∈ command.operands, assembler.Resolves target pool operand)
    fun _ _ _ _ _ _ _ hspelled hsource hcommand => by
      obtain ⟨hresolves, -, rfl, rfl⟩ :=
        (commandLaid_listed_iff hset hassembler hspelled hsource).mp hcommand
      exact ⟨hresolves, rfl, rfl⟩
  refine ⟨hresolves, ?_, rfl⟩
  simp only [List.length_append, length_word16, hheader.length_eq, List.length_singleton]
  omega

private theorem tableLaid_listed {item : Table} {source : SourceTable} {draft : DraftTable}
    (hset : context.set.Listable) (hassembler : assembler.set = context.set)
    (h : item.Spelled context.set position bytes) (hlisted : TableListed context item source)
    (hlaid : assembler.TableLaid target position pool source draft after pool') :
    (∀ command ∈ item.commands, ∀ operand ∈ command.operands, assembler.Resolves target pool operand) ∧
      after = position + bytes.length ∧ pool' = pool := by
  obtain ⟨lines, hlines, rfl⟩ := h.parts
  obtain ⟨-, stop, rfl, hlaid⟩ := hlaid
  rw [hlisted.number] at hlaid
  obtain ⟨hresolves, rfl, rfl⟩ := Laid.to_listed hlines hlisted.lines hlaid
    (P := fun line => ∀ command ∈ line.commands, ∀ operand ∈ command.operands,
      assembler.Resolves target pool operand)
    fun _ _ _ _ _ _ _ hspelled hsource hline => lineLaid_listed hset hassembler hspelled hsource hline
  refine ⟨fun command hcommand => ?_, ?_, rfl⟩
  · obtain ⟨line, hline, hcommand⟩ := List.mem_flatMap.mp hcommand
    exact hresolves line hline command hcommand
  · simp only [List.length_append, length_word16]
    omega

end laying

section linking

variable {context : Context} {labels : LabelPositions}

/-- Drafts of a listing are linked to the commands that were listed, if each label is placed where
    the jumps to it went. -/
theorem linkTable_of_drafts {draft : DraftTable} {table : Table}
    (hlabels : ∀ target : UInt16, ∀ ordinal : Nat, context.labels[target.toNat]? = some ordinal →
      labels[String.ofList (Labels.name ordinal)]? = some target.toNat)
    (h : TableDrafts (CommandDrafts context) draft table) : linkTable labels draft = .ok table := by
  have hoperand : ∀ (line : Nat) (operand : Operand),
      linkOperand labels line (context.draft operand) = .ok operand := by
    intro line operand
    unfold Context.draft
    split
    case _ target =>
      cases hlabel : context.labels[target.toNat]? with
      | none => rfl
      | some ordinal =>
        exact linkOperand_label_eq_ok_iff.mpr
          ⟨target.toNat, hlabels target ordinal hlabel, target.toNat_lt, by rw [UInt16.ofNat_toNat]⟩
    case _ => rfl
  have hcommand : ∀ draft command, CommandDrafts context draft command →
      linkCommand labels draft = .ok command := by
    intro draft command h
    refine linkCommand_eq_ok_iff.mpr ⟨command.operands, ?_, by rw [h.offset, h.opcode]⟩
    rw [h.operands, Except.mapM_eq_ok_iff, List.forall₂_map_left_iff, List.forall₂_same]
    exact fun operand _ => hoperand _ operand
  refine linkTable_eq_ok_iff.mpr ⟨table.lines, ?_, by rw [h.number]⟩
  refine Except.mapM_eq_ok_iff.mpr (h.lines.imp fun draft line hline => ?_)
  refine linkLine_eq_ok_iff.mpr ⟨line.commands, ?_, by rw [hline.header]⟩
  exact Except.mapM_eq_ok_iff.mpr (hline.commands.imp hcommand)

variable {set : InstructionSet} {tables : List Table} {sources : List SourceTable} {bytes : List UInt8}

private theorem flatMap_commands_listed (h : List.Forall₂ (TableListed context) tables sources) :
    List.Forall₂ (CommandListed context) (tables.flatMap Table.commands)
      (sources.flatMap SourceTable.commands) := by
  refine List.rel_flatMap h fun table item htable => ?_
  exact List.rel_flatMap htable.lines fun line item hline => hline.commands

/-- The labels of a listing are those of the commands at their positions. -/
theorem filterMap_label_listed {commands : List Command} {found : List SourceCommand}
    (h : List.Forall₂ (CommandListed context) commands found) :
    found.filterMap (·.label) = (commands.map (·.offset)).filterMap fun position =>
      context.labels[position]?.map fun ordinal => String.ofList (Labels.name ordinal) := by
  induction h with
  | nil => rfl
  | cons head _ ih => rw [List.map_cons, List.filterMap_cons, List.filterMap_cons, head.label, ih]

/-- Labels of a record have different names, so each of them can be placed, and is placed where the
    jumps to it go. -/
theorem exists_placed_labels (h : Script.Spelled set tables bytes)
    (hlabels : Labels.ofScript (Script.ofTables tables) = .ok context.labels)
    (hlisted : List.Forall₂ (TableListed context) tables sources) :
    ∃ labels, Placed ∅ (zipLabels placedLabels (sources.flatMap SourceTable.commands)
        (tables.flatMap Table.commands)) labels ∧
      ∀ target : UInt16, ∀ ordinal : Nat, context.labels[target.toNat]? = some ordinal →
        labels[String.ofList (Labels.name ordinal)]? = some target.toNat := by
  have hcommands := flatMap_commands_listed hlisted
  have hstart : ∀ position ordinal : Nat, context.labels[position]? = some ordinal →
      ∃ command, (tables.flatMap Table.commands)[ordinal]? = some command ∧
        command.offset = position := fun position ordinal hlabel =>
    (Script.getElem?_starts_iff h).mp (Labels.ofScript_starts hlabels hlabel)
  have hoffsets : ((tables.flatMap Table.commands).map (·.offset)).Nodup := by
    rw [List.nodup_iff_pairwise_ne, List.pairwise_map]
    exact h.ascend.pairwise.imp fun hlt => Nat.ne_of_lt hlt
  have hnodup : ((zipLabels placedLabels (sources.flatMap SourceTable.commands)
      (tables.flatMap Table.commands)).map Prod.fst).Nodup := by
    rw [map_fst_zipLabels_placed hcommands.length_eq.symm, filterMap_label_listed hcommands]
    refine hoffsets.filterMap fun position other label hlabel hother => ?_
    obtain ⟨ordinal, hordinal, rfl⟩ := Option.map_eq_some_iff.mp hlabel
    obtain ⟨number, hnumber, heq⟩ := Option.map_eq_some_iff.mp hother
    obtain rfl := Labels.name_injective (String.ofList_injective heq)
    obtain ⟨command, hcommand, rfl⟩ := hstart position _ hordinal
    obtain ⟨found, hfound, rfl⟩ := hstart other _ hnumber
    rw [hcommand] at hfound
    rw [Option.some.inj hfound]
  obtain ⟨labels, hplaced⟩ : ∃ labels, Placed ∅ _ labels := Placed.exists_of_nodup hnodup (by simp)
  refine ⟨labels, hplaced, fun target ordinal hlabel => hplaced.getElem?_iff.mpr (.inl ?_)⟩
  obtain ⟨command, hcommand, hoffset⟩ := hstart target.toNat ordinal hlabel
  obtain ⟨hlt, hget⟩ := List.getElem?_eq_some_iff.mp hcommand
  have hsource := List.Forall₂.get hcommands hlt (by rw [← hcommands.length_eq]; exact hlt)
  simp only [List.get_eq_getElem, hget] at hsource
  refine mem_zipLabels_placed_iff.mpr ⟨ordinal, _, command,
    List.getElem?_eq_getElem (by rw [← hcommands.length_eq]; exact hlt), hcommand, ?_, hoffset⟩
  rw [hsource.label, hoffset, hlabel]
  rfl

end linking

section files

variable {context : Context} {assembler : Assembler} {tables : List Table} {data bytes : List UInt8}
  {file : SourceFile} {ranges : List TableRange} {sources : List SourceTable}
  {texts : Option (Nat × Nat)} {pool after : StringPool}

/-- A listed record whose references can be named is assembled to the bytes of its tables, and no
    text is declared. -/
theorem assembleWith_listed (hset : context.set.Listable) (hassembler : assembler.set = context.set)
    (h : Script.Spelled context.set tables data)
    (hlabels : Labels.ofScript (Script.ofTables tables) = .ok context.labels)
    (hlisted : List.Forall₂ (TableListed context) tables sources)
    (hbody : file.body = .tables ranges sources) (hranges : checkRanges file.line ranges sources = .ok ())
    (hresolves : ∀ command ∈ tables.flatMap Table.commands, ∀ operand ∈ command.operands,
      assembler.Resolves ⟨file.name, texts⟩ pool operand) :
    ∃ bytes, Script.tablesBytes tables = .ok bytes ∧
      assembler.assembleWith file texts pool = (.ok bytes, pool) := by
  obtain ⟨bytes, hbytes, -⟩ := h.tablesBytes
  obtain ⟨labels, hplaced, htargets⟩ := exists_placed_labels h hlabels hlisted
  refine ⟨bytes, hbytes, assembleWith_eq_ok_iff.mpr
    ⟨ranges, sources, tables, hbody, hranges, tables_eq_ok_iff.mpr ?_, hbytes⟩⟩
  have hlaid : ∃ drafts stop, Laid (assembler.TableLaid ⟨file.name, texts⟩) 0 pool sources drafts stop
      pool ∧ List.Forall₂ (TableDrafts (CommandDrafts context)) drafts tables := by
    cases h with
    | empty =>
      cases hlisted
      exact ⟨[], 0, .nil _ _, .nil⟩
    | tables h =>
      obtain ⟨drafts, hlaid, hdrafts⟩ := Laid.of_listed h hlisted
        fun _ table _ _ htable hspelled hsource => tableLaid_of_listed hset hassembler hspelled hsource
          fun command hcommand => hresolves command (List.mem_flatMap.mpr ⟨table, htable, hcommand⟩)
      exact ⟨drafts, _, hlaid, hdrafts⟩
  obtain ⟨drafts, stop, hlaid, hdrafts⟩ := hlaid
  refine ⟨drafts, stop, labels, hlaid, ?_, ?_⟩
  · rw [zipLabels_tableLabels (fun _ _ hcommand => hcommand.offset) hdrafts
      (hlisted.flip.imp fun table item htable => htable.lines.flip.imp
        fun line item hline => hline.commands.flip)]
    exact hplaced
  · exact Except.mapM_eq_ok_iff.mpr (hdrafts.imp fun _ _ => linkTable_of_drafts htargets)

/-- What a listing that is assembled refers to can be named. -/
theorem resolves_of_assembleWith (hset : context.set.Listable)
    (hassembler : assembler.set = context.set) (h : Script.Spelled context.set tables data)
    (hlisted : List.Forall₂ (TableListed context) tables sources)
    (hbody : file.body = .tables ranges sources)
    (hassemble : assembler.assembleWith file texts pool = (.ok bytes, after)) :
    checkRanges file.line ranges sources = .ok () ∧ ∀ command ∈ tables.flatMap Table.commands,
      ∀ operand ∈ command.operands, assembler.Resolves ⟨file.name, texts⟩ pool operand := by
  obtain ⟨_, _, tables', hbody', hranges, htables, -⟩ := assembleWith_eq_ok_iff.mp hassemble
  rw [hbody] at hbody'
  cases hbody'
  obtain ⟨drafts, stop, labels, hlaid, -, -⟩ := tables_eq_ok_iff.mp htables
  refine ⟨hranges, fun command hcommand => ?_⟩
  cases h with
  | empty => cases hcommand
  | tables h =>
    obtain ⟨hresolves, -, -⟩ := Laid.to_listed h hlisted hlaid
      (P := fun table => ∀ command ∈ table.commands, ∀ operand ∈ command.operands,
        assembler.Resolves ⟨file.name, texts⟩ pool operand)
      fun _ _ _ _ _ _ _ hspelled hsource htable =>
        tableLaid_listed hset hassembler hspelled hsource htable
    obtain ⟨table, htable, hcommand⟩ := List.mem_flatMap.mp hcommand
    exact hresolves table htable command hcommand

theorem mnemonic_isToken (hset : context.set.Listable) (h : Script.Spelled context.set tables data) :
    ∀ command ∈ tables.flatMap Table.commands, IsToken (context.mnemonic command.opcode).toList := by
  intro command hcommand
  obtain ⟨op, hop⟩ := h.exists_opcode hcommand
  rw [Context.mnemonic, hop]
  exact (hset _ _ hop).2.isToken

private theorem checkRanges_listed (hlisted : List.Forall₂ (TableListed context) tables sources)
    {line : Nat} : checkRanges line ranges sources = .ok () ↔
      Script.checkRanges (Script.ofTables tables) ranges = .ok () := by
  have hnumbers : sources.map (·.number) = tables.map (·.number) := by
    induction hlisted with
    | nil => rfl
    | cons head _ ih => rw [List.map_cons, List.map_cons, head.number, ih]
  rw [Assembler.checkRanges, Script.checkRanges, hnumbers, Script.ofTables]
  cases TableRange.rejected? ranges (tables.map (·.number)) <;> simp

/-- All sets that come with games can list scripts. With such a set, a record that can be read, whose
    tables keep to their ranges and whose jumps go to commands, is listed as a text that is read as
    one file, whatever the comments say; and if the strings and items of the record can be named, the
    file is assembled to the bytes of the record's tables, and the pool is left as it is. -/
theorem listed_record_reassembles :
    (∀ set ∈ InstructionSet.shipped, set.Listable) ∧
    ∀ (set : InstructionSet) (data : List UInt8) (script : Script) (ranges : List TableRange)
      (labels : Labels) (name : String) (symbols : Symbols) (voices : Option VoiceMap)
      (texts : Option (Nat × Nat)) (pool : StringPool),
      set.Listable → Script.ofRecord set data = .ok script → script.checkRanges ranges = .ok () →
      Labels.ofScript script = .ok labels →
      (∀ range ∈ ranges, 0 < range.low ∧ range.low ≤ range.high) → IsToken name.toList →
      (∀ command ∈ script.commands, ∀ id, .text (.id id) ∈ command.operands →
        (symbols.text? id.toNat).isSome ∧ ∀ low high, texts = some (low, high) →
          id.toNat < 0x8000 ∨ low ≤ id.toNat ∧ id.toNat < high) →
      (∀ command ∈ script.commands, ∀ item, .item (.id item) ∈ command.operands →
        item = 0 ∨ item.toNat < symbols.itemCount) →
      ∃ file bytes,
        parse (String.ofList (Context.file ⟨set, labels, symbols, voices⟩ name ranges script.tables)) =
          .ok [file] ∧
        Script.tablesBytes script.tables = .ok bytes ∧
        Assembler.assembleWith ⟨set, symbols⟩ file texts pool = (.ok bytes, pool) := by
  refine ⟨InstructionSet.shipped_listable, ?_⟩
  intro set data script ranges labels name symbols voices texts pool hset hrecord hranges hlabels
    hproper hname htexts hitems
  obtain ⟨hscript, hspelled⟩ := Script.ofRecord_eq_ok_iff.mp hrecord
  rw [hscript] at hranges hlabels
  let context : Context := ⟨set, labels, symbols, voices⟩
  have hlistable : context.set.Listable := hset
  obtain ⟨sources, hlisted, hparse⟩ := parse_file hname hproper
    (fun table htable line hline => propext (hspelled.header_isSome htable hline))
    (mnemonic_isToken hlistable hspelled)
  have hresolves : ∀ command ∈ script.tables.flatMap Table.commands, ∀ operand ∈ command.operands,
      Assembler.Resolves ⟨set, symbols⟩ ⟨name, texts⟩ pool operand := by
    intro command hcommand operand hoperand
    unfold Assembler.Resolves
    split
    case _ id =>
      obtain ⟨hknown, hrange⟩ := htexts command hcommand id hoperand
      refine ⟨?_, by simp [Assembler.knowsText, hknown]⟩
      have hbase : TextIndex.firstBase = 0x8000 := rfl
      unfold Target.allows
      cases texts with
      | none => simp
      | some range =>
        rcases hrange _ _ rfl with hlow | ⟨hlow, hhigh⟩
        · simp [hbase, hlow]
        · simp [hlow, hhigh]
    case _ item =>
      intro hne
      exact (hitems command hcommand item hoperand).resolve_left hne
    case _ => trivial
  have hbody : (SourceFile.mk 1 name (.tables ranges sources)).body = .tables ranges sources := rfl
  obtain ⟨bytes, hbytes, hassemble⟩ := assembleWith_listed hset rfl hspelled hlabels hlisted hbody
    ((checkRanges_listed hlisted).mpr hranges) hresolves
  exact ⟨_, bytes, hparse, hbytes, hassemble⟩

theorem listed_record_reassembles_forward :
    ∃ file bytes,
      parse (String.ofList (Context.file ⟨.ofLayers "small" [[⟨0, some "SAY", [.byte, .text]⟩,
        ⟨1, some "GOTO", [.jump]⟩]], (∅ : Labels).insert 9 1, ⟨Std.TreeMap.ofList [(7, "// \"no\"")], ∅, 2⟩,
        none⟩ "A" [⟨1, 2⟩]
        [⟨1, [⟨none, [⟨6, 1, [.jump 9]⟩, ⟨9, 0, [.byte 5, .text (.id 7)]⟩]⟩]⟩])) = .ok [file] ∧
      Script.tablesBytes [⟨1, [⟨none, [⟨6, 1, [.jump 9]⟩, ⟨9, 0, [.byte 5, .text (.id 7)]⟩]⟩]⟩] =
        .ok bytes ∧
      Assembler.assembleWith ⟨.ofLayers "small" [[⟨0, some "SAY", [.byte, .text]⟩,
        ⟨1, some "GOTO", [.jump]⟩]], ⟨Std.TreeMap.ofList [(7, "// \"no\"")], ∅, 2⟩⟩ file
        (some (0x8000, 0x8001)) (.startingAt 8) = (.ok bytes, .startingAt 8) := by
  have htables : Script.readTables (.ofLayers "small" [[⟨0, some "SAY", [.byte, .text]⟩,
      ⟨1, some "GOTO", [.jump]⟩]])
      (.ofBytes [0, 0, 0, 1, 0, 0, 1, 0, 9, 0, 5, 0, 1, 0, 0, 0, 7, 0xff, 0, 1, 0, 1]) =
      .ok ([⟨1, [⟨none, [⟨6, 1, [.jump 9]⟩, ⟨9, 0, [.byte 5, .text (.id 7)]⟩]⟩]⟩],
        ⟨[0, 0, 0, 1, 0, 0, 1, 0, 9, 0, 5, 0, 1, 0, 0, 0, 7, 0xff, 0, 1, 0, 1], 22, []⟩) :=
    Except.eq_ok_of_toOption (by decide +kernel)
  exact listed_record_reassembles.2 _ _ (.ofTables _) [⟨1, 2⟩] _ "A" _ none (some (0x8000, 0x8001)) _
    (InstructionSet.ofLayers_listable _ (by decide)) (by rw [Script.ofRecord, Script.ofBlock, htables]; rfl)
    (Except.eq_ok_of_toOption (by decide +kernel)) rfl (by decide) (by decide)
    (by simp [Script.commands, Script.ofTables, Table.commands, Symbols.text?])
    (by simp [Script.commands, Script.ofTables, Table.commands])

end files

end Adventure.Listing
