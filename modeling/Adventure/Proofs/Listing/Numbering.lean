import Adventure.Listing.Assemble
import Adventure.Proofs.Listing.Parsing
import Adventure.Proofs.Script.Ranges

namespace Adventure.Listing

variable (move : Nat → Nat)

section parts

def SourceCommand.renumber (command : SourceCommand) : SourceCommand :=
  { command with line := move command.line }

def SourceLine.renumber (line : SourceLine) : SourceLine :=
  { line with line := move line.line, commands := line.commands.map (·.renumber move) }

def SourceTable.renumber (table : SourceTable) : SourceTable :=
  { table with line := move table.line, lines := table.lines.map (·.renumber move) }

def SourceBody.renumber : SourceBody → SourceBody
  | raw => raw
  | tables ranges sources => .tables ranges (sources.map (·.renumber move))

/-- A file whose parts stand on other lines. -/
def SourceFile.renumber (file : SourceFile) : SourceFile :=
  { file with line := move file.line, body := file.body.renumber move }

def Outline.renumber (outline : Outline) : Outline := outline.map (·.renumber move)

def OperandFault.renumber : OperandFault → OperandFault
  | escape line error => .escape (move line) error
  | fault => fault

/-- What is wrong with a text stands on another line. -/
def Error.renumber : Error → Error
  | unknownMnemonic line mnemonic => .unknownMnemonic (move line) mnemonic
  | unresolvedReference line reference => .unresolvedReference (move line) reference
  | malformedOperand line operand fault => .malformedOperand (move line) operand (fault.renumber move)
  | parameterCount line mnemonic expected found => .parameterCount (move line) mnemonic expected found
  | opcodeMismatch line mnemonic expected found => .opcodeMismatch (move line) mnemonic expected found
  | undefinedLabel line label => .undefinedLabel (move line) label
  | duplicateLabel line label => .duplicateLabel (move line) label
  | textOutOfRange line id file => .textOutOfRange (move line) id file
  | tableOutOfRange line number ranges => .tableOutOfRange (move line) number ranges
  | malformedLine line defect => .malformedLine (move line) defect
  | unknownFile line file => .unknownFile (move line) file

variable {move} {move' : Nat → Nat}

theorem SourceCommand.renumber_id (command : SourceCommand) : command.renumber id = command := rfl

theorem SourceLine.renumber_id (line : SourceLine) : line.renumber id = line := by
  simp [renumber, SourceCommand.renumber_id]

theorem SourceTable.renumber_id (table : SourceTable) : table.renumber id = table := by
  simp [renumber, SourceLine.renumber_id]

theorem SourceFile.renumber_id (file : SourceFile) : file.renumber id = file := by
  obtain ⟨line, name, _ | ⟨ranges, tables⟩⟩ := file <;>
    simp [renumber, SourceBody.renumber, SourceTable.renumber_id]

theorem Outline.renumber_id (outline : Outline) : outline.renumber id = outline := by
  simp [renumber, SourceFile.renumber_id]

theorem SourceCommand.renumber_renumber (command : SourceCommand) :
    (command.renumber move).renumber move' = command.renumber (move' ∘ move) := rfl

theorem SourceLine.renumber_renumber (line : SourceLine) :
    (line.renumber move).renumber move' = line.renumber (move' ∘ move) := by
  simp [renumber, SourceCommand.renumber_renumber]

theorem SourceTable.renumber_renumber (table : SourceTable) :
    (table.renumber move).renumber move' = table.renumber (move' ∘ move) := by
  simp [renumber, SourceLine.renumber_renumber]

theorem SourceFile.renumber_renumber (file : SourceFile) :
    (file.renumber move).renumber move' = file.renumber (move' ∘ move) := by
  obtain ⟨line, name, _ | ⟨ranges, tables⟩⟩ := file <;>
    simp [renumber, SourceBody.renumber, SourceTable.renumber_renumber]

theorem Outline.renumber_renumber (outline : Outline) :
    (outline.renumber move).renumber move' = outline.renumber (move' ∘ move) := by
  simp [renumber, SourceFile.renumber_renumber]

theorem Outline.files_renumber (outline : Outline) :
    (outline.renumber move).files = outline.files.map (·.renumber move) := by
  rw [renumber, files, files, ← List.map_reverse, List.map_map, List.map_map]
  refine List.map_congr_left fun file _ => ?_
  obtain ⟨line, name, _ | ⟨ranges, tables⟩⟩ := file
  · rfl
  · simp [SourceFile.renumber, SourceBody.renumber, SourceTable.renumber, SourceLine.renumber]

end parts

section results

variable {move} {α α' β β' : Type} {g : α → α'} {h : β → β'}

/-- What comes of a step where the lines are numbered otherwise. -/
def renumbered (move : Nat → Nat) (g : α → α') : Except Error α → Except Error α'
  | .ok a => .ok (g a)
  | .error error => .error (error.renumber move)

theorem bind_renumbered {x : Except Error α} {x' : Except Error α'} {f : α → Except Error β}
    {f' : α' → Except Error β'} (hx : x' = renumbered move g x)
    (hf : ∀ a, f' (g a) = renumbered move h (f a)) : (x' >>= f') = renumbered move h (x >>= f) := by
  subst hx
  cases x with
  | ok a => exact hf a
  | error => rfl

private theorem map_renumbered {x : Except Error α} {x' : Except Error α'} {f : α → β} {f' : α' → β'}
    (hx : x' = renumbered move g x) (hf : ∀ a, f' (g a) = h (f a)) :
    x'.map f' = renumbered move h (x.map f) := by
  subst hx
  cases x with
  | ok a => exact congrArg Except.ok (hf a)
  | error => rfl

theorem mapM_renumbered {f f' : α → Except Error β} {as : List α}
    (hf : ∀ a, f' a = renumbered move id (f a)) : as.mapM f' = renumbered move id (as.mapM f) := by
  induction as with
  | nil => rfl
  | cons a as ih =>
    rw [List.mapM_cons, List.mapM_cons]
    exact bind_renumbered (hf a) fun b => bind_renumbered ih fun bs => rfl

theorem ite_renumbered {condition : Prop} [Decidable condition] {x y : Except Error α}
    {x' y' : Except Error α'} (hx : x' = renumbered move g x) (hy : y' = renumbered move g y) :
    (if condition then x' else y') = renumbered move g (if condition then x else y) := by
  split
  · exact hx
  · exact hy

/-- What comes of a step of assembling where the lines are numbered otherwise. -/
def Assembly.renumbered (move : Nat → Nat) (g : α → α') (step : Assembly α) : Assembly α' := fun pool =>
  match step pool with
  | .ok a after => .ok (g a) after
  | .error error after => .error (error.renumber move) after

namespace Assembly

private theorem get_renumbered (move : Nat → Nat) :
    (get : Assembly StringPool) = renumbered move id get := rfl

private theorem check_renumbered {x : Except Error α} {x' : Except Error α'}
    (hx : x' = Listing.renumbered move g x) : check x' = renumbered move g (check x) := by
  subst hx
  cases x <;> rfl

theorem bind_renumbered {x : Assembly α} {x' : Assembly α'} {f : α → Assembly β} {f' : α' → Assembly β'}
    (hx : x' = renumbered move g x) (hf : ∀ a, f' (g a) = renumbered move h (f a)) :
    (x' >>= f') = renumbered move h (x >>= f) := by
  subst hx
  funext pool
  simp only [bind, EStateM.bind, renumbered]
  cases x pool with
  | ok a after => exact congrFun (hf a) after
  | error => rfl

theorem ite_renumbered {condition : Prop} [Decidable condition] {x y : Assembly α} {x' y' : Assembly α'}
    (hx : x' = renumbered move g x) (hy : y' = renumbered move g y) :
    (if condition then x' else y') = renumbered move g (if condition then x else y) := by
  split
  · exact hx
  · exact hy

theorem mapM_renumbered {f f' : α → Assembly β} {as : List α}
    (hf : ∀ a, f' a = renumbered move id (f a)) : as.mapM f' = renumbered move id (as.mapM f) := by
  induction as with
  | nil => rfl
  | cons a as ih =>
    rw [List.mapM_cons, List.mapM_cons]
    exact bind_renumbered (hf a) fun b => bind_renumbered ih fun bs => rfl

end Assembly

end results

section reading

variable (line : Nat)

private theorem word_renumber (what token : String) :
    word (move line) what token = renumbered move id (word line what token) := by
  unfold word
  split <;> rfl

private theorem ranges_renumber (tokens : List String) :
    ranges (move line) tokens = renumbered move id (ranges line tokens) := by
  unfold ranges
  split
  case _ => rfl
  case _ =>
    refine mapM_renumbered fun token => ?_
    cases range? token.toList <;> rfl

private theorem tokens_renumber (content : List Char) :
    tokens (move line) content = renumbered move id (tokens line content) := by
  unfold tokens
  split <;> rfl

private theorem sourceCommand_renumber (tokens : List String) :
    sourceCommand (move line) tokens = renumbered move (·.renumber move) (sourceCommand line tokens) := by
  unfold sourceCommand
  dsimp only
  split <;> rfl

private theorem sourceHeader_renumber (tokens : List String) :
    sourceHeader (move line) tokens = renumbered move id (sourceHeader line tokens) := by
  unfold sourceHeader
  split
  case _ => rfl
  case _ verb noun1 noun2 =>
    exact bind_renumbered (word_renumber move line _ _) fun _ => bind_renumbered (word_renumber move line _ _)
      fun _ => bind_renumbered (word_renumber move line _ _) fun _ => rfl
  case _ => rfl

private theorem sourceFile_renumber (tokens : List String) :
    sourceFile (move line) tokens = renumbered move (·.renumber move) (sourceFile line tokens) := by
  unfold sourceFile
  split
  case _ => rfl
  case _ => rfl
  case _ => rfl
  case _ => exact map_renumbered (ranges_renumber move line _) fun _ => rfl

namespace Outline

variable (outline : Outline)

private theorem lastTable?_renumber :
    (outline.renumber move).lastTable? = outline.lastTable?.map (·.renumber move) := by
  rcases outline with _ | ⟨⟨_, _, _ | ⟨_, _ | ⟨_, _⟩⟩⟩, _⟩ <;> rfl

private theorem addTable?_renumber (table : SourceTable) :
    (outline.renumber move).addTable? (table.renumber move) =
      (outline.addTable? table).map (·.renumber move) := by
  rcases outline with _ | ⟨⟨_, _, _ | ⟨_, _⟩⟩, _⟩ <;> rfl

private theorem replaceTable_renumber (table : SourceTable) :
    (outline.renumber move).replaceTable (table.renumber move) =
      (outline.replaceTable table).renumber move := by
  rcases outline with _ | ⟨⟨_, _, _ | ⟨_, _ | ⟨_, _⟩⟩⟩, _⟩ <;> rfl

private theorem addLine_renumber (table : SourceTable) (line : SourceLine) :
    (outline.renumber move).addLine (table.renumber move) (line.renumber move) =
      (outline.addLine table line).renumber move :=
  replaceTable_renumber move outline { table with lines := line :: table.lines }

private theorem lastLine?_renumber : (outline.renumber move).lastLine? = outline.lastLine?.map
    fun (table, last, lines) => (table.renumber move, last.renumber move, lines.map (·.renumber move)) := by
  rw [lastLine?, lastTable?_renumber, lastLine?]
  rcases outline.lastTable? with _ | ⟨_, _, _ | ⟨_, _⟩⟩ <;> rfl

private theorem readLineStart_renumber (content : List Char) :
    (outline.renumber move).readLineStart (move line) content =
      renumbered move (·.renumber move) (outline.readLineStart line content) := by
  refine bind_renumbered (tokens_renumber move line content) fun tokens => ?_
  rw [lastTable?_renumber]
  cases outline.lastTable? with
  | none => rfl
  | some table =>
    refine bind_renumbered (sourceHeader_renumber move line tokens) fun header => ?_
    exact ite_renumbered rfl (congrArg Except.ok (addLine_renumber move outline table ⟨line, header, []⟩))

private theorem readSection_renumber (content : List Char) :
    (outline.renumber move).readSection (move line) content =
      renumbered move (·.renumber move) (outline.readSection line content) := by
  refine bind_renumbered (tokens_renumber move line content) fun tokens => ?_
  dsimp only [id]
  split
  case _ => exact bind_renumbered (sourceFile_renumber move line _) fun file => rfl
  case _ =>
    refine bind_renumbered (word_renumber move line _ _) fun number => ?_
    have hadd : (outline.renumber move).addTable? ⟨move line, number, []⟩ =
        (outline.addTable? ⟨line, number, []⟩).map (·.renumber move) :=
      addTable?_renumber move outline ⟨line, number, []⟩
    dsimp only [id]
    rw [hadd]
    cases outline.addTable? ⟨line, number, []⟩ <;> rfl
  case _ => rfl
  case _ => rfl

private theorem readCommand_renumber (content : List Char) :
    (outline.renumber move).readCommand (move line) content =
      renumbered move (·.renumber move) (outline.readCommand line content) := by
  refine bind_renumbered (tokens_renumber move line content) fun tokens => ?_
  dsimp only [id]
  split
  case _ => rfl
  case _ =>
    rw [lastLine?_renumber]
    cases outline.lastLine? with
    | none => rfl
    | some found =>
      obtain ⟨table, last, lines⟩ := found
      refine bind_renumbered (sourceCommand_renumber move line tokens) fun command => ?_
      let last := { last with commands := command :: last.commands }
      exact congrArg Except.ok (replaceTable_renumber move outline { table with lines := last :: lines })

/-- Each line is read as before, whatever number it has. -/
theorem readLine_renumber (content : List Char) :
    (outline.renumber move).readLine (move line) content =
      renumbered move (·.renumber move) (outline.readLine line content) := by
  unfold readLine
  split
  case _ => rfl
  case _ => rfl
  case _ => exact outline.readLineStart_renumber move line _
  case _ => exact outline.readSection_renumber move line _
  case _ => exact outline.readCommand_renumber move line _

/-- Lines that move together are read as they are elsewhere. -/
theorem readLines_renumber {content : List (List Char)} {first first' : Nat}
    (hmove : ∀ index < content.length, move (first + index + 1) = first' + index + 1) :
    (outline.renumber move).readLines first' content =
      renumbered move (·.renumber move) (outline.readLines first content) := by
  induction content generalizing outline first first' with
  | nil => rfl
  | cons line content ih =>
    have hline : move (first + 1) = first' + 1 := hmove 0 (Nat.zero_lt_succ _)
    have hread := outline.readLine_renumber move (first + 1) line
    rw [hline] at hread
    rw [readLines_cons_eq_bind, readLines_cons_eq_bind]
    refine bind_renumbered hread fun middle => ih middle fun index hindex => ?_
    have hnext := hmove (index + 1) (Nat.succ_lt_succ hindex)
    rwa [Nat.add_assoc first, Nat.add_comm 1, Nat.add_assoc first', Nat.add_comm 1]

end Outline

end reading

section assembling

/-- A command on another line whose jumps are open. -/
def DraftCommand.renumber (draft : DraftCommand) : DraftCommand := { draft with line := move draft.line }

namespace Assembler

def DraftLine.renumber (draft : DraftLine) : DraftLine := (draft.1, draft.2.map (·.renumber move))

def DraftTable.renumber (draft : DraftTable) : DraftTable := (draft.1, draft.2.map (DraftLine.renumber move))

variable (assembler : Assembler) (target : Target) (pool : StringPool) (line : Nat) (token : String)

private theorem quotedText?_renumber (chars : List Char) :
    quotedText? (move line) chars = renumbered move id (quotedText? line chars) := by
  unfold quotedText?
  split
  case _ => rfl
  case _ => split <;> rfl

private theorem newText_renumber (declared : List Char) :
    newText (move line) token declared = Assembly.renumbered move id (newText line token declared) := by
  refine Assembly.bind_renumbered (Assembly.check_renumbered (quotedText?_renumber move line _)) fun text => ?_
  cases text with
  | none => rfl
  | some text =>
    refine Assembly.bind_renumbered (Assembly.get_renumbered move) fun pool => ?_
    dsimp only [id]
    cases pool.add (String.ofList text) <;> rfl

private theorem knownText_renumber : assembler.knownText target pool (move line) token =
    renumbered move id (assembler.knownText target pool line token) := by
  refine bind_renumbered (quotedText?_renumber move line _) fun text => ?_
  cases text with
  | some text =>
    dsimp only [id]
    cases assembler.symbols.findText? (String.ofList text) target.allows <;> rfl
  | none =>
    dsimp only [id]
    cases Text.decimal? 0x100000000 token.toList with
    | none => rfl
    | some number => exact ite_renumbered rfl (ite_renumbered rfl rfl)

private theorem text_renumber : assembler.text target (move line) token =
    Assembly.renumbered move id (assembler.text target line token) := by
  unfold Assembler.text
  split
  case _ => rfl
  case _ => rfl
  case _ => exact newText_renumber move line token _
  case _ =>
    exact Assembly.bind_renumbered (Assembly.get_renumbered move) fun pool =>
      Assembly.check_renumbered (assembler.knownText_renumber move target pool line token)

private theorem numberedItem_renumber (inner : List Char) : assembler.numberedItem (move line) token inner =
    renumbered move id (assembler.numberedItem line token inner) := by
  refine bind_renumbered (quotedText?_renumber move line _) fun name => ?_
  cases name with
  | some name =>
    dsimp only [id]
    rcases assembler.symbols.findItems (String.ofList name) with _ | ⟨_, _ | ⟨_, _⟩⟩ <;> rfl
  | none =>
    dsimp only [id]
    cases Text.decimal? 0x100000000 inner with
    | none => rfl
    | some item => exact ite_renumbered rfl (ite_renumbered rfl rfl)

private theorem item_renumber : assembler.item (move line) token =
    renumbered move id (assembler.item line token) := by
  refine ite_renumbered ?_ ?_
  · cases ItemRef.specialCode? token <;> rfl
  · cases between? '<' '>' token.toList with
    | none => rfl
    | some inner => exact assembler.numberedItem_renumber move line token inner

private theorem byte_renumber : byte (move line) token = renumbered move id (byte line token) := by
  unfold byte
  cases between? '[' ']' token.toList with
  | some number =>
    dsimp only
    cases Text.decimal? 0x100 number <;> rfl
  | none =>
    dsimp only
    cases Text.decimal? 0x100 token.toList with
    | none => rfl
    | some value => exact ite_renumbered rfl rfl

private theorem listValue_renumber (field : List Char) :
    listValue (move line) token field = renumbered move id (listValue line token field) := by
  unfold listValue
  cases Text.decimal? 0x10000 (Text.trim field) with
  | none => rfl
  | some value => exact ite_renumbered rfl rfl

private theorem list_renumber : list (move line) token = renumbered move id (list line token) := by
  unfold list
  cases between? '\x7b' '\x7d' token.toList with
  | none => rfl
  | some inner =>
    exact map_renumbered (mapM_renumbered (listValue_renumber move line token)) fun _ => rfl

/-- An operand means the same on another line. -/
theorem operand_renumber (kind : OperandKind) : assembler.operand target (move line) kind token =
    Assembly.renumbered move id (assembler.operand target line kind token) := by
  unfold Assembler.operand
  split
  case _ => exact Assembly.bind_renumbered (Assembly.check_renumbered (byte_renumber move line token)) fun _ => rfl
  case _ =>
    exact Assembly.bind_renumbered (Assembly.check_renumbered (assembler.item_renumber move line token))
      fun _ => rfl
  case _ => exact Assembly.bind_renumbered (assembler.text_renumber move target line token) fun _ => rfl
  case _ => exact Assembly.bind_renumbered (Assembly.check_renumbered (list_renumber move line token)) fun _ => rfl
  case _ => cases Text.decimal? 0x10000 token.toList <;> rfl
  case _ => cases Text.decimal? 0x10000 token.toList <;> rfl

private theorem command_renumber (offset : Nat) (source : SourceCommand) :
    assembler.command target offset (source.renumber move) =
      Assembly.renumbered move (·.renumber move) (assembler.command target offset source) := by
  unfold Assembler.command
  dsimp only [SourceCommand.renumber]
  cases assembler.set.lookup? source.mnemonic with
  | none => rfl
  | some op =>
    have hoperands (operand : OperandKind × String) :=
      assembler.operand_renumber move target source.line operand.2 operand.1
    cases source.marker with
    | none =>
      exact Assembly.ite_renumbered rfl
        (Assembly.bind_renumbered (Assembly.mapM_renumbered hoperands) fun _ => rfl)
    | some marker =>
      refine Assembly.ite_renumbered rfl (Assembly.ite_renumbered rfl ?_)
      exact Assembly.bind_renumbered (Assembly.mapM_renumbered hoperands) fun _ => rfl

private theorem placeLabel_renumber (layout : Layout) (source : SourceCommand) :
    placeLabel layout (source.renumber move) = renumbered move id (placeLabel layout source) := by
  obtain ⟨_, _ | label, _, _, _⟩ := source
  · rfl
  · exact ite_renumbered rfl rfl

/-- Commands are laid out in the same places, behind earlier ones that have moved as well. -/
theorem layCommands_renumber (layout : Layout) (gathered : List DraftCommand) (sources : List SourceCommand) :
    assembler.layCommands target layout (gathered.map (·.renumber move)) (sources.map (·.renumber move)) =
      Assembly.renumbered move (fun (drafts, layout) => (drafts.map (·.renumber move), layout))
        (assembler.layCommands target layout gathered sources) := by
  induction sources generalizing layout gathered with
  | nil =>
    rw [List.map_nil, layCommands, ← List.map_reverse, layCommands]
    rfl
  | cons source sources ih =>
    rw [List.map_cons, layCommands, layCommands]
    refine Assembly.bind_renumbered (Assembly.check_renumbered (placeLabel_renumber move layout source))
      fun layout => ?_
    refine Assembly.bind_renumbered (assembler.command_renumber move target layout.position source)
      fun draft => ?_
    exact ih { layout with position := layout.position + draft.size } (draft :: gathered)

private theorem layLines_renumber (table : UInt16) (layout : Layout) (gathered : List DraftLine)
    (sources : List SourceLine) :
    assembler.layLines target table layout (gathered.map (DraftLine.renumber move))
        (sources.map (·.renumber move)) =
      Assembly.renumbered move (fun (drafts, layout) => (drafts.map (DraftLine.renumber move), layout))
        (assembler.layLines target table layout gathered sources) := by
  induction sources generalizing layout gathered with
  | nil =>
    rw [List.map_nil, layLines, ← List.map_reverse, layLines]
    rfl
  | cons source sources ih =>
    rw [List.map_cons, layLines, layLines]
    let start := { layout with position := layout.position + 2 + LineHeader.size table }
    refine Assembly.bind_renumbered (assembler.layCommands_renumber move target start [] source.commands) ?_
    rintro ⟨drafts, layout⟩
    exact ih { layout with position := layout.position + 1 } ((source.header, drafts) :: gathered)

private theorem layTables_renumber (layout : Layout) (gathered : List DraftTable)
    (sources : List SourceTable) :
    assembler.layTables target layout (gathered.map (DraftTable.renumber move)) (sources.map (·.renumber move)) =
      Assembly.renumbered move (fun (drafts, layout) => (drafts.map (DraftTable.renumber move), layout))
        (assembler.layTables target layout gathered sources) := by
  induction sources generalizing layout gathered with
  | nil =>
    rw [List.map_nil, layTables, ← List.map_reverse, layTables]
    rfl
  | cons source sources ih =>
    rw [List.map_cons, layTables, layTables]
    let start := { layout with position := layout.position + 4 }
    refine Assembly.bind_renumbered
      (assembler.layLines_renumber move target source.number start [] source.lines) ?_
    rintro ⟨drafts, layout⟩
    exact ih { layout with position := layout.position + 2 } ((source.number, drafts) :: gathered)

variable (labels : LabelPositions)

private theorem linkOperand_renumber (draft : DraftOperand) :
    linkOperand labels (move line) draft = renumbered move id (linkOperand labels line draft) := by
  cases draft with
  | known operand => rfl
  | label name =>
    rw [linkOperand, linkOperand]
    cases labels[name]? with
    | none => rfl
    | some position => exact ite_renumbered rfl rfl

private theorem linkCommand_renumber (draft : DraftCommand) :
    linkCommand labels (draft.renumber move) = renumbered move id (linkCommand labels draft) :=
  map_renumbered (mapM_renumbered (linkOperand_renumber move draft.line labels)) fun _ => rfl

private theorem linkLine_renumber (draft : DraftLine) :
    linkLine labels (DraftLine.renumber move draft) = renumbered move id (linkLine labels draft) := by
  refine map_renumbered (g := id) ?_ fun _ => rfl
  rw [DraftLine.renumber, List.mapM_map]
  exact mapM_renumbered (linkCommand_renumber move labels)

private theorem linkTable_renumber (draft : DraftTable) :
    linkTable labels (DraftTable.renumber move draft) = renumbered move id (linkTable labels draft) := by
  refine map_renumbered (g := id) ?_ fun _ => rfl
  rw [DraftTable.renumber, List.mapM_map]
  exact mapM_renumbered (linkLine_renumber move labels)

private theorem tables_renumber (sources : List SourceTable) :
    assembler.tables target (sources.map (·.renumber move)) =
      Assembly.renumbered move id (assembler.tables target sources) := by
  refine Assembly.bind_renumbered (assembler.layTables_renumber move target ⟨0, ∅⟩ [] sources) ?_
  rintro ⟨drafts, layout⟩
  dsimp only
  rw [List.mapM_map]
  exact Assembly.check_renumbered (mapM_renumbered (linkTable_renumber move layout.labels))

/-- The line of a number that is rejected is that of a table or of the file, which both move. -/
theorem checkRanges_renumber (line : Nat) (ranges : List TableRange) (sources : List SourceTable) :
    checkRanges (move line) ranges (sources.map (·.renumber move)) =
      renumbered move id (checkRanges line ranges sources) := by
  have hnumbers : (sources.map (·.renumber move)).map (·.number) = sources.map (·.number) :=
    List.map_map
  unfold checkRanges
  rw [hnumbers]
  cases TableRange.rejected? ranges (sources.map (·.number)) with
  | none => rfl
  | some number =>
    have hmoved : (sources.map (·.renumber move)).find? (·.number = number) =
        (sources.find? (·.number = number)).map (·.renumber move) := List.find?_map
    dsimp only
    rw [hmoved]
    cases sources.find? (·.number = number) <;> rfl

private theorem assemble_renumber (file : SourceFile) (texts : Option (Nat × Nat)) :
    assembler.assemble (file.renumber move) texts =
      Assembly.renumbered move id (assembler.assemble file texts) := by
  obtain ⟨line, name, _ | ⟨ranges, sources⟩⟩ := file
  · rfl
  · refine Assembly.bind_renumbered (Assembly.check_renumbered
      (checkRanges_renumber move line ranges sources)) fun _ => ?_
    refine Assembly.bind_renumbered (assembler.tables_renumber move ⟨name, texts⟩ sources) fun tables => ?_
    dsimp only [id]
    cases Script.tablesBytes tables <;> rfl

/-- A file on other lines is assembled to the same record, or fails for the same reason on another line, and
    leaves the same texts in the pool. -/
theorem assembleWith_renumber (file : SourceFile) (texts : Option (Nat × Nat)) :
    assembler.assembleWith (file.renumber move) texts pool =
      ((assembler.assembleWith file texts pool).1.mapError (·.renumber move),
        (assembler.assembleWith file texts pool).2) := by
  unfold Assembler.assembleWith EStateM.run
  rw [assembler.assemble_renumber, Assembly.renumbered]
  cases assembler.assemble file texts pool <;> rfl

end Assembler

end assembling

end Adventure.Listing
