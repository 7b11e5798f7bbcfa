import Adventure.Proofs.Instruction.Set
import Adventure.Proofs.Listing.Meaning
import Adventure.Proofs.Listing.Outline

namespace Adventure.Listing

open Bytes Script Assembler

section laid

variable {σ δ ι : Type} {one : Nat → StringPool → σ → δ → Nat → StringPool → Prop}
  {position after : Nat} {pool pool' : StringPool} {sources : List σ} {drafts : List δ}
  {items : List ι} {link : δ → Except Error ι}

theorem Laid.extends (h : Laid one position pool sources drafts after pool')
    (hone : ∀ position pool source draft after pool',
      one position pool source draft after pool' → pool.Extends pool') : pool.Extends pool' := by
  induction h with
  | nil => exact .refl _
  | cons head _ ih => exact (hone _ _ _ _ _ _ head).trans ih

/-- Items are what their sources say, if each of them is, however the pool goes on. -/
theorem Laid.forall₂ {R : StringPool → σ → ι → Prop}
    (h : Laid one position pool sources drafts after pool')
    (hlink : drafts.mapM link = .ok items)
    (hextends : ∀ position pool source draft after pool',
      one position pool source draft after pool' → pool.Extends pool')
    (hone : ∀ position pool source draft after pool' item final,
      one position pool source draft after pool' → link draft = .ok item → pool'.Extends final →
      R final source item) {final : StringPool} (hfinal : pool'.Extends final) :
    List.Forall₂ (R final) sources items := by
  rw [Except.mapM_eq_ok_iff] at hlink
  induction h generalizing items with
  | nil =>
    cases hlink
    exact .nil
  | cons head tail ih =>
    cases hlink with
    | cons hitem hitems =>
      refine .cons (hone _ _ _ _ _ _ _ _ head hitem ((tail.extends hextends).trans hfinal)) ?_
      exact ih hitems hfinal

/-- Items are spelled one after the other where they were laid out, if each of them is. -/
theorem Laid.listed {write : ι → Except Script.Error (List UInt8)}
    {spelled : Nat → ι → List UInt8 → Prop} {parts : List (List UInt8)}
    (h : Laid one position pool sources drafts after pool') (hlink : drafts.mapM link = .ok items)
    (hwrite : items.mapM write = .ok parts)
    (hone : ∀ position pool source draft after pool' item bytes, source ∈ sources →
      one position pool source draft after pool' → link draft = .ok item → write item = .ok bytes →
      spelled position item bytes ∧ after = position + bytes.length) :
    Cursor.Listed spelled position items parts.flatten ∧ after = position + parts.flatten.length := by
  rw [Except.mapM_eq_ok_iff] at hlink hwrite
  induction h generalizing items parts with
  | nil =>
    cases hlink
    cases hwrite
    exact ⟨.nil _, rfl⟩
  | cons head tail ih =>
    cases hlink with
    | cons hitem hitems =>
      cases hwrite with
      | cons hbytes hrest =>
        obtain ⟨hspelled, rfl⟩ := hone _ _ _ _ _ _ _ _ List.mem_cons_self head hitem hbytes
        obtain ⟨hlisted, rfl⟩ := ih hitems hrest fun _ _ _ _ _ _ _ _ hsource =>
          hone _ _ _ _ _ _ _ _ (List.mem_cons_of_mem _ hsource)
        rw [List.flatten_cons, List.length_append]
        exact ⟨.cons hspelled hlisted, by omega⟩

end laid

/-- Tokens and operands that a relation holds of, kind by kind. -/
inductive Matched (R : OperandKind → String → Operand → Prop) :
    List OperandKind → List String → List Operand → Prop
  | nil : Matched R [] [] []
  | cons {kind : OperandKind} {shape : List OperandKind} {token : String} {tokens : List String}
      {operand : Operand} {operands : List Operand} (head : R kind token operand)
      (tail : Matched R shape tokens operands) :
      Matched R (kind :: shape) (token :: tokens) (operand :: operands)

namespace Matched

variable {R S : OperandKind → String → Operand → Prop} {shape : List OperandKind}
  {tokens : List String} {operands : List Operand}

theorem imp (h : Matched R shape tokens operands)
    (himp : ∀ kind token operand, R kind token operand → S kind token operand) :
    Matched S shape tokens operands := by
  induction h with
  | nil => exact .nil
  | cons head _ ih => exact .cons (himp _ _ _ head) ih

private theorem exists_of_mem (h : Matched R shape tokens operands) {operand : Operand}
    (hoperand : operand ∈ operands) : ∃ kind token, R kind token operand := by
  induction h with
  | nil => cases hoperand
  | cons head _ ih =>
    rcases List.mem_cons.mp hoperand with rfl | hoperand
    · exact ⟨_, _, head⟩
    · exact ih hoperand

end Matched

/-- What a token means when the labels are placed: the operand that it denotes, which refers to what
    exists, or, for a jump that is no number, the position of the label. -/
inductive OperandMeans (assembler : Assembler) (target : Target) (labels : LabelPositions)
    (pool : StringPool) : OperandKind → String → Operand → Prop
  | denoted {kind : OperandKind} {token : String} {operand : Operand}
      (h : assembler.Denotes target pool kind token operand) (hrefers : assembler.Refers pool operand) :
      OperandMeans assembler target labels pool kind token operand
  | label {token : String} {position : Nat} (h : Text.decimal? 0x10000 token.toList = none)
      (hlabel : labels[token]? = some position) (hposition : position < 0x10000) :
      OperandMeans assembler target labels pool .jump token (.jump (.ofNat position))

theorem OperandMeans.refers {assembler : Assembler} {target : Target} {labels : LabelPositions}
    {pool : StringPool} {kind : OperandKind} {token : String} {operand : Operand}
    (h : OperandMeans assembler target labels pool kind token operand) :
    assembler.Refers pool operand := by
  cases h with
  | denoted _ hrefers => exact hrefers
  | label => trivial

def SourceTable.commands (table : SourceTable) : List SourceCommand :=
  table.lines.flatMap SourceLine.commands

/-- A command has the opcode that its mnemonic names, and operands that a relation holds of. -/
structure CommandMatches (set : InstructionSet) (R : OperandKind → String → Operand → Prop)
    (source : SourceCommand) (command : Command) : Prop where
  matched : ∃ op, set.lookup? source.mnemonic = some op ∧ command.opcode = op.code ∧
    Matched R op.shape source.operands command.operands

structure LineMatches (set : InstructionSet) (R : OperandKind → String → Operand → Prop)
    (source : SourceLine) (line : Line) : Prop where
  header : line.header = source.header
  commands : List.Forall₂ (CommandMatches set R) source.commands line.commands

structure TableMatches (set : InstructionSet) (R : OperandKind → String → Operand → Prop)
    (source : SourceTable) (table : Table) : Prop where
  number : table.number = source.number
  lines : List.Forall₂ (LineMatches set R) source.lines table.lines

theorem TableMatches.imp {set : InstructionSet} {R S : OperandKind → String → Operand → Prop}
    {source : SourceTable} {table : Table} (h : TableMatches set R source table)
    (himp : ∀ kind token operand, R kind token operand → S kind token operand) :
    TableMatches set S source table := by
  refine ⟨h.number, h.lines.imp fun line item hline => ⟨hline.header, ?_⟩⟩
  refine hline.commands.imp fun command item hcommand => ?_
  obtain ⟨op, hop, hcode, hmatched⟩ := hcommand.matched
  exact ⟨op, hop, hcode, hmatched.imp himp⟩

/-- All commands of a file match those of a record, in order. -/
theorem forall₂_commands {set : InstructionSet} {R : OperandKind → String → Operand → Prop}
    {sources : List SourceTable} {tables : List Table}
    (h : List.Forall₂ (TableMatches set R) sources tables) :
    List.Forall₂ (CommandMatches set R) (sources.flatMap SourceTable.commands)
      (tables.flatMap Table.commands) := by
  refine List.rel_flatMap h fun table item htable => ?_
  exact List.rel_flatMap htable.lines fun line item hline => hline.commands

/-- What a relation says of operands holds of all operands of a record. -/
theorem exists_of_mem_operands {set : InstructionSet} {R : OperandKind → String → Operand → Prop}
    {sources : List SourceTable} {tables : List Table}
    (h : List.Forall₂ (TableMatches set R) sources tables) {command : Command}
    (hcommand : command ∈ tables.flatMap Table.commands) {operand : Operand}
    (hoperand : operand ∈ command.operands) : ∃ kind token, R kind token operand := by
  obtain ⟨source, -, hmatches⟩ := forall₂_exists_left (forall₂_commands h) hcommand
  obtain ⟨op, -, -, hmatched⟩ := hmatches.matched
  exact hmatched.exists_of_mem hoperand

/-- A draft of a line that stands for a line, its commands for those of the line. -/
structure LineDrafts (D : DraftCommand → Command → Prop) (draft : DraftLine) (line : Line) : Prop where
  header : draft.1 = line.header
  commands : List.Forall₂ D draft.2 line.commands

structure TableDrafts (D : DraftCommand → Command → Prop) (draft : DraftTable) (table : Table) :
    Prop where
  number : draft.1 = table.number
  lines : List.Forall₂ (LineDrafts D) draft.2 table.lines

section labels

/-- The labels of commands of a record, at their positions. -/
def placedLabels (source : SourceCommand) (command : Command) : List (String × Nat) :=
  (source.label.map (·, command.offset)).toList

variable {σ δ ι : Type}

private theorem zipLabels_congr {D : δ → ι → Prop} {labels : σ → δ → List (String × Nat)}
    {labels' : σ → ι → List (String × Nat)} {sources : List σ} {drafts : List δ} {items : List ι}
    (h : List.Forall₂ D drafts items)
    (hone : ∀ source draft item, D draft item → labels source draft = labels' source item) :
    zipLabels labels sources drafts = zipLabels labels' sources items := by
  unfold zipLabels
  induction h generalizing sources with
  | nil => simp
  | cons head _ ih =>
    cases sources with
    | nil => rfl
    | cons source sources =>
      rw [List.zipWith_cons_cons, List.zipWith_cons_cons, List.flatten_cons, List.flatten_cons,
        hone _ _ _ head, ih]

/-- Labels of lists of lists, level by level or all at once. -/
theorem zipLabels_flatMap {α β : Type} {labels : σ → ι → List (String × Nat)} {f : α → List σ}
    {g : β → List ι} {as : List α} {bs : List β}
    (h : List.Forall₂ (fun a b => (f a).length = (g b).length) as bs) :
    zipLabels (fun a b => zipLabels labels (f a) (g b)) as bs =
      zipLabels labels (as.flatMap f) (bs.flatMap g) := by
  unfold zipLabels
  induction h with
  | nil => rfl
  | cons head _ ih =>
    rw [List.zipWith_cons_cons, List.flatten_cons, ih, List.flatMap_cons, List.flatMap_cons,
      List.zipWith_append head, List.flatten_append]

/-- The labels of drafts are those of the commands that they stand for, where these lie. -/
theorem zipLabels_tableLabels {D : DraftCommand → Command → Prop}
    {R : SourceCommand → Command → Prop} {sources : List SourceTable} {drafts : List DraftTable}
    {tables : List Table} (hoffset : ∀ draft command, D draft command → draft.offset = command.offset)
    (hdrafts : List.Forall₂ (TableDrafts D) drafts tables)
    (hsources : List.Forall₂ (fun source table => List.Forall₂
      (fun line item => List.Forall₂ R line.commands item.commands) source.lines table.lines)
      sources tables) :
    zipLabels tableLabels sources drafts = zipLabels placedLabels
      (sources.flatMap SourceTable.commands) (tables.flatMap Table.commands) := by
  have hcommand : ∀ source draft command, D draft command →
      commandLabels source draft = placedLabels source command := by
    intro source draft command h
    rw [commandLabels, hoffset draft command h, placedLabels]
  have hline : ∀ source draft line, LineDrafts D draft line →
      lineLabels source draft = zipLabels placedLabels source.commands line.commands :=
    fun source draft line h => zipLabels_congr h.commands hcommand
  have htable : ∀ source draft table, TableDrafts D draft table → tableLabels source draft =
      zipLabels (fun line item => zipLabels placedLabels line.commands item.commands) source.lines
        table.lines := fun source draft table h => zipLabels_congr h.lines hline
  rw [zipLabels_congr hdrafts htable]
  have hlines : List.Forall₂ (fun source table => zipLabels
      (fun line item => zipLabels placedLabels line.commands item.commands) source.lines
        table.lines = zipLabels placedLabels source.commands table.commands) sources tables :=
    hsources.imp fun source table h => zipLabels_flatMap (h.imp fun line item hitem => hitem.length_eq)
  have hflat : zipLabels (fun source table => zipLabels
      (fun line item => zipLabels placedLabels line.commands item.commands) source.lines
        table.lines) sources tables =
      zipLabels (fun source table => zipLabels placedLabels source.commands table.commands)
        sources tables := by
    unfold zipLabels at hlines ⊢
    clear hsources hdrafts
    induction hlines with
    | nil => rfl
    | cons head _ ih =>
      rw [List.zipWith_cons_cons, List.zipWith_cons_cons, List.flatten_cons, List.flatten_cons, head, ih]
  rw [hflat]
  exact zipLabels_flatMap (hsources.imp fun source table h =>
    (List.rel_flatMap h fun line item hitem => hitem).length_eq)

end labels

section linked

variable {assembler : Assembler} {target : Target} {labels : LabelPositions} {line : Nat}
  {pool after : StringPool}

theorem OperandsDrafted.extends {shape : List OperandKind} {tokens : List String}
    {drafts : List DraftOperand}
    (h : assembler.OperandsDrafted target line pool shape tokens drafts after) :
    pool.Extends after := by
  induction h with
  | nil => exact .refl _
  | cons head _ ih => exact (operand_eq_ok head).1.trans ih

/-- A label is linked to the place of its command, which has to be in reach of a jump. -/
theorem linkOperand_label_eq_ok_iff {name : String} {operand : Operand} :
    linkOperand labels line (.label name) = .ok operand ↔
      ∃ position, labels[name]? = some position ∧ position < 0x10000 ∧
        operand = .jump (UInt16.ofNat position) := by
  rw [linkOperand]
  cases labels[name]? with
  | none => simp
  | some position =>
    dsimp only
    split
    case isTrue hreach => simp [hreach, eq_comm]
    case isFalse hfar => simp [malformed, hfar]

private theorem linkOperand_size {draft : DraftOperand} {operand : Operand}
    (h : linkOperand labels line draft = .ok operand) : operand.size = draft.size := by
  cases draft with
  | known known =>
    cases h
    rfl
  | label name =>
    obtain ⟨position, -, -, rfl⟩ := linkOperand_label_eq_ok_iff.mp h
    rfl

/-- Operands that are drafted and linked mean what their tokens say. -/
theorem OperandsDrafted.matched {shape : List OperandKind} {tokens : List String}
    {drafts : List DraftOperand} {operands : List Operand}
    (h : assembler.OperandsDrafted target line pool shape tokens drafts after)
    (hlink : drafts.mapM (linkOperand labels line) = .ok operands) {final : StringPool}
    (hfinal : after.Extends final) :
    Matched (OperandMeans assembler target labels final) shape tokens operands := by
  rw [Except.mapM_eq_ok_iff] at hlink
  induction h generalizing operands with
  | nil =>
    cases hlink
    exact .nil
  | cons head tail ih =>
    cases hlink with
    | cons hoperand hoperands =>
      refine .cons ?_ (ih hoperands hfinal)
      obtain ⟨-, ⟨rfl, hnumber, rfl⟩ | ⟨operand, rfl, hdenotes⟩⟩ := operand_eq_ok head
      · obtain ⟨position, hlabel, hposition, rfl⟩ := linkOperand_label_eq_ok_iff.mp hoperand
        exact .label hnumber hlabel hposition
      · cases hoperand
        obtain ⟨hdenoted, hrefers⟩ := hdenotes final ((OperandsDrafted.extends tail).trans hfinal)
        exact .denoted hdenoted hrefers

private theorem mapM_linkOperand_size {drafts : List DraftOperand} {operands : List Operand}
    (h : drafts.mapM (linkOperand labels line) = .ok operands) :
    operands.foldr (fun operand size => operand.size + size) 1 =
      drafts.foldr (fun operand size => operand.size + size) 1 := by
  rw [Except.mapM_eq_ok_iff] at h
  induction h with
  | nil => rfl
  | cons head _ ih => rw [List.foldr_cons, List.foldr_cons, linkOperand_size head, ih]

theorem OperandMeans.spelled {kind : OperandKind} {token : String} {operand : Operand}
    {bytes : List UInt8} (h : OperandMeans assembler target labels pool kind token operand)
    (hbytes : operand.toBytes = .ok bytes) : operand.Spelled kind bytes := by
  cases h with
  | denoted h => exact h.spelled hbytes
  | label =>
    cases hbytes
    exact .jump _

theorem Matched.allSpelled {shape : List OperandKind} {tokens : List String} {operands : List Operand}
    {parts : List (List UInt8)}
    (h : Matched (OperandMeans assembler target labels pool) shape tokens operands)
    (hparts : operands.mapM Operand.toBytes = .ok parts) :
    Operand.AllSpelled shape operands parts.flatten := by
  rw [Except.mapM_eq_ok_iff] at hparts
  induction h generalizing parts with
  | nil =>
    cases hparts
    exact .nil
  | cons head _ ih =>
    cases hparts with
    | cons hbytes hrest =>
      rw [List.flatten_cons]
      exact .cons (head.spelled hbytes) (ih hrest)

theorem linkCommand_eq_ok_iff {draft : DraftCommand} {command : Command} :
    linkCommand labels draft = .ok command ↔ ∃ operands,
      draft.operands.mapM (linkOperand labels draft.line) = .ok operands ∧
      ⟨draft.offset, draft.opcode, operands⟩ = command :=
  Except.map_eq_ok_iff

theorem linkLine_eq_ok_iff {draft : DraftLine} {line : Line} : linkLine labels draft = .ok line ↔
    ∃ commands, draft.2.mapM (linkCommand labels) = .ok commands ∧ ⟨draft.1, commands⟩ = line :=
  Except.map_eq_ok_iff

theorem linkTable_eq_ok_iff {draft : DraftTable} {table : Table} :
    linkTable labels draft = .ok table ↔
      ∃ lines, draft.2.mapM (linkLine labels) = .ok lines ∧ ⟨draft.1, lines⟩ = table :=
  Except.map_eq_ok_iff

variable {position stop : Nat} {final : StringPool}

section commands

variable {source : SourceCommand} {draft : DraftCommand} {command : Command}

theorem CommandLaid.extends (h : assembler.CommandLaid target position pool source draft stop after) :
    pool.Extends after := by
  obtain ⟨op, -, -, hoperands⟩ := h.1.operands
  exact OperandsDrafted.extends hoperands

theorem CommandLaid.means (h : assembler.CommandLaid target position pool source draft stop after)
    (hlink : linkCommand labels draft = .ok command) (hfinal : after.Extends final) :
    CommandMatches assembler.set (OperandMeans assembler target labels final) source command := by
  obtain ⟨op, hop, hcode, hoperands⟩ := h.1.operands
  obtain ⟨operands, hlinked, rfl⟩ := linkCommand_eq_ok_iff.mp hlink
  rw [h.1.line] at hlinked
  exact ⟨op, hop, hcode, OperandsDrafted.matched hoperands hlinked hfinal⟩

theorem CommandLaid.spelled {bytes : List UInt8} (hset : assembler.set.Sound)
    (h : assembler.CommandLaid target position pool source draft stop after)
    (hlink : linkCommand labels draft = .ok command) (hbytes : command.toBytes = .ok bytes) :
    command.Spelled assembler.set position bytes ∧ stop = position + bytes.length := by
  obtain ⟨op, hop, hcode, hmatched⟩ := (CommandLaid.means h hlink (.refl _)).matched
  obtain ⟨operands, hlinked, rfl⟩ := linkCommand_eq_ok_iff.mp hlink
  obtain ⟨parts, hparts, rfl⟩ := Except.map_eq_ok_iff.mp hbytes
  obtain ⟨hget, hend⟩ := hset _ _ hop
  have hspelled : Command.Spelled assembler.set position ⟨draft.offset, draft.opcode, operands⟩
      (draft.opcode :: parts.flatten) := by
    refine ⟨h.1.offset, ?_, op, parts.flatten, ?_, hmatched.allSpelled hparts, rfl⟩
    · exact hcode ▸ hend
    · rw [← hcode] at hget
      exact hget
  refine ⟨hspelled, ?_⟩
  rw [hspelled.length_eq, h.2, DraftCommand.size, Command.size, mapM_linkOperand_size hlinked]

end commands

section lines

variable {table : UInt16} {source : SourceLine} {draft : DraftLine} {item : Line}

theorem LineLaid.extends (h : assembler.LineLaid target table position pool source draft stop after) :
    pool.Extends after := by
  obtain ⟨-, last, -, hlaid⟩ := h
  exact hlaid.extends fun _ _ _ _ _ _ => CommandLaid.extends

theorem LineLaid.means (h : assembler.LineLaid target table position pool source draft stop after)
    (hlink : linkLine labels draft = .ok item) (hfinal : after.Extends final) :
    LineMatches assembler.set (OperandMeans assembler target labels final) source item := by
  obtain ⟨hheader, last, -, hlaid⟩ := h
  obtain ⟨commands, hlinked, rfl⟩ := linkLine_eq_ok_iff.mp hlink
  refine ⟨hheader, ?_⟩
  exact hlaid.forall₂ hlinked (fun _ _ _ _ _ _ => CommandLaid.extends)
    (fun _ _ _ _ _ _ _ _ => CommandLaid.means) hfinal

theorem LineLaid.spelled {bytes : List UInt8} (hset : assembler.set.Sound)
    (hplaced : HeaderPlaced table source)
    (h : assembler.LineLaid target table position pool source draft stop after)
    (hlink : linkLine labels draft = .ok item) (hbytes : item.toBytes = .ok bytes) :
    item.Spelled assembler.set table position bytes ∧ stop = position + bytes.length := by
  obtain ⟨hheader, last, rfl, hlaid⟩ := h
  obtain ⟨commands, hlinked, rfl⟩ := linkLine_eq_ok_iff.mp hlink
  obtain ⟨parts, hparts, rfl⟩ := Except.map_eq_ok_iff.mp hbytes
  obtain ⟨hlisted, rfl⟩ := hlaid.listed hlinked hparts
    fun _ _ _ _ _ _ _ _ _ => CommandLaid.spelled hset
  have hspelled : LineHeader.Spelled table draft.1 ((draft.1.map LineHeader.toBytes).getD []) := by
    unfold HeaderPlaced at hplaced
    rw [← hheader] at hplaced
    cases hvalue : draft.1 with
    | none => exact .absent fun htable => by simp [hvalue, htable] at hplaced
    | some header =>
      obtain rfl : table = 0 := hplaced.mp (by rw [hvalue]; rfl)
      exact .present header
  refine ⟨⟨_, parts.flatten, hspelled, hlisted, rfl⟩, ?_⟩
  have hlength := hspelled.length_eq
  simp only [List.length_append, length_word16, List.length_singleton, hlength]
  omega

end lines

section tables

variable {source : SourceTable} {draft : DraftTable} {item : Table}

theorem TableLaid.extends (h : assembler.TableLaid target position pool source draft stop after) :
    pool.Extends after := by
  obtain ⟨-, last, -, hlaid⟩ := h
  exact hlaid.extends fun _ _ _ _ _ _ => LineLaid.extends

theorem TableLaid.means (h : assembler.TableLaid target position pool source draft stop after)
    (hlink : linkTable labels draft = .ok item) (hfinal : after.Extends final) :
    TableMatches assembler.set (OperandMeans assembler target labels final) source item := by
  obtain ⟨hnumber, last, -, hlaid⟩ := h
  obtain ⟨lines, hlinked, rfl⟩ := linkTable_eq_ok_iff.mp hlink
  refine ⟨hnumber, ?_⟩
  exact hlaid.forall₂ hlinked (fun _ _ _ _ _ _ => LineLaid.extends)
    (fun _ _ _ _ _ _ _ _ => LineLaid.means) hfinal

theorem TableLaid.spelled {bytes : List UInt8} (hset : assembler.set.Sound)
    (hplaced : HeadersPlaced source)
    (h : assembler.TableLaid target position pool source draft stop after)
    (hlink : linkTable labels draft = .ok item) (hbytes : item.toBytes = .ok bytes) :
    item.Spelled assembler.set position bytes ∧ stop = position + bytes.length := by
  obtain ⟨hnumber, last, rfl, hlaid⟩ := h
  obtain ⟨lines, hlinked, rfl⟩ := linkTable_eq_ok_iff.mp hlink
  obtain ⟨parts, hparts, rfl⟩ := Except.map_eq_ok_iff.mp hbytes
  obtain ⟨hlisted, rfl⟩ := hlaid.listed hlinked hparts
    fun _ _ _ _ _ _ _ _ hsource => LineLaid.spelled hset (hplaced _ hsource)
  rw [← hnumber] at hlisted
  refine ⟨⟨parts.flatten, hlisted, rfl⟩, ?_⟩
  simp only [List.length_append, length_word16]
  omega

end tables

section files

variable {sources : List SourceTable} {drafts : List DraftTable} {tables : List Table}

private theorem linkTable_drafts {draft : DraftTable} {table : Table}
    (h : linkTable labels draft = .ok table) :
    TableDrafts (fun draft command => linkCommand labels draft = .ok command) draft table := by
  obtain ⟨lines, hlines, rfl⟩ := linkTable_eq_ok_iff.mp h
  refine ⟨rfl, (Except.mapM_eq_ok_iff.mp hlines).imp fun draft line hline => ?_⟩
  obtain ⟨commands, hcommands, rfl⟩ := linkLine_eq_ok_iff.mp hline
  exact ⟨rfl, Except.mapM_eq_ok_iff.mp hcommands⟩

/-- Assembling a file only adds to the texts that have been declared. -/
theorem Assembler.assembleWith_extends {file : SourceFile} {texts : Option (Nat × Nat)}
    {bytes : List UInt8} (h : assembler.assembleWith file texts pool = (.ok bytes, after)) :
    pool.Extends after := by
  obtain ⟨_, _, _, -, -, htables, -⟩ := assembleWith_eq_ok_iff.mp h
  obtain ⟨_, _, _, hlaid, -⟩ := tables_eq_ok_iff.mp htables
  exact hlaid.extends fun _ _ _ _ _ _ => TableLaid.extends

/-- The commands of tables that are linked mean what the file says. -/
theorem tablesLaid_means
    (hlaid : Laid (assembler.TableLaid target) 0 pool sources drafts stop after)
    (hlink : drafts.mapM (linkTable labels) = .ok tables) :
    List.Forall₂ (TableMatches assembler.set (OperandMeans assembler target labels after)) sources tables :=
  hlaid.forall₂ hlink (fun _ _ _ _ _ _ => TableLaid.extends) (fun _ _ _ _ _ _ _ _ => TableLaid.means)
    (.refl _)

theorem tables_means (h : assembler.tables target sources pool = .ok tables after) : ∃ labels,
    List.Forall₂ (TableMatches assembler.set (OperandMeans assembler target labels after)) sources tables := by
  obtain ⟨_, _, labels, hlaid, -, hlink⟩ := tables_eq_ok_iff.mp h
  exact ⟨labels, tablesLaid_means hlaid hlink⟩

/-- What tables are assembled to: bytes that are read with the set they are written with, commands that
    mean what the file says, and the labels where the commands lie. -/
theorem tables_spelled {bytes : List UInt8} (hset : assembler.set.Sound)
    (hplaced : ∀ source ∈ sources, HeadersPlaced source)
    (h : assembler.tables target sources pool = .ok tables after)
    (hbytes : Script.tablesBytes tables = .ok bytes) :
    ∃ labels, Script.Spelled assembler.set tables bytes ∧
      List.Forall₂ (TableMatches assembler.set (OperandMeans assembler target labels after))
        sources tables ∧
      Placed ∅ (zipLabels placedLabels (sources.flatMap SourceTable.commands)
        (tables.flatMap Table.commands)) labels := by
  obtain ⟨drafts, stop, labels, hlaid, hlabels, hlink⟩ := tables_eq_ok_iff.mp h
  have hmatches := tablesLaid_means hlaid hlink
  refine ⟨labels, ?_, hmatches, ?_⟩
  · unfold Script.tablesBytes at hbytes
    split at hbytes
    case _ hempty =>
      cases hbytes
      rw [List.isEmpty_iff.mp hempty]
      exact .empty
    case _ =>
      obtain ⟨parts, hparts, rfl⟩ := Except.map_eq_ok_iff.mp hbytes
      obtain ⟨hlisted, -⟩ := hlaid.listed hlink hparts fun _ _ _ _ _ _ _ _ hsource =>
        TableLaid.spelled hset (hplaced _ hsource)
      exact .tables hlisted
  · have hdrafts := (Except.mapM_eq_ok_iff.mp hlink).imp fun _ _ => linkTable_drafts
    rw [zipLabels_tableLabels ?_ hdrafts (hmatches.imp fun table item htable =>
      htable.lines.imp fun line item hline => hline.commands)] at hlabels
    · exact hlabels
    · intro draft command hcommand
      obtain ⟨operands, -, rfl⟩ := linkCommand_eq_ok_iff.mp hcommand
      rfl

/-- What assembling a file leads to: a record that is read with the set it was written with, whose
    commands mean what the file says, with the labels where the commands lie. -/
theorem assembleWith_spelled {file : SourceFile} {texts : Option (Nat × Nat)} {bytes : List UInt8}
    {ranges : List TableRange} (hset : assembler.set.Sound) (hplaced : file.HeadersPlaced)
    (hbody : file.body = .tables ranges sources)
    (h : assembler.assembleWith file texts pool = (.ok bytes, after)) :
    ∃ tables labels, Script.Spelled assembler.set tables bytes ∧
      List.Forall₂ (TableMatches assembler.set (OperandMeans assembler ⟨file.name, texts⟩ labels after))
        sources tables ∧
      Placed ∅ (zipLabels placedLabels (sources.flatMap SourceTable.commands)
        (tables.flatMap Table.commands)) labels := by
  obtain ⟨_, _, tables, hbody', -, htables, hbytes⟩ := assembleWith_eq_ok_iff.mp h
  rw [hbody] at hbody'
  cases hbody'
  obtain ⟨labels, hspelled, hmatches, hlabels⟩ := tables_spelled hset (hplaced _ _ hbody) htables hbytes
  exact ⟨tables, labels, hspelled, hmatches, hlabels⟩

end files

end linked

end Adventure.Listing
