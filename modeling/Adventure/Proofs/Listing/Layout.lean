import Adventure.Listing.Assemble
import Adventure.Proofs.Outcome

namespace Adventure.Listing

theorem check_eq_ok_iff {α : Type} {result : Except Error α} {pool after : StringPool} {value : α} :
    check result pool = .ok value after ↔ result = .ok value ∧ pool = after := by
  cases result <;> simp [check]

/-- What is made of a checked result, which leaves the pool as it is. -/
theorem return_check_eq_ok_iff {α β : Type} {result : Except Error α} {f : α → β} {b : β}
    {pool after : StringPool} : (do return f (← check result) : Assembly β) pool = .ok b after ↔
      ∃ value, result = .ok value ∧ f value = b ∧ pool = after := by
  simp only [EStateM.bind_eq_ok_iff, check_eq_ok_iff, EStateM.pure_eq_ok_iff]
  constructor
  · rintro ⟨value, _, ⟨hvalue, rfl⟩, hmade, rfl⟩
    exact ⟨value, hvalue, hmade, rfl⟩
  · rintro ⟨value, hvalue, hmade, rfl⟩
    exact ⟨value, pool, ⟨hvalue, rfl⟩, hmade, rfl⟩

/-- Labels that are placed one after the other, each for the first time. -/
inductive Placed : LabelPositions → List (String × Nat) → LabelPositions → Prop
  | nil (labels : LabelPositions) : Placed labels [] labels
  | cons {labels after : LabelPositions} {name : String} {position : Nat}
      {rest : List (String × Nat)} (fresh : labels.contains name = false)
      (tail : Placed (labels.insert name position) rest after) :
      Placed labels ((name, position) :: rest) after

namespace Placed

variable {before middle after : LabelPositions} {pairs rest : List (String × Nat)}

theorem append_iff :
    Placed before (pairs ++ rest) after ↔ ∃ middle, Placed before pairs middle ∧ Placed middle rest after := by
  induction pairs generalizing before with
  | nil =>
    constructor
    · intro h
      exact ⟨before, .nil _, h⟩
    · rintro ⟨middle, h, hrest⟩
      cases h
      exact hrest
  | cons pair pairs ih =>
    constructor
    · intro h
      cases h with
      | cons fresh tail =>
        obtain ⟨middle, hpairs, hrest⟩ := ih.mp tail
        exact ⟨middle, .cons fresh hpairs, hrest⟩
    · rintro ⟨middle, h, hrest⟩
      cases h with
      | cons fresh tail => exact .cons fresh (ih.mpr ⟨middle, tail, hrest⟩)

/-- Placed labels are found at their positions, beside those from before. -/
theorem getElem?_iff (h : Placed before pairs after) {name : String} {position : Nat} :
    after[name]? = some position ↔ (name, position) ∈ pairs ∨ before[name]? = some position := by
  induction h with
  | nil => simp
  | @cons labels after first place rest fresh tail ih =>
    rw [ih, List.mem_cons, Prod.mk.injEq, Std.TreeMap.getElem?_insert]
    have hfirst : labels[first]? = none := by
      refine Std.TreeMap.getElem?_eq_none ?_
      rw [← Std.TreeMap.contains_iff_mem, fresh]
      exact Bool.false_ne_true
    by_cases heq : first = name
    · subst heq
      simp only [Std.LawfulEqCmp.compare_eq_iff_eq, if_true, Option.some.injEq, hfirst, reduceCtorEq,
        or_false, true_and]
      constructor
      · rintro (hrest | rfl)
        · exact .inr hrest
        · exact .inl rfl
      · rintro (rfl | hrest)
        · exact .inr rfl
        · exact .inl hrest
    · have hne : ¬compare first name = .eq := fun hcompare =>
        heq (Std.LawfulEqCmp.eq_of_compare hcompare)
      rw [if_neg hne]
      constructor
      · rintro (hrest | hbefore)
        · exact .inl (.inr hrest)
        · exact .inr hbefore
      · rintro ((⟨rfl, -⟩ | hrest) | hbefore)
        · exact absurd rfl heq
        · exact .inl hrest
        · exact .inr hbefore

/-- No label is placed twice, nor where it was before. -/
theorem nodup (h : Placed before pairs after) :
    (pairs.map Prod.fst).Nodup ∧ ∀ pair ∈ pairs, before.contains pair.1 = false := by
  induction h with
  | nil => simp
  | @cons labels after first place rest fresh tail ih =>
    obtain ⟨hnodup, hnew⟩ := ih
    have hcontains : ∀ pair ∈ rest, pair.1 ≠ first ∧ labels.contains pair.1 = false := by
      intro pair hpair
      have := hnew pair hpair
      rw [Std.TreeMap.contains_insert, Bool.or_eq_false_iff] at this
      refine ⟨?_, this.2⟩
      rintro rfl
      simp at this
    refine ⟨List.nodup_cons.mpr ⟨?_, hnodup⟩, List.forall_mem_cons.mpr ⟨fresh, fun pair hpair =>
      (hcontains pair hpair).2⟩⟩
    rw [List.mem_map]
    rintro ⟨pair, hpair, heq⟩
    exact (hcontains pair hpair).1 heq

/-- Different new labels can be placed. -/
theorem exists_of_nodup (hnodup : (pairs.map Prod.fst).Nodup)
    (hnew : ∀ pair ∈ pairs, before.contains pair.1 = false) : ∃ after, Placed before pairs after := by
  induction pairs generalizing before with
  | nil => exact ⟨before, .nil _⟩
  | cons pair pairs ih =>
    rw [List.map_cons, List.nodup_cons] at hnodup
    obtain ⟨hfresh, hrest⟩ := List.forall_mem_cons.mp hnew
    have hnext : ∀ other ∈ pairs, (before.insert pair.1 pair.2).contains other.1 = false := by
      intro other hother
      have hne : pair.1 ≠ other.1 := by
        rintro heq
        exact hnodup.1 (heq ▸ List.mem_map_of_mem hother)
      rw [Std.TreeMap.contains_insert, hrest other hother, Bool.or_false, beq_eq_false_iff_ne]
      exact fun hcompare => hne (Std.LawfulEqCmp.eq_of_compare hcompare)
    obtain ⟨after, hafter⟩ := ih hnodup.2 hnext
    exact ⟨after, .cons hfresh hafter⟩

end Placed

/-- Sources that are laid out one after the other by steps of `one`, which leads from a position and
    a pool to the next. -/
inductive Laid {σ δ : Type} (one : Nat → StringPool → σ → δ → Nat → StringPool → Prop) :
    Nat → StringPool → List σ → List δ → Nat → StringPool → Prop
  | nil (position : Nat) (pool : StringPool) : Laid one position pool [] [] position pool
  | cons {position middle after : Nat} {pool pool' pool'' : StringPool} {source : σ} {draft : δ}
      {sources : List σ} {drafts : List δ} (head : one position pool source draft middle pool')
      (tail : Laid one middle pool' sources drafts after pool'') :
      Laid one position pool (source :: sources) (draft :: drafts) after pool''

/-- The labels of drafts, from those of each of them. -/
def zipLabels {σ δ : Type} (labels : σ → δ → List (String × Nat)) (sources : List σ)
    (drafts : List δ) : List (String × Nat) :=
  (List.zipWith labels sources drafts).flatten

def commandLabels (source : SourceCommand) (draft : DraftCommand) : List (String × Nat) :=
  (source.label.map (·, draft.offset)).toList

def lineLabels (source : SourceLine) (draft : Assembler.DraftLine) : List (String × Nat) :=
  zipLabels commandLabels source.commands draft.2

def tableLabels (source : SourceTable) (draft : Assembler.DraftTable) : List (String × Nat) :=
  zipLabels lineLabels source.lines draft.2

namespace Assembler

section steps

variable {σ δ : Type} {one : Nat → StringPool → σ → δ → Nat → StringPool → Prop}
  {labels : σ → δ → List (String × Nat)} {gathered drafts : List δ} {layout layout' : Layout}
  {pool pool' : StringPool} {source : σ} {sources : List σ}

/-- Sources that are laid out behind drafts that have been gathered: theirs begin where the layout has
    come to, and their labels are placed beside its own. -/
def LaysOut (one : Nat → StringPool → σ → δ → Nat → StringPool → Prop)
    (labels : σ → δ → List (String × Nat)) (gathered : List δ) (layout : Layout) (pool : StringPool)
    (sources : List σ) (drafts : List δ) (layout' : Layout) (pool' : StringPool) : Prop :=
  ∃ new, drafts = gathered.reverse ++ new ∧
    Laid one layout.position pool sources new layout'.position pool' ∧
    Placed layout.labels (zipLabels labels sources new) layout'.labels

private theorem laysOut_nil_iff : LaysOut one labels gathered layout pool [] drafts layout' pool' ↔
    (gathered.reverse, layout) = (drafts, layout') ∧ pool = pool' := by
  rw [Prod.mk.injEq]
  constructor
  · rintro ⟨new, rfl, hlaid, hplaced⟩
    obtain ⟨position, labels⟩ := layout'
    cases hlaid
    cases hplaced
    exact ⟨⟨by simp, rfl⟩, rfl⟩
  · rintro ⟨⟨rfl, rfl⟩, rfl⟩
    exact ⟨[], by simp, .nil _ _, .nil _⟩

/-- The first source is laid out, and the others behind it. -/
theorem laysOut_cons_iff :
    LaysOut one labels gathered layout pool (source :: sources) drafts layout' pool' ↔
      ∃ draft stop middle, one layout.position pool source draft stop.position middle ∧
        Placed layout.labels (labels source draft) stop.labels ∧
        LaysOut one labels (draft :: gathered) stop middle sources drafts layout' pool' := by
  constructor
  · rintro ⟨new, rfl, hlaid, hplaced⟩
    cases hlaid with
    | @cons _ position _ _ middle _ _ draft _ new head tail =>
      obtain ⟨placed, hfirst, hrest⟩ := Placed.append_iff.mp hplaced
      exact ⟨draft, ⟨position, placed⟩, middle, head, hfirst, new, by simp, tail, hrest⟩
  · rintro ⟨draft, stop, middle, head, hfirst, new, rfl, tail, hrest⟩
    exact ⟨draft :: new, by simp, .cons head tail, Placed.append_iff.mpr ⟨stop.labels, hfirst, hrest⟩⟩

end steps

variable (assembler : Assembler) (target : Target)

/-- Operands are drafted one after the other, each with the pool that those before it left. -/
inductive OperandsDrafted (line : Nat) : StringPool → List OperandKind → List String →
    List DraftOperand → StringPool → Prop
  | nil (pool : StringPool) : OperandsDrafted line pool [] [] [] pool
  | cons {pool middle after : StringPool} {kind : OperandKind} {shape : List OperandKind}
      {token : String} {tokens : List String} {operand : DraftOperand} {operands : List DraftOperand}
      (head : assembler.operand target line kind token pool = .ok operand middle)
      (tail : OperandsDrafted line middle shape tokens operands after) :
      OperandsDrafted line pool (kind :: shape) (token :: tokens) (operand :: operands) after

/-- A command is drafted for the opcode that its mnemonic names. -/
structure CommandDrafted (position : Nat) (pool : StringPool) (source : SourceCommand)
    (draft : DraftCommand) (after : StringPool) : Prop where
  line : draft.line = source.line
  offset : draft.offset = position
  marker : ∀ marker, source.marker = some marker → markedOpcode? marker = some draft.opcode
  operands : ∃ op, assembler.set.lookup? source.mnemonic = some op ∧ draft.opcode = op.code ∧
    assembler.OperandsDrafted target source.line pool op.shape source.operands draft.operands after

def CommandLaid (position : Nat) (pool : StringPool) (source : SourceCommand) (draft : DraftCommand)
    (after : Nat) (pool' : StringPool) : Prop :=
  assembler.CommandDrafted target position pool source draft pool' ∧ after = position + draft.size

def LineLaid (table : UInt16) (position : Nat) (pool : StringPool) (source : SourceLine)
    (draft : DraftLine) (after : Nat) (pool' : StringPool) : Prop :=
  draft.1 = source.header ∧ ∃ stop, after = stop + 1 ∧
    Laid (assembler.CommandLaid target) (position + 2 + LineHeader.size table) pool source.commands
      draft.2 stop pool'

def TableLaid (position : Nat) (pool : StringPool) (source : SourceTable) (draft : DraftTable)
    (after : Nat) (pool' : StringPool) : Prop :=
  draft.1 = source.number ∧ ∃ stop, after = stop + 2 ∧
    Laid (assembler.LineLaid target source.number) (position + 4) pool source.lines draft.2 stop pool'

variable {assembler target}

theorem OperandsDrafted.length_eq {line : Nat} {shape : List OperandKind} {tokens : List String}
    {operands : List DraftOperand} {pool after : StringPool}
    (h : assembler.OperandsDrafted target line pool shape tokens operands after) :
    shape.length = tokens.length := by
  induction h with
  | nil => rfl
  | cons _ _ ih => rw [List.length_cons, List.length_cons, ih]

private theorem operands_eq_ok_iff {line : Nat} {shape : List OperandKind} {tokens : List String}
    {operands : List DraftOperand} {pool after : StringPool} (hlength : shape.length = tokens.length) :
    ((shape.zip tokens).mapM fun (kind, token) => assembler.operand target line kind token) pool =
        .ok operands after ↔
      assembler.OperandsDrafted target line pool shape tokens operands after := by
  induction shape generalizing tokens operands pool with
  | nil =>
    cases tokens with
    | cons => cases hlength
    | nil =>
      simp only [List.zip_nil_left, List.mapM_nil, EStateM.pure_eq_ok_iff]
      constructor
      · rintro ⟨rfl, rfl⟩
        exact .nil _
      · intro h
        cases h
        exact ⟨rfl, rfl⟩
  | cons kind shape ih =>
    cases tokens with
    | nil => cases hlength
    | cons token tokens =>
      simp only [List.zip_cons_cons, List.mapM_cons, EStateM.bind_eq_ok_iff,
        EStateM.pure_eq_ok_iff]
      constructor
      · rintro ⟨operand, middle, hoperand, operands, _, htail, rfl, rfl⟩
        exact .cons hoperand ((ih (Nat.succ.inj hlength)).mp htail)
      · intro h
        cases h with
        | cons head tail =>
          exact ⟨_, _, head, _, _, (ih (Nat.succ.inj hlength)).mpr tail, rfl, rfl⟩

/-- The operands of a command, whose number is checked first. -/
theorem checkedOperands_eq_ok_iff {position line : Nat} (mnemonic : String) {op : Opcode}
    {tokens : List String} {draft : DraftCommand} {pool after : StringPool} :
    (if op.shape.length ≠ tokens.length then do
        throw (.parameterCount line mnemonic op.shape.length tokens.length)
        let operands ← (op.shape.zip tokens).mapM fun (kind, token) =>
          assembler.operand target line kind token
        return ⟨line, position, op.code, operands⟩
      else do
        let operands ← (op.shape.zip tokens).mapM fun (kind, token) =>
          assembler.operand target line kind token
        return ⟨line, position, op.code, operands⟩ : Assembly DraftCommand) pool =
      .ok draft after ↔ op.shape.length = tokens.length ∧ ∃ operands,
        assembler.OperandsDrafted target line pool op.shape tokens operands after ∧
        DraftCommand.mk line position op.code operands = draft := by
  rw [EStateM.throw_else_eq_ok_iff, not_not]
  refine and_congr_right fun hlength => ?_
  simp only [EStateM.bind_eq_ok_iff, operands_eq_ok_iff hlength, EStateM.pure_eq_ok_iff]
  constructor
  · rintro ⟨operands, middle, hoperands, hdraft, rfl⟩
    exact ⟨operands, hoperands, hdraft⟩
  · rintro ⟨operands, hoperands, hdraft⟩
    exact ⟨operands, after, hoperands, hdraft, rfl⟩

private theorem command_eq_ok_iff {position : Nat} {source : SourceCommand} {draft : DraftCommand}
    {pool after : StringPool} :
    assembler.command target position source pool = .ok draft after ↔
      assembler.CommandDrafted target position pool source draft after := by
  unfold Assembler.command
  dsimp only
  cases hop : assembler.set.lookup? source.mnemonic with
  | none =>
    constructor
    · intro h
      exact absurd h EStateM.throw_ne_ok
    · rintro ⟨-, -, -, op, hop', -⟩
      rw [hop] at hop'
      cases hop'
  | some op =>
    have hdrafted : (op.shape.length = source.operands.length ∧ ∃ operands,
        assembler.OperandsDrafted target source.line pool op.shape source.operands operands after ∧
        DraftCommand.mk source.line position op.code operands = draft) ∧
        (∀ marker, source.marker = some marker → markedOpcode? marker = some op.code) ↔
        assembler.CommandDrafted target position pool source draft after := by
      constructor
      · rintro ⟨⟨-, operands, hoperands, rfl⟩, hmarker⟩
        exact ⟨rfl, rfl, hmarker, op, hop, rfl, hoperands⟩
      · rintro ⟨hline, hoffset, hmarker, op', hop', hcode, hoperands⟩
        rw [hop] at hop'
        cases hop'
        obtain ⟨line, offset, opcode, operands⟩ := draft
        subst hline hoffset hcode
        exact ⟨⟨hoperands.length_eq, operands, hoperands, rfl⟩, hmarker⟩
    rw [← hdrafted, ← checkedOperands_eq_ok_iff source.mnemonic]
    cases hmarker : source.marker with
    | none => simp
    | some marker =>
      simp only [EStateM.throw_else_eq_ok_iff, not_not, Option.some.injEq, forall_eq']
      exact and_comm

private theorem placeLabel_eq_ok_iff {layout layout' : Layout} {source : SourceCommand} :
    placeLabel layout source = .ok layout' ↔ layout'.position = layout.position ∧
      Placed layout.labels (source.label.map (·, layout.position)).toList layout'.labels := by
  unfold placeLabel
  cases source.label with
  | none =>
    simp only [Option.map_none, Option.toList_none, Except.ok.injEq]
    constructor
    · rintro rfl
      exact ⟨rfl, .nil _⟩
    · rintro ⟨hposition, h⟩
      obtain ⟨position, labels⟩ := layout'
      obtain rfl : position = layout.position := hposition
      cases h
      rfl
  | some label =>
    simp only [Option.map_some, Option.toList_some]
    constructor
    · intro h
      split at h
      · cases h
      case _ hfresh =>
        cases h
        exact ⟨rfl, .cons (Bool.eq_false_iff.mpr hfresh) (.nil _)⟩
    · rintro ⟨hposition, h⟩
      obtain ⟨position, labels⟩ := layout'
      obtain rfl : position = layout.position := hposition
      cases h with
      | cons fresh tail =>
        cases tail
        rw [if_neg (by simp [fresh])]
        rfl

variable {layout layout' : Layout} {pool pool' : StringPool}

/-- Commands are laid out one after the other, with their labels where they start. -/
theorem layCommands_eq_ok_iff {gathered drafts : List DraftCommand} {sources : List SourceCommand} :
    assembler.layCommands target layout gathered sources pool = .ok (drafts, layout') pool' ↔
      LaysOut (assembler.CommandLaid target) commandLabels gathered layout pool sources drafts layout'
        pool' := by
  induction sources generalizing layout gathered pool with
  | nil => rw [layCommands, EStateM.pure_eq_ok_iff, laysOut_nil_iff]
  | cons source sources ih =>
    simp only [layCommands, EStateM.bind_eq_ok_iff, check_eq_ok_iff, placeLabel_eq_ok_iff,
      command_eq_ok_iff, ih, laysOut_cons_iff]
    constructor
    · rintro ⟨placed, _, ⟨⟨hposition, hplaced⟩, rfl⟩, draft, middle, hdraft, hrest⟩
      rw [hposition] at hdraft hrest
      refine ⟨draft, _, middle, ⟨hdraft, rfl⟩, ?_, hrest⟩
      rwa [commandLabels, hdraft.offset]
    · rintro ⟨draft, ⟨_, labels⟩, middle, ⟨hdraft, rfl⟩, hplaced, hrest⟩
      rw [commandLabels, hdraft.offset] at hplaced
      exact ⟨⟨layout.position, labels⟩, pool, ⟨⟨rfl, hplaced⟩, rfl⟩, draft, middle, hdraft, hrest⟩

private theorem layLines_eq_ok_iff {table : UInt16} {gathered drafts : List DraftLine}
    {sources : List SourceLine} :
    assembler.layLines target table layout gathered sources pool = .ok (drafts, layout') pool' ↔
      LaysOut (assembler.LineLaid target table) lineLabels gathered layout pool sources drafts layout'
        pool' := by
  induction sources generalizing layout gathered pool with
  | nil => rw [layLines, EStateM.pure_eq_ok_iff, laysOut_nil_iff]
  | cons source sources ih =>
    simp only [layLines, EStateM.bind_eq_ok_iff, Prod.exists, layCommands_eq_ok_iff, ih, laysOut_cons_iff]
    constructor
    · rintro ⟨commands, stop, middle, ⟨_, rfl, hcommands, hlabels⟩, hrest⟩
      exact ⟨source.header, commands, ⟨stop.position + 1, stop.labels⟩, middle,
        ⟨rfl, stop.position, rfl, hcommands⟩, hlabels, hrest⟩
    · rintro ⟨_, commands, ⟨_, labels⟩, middle, ⟨rfl, stop, rfl, hcommands⟩, hlabels, hrest⟩
      exact ⟨commands, ⟨stop, labels⟩, middle, ⟨commands, rfl, hcommands, hlabels⟩, hrest⟩

private theorem layTables_eq_ok_iff {gathered drafts : List DraftTable} {sources : List SourceTable} :
    assembler.layTables target layout gathered sources pool = .ok (drafts, layout') pool' ↔
      LaysOut (assembler.TableLaid target) tableLabels gathered layout pool sources drafts layout'
        pool' := by
  induction sources generalizing layout gathered pool with
  | nil => rw [layTables, EStateM.pure_eq_ok_iff, laysOut_nil_iff]
  | cons source sources ih =>
    simp only [layTables, EStateM.bind_eq_ok_iff, Prod.exists, layLines_eq_ok_iff, ih, laysOut_cons_iff]
    constructor
    · rintro ⟨lines, stop, middle, ⟨_, rfl, hlines, hlabels⟩, hrest⟩
      exact ⟨source.number, lines, ⟨stop.position + 2, stop.labels⟩, middle,
        ⟨rfl, stop.position, rfl, hlines⟩, hlabels, hrest⟩
    · rintro ⟨_, lines, ⟨_, labels⟩, middle, ⟨rfl, stop, rfl, hlines⟩, hlabels, hrest⟩
      exact ⟨lines, ⟨stop, labels⟩, middle, ⟨lines, rfl, hlines, hlabels⟩, hrest⟩

/-- The tables of a file are laid out from the start of its record, and linked with the labels that
    have been placed. -/
theorem tables_eq_ok_iff {sources : List SourceTable} {tables : List Table} :
    assembler.tables target sources pool = .ok tables pool' ↔ ∃ drafts stop labels,
      Laid (assembler.TableLaid target) 0 pool sources drafts stop pool' ∧
      Placed ∅ (zipLabels tableLabels sources drafts) labels ∧
      drafts.mapM (linkTable labels) = .ok tables := by
  simp only [Assembler.tables, EStateM.bind_eq_ok_iff, Prod.exists, layTables_eq_ok_iff,
    check_eq_ok_iff]
  constructor
  · rintro ⟨drafts, layout, _, ⟨_, rfl, hlaid, hplaced⟩, hlinked, rfl⟩
    exact ⟨drafts, layout.position, layout.labels, hlaid, hplaced, hlinked⟩
  · rintro ⟨drafts, stop, labels, hlaid, hplaced, hlinked⟩
    exact ⟨drafts, ⟨stop, labels⟩, pool', ⟨drafts, rfl, hlaid, hplaced⟩, hlinked, rfl⟩

theorem assembleWith_eq_ok_iff {file : SourceFile} {texts : Option (Nat × Nat)} {bytes : List UInt8} :
    assembler.assembleWith file texts pool = (.ok bytes, pool') ↔ ∃ ranges sources tables,
      file.body = .tables ranges sources ∧ checkRanges file.line ranges sources = .ok () ∧
      assembler.tables ⟨file.name, texts⟩ sources pool = .ok tables pool' ∧
      Script.tablesBytes tables = .ok bytes := by
  have hrun : assembler.assembleWith file texts pool = (.ok bytes, pool') ↔
      assembler.assemble file texts pool = .ok bytes pool' := by
    unfold assembleWith EStateM.run
    cases assembler.assemble file texts pool <;> simp
  rw [hrun, Assembler.assemble]
  cases hbody : file.body with
  | raw => simp [EStateM.throw_ne_ok]
  | tables ranges sources =>
    simp only [EStateM.bind_eq_ok_iff, check_eq_ok_iff]
    constructor
    · rintro ⟨_, _, ⟨hranges, rfl⟩, tables, middle, htables, h⟩
      cases hbytes : Script.tablesBytes tables with
      | ok written =>
        simp only [hbytes, EStateM.pure_eq_ok_iff] at h
        obtain ⟨rfl, rfl⟩ := h
        exact ⟨ranges, sources, tables, rfl, hranges, htables, hbytes⟩
      | error error =>
        simp only [hbytes] at h
        exact absurd h EStateM.throw_ne_ok
    · rintro ⟨_, _, tables, ⟨rfl, rfl⟩, hranges, htables, hbytes⟩
      refine ⟨(), pool, ⟨hranges, rfl⟩, tables, pool', htables, ?_⟩
      simp only [hbytes, EStateM.pure_eq_ok_iff, and_self]

end Assembler

end Adventure.Listing
