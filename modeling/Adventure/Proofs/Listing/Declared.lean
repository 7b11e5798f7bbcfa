import Adventure.Proofs.Listing.Linked

namespace Adventure.Listing

/-- The text that a token declares where a text is expected: one in quotes behind a plus sign. -/
def declaredText? (token : String) : Option String := do
  let '+' :: quoted := token.toList | none
  let inner ← between? '"' '"' quoted
  let text ← (Strings.unescape inner).toOption
  return String.ofList text

/-- The texts that operands declare, which only those may that expect texts. -/
def declaredTexts (operands : List (OperandKind × String)) : List String :=
  operands.flatMap fun (kind, token) => if kind = .text then (declaredText? token).toList else []

/-- The texts that a command declares, in order. -/
def SourceCommand.declared (set : InstructionSet) (command : SourceCommand) : List String :=
  match set.lookup? command.mnemonic with
  | some op => declaredTexts (op.shape.zip command.operands)
  | none => []

/-- The texts that a file declares, in order. -/
def SourceFile.declared (set : InstructionSet) (file : SourceFile) : List String :=
  match file.body with
  | .raw => []
  | .tables _ tables => (tables.flatMap SourceTable.commands).flatMap (SourceCommand.declared set)

end Listing

namespace StringPool

/-- A text that is added is in the pool already, or it gets the next number, which is not yet the limit. -/
theorem add_cases {pool after : StringPool} {text : String} {id : Nat} (h : pool.add text = some (id, after)) :
    (text ∈ pool.added ∧ after = pool) ∨ (text ∉ pool.added ∧ pool.first + pool.added.length < pool.limit ∧
      after = { pool with added := pool.added ++ [text] }) := by
  unfold add at h
  split at h
  case _ index hindex =>
    cases h
    exact .inl ⟨List.isSome_idxOf?.mp (by rw [hindex]; rfl), rfl⟩
  case _ hnone =>
    dsimp only at h
    split at h
    case _ hlimit =>
      cases h
      exact .inr ⟨List.idxOf?_eq_none_iff.mp hnone, hlimit, rfl⟩
    case _ => cases h

/-- The pool behind texts that are added one after the other. None if no number is left for one of them. -/
def addAll (pool : StringPool) (texts : List String) : Option StringPool :=
  texts.foldlM (fun pool text => (pool.add text).map Prod.snd) pool

theorem addAll_append {pool middle : StringPool} {texts : List String} (h : pool.addAll texts = some middle)
    (more : List String) : pool.addAll (texts ++ more) = middle.addAll more := by
  unfold addAll at h ⊢
  rw [List.foldlM_append, h]
  rfl

private theorem addAll_singleton {pool after : StringPool} {text : String} {id : Nat}
    (h : pool.add text = some (id, after)) : pool.addAll [text] = some after := by
  simp [addAll, h]

/-- What holds when a text is added holds when texts are. -/
theorem addAll_induction {R : StringPool → List String → StringPool → Prop} (hnil : ∀ pool, R pool [] pool)
    (hcons : ∀ pool text id middle texts after, pool.add text = some (id, middle) → R middle texts after →
      R pool (text :: texts) after) {pool after : StringPool} {texts : List String}
    (h : pool.addAll texts = some after) : R pool texts after := by
  induction texts generalizing pool with
  | nil =>
    cases h
    exact hnil _
  | cons text texts ih =>
    rw [addAll, List.foldlM_cons] at h
    obtain ⟨middle, hmiddle, hrest⟩ := Option.bind_eq_some_iff.mp h
    obtain ⟨⟨id, _⟩, hadd, rfl⟩ := Option.map_eq_some_iff.mp hmiddle
    exact hcons _ _ _ _ _ _ hadd (ih hrest)

/-- The second pool has more texts than the first one: if that holds the different ones of some texts in
    order, the second one holds those of all texts in order. -/
def Declares (pool : StringPool) (texts : List String) (after : StringPool) : Prop :=
  ∀ earlier : List String, pool.added = earlier.eraseDups → after.added = (earlier ++ texts).eraseDups

namespace Declares

variable {pool middle after : StringPool} {texts more : List String}

theorem nil (pool : StringPool) : pool.Declares [] pool := fun earlier h => by rw [h, List.append_nil]

theorem append (h : pool.Declares texts middle) (h' : middle.Declares more after) :
    pool.Declares (texts ++ more) after := fun earlier hpool => by
  rw [h' _ (h earlier hpool), List.append_assoc]

/-- A text that is declared is put behind the others, unless it is among them. -/
theorem of_add {text : String} {id : Nat} (h : pool.add text = some (id, after)) :
    pool.Declares [text] after := by
  intro earlier hpool
  have hmem : text ∈ pool.added ↔ text ∈ earlier := by rw [hpool, List.mem_eraseDups]
  rw [List.eraseDups_append, ← hpool]
  obtain ⟨hadded, rfl⟩ | ⟨hnew, -, rfl⟩ := add_cases h
  · simp [List.removeAll, hmem.mp hadded]
  · simp [List.removeAll, mt hmem.mpr hnew, List.eraseDups_cons]

theorem of_addAll (h : pool.addAll texts = some after) : pool.Declares texts after :=
  addAll_induction (fun pool => .nil pool) (fun _ _ _ _ _ _ hadd hrest => (of_add hadd).append hrest) h

end Declares

end StringPool

namespace Listing

open Assembler

theorem check_eq_error_iff {α : Type} {result : Except Error α} {pool after : StringPool} {error : Error} :
    check result pool = .error error after ↔ result = .error error ∧ pool = after := by
  cases result <;> simp [check]

/-- A step that declares texts: all of them if it succeeds, else some of them from the first on. It only
    fails with some errors. -/
structure Declaring {α : Type} (texts : List String) (fault : Error → Prop) (x : Assembly α) : Prop where
  succeeds : ∀ pool value after, x pool = .ok value after → pool.addAll texts = some after
  fails : ∀ pool error after, x pool = .error error after →
    fault error ∧ ∃ front, front <+: texts ∧ pool.addAll front = some after

namespace Declaring

variable {α β : Type} {texts more : List String} {fault fault' : Error → Prop} {x : Assembly α}

theorem pure (value : α) : Declaring [] fault (Pure.pure value : Assembly α) where
  succeeds _ _ _ h := by
    cases h
    rfl
  fails _ _ _ h := by cases h

theorem throw {error : Error} (h : fault error) :
    Declaring texts fault (MonadExcept.throw error : Assembly α) where
  succeeds _ _ _ h := by cases h
  fails _ _ _ hother := by
    cases hother
    exact ⟨h, [], List.nil_prefix, rfl⟩

theorem check {result : Except Error α} (h : ∀ error, result = .error error → fault error) :
    Declaring [] fault (Listing.check result) where
  succeeds pool value after hvalue := by
    obtain ⟨-, rfl⟩ := check_eq_ok_iff.mp hvalue
    rfl
  fails pool error after herror := by
    obtain ⟨hresult, rfl⟩ := check_eq_error_iff.mp herror
    exact ⟨h error hresult, [], List.nil_prefix, rfl⟩

theorem bind {f : α → Assembly β} (hx : Declaring texts fault x) (hf : ∀ value, Declaring more fault (f value)) :
    Declaring (texts ++ more) fault (x >>= f) where
  succeeds pool value after h := by
    obtain ⟨first, middle, hfirst, hrest⟩ := EStateM.bind_eq_ok_iff.mp h
    rw [StringPool.addAll_append (hx.succeeds _ _ _ hfirst)]
    exact (hf first).succeeds _ _ _ hrest
  fails pool error after h := by
    rcases EStateM.bind_eq_error_iff.mp h with hfirst | ⟨first, middle, hfirst, hrest⟩
    · obtain ⟨hfault, front, hfront, hadded⟩ := hx.fails _ _ _ hfirst
      exact ⟨hfault, front, hfront.trans (List.prefix_append _ _), hadded⟩
    · obtain ⟨hfault, front, hfront, hadded⟩ := (hf first).fails _ _ _ hrest
      refine ⟨hfault, texts ++ front, (List.prefix_append_right_inj _).mpr hfront, ?_⟩
      rw [StringPool.addAll_append (hx.succeeds _ _ _ hfirst)]
      exact hadded

/-- A step behind which nothing more is declared. -/
theorem bind_nil {f : α → Assembly β} (hx : Declaring texts fault x) (hf : ∀ value, Declaring [] fault (f value)) :
    Declaring texts fault (x >>= f) :=
  List.append_nil texts ▸ hx.bind hf

theorem map {f : α → β} (hx : Declaring texts fault x) :
    Declaring texts fault (x >>= fun value => Pure.pure (f value)) :=
  hx.bind_nil fun value => pure (f value)

theorem mapM {f : α → Assembly β} {declared : α → List String} {items : List α}
    (h : ∀ item ∈ items, Declaring (declared item) fault (f item)) :
    Declaring (items.flatMap declared) fault (items.mapM f) := by
  induction items with
  | nil => exact pure []
  | cons item items ih =>
    obtain ⟨hitem, hitems⟩ := List.forall_mem_cons.mp h
    rw [List.mapM_cons, List.flatMap_cons]
    exact hitem.bind fun value => (ih hitems).map

/-- The errors that a step fails with, told apart from what it declares. -/
theorem of_faults (hx : Declaring texts fault x)
    (h : ∀ pool error after, x pool = .error error after → fault' error) : Declaring texts fault' x :=
  ⟨hx.succeeds, fun _ _ _ herror => ⟨h _ _ _ herror, (hx.fails _ _ _ herror).2⟩⟩

end Declaring

/-- Errors that find fault with what an operand refers to. -/
def Error.isReference : Error → Bool
  | .unresolvedReference .. | .textOutOfRange .. => true
  | _ => false

/-- Errors that find fault with an operand. -/
def Error.isOperand : Error → Bool
  | .malformedOperand .. | .unresolvedReference .. | .textOutOfRange .. => true
  | _ => false

/-- Errors that find fault with the number of a table. -/
def Error.isRange : Error → Bool
  | .tableOutOfRange .. => true
  | _ => false

theorem Error.isRange_of_isOperand {error : Error} (h : error.isOperand) : error.isRange = false := by
  cases error <;> first | rfl | cases h

/-- An error of assembling tables: none finds fault with the number of a table, and where one does with a
    reference, an operand does so. -/
structure Assembler.Faults (assembler : Assembler) (target : Target) (error : Error) : Prop where
  range : error.isRange = false
  operand : error.isReference → ∃ line kind token pool after,
    assembler.operand target line kind token pool = .error error after

variable {assembler : Assembler} {target : Target} {line : Nat} {token : String} {pool after : StringPool}

theorem Assembler.Faults.other {error : Error} (h : error.isReference = false) (hrange : error.isRange = false) :
    assembler.Faults target error :=
  ⟨hrange, fun hreference => absurd hreference (by rw [h]; exact Bool.false_ne_true)⟩

theorem declaredText?_eq_some_iff {text : String} : declaredText? token = some text ↔
    ∃ inner chars, token.toList = '+' :: '"' :: inner ++ ['"'] ∧ Strings.unescape inner = .ok chars ∧
      text = String.ofList chars := by
  constructor
  · intro h
    unfold declaredText? at h
    split at h
    case _ quoted htoken =>
      obtain ⟨inner, hinner, h⟩ := Option.bind_eq_some_iff.mp h
      obtain ⟨chars, hchars, h⟩ := Option.bind_eq_some_iff.mp h
      cases h
      rw [between?_eq_some_iff.mp hinner] at htoken
      refine ⟨inner, chars, htoken, ?_, rfl⟩
      exact Except.eq_ok_of_toOption hchars
    case _ => cases h
  · rintro ⟨inner, chars, htoken, hchars, rfl⟩
    have hinner : between? '"' '"' ('"' :: inner ++ ['"']) = some inner := between?_eq_some_iff.mpr rfl
    rw [List.cons_append, List.cons_append] at htoken
    rw [List.cons_append] at hinner
    simp only [declaredText?, htoken, hinner, Option.bind_eq_bind, Option.bind_some, hchars]
    rfl

private theorem declaredText?_eq_none (h : ∀ quoted, token.toList ≠ '+' :: quoted) :
    declaredText? token = none := by
  unfold declaredText?
  split
  case _ quoted htoken => exact absurd htoken (h quoted)
  case _ => rfl

theorem quotedText?_fault {text : List Char} {error : Error} (h : quotedText? line text = .error error) :
    ∃ token fault, error = .malformedOperand line token fault := by
  unfold quotedText? at h
  split at h
  · cases h
  · split at h <;> cases h
    exact ⟨_, _, rfl⟩

/-- A text that cannot be declared leaves the pool as it was. -/
theorem newText_eq_error {declared : List Char} {error : Error}
    (h : newText line token declared pool = .error error after) :
    after = pool ∧ ∃ token fault, error = .malformedOperand line token fault := by
  rcases EStateM.bind_eq_error_iff.mp h with hquoted | ⟨quoted, middle, hquoted, hnext⟩
  · obtain ⟨hfault, rfl⟩ := check_eq_error_iff.mp hquoted
    exact ⟨rfl, quotedText?_fault hfault⟩
  obtain ⟨-, rfl⟩ := check_eq_ok_iff.mp hquoted
  cases quoted with
  | none =>
    cases hnext
    exact ⟨rfl, _, _, rfl⟩
  | some text =>
    rcases EStateM.bind_eq_error_iff.mp hnext with hget | ⟨_, _, hpool, hadded⟩
    · cases hget
    · cases hpool
      cases hadd : pool.add (String.ofList text) with
      | none =>
        simp only [hadd] at hadded
        cases hadded
        exact ⟨rfl, _, _, rfl⟩
      | some added =>
        simp only [hadd] at hadded
        cases hadded

private theorem knownText_isOperand {error : Error}
    (h : assembler.knownText target pool line token = .error error) : error.isOperand := by
  rcases Except.bind_eq_error_iff.mp h with hquoted | ⟨quoted, -, hnext⟩
  · obtain ⟨_, _, rfl⟩ := quotedText?_fault hquoted
    rfl
  · repeat' split at hnext
    all_goals cases hnext <;> rfl

theorem byte_fault {error : Error} (h : byte line token = .error error) :
    ∃ token fault, error = .malformedOperand line token fault := by
  unfold byte at h
  repeat' split at h
  all_goals cases h <;> exact ⟨_, _, rfl⟩

theorem list_fault {error : Error} (h : list line token = .error error) :
    ∃ token fault, error = .malformedOperand line token fault := by
  unfold list at h
  split at h
  · obtain ⟨field, -, hfield⟩ := Except.mapM_eq_error (Except.map_eq_error_iff.mp h)
    unfold listValue at hfield
    repeat' split at hfield
    all_goals cases hfield <;> exact ⟨_, _, rfl⟩
  · cases h
    exact ⟨_, _, rfl⟩

private theorem item_isOperand {error : Error} (h : assembler.item line token = .error error) :
    error.isOperand := by
  unfold Assembler.item at h
  split at h
  · split at h <;> cases h
    rfl
  · split at h
    · rcases Except.bind_eq_error_iff.mp h with hquoted | ⟨quoted, -, hnext⟩
      · obtain ⟨_, _, rfl⟩ := quotedText?_fault hquoted
        rfl
      · repeat' split at hnext
        all_goals cases hnext <;> rfl
    · cases h
      rfl

/-- A token that stands for a text declares one if it is a text in quotes behind a plus sign. -/
theorem text_declaring : Declaring (declaredText? token).toList (fun error => error.isOperand)
    (assembler.text target line token) := by
  generalize hstep : assembler.text target line token = step
  unfold Assembler.text at hstep
  split at hstep <;> subst hstep
  case _ htoken =>
    rw [declaredText?_eq_none (by simp [htoken])]
    exact .pure _
  case _ htoken =>
    rw [declaredText?_eq_none (by simp [htoken])]
    exact .pure _
  case _ declared htoken =>
    refine ⟨fun pool ref after h => ?_, fun pool error after h => ?_⟩
    · obtain ⟨inner, text, id, hquoted, htext, hadd, -⟩ := newText_eq_ok h
      rw [hquoted] at htoken
      rw [declaredText?_eq_some_iff.mpr ⟨inner, text, htoken, htext, rfl⟩]
      exact StringPool.addAll_singleton hadd
    · obtain ⟨rfl, _, _, rfl⟩ := newText_eq_error h
      exact ⟨rfl, [], List.nil_prefix, rfl⟩
  case _ hplus =>
    rw [declaredText?_eq_none fun quoted hquoted => hplus quoted hquoted]
    refine ⟨fun pool ref after h => ?_, fun pool error after h => ?_⟩
    · exact (Declaring.check fun _ h => knownText_isOperand h).succeeds pool ref after h
    · exact (Declaring.check fun _ h => knownText_isOperand h).fails pool error after h

/-- Operands of the other kinds declare nothing. -/
theorem operand_declaring (kind : OperandKind) :
    Declaring (if kind = .text then (declaredText? token).toList else []) (assembler.Faults target)
      (assembler.operand target line kind token) := by
  suffices h : Declaring (if kind = .text then (declaredText? token).toList else [])
      (fun error => error.isOperand) (assembler.operand target line kind token) from
    h.of_faults fun pool error after herror =>
      ⟨Error.isRange_of_isOperand (h.fails _ _ _ herror).1, fun _ => ⟨line, kind, token, pool, after, herror⟩⟩
  cases kind with
  | text => exact text_declaring.map
  | byte =>
    refine (Declaring.check fun error h => ?_).map
    obtain ⟨_, _, rfl⟩ := byte_fault h
    rfl
  | list =>
    refine (Declaring.check fun error h => ?_).map
    obtain ⟨_, _, rfl⟩ := list_fault h
    rfl
  | item => exact (Declaring.check fun _ h => item_isOperand h).map
  | jump =>
    rw [if_neg (by decide), Assembler.operand]
    split <;> exact .pure _
  | _ =>
    rw [if_neg (by decide), operand_word rfl]
    split
    · exact .pure _
    · exact .throw rfl

private theorem command_declaring (position : Nat) (source : SourceCommand) :
    Declaring (source.declared assembler.set) (assembler.Faults target)
      (assembler.command target position source) := by
  unfold Assembler.command SourceCommand.declared
  dsimp only
  cases assembler.set.lookup? source.mnemonic with
  | none => exact .throw (.other rfl rfl)
  | some op =>
    dsimp only
    have hoperands : Declaring (declaredTexts (op.shape.zip source.operands)) (assembler.Faults target) (do
        let operands ← (op.shape.zip source.operands).mapM fun (kind, token) =>
          assembler.operand target source.line kind token
        return DraftCommand.mk source.line position op.code operands) :=
      (Declaring.mapM fun (kind, token) _ => operand_declaring kind).map
    have hcounted : Declaring (declaredTexts (op.shape.zip source.operands)) (assembler.Faults target)
        (if op.shape.length ≠ source.operands.length then do
            throw (.parameterCount source.line source.mnemonic op.shape.length source.operands.length)
            let operands ← (op.shape.zip source.operands).mapM fun (kind, token) =>
              assembler.operand target source.line kind token
            return DraftCommand.mk source.line position op.code operands
          else do
            let operands ← (op.shape.zip source.operands).mapM fun (kind, token) =>
              assembler.operand target source.line kind token
            return DraftCommand.mk source.line position op.code operands) := by
      split
      · exact .throw (.other rfl rfl)
      · exact hoperands
    cases source.marker with
    | none => exact hcounted
    | some marker =>
      dsimp only
      split
      · exact .throw (.other rfl rfl)
      · exact hcounted

/-- Sources that are laid out one after the other declare texts in this order. -/
theorem layCommands_declaring (layout : Layout) (gathered : List DraftCommand) (sources : List SourceCommand) :
    Declaring (sources.flatMap (SourceCommand.declared assembler.set)) (assembler.Faults target)
      (assembler.layCommands target layout gathered sources) := by
  induction sources generalizing layout gathered with
  | nil => exact .pure _
  | cons source sources ih =>
    have hlabel : ∀ error, placeLabel layout source = .error error → assembler.Faults target error := by
      intro error h
      unfold placeLabel at h
      split at h
      · cases h
      · split at h <;> cases h
        exact .other rfl rfl
    rw [List.flatMap_cons]
    exact (Declaring.check hlabel).bind fun layout =>
      (command_declaring layout.position source).bind fun command => ih _ _

private theorem layLines_declaring (table : UInt16) (layout : Layout) (gathered : List DraftLine)
    (sources : List SourceLine) :
    Declaring ((sources.flatMap SourceLine.commands).flatMap (SourceCommand.declared assembler.set))
      (assembler.Faults target) (assembler.layLines target table layout gathered sources) := by
  induction sources generalizing layout gathered with
  | nil => exact .pure _
  | cons source sources ih =>
    rw [List.flatMap_cons, List.flatMap_append]
    exact (layCommands_declaring _ _ source.commands).bind fun (commands, layout) => ih _ _

private theorem layTables_declaring (layout : Layout) (gathered : List DraftTable)
    (sources : List SourceTable) :
    Declaring ((sources.flatMap SourceTable.commands).flatMap (SourceCommand.declared assembler.set))
      (assembler.Faults target) (assembler.layTables target layout gathered sources) := by
  induction sources generalizing layout gathered with
  | nil => exact .pure _
  | cons source sources ih =>
    rw [List.flatMap_cons, List.flatMap_append]
    exact (layLines_declaring _ _ _ source.lines).bind fun (lines, layout) => ih _ _

/-- Linking only finds fault with labels. -/
theorem linkTable_faults {labels : LabelPositions} {draft : DraftTable} {error : Error}
    (h : linkTable labels draft = .error error) : assembler.Faults target error := by
  obtain ⟨line, -, hline⟩ := Except.mapM_eq_error (Except.map_eq_error_iff.mp h)
  obtain ⟨command, -, hcommand⟩ := Except.mapM_eq_error (Except.map_eq_error_iff.mp hline)
  obtain ⟨operand, -, hoperand⟩ := Except.mapM_eq_error (Except.map_eq_error_iff.mp hcommand)
  unfold linkOperand at hoperand
  split at hoperand
  · cases hoperand
  · split at hoperand
    · cases hoperand
      exact .other rfl rfl
    · split at hoperand <;> cases hoperand
      exact .other rfl rfl

private theorem tables_declaring (sources : List SourceTable) :
    Declaring ((sources.flatMap SourceTable.commands).flatMap (SourceCommand.declared assembler.set))
      (assembler.Faults target) (assembler.tables target sources) := by
  have hlink : ∀ (labels : LabelPositions) (drafts : List DraftTable) error,
      drafts.mapM (linkTable labels) = .error error → assembler.Faults target error := by
    intro labels drafts error h
    obtain ⟨draft, -, hdraft⟩ := Except.mapM_eq_error h
    exact linkTable_faults hdraft
  exact (layTables_declaring _ _ sources).bind_nil fun (drafts, layout) =>
    .check (hlink layout.labels drafts)

/-- An error of assembling a file: it finds fault with the number of a table, or it is one of assembling its
    tables. -/
def Assembler.FileFaults (assembler : Assembler) (file : SourceFile) (texts : Option (Nat × Nat))
    (error : Error) : Prop :=
  (∃ ranges tables, file.body = .tables ranges tables ∧
    checkRanges file.line ranges tables = .error error) ∨
    assembler.Faults ⟨file.name, texts⟩ error

private theorem assemble_declaring (assembler : Assembler) (file : SourceFile) (texts : Option (Nat × Nat)) :
    Declaring (file.declared assembler.set) (assembler.FileFaults file texts)
      (assembler.assemble file texts) := by
  unfold Assembler.assemble SourceFile.declared
  cases hbody : file.body with
  | raw => exact .throw (.inr (.other rfl rfl))
  | tables ranges sources =>
    have htables : Declaring ((sources.flatMap SourceTable.commands).flatMap
        (SourceCommand.declared assembler.set)) (assembler.Faults ⟨file.name, texts⟩)
        (assembler.tables ⟨file.name, texts⟩ sources) := tables_declaring sources
    have hlaid := htables.of_faults fun pool error after h =>
      (.inr (htables.fails _ _ _ h).1 : assembler.FileFaults file texts error)
    refine (Declaring.check fun error h => .inl ⟨ranges, sources, hbody, h⟩).bind fun _ =>
      hlaid.bind_nil fun tables => ?_
    split
    · exact .pure _
    · exact .throw (.inr (.other rfl rfl))

/-- A file adds the texts that it declares if it is assembled, else those before the fault. -/
theorem Assembler.assembleWith_addAll (assembler : Assembler) (file : SourceFile)
    (texts : Option (Nat × Nat)) (pool : StringPool) :
    ∃ front, front <+: file.declared assembler.set ∧
      pool.addAll front = some (assembler.assembleWith file texts pool).2 ∧
      ((assembler.assembleWith file texts pool).1.isOk → front = file.declared assembler.set) := by
  have hdeclaring := assemble_declaring assembler file texts
  unfold assembleWith
  split
  case _ bytes after hok => exact ⟨_, List.prefix_rfl, hdeclaring.succeeds _ _ _ hok, fun _ => rfl⟩
  case _ error after herror =>
    obtain ⟨-, front, hfront, hadded⟩ := hdeclaring.fails _ _ _ herror
    exact ⟨front, hfront, hadded, fun hok => by cases hok⟩

/-- A file that cannot be assembled has a table with a wrong number, or something wrong in its tables. -/
theorem Assembler.assembleWith_faults {file : SourceFile} {texts : Option (Nat × Nat)} {error : Error}
    (h : assembler.assembleWith file texts pool = (.error error, after)) :
    assembler.FileFaults file texts error := by
  unfold assembleWith at h
  split at h
  · cases h
  case _ herror =>
    cases h
    exact ((assemble_declaring assembler file texts).fails _ _ _ herror).1

/-- An error that finds fault with a reference is one of an operand. -/
theorem Assembler.FileFaults.operand {file : SourceFile} {texts : Option (Nat × Nat)} {error : Error}
    (h : assembler.FileFaults file texts error) (hreference : error.isReference) :
    ∃ line kind token pool after,
      assembler.operand ⟨file.name, texts⟩ line kind token pool = .error error after := by
  rcases h with ⟨ranges, tables, -, hranges⟩ | hfaults
  · unfold checkRanges at hranges
    split at hranges <;> cases hranges
    cases hreference
  · exact hfaults.operand hreference

/-- A file that is assembled adds the texts that it declares. -/
theorem Assembler.assembleWith_declares {file : SourceFile} {texts : Option (Nat × Nat)}
    {bytes : List UInt8} (h : assembler.assembleWith file texts pool = (.ok bytes, after)) :
    pool.Declares (file.declared assembler.set) after := by
  obtain ⟨front, -, hadded, hall⟩ := assembler.assembleWith_addAll file texts pool
  rw [h] at hadded hall
  exact hall rfl ▸ .of_addAll hadded

end Listing

end Adventure
