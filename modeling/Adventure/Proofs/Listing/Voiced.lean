import Mathlib.Data.List.Forall2
import Adventure.Proofs.Listing.Printed

namespace Adventure.Listing

open Text

/-- A note of voices, as it stands behind another one in a comment. -/
def voiceNote (voices : List UInt16) : List Char := " [voice ".toList ++ commaList voices ++ [']']

/-- The second text is the first one without some notes of voices. -/
inductive Unvoiced : List Char → List Char → Prop
  | nil : Unvoiced [] []
  | char (c : Char) {text bare : List Char} (h : Unvoiced text bare) : Unvoiced (c :: text) (c :: bare)
  | note (voices : List UInt16) {text bare : List Char} (h : Unvoiced text bare) :
      Unvoiced (voiceNote voices ++ text) bare

namespace Unvoiced

variable {text bare more less : List Char}

theorem refl (text : List Char) : Unvoiced text text := by
  induction text with
  | nil => exact .nil
  | cons c text ih => exact .char c ih

theorem append (h : Unvoiced text bare) (h' : Unvoiced more less) : Unvoiced (text ++ more) (bare ++ less) := by
  induction h with
  | nil => exact h'
  | char c _ ih => exact .char c ih
  | note voices _ ih =>
    rw [List.append_assoc]
    exact .note voices ih

theorem flatMap {α : Type} {as : List α} {f g : α → List Char} (h : ∀ a ∈ as, Unvoiced (f a) (g a)) :
    Unvoiced (as.flatMap f) (as.flatMap g) := by
  induction as with
  | nil => exact .nil
  | cons a as ih =>
    obtain ⟨ha, has⟩ := List.forall_mem_cons.mp h
    rw [List.flatMap_cons, List.flatMap_cons]
    exact ha.append (ih has)

end Unvoiced

theorem Unvoiced.unlines {lines bare : List (List Char)} (h : List.Forall₂ Unvoiced lines bare) :
    Unvoiced (Text.unlines lines) (Text.unlines bare) := by
  unfold Text.unlines
  induction h with
  | nil => exact .nil
  | cons head _ ih =>
    rw [List.flatMap_cons, List.flatMap_cons]
    exact (head.append (.refl _)).append ih

namespace Context

variable (context : Context)

/-- The same context, in which nothing is known of voices. -/
def unvoiced : Context := { context with voices := none }

theorem operand_unvoiced (operand : Operand) : context.unvoiced.operand operand = context.operand operand := by
  cases operand <;> rfl

/-- The notes of an operand, of which the first one does not come from voices. -/
theorem notes_unvoiced (operand : Operand) :
    Unvoiced ((context.notes operand).flatMap (' ' :: ·)) ((context.unvoiced.notes operand).flatMap (' ' :: ·)) ∧
      (context.notes operand = [] ↔ context.unvoiced.notes operand = []) := by
  cases operand with
  | text ref =>
    cases ref with
    | id id =>
      refine ⟨?_, iff_of_false (List.cons_ne_nil _ _) (List.cons_ne_nil _ _)⟩
      rw [notes, notes, List.flatMap_cons, List.flatMap_cons]
      refine (Unvoiced.refl _).append ?_
      cases context.voices.bind (·[id.toNat]?) with
      | none => exact .nil
      | some voices => exact .note voices .nil
    | _ => exact ⟨.nil, Iff.rfl⟩
  | item ref =>
    cases ref with
    | id item => exact ⟨.refl _, Iff.rfl⟩
    | _ => exact ⟨.nil, Iff.rfl⟩
  | _ => exact ⟨.nil, Iff.rfl⟩

/-- Behind the note on the text of a string stands that of its voices, if it has any. -/
theorem notes_of_voices {id : UInt32} {voices : List UInt16}
    (h : context.voices.bind (·[id.toNat]?) = some voices) : context.notes (.text (.id id)) =
      context.unvoiced.notes (.text (.id id)) ++ ["[voice ".toList ++ commaList voices ++ [']']] := by
  rw [notes, notes, h]
  rfl

theorem notes_of_no_voices {id : UInt32} (h : context.voices.bind (·[id.toNat]?) = none) :
    context.notes (.text (.id id)) = context.unvoiced.notes (.text (.id id)) := by
  rw [notes, notes, h]
  rfl

theorem comment_eq (command : Command) : context.comment command =
    if command.operands.flatMap context.notes = [] then []
    else " //".toList ++ (command.operands.flatMap context.notes).flatMap (' ' :: ·) := by
  unfold comment
  cases command.operands.flatMap context.notes with
  | nil => rfl
  | cons note notes =>
    rw [if_neg (List.cons_ne_nil _ _)]
    exact congrArg (" // ".toList ++ ·) (intercalate_cons ' ' note notes)

private theorem comment_unvoiced (command : Command) :
    Unvoiced (context.comment command) (context.unvoiced.comment command) := by
  have hempty : command.operands.flatMap context.notes = [] ↔
      command.operands.flatMap context.unvoiced.notes = [] := by
    rw [List.flatMap_eq_nil_iff, List.flatMap_eq_nil_iff]
    exact forall₂_congr fun operand _ => (context.notes_unvoiced operand).2
  rw [comment_eq, comment_eq]
  by_cases hnone : command.operands.flatMap context.notes = []
  · rw [if_pos hnone, if_pos (hempty.mp hnone)]
    exact .nil
  · rw [if_neg hnone, if_neg (hnone ∘ hempty.mpr), List.flatMap_assoc, List.flatMap_assoc]
    exact (Unvoiced.refl _).append (.flatMap fun operand _ => (context.notes_unvoiced operand).1)

/-- A command is listed without voices as with them, but for their notes. -/
theorem command_unvoiced (command : Command) :
    Unvoiced (context.command command) (context.unvoiced.command command) := by
  rw [command_def, command_def]
  have hoperands : context.unvoiced.operand = context.operand := funext context.operand_unvoiced
  rw [hoperands]
  exact (Unvoiced.refl _).append (context.comment_unvoiced command)

/-- The lines of tables are those without voices, but for the notes. -/
theorem tables_unvoiced (tables : List Table) :
    List.Forall₂ Unvoiced (context.tables tables) (context.unvoiced.tables tables) := by
  refine List.rel_flatMap (R := Eq) (List.forall₂_refl tables) ?_
  rintro table _ rfl
  refine .cons (.refl _) (List.rel_flatMap (R := Eq) (List.forall₂_refl table.lines) ?_)
  rintro line _ rfl
  refine .cons (.refl _) (List.rel_map (R := Eq) ?_ (List.forall₂_refl line.commands))
  rintro command _ rfl
  exact .char '\t' (context.command_unvoiced command)

/-- The section of a file is the one without voices, but for the notes. -/
theorem file_unvoiced (name : String) (ranges : List TableRange) (tables : List Table) :
    Unvoiced (context.file name ranges tables) (context.unvoiced.file name ranges tables) :=
  .unlines (.cons (.refl _) (context.tables_unvoiced tables))

end Context

end Adventure.Listing
