import Adventure.Proofs.Listing.Declared

namespace Adventure.Listing

open Assembler

variable {assembler : Assembler} {target : Target} {line : Nat} {token : String} {pool after : StringPool}

/-- A numeral begins with a digit or with a plus sign. -/
theorem head_of_decimal? {bound id : Nat} {c : Char} {rest : List Char}
    (h : Text.decimal? bound (c :: rest) = some id) : c = '+' ∨ (Text.digitValue? 10 c).isSome := by
  by_cases hplus : c = '+'
  · exact .inl hplus
  · have hnumeral : Text.numeral? 10 (c :: rest) = Text.digits? 10 0 (c :: rest) := by
      unfold Text.numeral?
      split
      case _ heq => exact absurd (List.cons.inj heq).1 hplus
      case _ => rfl
    rw [Text.decimal?, hnumeral, Text.digits?] at h
    cases hdigit : Text.digitValue? 10 c with
    | none => simp [hdigit] at h
    | some digit => exact .inr rfl

/-- A text in quotes or an item in brackets is no numeral. -/
theorem decimal?_of_between? {opening closing : Char} {bound : Nat} {inner : List Char}
    (h : between? opening closing token.toList = some inner) (hplus : opening ≠ '+')
    (hdigit : Text.digitValue? 10 opening = none) : Text.decimal? bound token.toList = none := by
  rw [between?_eq_some_iff.mp h, List.cons_append]
  refine Option.eq_none_iff_forall_ne_some.mpr fun id hid => ?_
  rcases head_of_decimal? hid with hhead | hhead
  · exact hplus hhead
  · rw [hdigit] at hhead
    cases hhead

private theorem quotedText?_of_decimal? {bound id : Nat} (hid : Text.decimal? bound token.toList = some id) :
    quotedText? line token.toList = .ok none := by
  unfold quotedText?
  cases hquoted : between? '"' '"' token.toList with
  | none => rfl
  | some inner =>
    rw [decimal?_of_between? hquoted (by decide) (by decide)] at hid
    cases hid

/-- A number where a text is expected: it is the string of this number if the file may use it and the string
    is known. -/
theorem knownText_decimal {id : Nat} (hid : Text.decimal? 0x100000000 token.toList = some id) :
    assembler.knownText target pool line token =
      if target.allows id then
        if assembler.knowsText pool id then .ok (.id (.ofNat id)) else .error (.unresolvedReference line token)
      else .error (.textOutOfRange line id target.file) := by
  rw [knownText, quotedText?_of_decimal? hid]
  simp only [bind, Except.bind, hid]
  cases target.allows id <;> cases assembler.knowsText pool id <;> rfl

theorem operand_decimal {id : Nat} (hid : Text.decimal? 0x100000000 token.toList = some id)
    (hplus : token.toList.head? ≠ some '+') :
    assembler.operand target line .text token pool =
      if target.allows id then
        if assembler.knowsText pool id then .ok (.known (.text (.id (.ofNat id)))) pool
        else .error (.unresolvedReference line token) pool
      else .error (.textOutOfRange line id target.file) pool := by
  have htext : assembler.text target line token =
      (do check (assembler.knownText target (← get) line token) : Assembly TextRef) := by
    unfold Assembler.text
    split
    case _ htoken =>
      rw [htoken] at hid
      rcases head_of_decimal? hid with hhead | hhead <;> cases hhead
    case _ htoken =>
      rw [htoken] at hid
      rcases head_of_decimal? hid with hhead | hhead <;> cases hhead
    case _ htoken =>
      rw [htoken] at hplus
      exact absurd rfl hplus
    case _ => rfl
  have hstep : assembler.operand target line .text token pool =
      match assembler.knownText target pool line token with
      | .ok ref => .ok (.known (.text ref)) pool
      | .error error => .error error pool := by
    rw [Assembler.operand, htext]
    change (do return .known (.text (← check (assembler.knownText target pool line token))) :
      Assembly DraftOperand) pool = _
    cases assembler.knownText target pool line token <;> rfl
  rw [hstep, knownText_decimal hid]
  cases target.allows id <;> cases assembler.knowsText pool id <;> rfl

/-- What is wrong with a text that exists, if it is about a reference. -/
theorem knownText_fault {error : Error} (h : assembler.knownText target pool line token = .error error)
    (hreference : error.isReference) :
    (∃ id, Text.decimal? 0x100000000 token.toList = some id ∧ ¬ target.allows id ∧
      error = .textOutOfRange line id target.file) ∨
    (error = .unresolvedReference line token ∧
      ∀ id, Text.decimal? 0x100000000 token.toList = some id → ¬ assembler.knowsText pool id) := by
  cases hid : Text.decimal? 0x100000000 token.toList with
  | some id =>
    rw [knownText_decimal hid] at h
    split at h
    · split at h
      · cases h
      case _ hunknown =>
        cases h
        refine .inr ⟨rfl, fun other hother => ?_⟩
        cases hother
        exact hunknown
    case _ hforbidden =>
      cases h
      exact .inl ⟨id, rfl, hforbidden, rfl⟩
  | none =>
    refine .inr ⟨?_, fun _ hother => by cases hother⟩
    rcases Except.bind_eq_error_iff.mp h with hquoted | ⟨quoted, -, hnext⟩
    · obtain ⟨_, _, rfl⟩ := quotedText?_fault hquoted
      cases hreference
    cases quoted with
    | some text =>
      dsimp only at hnext
      split at hnext <;> cases hnext
      rfl
    | none =>
      rw [hid] at hnext
      cases hnext
      cases hreference

/-- What is wrong with an item, if it is about a reference: its name or its number is not in use. -/
theorem item_fault {error : Error} (h : assembler.item line token = .error error)
    (hreference : error.isReference) :
    error = .unresolvedReference line token ∧ ∃ inner, between? '<' '>' token.toList = some inner := by
  unfold Assembler.item at h
  split at h
  · split at h <;> cases h
    cases hreference
  · split at h
    case _ inner hinner =>
      refine ⟨?_, inner, hinner⟩
      rcases Except.bind_eq_error_iff.mp h with hquoted | ⟨quoted, -, hnext⟩
      · obtain ⟨_, _, rfl⟩ := quotedText?_fault hquoted
        cases hreference
      · repeat' split at hnext
        all_goals cases hnext <;> first | rfl | cases hreference
    case _ =>
      cases h
      cases hreference

/-- What is wrong with an operand, if it is about a reference: the number of a string that the file may not
    use, or something that does not exist. -/
theorem operand_fault {kind : OperandKind} {error : Error}
    (h : assembler.operand target line kind token pool = .error error after) (hreference : error.isReference) :
    (∃ id, Text.decimal? 0x100000000 token.toList = some id ∧ ¬ target.allows id ∧
      error = .textOutOfRange line id target.file) ∨
    (error = .unresolvedReference line token ∧
      ∀ id, Text.decimal? 0x100000000 token.toList = some id → ¬ assembler.knowsText pool id) := by
  have hfirst : ∀ {α : Type} {step : Assembly α} {draftOf : α → DraftOperand},
      (do return draftOf (← step) : Assembly DraftOperand) pool = .error error after →
        step pool = .error error after := by
    intro α step draftOf h
    rcases EStateM.bind_eq_error_iff.mp h with hstep | ⟨_, _, -, hdone⟩
    · exact hstep
    · cases hdone
  cases kind with
  | text =>
    have htext := hfirst h
    generalize hstep : assembler.text target line token = step at htext
    unfold Assembler.text at hstep
    split at hstep <;> subst hstep
    · cases htext
    · cases htext
    · obtain ⟨-, _, _, rfl⟩ := newText_eq_error htext
      cases hreference
    · rcases EStateM.bind_eq_error_iff.mp htext with hget | ⟨_, _, hpool, hknown⟩
      · cases hget
      · cases hpool
        exact knownText_fault (check_eq_error_iff.mp hknown).1 hreference
  | byte =>
    obtain ⟨_, _, rfl⟩ := byte_fault (check_eq_error_iff.mp (hfirst h)).1
    cases hreference
  | list =>
    obtain ⟨_, _, rfl⟩ := list_fault (check_eq_error_iff.mp (hfirst h)).1
    cases hreference
  | item =>
    obtain ⟨herror, inner, hinner⟩ := item_fault (check_eq_error_iff.mp (hfirst h)).1 hreference
    refine .inr ⟨herror, fun id hid => ?_⟩
    rw [decimal?_of_between? hinner (by decide) (by decide)] at hid
    cases hid
  | jump =>
    unfold Assembler.operand at h
    dsimp only at h
    cases hvalue : Text.decimal? 0x10000 token.toList <;>
    · rw [hvalue] at h
      cases h
  | _ =>
    rw [operand_word rfl] at h
    cases hvalue : Text.decimal? 0x10000 token.toList <;>
    · rw [hvalue] at h
      cases h <;> cases hreference

end Adventure.Listing
