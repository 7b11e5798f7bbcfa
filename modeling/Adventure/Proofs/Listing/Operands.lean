import Adventure.Proofs.Listing.Parsing
import Adventure.Proofs.Listing.Meaning

namespace Adventure

open Bytes Script Text

namespace Labels

/-- The digits of the name of a label are the number of its command. -/
theorem numeral?_tail_name (ordinal : Nat) : numeral? 10 (name ordinal).tail = some ordinal := by
  have hdigits : ∀ c ∈ (name ordinal).tail, c.isDigit := by
    simp only [name, List.tail_cons, List.leftpad, List.forall_mem_append, List.mem_replicate]
    refine ⟨?_, fun _ => isDigit_of_mem_decimal⟩
    rintro c ⟨-, rfl⟩
    decide
  have hne : (name ordinal).tail ≠ [] := by simp [name, List.leftpad, decimal_ne_nil]
  rw [numeral?_of_isDigit hdigits hne, digits?_ten_of_isDigit hdigits, name, List.tail_cons,
    List.leftpad, Nat.ofDigitChars_append, Nat.ofDigitChars_replicate_zero, Nat.mul_zero, decimal,
    Nat.ofDigitChars_ten_toDigits]

theorem name_injective {m n : Nat} (h : name m = name n) : m = n := by
  have hm := numeral?_tail_name m
  rw [h, numeral?_tail_name] at hm
  exact (Option.some.inj hm).symm

private theorem decimal?_name (bound ordinal : Nat) : decimal? bound (name ordinal) = none := by
  have hdigits : ∀ rest, numeral? 10 ('L' :: rest) = none := fun rest => rfl
  rw [decimal?, name, hdigits]
  rfl

end Labels

namespace Listing

/-- What an operand refers to can be named in a file: the string of a number is known and the file
    may use it, and an item is stored, or is item 0. -/
def Assembler.Resolves (assembler : Assembler) (target : Target) (pool : StringPool) : Operand → Prop
  | .text (.id id) => target.allows id.toNat ∧ assembler.knowsText pool id.toNat
  | .item (.id item) => item ≠ 0 → item.toNat < assembler.symbols.itemCount
  | _ => True

/-- How a printed operand is drafted: a jump with a label as a jump to that label. -/
def Context.draft (context : Context) : Operand → DraftOperand
  | .jump target =>
    match context.labels[target.toNat]? with
    | some ordinal => .label (String.ofList (Labels.name ordinal))
    | none => .known (.jump target)
  | operand => .known operand

namespace Assembler

variable {assembler : Assembler} {target : Target} {line : Nat} {pool after : StringPool}

private theorem head?_decimal {c : Char} (h : c.isDigit = false) (n : Nat) : (decimal n).head? ≠ some c :=
  fun hhead => not_mem_decimal h n (List.mem_of_head? hhead)

private theorem byte_decimal {value : UInt8} (h : value ≠ varMark) :
    byte line (String.ofList (decimal value.toNat)) = .ok (.byte value) := by
  have hmark : value.toNat ≠ varMark.toNat := fun heq => h (UInt8.toNat_inj.mp heq)
  rw [byte, String.toList_ofList, between?_eq_none (head?_decimal (by decide) _)]
  simp [decimal?_decimal value.toNat_lt, hmark]

private theorem byte_brackets (number : UInt8) :
    byte line (String.ofList (['['] ++ decimal number.toNat ++ [']'])) = .ok (.var number) := by
  have hbetween : between? '[' ']' (['['] ++ decimal number.toNat ++ [']']) =
      some (decimal number.toNat) := between?_eq_some_iff.mpr rfl
  rw [byte, String.toList_ofList, hbetween]
  simp [decimal?_decimal number.toNat_lt]

private theorem listValue_decimal {token : String} {value : UInt16} (h : value ≠ listEnd) :
    listValue line token (decimal value.toNat) = .ok value := by
  have htrim : trim (decimal value.toNat) = decimal value.toNat :=
    trim_eq_self fun c hc => not_isBlank_of_isDigit (isDigit_of_mem_decimal hc)
  have hend : value.toNat ≠ listEnd.toNat := fun heq => h (UInt16.toNat_inj.mp heq)
  rw [listValue, htrim, decimal?_decimal value.toNat_lt]
  simp [hend]

private theorem splitOn_commaList (values : List UInt16) :
    ((commaList values).splitOn ',').filter (!·.isEmpty) =
      values.map fun value => decimal value.toNat := by
  cases values with
  | nil => rfl
  | cons value values =>
    rw [commaList, List.splitOn_intercalate, List.filter_eq_self]
    · simp [decimal_ne_nil]
    · simp only [List.mem_map]
      rintro _ ⟨value, -, rfl⟩
      exact not_mem_decimal (by decide) _
    · simp

private theorem list_braces {values : List UInt16} (h : listEnd ∉ values) :
    list line (String.ofList (['\x7b'] ++ commaList values ++ ['\x7d'])) = .ok (.list values) := by
  have hbetween : between? '\x7b' '\x7d' (['\x7b'] ++ commaList values ++ ['\x7d']) =
      some (commaList values) := between?_eq_some_iff.mpr rfl
  rw [list, String.toList_ofList, hbetween]
  dsimp only
  rw [splitOn_commaList, Except.map_eq_ok_iff]
  refine ⟨values, ?_, rfl⟩
  rw [Except.mapM_eq_ok_iff, List.forall₂_map_left_iff, List.forall₂_same]
  exact fun value hvalue => listValue_decimal fun heq => h (heq ▸ hvalue)

private theorem item_special {code : UInt16} {name : String} (h : ItemRef.specialName? code = some name) :
    assembler.item line (String.ofList name.toList) = .ok (.special code) := by
  have hnames : ∀ special ∈ ItemRef.specialItems, special.2.toList.head? = some '$' ∧
      ItemRef.specialCode? special.2 = some special.1 := by decide
  obtain ⟨special, hspecial, rfl⟩ := Option.map_eq_some_iff.mp h
  obtain ⟨hhead, hcode⟩ := hnames special (List.mem_of_find?_eq_some hspecial)
  have hfound : special.1 = code := by simpa using List.find?_some hspecial
  rw [String.ofList_toList, Assembler.item, if_pos hhead, hcode, hfound]

/-- The token of an item is read as the item exactly if there is one. -/
theorem item_brackets_iff {item : UInt32} (hplayer : item ≠ 1) {ref : ItemRef} :
    assembler.item line (String.ofList (['<'] ++ decimal item.toNat ++ ['>'])) = .ok ref ↔
      (item ≠ 0 → item.toNat < assembler.symbols.itemCount) ∧ ref = .id item := by
  have hbetween : between? '<' '>' (['<'] ++ decimal item.toNat ++ ['>']) =
      some (decimal item.toNat) := between?_eq_some_iff.mpr rfl
  have hquoted : quotedText? line (decimal item.toNat) = .ok none :=
    quotedText?_eq_ok_none_iff.mpr (between?_eq_none (head?_decimal (by decide) _))
  have hplayer' : item.toNat ≠ 1 := fun heq => hplayer (UInt32.toNat_inj.mp heq)
  have hzero : item.toNat ≠ 0 ↔ item ≠ 0 := not_congr (UInt32.toNat_inj (b := 0))
  rw [Assembler.item, String.toList_ofList, if_neg (by simp), hbetween]
  dsimp only
  rw [numberedItem, hquoted, Except.bind_eq_ok_iff]
  simp only [Except.ok.injEq, exists_eq_left', decimal?_decimal item.toNat_lt, if_neg hplayer', hzero]
  by_cases hknown : item ≠ 0 → item.toNat < assembler.symbols.itemCount
  · have hnot : ¬(item ≠ 0 ∧ assembler.symbols.itemCount ≤ item.toNat) := by
      rintro ⟨hne, hle⟩
      have := hknown hne
      omega
    rw [and_iff_right hknown, if_neg hnot, UInt32.ofNat_toNat]
    simp only [Except.pure_eq_ok_iff]
    exact eq_comm
  · have hmissing : item ≠ 0 ∧ assembler.symbols.itemCount ≤ item.toNat := by
      simpa using hknown
    simp [if_pos hmissing, hknown, throw, throwThe, MonadExceptOf.throw]

/-- The token of a string is read as the string exactly if the file may use it and it is known. -/
theorem text_decimal_iff {id : UInt32} {ref : TextRef} :
    assembler.text target line (String.ofList (decimal id.toNat)) pool = .ok ref after ↔
      (target.allows id.toNat ∧ assembler.knowsText pool id.toNat) ∧ ref = .id id ∧ after = pool := by
  have hstep : assembler.text target line (String.ofList (decimal id.toNat)) =
      (do check (assembler.knownText target (← get) line (String.ofList (decimal id.toNat)))) := by
    have hminus := head?_decimal (c := '-') (by decide) id.toNat
    have hplus := head?_decimal (c := '+') (by decide) id.toNat
    unfold Assembler.text
    split
    case _ heq => simp_all
    case _ heq => simp_all
    case _ heq => simp_all
    case _ => rfl
  have hquoted : quotedText? line (decimal id.toNat) = .ok none :=
    quotedText?_eq_ok_none_iff.mpr (between?_eq_none (head?_decimal (by decide) _))
  have hknown : assembler.knownText target pool line (String.ofList (decimal id.toNat)) = .ok ref ↔
      (target.allows id.toNat ∧ assembler.knowsText pool id.toNat) ∧ ref = .id id := by
    rw [knownText, String.toList_ofList, hquoted, Except.bind_eq_ok_iff]
    simp only [Except.ok.injEq, exists_eq_left', decimal?_decimal id.toNat_lt]
    by_cases hallows : target.allows id.toNat
    · by_cases hknows : assembler.knowsText pool id.toNat
      · simp only [hallows, hknows, Bool.not_true, Bool.false_eq_true, if_false, Except.pure_eq_ok_iff,
        UInt32.ofNat_toNat, and_self, true_and]
        exact eq_comm
      · simp [hallows, hknows, throw, throwThe, MonadExceptOf.throw, bind, Except.bind]
    · simp [hallows, throw, throwThe, MonadExceptOf.throw, bind, Except.bind]
  rw [hstep, EStateM.bind_eq_ok_iff]
  constructor
  · rintro ⟨_, _, hget, h⟩
    cases hget
    obtain ⟨htext, rfl⟩ := check_eq_ok_iff.mp h
    exact ⟨(hknown.mp htext).1, (hknown.mp htext).2, rfl⟩
  · rintro ⟨hresolves, rfl, rfl⟩
    exact ⟨after, after, rfl, check_eq_ok_iff.mpr ⟨hknown.mpr ⟨hresolves, rfl⟩, rfl⟩⟩

/-- The token of a printed operand is drafted exactly if what it refers to can be named, and then as
    that operand, without a new text. -/
theorem operand_printed_iff {context : Context} {kind : OperandKind} {operand : Operand}
    {bytes : List UInt8} (h : operand.Spelled kind bytes) {draft : DraftOperand} :
    assembler.operand target line kind (String.ofList (context.operand operand)) pool =
        .ok draft after ↔
      assembler.Resolves target pool operand ∧ draft = context.draft operand ∧ after = pool := by
  have hchecked : ∀ {α : Type} {result : Except Error α} {value : α} {draftOf : α → DraftOperand},
      result = .ok value → ((do return draftOf (← check result) : Assembly DraftOperand) pool =
        .ok draft after ↔ draft = draftOf value ∧ after = pool) := by
    intro α result value draftOf hresult
    rw [return_check_eq_ok_iff, hresult]
    simp only [Except.ok.injEq, exists_eq_left']
    exact and_congr eq_comm eq_comm
  have hpure : ∀ {result : DraftOperand}, (pure result : Assembly DraftOperand) pool =
      .ok draft after ↔ draft = result ∧ after = pool := by
    intro result
    rw [EStateM.pure_eq_ok_iff]
    exact and_congr eq_comm eq_comm
  cases h with
  | byte h => exact (hchecked (byte_decimal h)).trans (and_iff_right trivial).symm
  | var number => exact (hchecked (byte_brackets number)).trans (and_iff_right trivial).symm
  | @special code name h =>
    have htoken : context.operand (.item (.special code)) = name.toList := by
      simp only [Context.operand, h]
    rw [htoken]
    exact (hchecked (item_special h)).trans (and_iff_right trivial).symm
  | @item item word h =>
    have hplayer : item ≠ 1 := by
      rintro rfl
      exact ItemRef.ofStored_ne_one word h
    rw [Context.operand, Assembler.operand, return_check_eq_ok_iff]
    simp only [item_brackets_iff hplayer, Resolves, Context.draft]
    constructor
    · rintro ⟨_, ⟨hknown, rfl⟩, rfl, rfl⟩
      exact ⟨hknown, rfl, rfl⟩
    · rintro ⟨hknown, rfl, rfl⟩
      exact ⟨_, ⟨hknown, rfl⟩, rfl, rfl⟩
  | noText =>
    rw [Context.operand, Assembler.operand, Assembler.text, String.toList_ofList]
    exact hpure.trans (and_iff_right trivial).symm
  | chosenText =>
    rw [Context.operand, Assembler.operand, Assembler.text, String.toList_ofList]
    exact hpure.trans (and_iff_right trivial).symm
  | text id =>
    simp only [Context.operand, Assembler.operand, EStateM.bind_eq_ok_iff, text_decimal_iff,
      EStateM.pure_eq_ok_iff, Resolves, Context.draft]
    constructor
    · rintro ⟨_, _, ⟨hresolves, rfl, rfl⟩, rfl, rfl⟩
      exact ⟨hresolves, rfl, rfl⟩
    · rintro ⟨hresolves, rfl, rfl⟩
      exact ⟨_, after, ⟨hresolves, rfl, rfl⟩, rfl, rfl⟩
  | jump target =>
    simp only [Context.operand, Context.draft]
    unfold Assembler.operand
    cases context.labels[target.toNat]? with
    | none =>
      simp only [String.toList_ofList, decimal?_decimal target.toNat_lt, UInt16.ofNat_toNat]
      exact hpure.trans (and_iff_right trivial).symm
    | some ordinal =>
      simp only [String.toList_ofList, Labels.decimal?_name]
      exact hpure.trans (and_iff_right trivial).symm
  | list h => exact (hchecked (list_braces h)).trans (and_iff_right trivial).symm
  | @word kind hkind value =>
    have hstep : ∀ token, assembler.operand target line kind token =
        match decimal? 0x10000 token.toList with
        | some value => return .known (.word kind (UInt16.ofNat value))
        | none => throw (.malformedOperand line token .expectedNumber) := by
      intro token
      cases kind <;> first | rfl | cases hkind
    rw [hstep, Context.operand, String.toList_ofList, decimal?_decimal value.toNat_lt]
    simp only [UInt16.ofNat_toNat]
    exact hpure.trans (and_iff_right trivial).symm

theorem markedOpcode?_marker (opcode : UInt8) :
    markedOpcode? (String.ofList (Context.marker opcode)) = some opcode := by
  have h : ∀ n : Fin 256,
      ((numeral? 16 ((("(0x".toList ++ hexPadded 2 n.val ++ [')']).drop 3).dropLast)).filter
        (· < 0x100)).map UInt8.ofNat = some (UInt8.ofNat n.val) := by
    decide +kernel
  rw [markedOpcode?, String.toList_ofList]
  have hopcode := h ⟨opcode.toNat, opcode.toNat_lt⟩
  rwa [UInt8.ofNat_toNat] at hopcode

end Assembler

end Listing

end Adventure
