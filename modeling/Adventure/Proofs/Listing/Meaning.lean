import Adventure.Proofs.Listing.Layout
import Adventure.Proofs.Listing.References
import Adventure.Proofs.Listing.Token
import Adventure.Proofs.Script.Writing

namespace Adventure.Listing

open Bytes Script

namespace Assembler

/-- The operand that a token denotes where an operand of a kind is expected, when `pool` holds the
    declared texts. -/
inductive Denotes (assembler : Assembler) (target : Target) (pool : StringPool) :
    OperandKind → String → Operand → Prop
  | byte {token : String} {value : Nat} (h : Text.decimal? 0x100 token.toList = some value)
      (hmark : value ≠ varMark.toNat) : Denotes assembler target pool .byte token (.byte (.ofNat value))
  | var {token : String} {inner : List Char} {number : Nat} (h : token.toList = '[' :: inner ++ [']'])
      (hnumber : Text.decimal? 0x100 inner = some number) :
      Denotes assembler target pool .byte token (.var (.ofNat number))
  | word {kind : OperandKind} {token : String} {value : Nat} (hkind : kind.isWord)
      (h : Text.decimal? 0x10000 token.toList = some value) :
      Denotes assembler target pool kind token (.word kind (.ofNat value))
  | position {token : String} {value : Nat} (h : Text.decimal? 0x10000 token.toList = some value) :
      Denotes assembler target pool .jump token (.jump (.ofNat value))
  | noText : Denotes assembler target pool .text "-1" (.text .none)
  | chosenText : Denotes assembler target pool .text "-3" (.text .special)
  /-- A declared text, by its place in the pool. -/
  | newText {token : String} {inner text : List Char} {index : Nat}
      (h : token.toList = '+' :: '"' :: inner ++ ['"']) (htext : Strings.unescape inner = .ok text)
      (hindex : pool.added.idxOf? (String.ofList text) = some index) :
      Denotes assembler target pool .text token (.text (.id (.ofNat (pool.first + index))))
  /-- A quoted text: the lowest string that has it and that the file may use. -/
  | quotedText {token : String} {inner text : List Char} {id : Nat}
      (h : token.toList = '"' :: inner ++ ['"']) (htext : Strings.unescape inner = .ok text)
      (hid : assembler.symbols.text? id = some (String.ofList text)) (hallows : target.allows id)
      (hlowest : ∀ other < id, target.allows other →
        assembler.symbols.text? other ≠ some (String.ofList text)) :
      Denotes assembler target pool .text token (.text (.id (.ofNat id)))
  | numberedText {token : String} {id : Nat}
      (h : Text.decimal? 0x100000000 token.toList = some id) (hallows : target.allows id) :
      Denotes assembler target pool .text token (.text (.id (.ofNat id)))
  | specialItem {code : UInt16} {token : String} (h : (code, token) ∈ ItemRef.specialItems) :
      Denotes assembler target pool .item token (.item (.special code))
  /-- An item by its name, which no other item has. -/
  | namedItem {token : String} {inner name : List Char} {item : Nat}
      (h : token.toList = '<' :: '"' :: inner ++ ['"', '>']) (hname : Strings.unescape inner = .ok name)
      (hitem : ∀ other, assembler.symbols.itemName? other = some (String.ofList name) ↔ other = item) :
      Denotes assembler target pool .item token (.item (.id (.ofNat item)))
  | numberedItem {token : String} {inner : List Char} {item : Nat}
      (h : token.toList = '<' :: inner ++ ['>']) (hitem : Text.decimal? 0x100000000 inner = some item)
      (hplayer : item ≠ 1) : Denotes assembler target pool .item token (.item (.id (.ofNat item)))
  | list {token : String} {inner : List Char} {values : List UInt16}
      (h : token.toList = '\x7b' :: inner ++ ['\x7d'])
      (hvalues : List.Forall₂ (fun field value => ∃ n, Text.decimal? 0x10000 (Text.trim field) = some n ∧
        value = .ofNat n) ((inner.splitOn ',').filter (!·.isEmpty)) values)
      (hend : listEnd ∉ values) : Denotes assembler target pool .list token (.list values)

/-- The bytes that an operand from a text is stored as spell it. -/
theorem Denotes.spelled {assembler : Assembler} {target : Target} {pool : StringPool}
    {kind : OperandKind} {token : String} {operand : Operand} {bytes : List UInt8}
    (h : assembler.Denotes target pool kind token operand) (hbytes : operand.toBytes = .ok bytes) :
    operand.Spelled kind bytes := by
  have hitem : ∀ item : UInt32, (Operand.item (.id item)).toBytes = .ok bytes →
      (Operand.item (.id item)).Spelled .item bytes := by
    intro item hstored
    simp only [Operand.toBytes, ItemRef.toBytes] at hstored
    cases hword : ItemRef.stored? item with
    | none =>
      rw [hword] at hstored
      cases hstored
    | some stored =>
      obtain ⟨word, hitem, rfl⟩ := ItemRef.stored?_eq_some hword
      rw [hword] at hstored
      cases hstored
      exact .item hitem
  cases h with
  | byte h hmark =>
    cases hbytes
    refine .byte fun heq => hmark ?_
    rw [← heq, UInt8.toNat_ofNat_of_lt' (Text.decimal?_eq_some_lt h)]
  | var =>
    cases hbytes
    exact .var _
  | word hkind =>
    cases hbytes
    exact .word hkind _
  | position =>
    cases hbytes
    exact .jump _
  | noText =>
    cases hbytes
    exact .noText
  | chosenText =>
    cases hbytes
    exact .chosenText
  | newText =>
    cases hbytes
    exact .text _
  | quotedText =>
    cases hbytes
    exact .text _
  | numberedText =>
    cases hbytes
    exact .text _
  | @specialItem code _ h =>
    cases hbytes
    have hnamed : ∀ special ∈ ItemRef.specialItems,
        ItemRef.specialName? special.1 = some special.2 := by decide
    exact .special (hnamed (code, token) h)
  | namedItem => exact hitem _ hbytes
  | numberedItem => exact hitem _ hbytes
  | list h hvalues hend =>
    cases hbytes
    exact .list hend

/-- What an operand refers to exists: a string of its number, declared ones included, and an item that
    has a name or a number in use, if it is one at all. -/
def Refers (assembler : Assembler) (pool : StringPool) : Operand → Prop
  | .text (.id id) => ∃ n, id = .ofNat n ∧ assembler.knowsText pool n
  | .item (.id item) => ∃ n, item = .ofNat n ∧ ((assembler.symbols.itemName? n).isSome ∨ n = 0 ∨
      1 < n ∧ n < assembler.symbols.itemCount)
  | _ => True

variable {assembler : Assembler} {target : Target} {line : Nat} {token : String}
  {pool after : StringPool}

/-- A string that exists does so too when more are declared. -/
theorem knowsText_mono {final : StringPool} (h : pool.Extends final) {id : Nat}
    (hid : assembler.knowsText pool id) : assembler.knowsText final id := by
  rw [knowsText, Bool.or_eq_true] at hid ⊢
  refine hid.imp_right fun hpool => ?_
  obtain ⟨text, htext⟩ := Option.isSome_iff_exists.mp hpool
  rw [h.get? htext]
  rfl

theorem Refers.mono {final : StringPool} (h : pool.Extends final) {operand : Operand}
    (hrefers : assembler.Refers pool operand) : assembler.Refers final operand := by
  cases operand with
  | text ref =>
    cases ref with
    | id id =>
      obtain ⟨n, rfl, hknown⟩ := hrefers
      exact ⟨n, rfl, knowsText_mono h hknown⟩
    | _ => trivial
  | item ref =>
    cases ref with
    | id item => exact hrefers
    | _ => trivial
  | _ => trivial

private theorem byte_eq_ok {operand : Operand} (h : byte line token = .ok operand) :
    assembler.Denotes target pool .byte token operand ∧ assembler.Refers pool operand := by
  unfold byte at h
  split at h
  case _ number hbetween =>
    rw [between?_eq_some_iff] at hbetween
    split at h
    case _ hnumber =>
      cases h
      exact ⟨.var hbetween hnumber, trivial⟩
    case _ => cases h
  case _ =>
    split at h
    case _ value hvalue =>
      split at h
      · cases h
      case _ hmark =>
        cases h
        exact ⟨.byte hvalue hmark, trivial⟩
    case _ => cases h

private theorem listValue_eq_ok {field : List Char} {value : UInt16}
    (h : listValue line token field = .ok value) : value ≠ listEnd ∧
      ∃ n, Text.decimal? 0x10000 (Text.trim field) = some n ∧ value = .ofNat n := by
  unfold listValue at h
  split at h
  case _ n hn =>
    split at h
    · cases h
    case _ hend =>
      cases h
      refine ⟨fun heq => hend ?_, n, hn, rfl⟩
      rw [← heq, UInt16.toNat_ofNat_of_lt' (Text.decimal?_eq_some_lt hn)]
  case _ => cases h

private theorem list_eq_ok {operand : Operand} (h : list line token = .ok operand) :
    assembler.Denotes target pool .list token operand ∧ assembler.Refers pool operand := by
  unfold list at h
  split at h
  case _ inner hbetween =>
    rw [between?_eq_some_iff] at hbetween
    obtain ⟨values, hvalues, rfl⟩ := Except.map_eq_ok_iff.mp h
    rw [Except.mapM_eq_ok_iff] at hvalues
    refine ⟨.list hbetween (hvalues.imp fun _ _ hvalue => (listValue_eq_ok hvalue).2) ?_, trivial⟩
    intro hend
    obtain ⟨field, -, hfield⟩ := forall₂_exists_left hvalues hend
    exact (listValue_eq_ok hfield).1 rfl
  case _ => cases h

private theorem numberedItem_eq_ok {ref : ItemRef} {inner : List Char}
    (hbetween : token.toList = ['<'] ++ inner ++ ['>'])
    (h : assembler.numberedItem line token inner = .ok ref) :
    assembler.Denotes target pool .item token (.item ref) ∧ assembler.Refers pool (.item ref) := by
  obtain ⟨quoted, hquoted, h⟩ := Except.bind_eq_ok_iff.mp h
  cases quoted with
  | some name =>
    obtain ⟨escaped, rfl, hname⟩ := quotedText?_eq_ok_some_iff.mp hquoted
    dsimp only at h
    split at h
    · cases h
    case _ item hitem =>
      cases h
      have hnamed := Symbols.itemName?_iff_of_findItems hitem
      refine ⟨.namedItem (by simpa using hbetween) hname hnamed, item, rfl, .inl ?_⟩
      rw [(hnamed item).mpr rfl]
      rfl
    · cases h
  | none =>
    dsimp only at h
    split at h
    · cases h
    case _ item hitem =>
      split at h
      · cases h
      case _ hplayer =>
        split at h
        · cases h
        case _ hused =>
          cases h
          refine ⟨.numberedItem hbetween hitem hplayer, item, rfl, .inr ?_⟩
          omega

private theorem item_eq_ok {ref : ItemRef} (h : assembler.item line token = .ok ref) :
    assembler.Denotes target pool .item token (.item ref) ∧ assembler.Refers pool (.item ref) := by
  unfold Assembler.item at h
  split at h
  case _ =>
    split at h
    case _ code hcode =>
      cases h
      obtain ⟨special, hspecial, rfl⟩ := Option.map_eq_some_iff.mp hcode
      have hname : special.2 = token := by simpa using List.find?_some hspecial
      exact ⟨.specialItem (hname ▸ List.mem_of_find?_eq_some hspecial), trivial⟩
    case _ => cases h
  case _ =>
    split at h
    case _ inner hbetween =>
      exact numberedItem_eq_ok (between?_eq_some_iff.mp hbetween) h
    case _ => cases h

theorem newText_eq_ok {declared : List Char} {ref : TextRef}
    (h : newText line token declared pool = .ok ref after) :
    ∃ inner text id, declared = '"' :: inner ++ ['"'] ∧ Strings.unescape inner = .ok text ∧
      pool.add (String.ofList text) = some (id, after) ∧ ref = .id (.ofNat id) := by
  obtain ⟨quoted, _, hchecked, hnext⟩ := EStateM.bind_eq_ok_iff.mp h
  obtain ⟨hquoted, rfl⟩ := check_eq_ok_iff.mp hchecked
  cases quoted with
  | none => cases hnext
  | some text =>
    obtain ⟨inner, rfl, htext⟩ := quotedText?_eq_ok_some_iff.mp hquoted
    obtain ⟨_, _, hpool, hadded⟩ := EStateM.bind_eq_ok_iff.mp hnext
    cases hpool
    cases hadd : pool.add (String.ofList text) with
    | none =>
      simp only [hadd] at hadded
      cases hadded
    | some added =>
      obtain ⟨id, pool'⟩ := added
      simp only [hadd] at hadded
      obtain ⟨_, _, hset, hresult⟩ := EStateM.bind_eq_ok_iff.mp hadded
      cases hset
      cases hresult
      exact ⟨inner, text, id, rfl, htext, hadd, rfl⟩

private theorem knownText_eq_ok {ref : TextRef} (h : assembler.knownText target pool line token = .ok ref)
    (hextends : pool.Extends after) :
    assembler.Denotes target after .text token (.text ref) ∧ assembler.Refers after (.text ref) := by
  obtain ⟨quoted, hquoted, h⟩ := Except.bind_eq_ok_iff.mp h
  cases quoted with
  | some text =>
    obtain ⟨inner, hinner, htext⟩ := quotedText?_eq_ok_some_iff.mp hquoted
    dsimp only at h
    split at h
    case _ id hid =>
      cases h
      obtain ⟨hid, hallows, hlowest⟩ := Symbols.findText?_eq_some hid
      refine ⟨.quotedText hinner htext hid hallows hlowest, id, rfl, ?_⟩
      rw [knowsText, hid]
      rfl
    case _ => cases h
  | none =>
    dsimp only at h
    split at h
    · cases h
    case _ id hid =>
      split at h
      · cases h
      case _ hallows =>
        split at h
        · cases h
        case _ hknown =>
          cases h
          exact ⟨.numberedText hid (by simpa using hallows), id, rfl,
            knowsText_mono hextends (by simpa using hknown)⟩

private theorem text_eq_ok {ref : TextRef} (h : assembler.text target line token pool = .ok ref after) :
    pool.Extends after ∧ ∀ final, after.Extends final →
      assembler.Denotes target final .text token (.text ref) ∧ assembler.Refers final (.text ref) := by
  generalize hstep : assembler.text target line token = step at h
  unfold Assembler.text at hstep
  split at hstep <;> subst hstep
  case _ htoken =>
    cases h
    obtain rfl : token = "-1" := by rw [← String.toList_inj, htoken]; rfl
    exact ⟨.refl _, fun _ _ => ⟨.noText, trivial⟩⟩
  case _ htoken =>
    cases h
    obtain rfl : token = "-3" := by rw [← String.toList_inj, htoken]; rfl
    exact ⟨.refl _, fun _ _ => ⟨.chosenText, trivial⟩⟩
  case _ declared htoken =>
    obtain ⟨inner, text, _, rfl, htext, hadd, rfl⟩ := newText_eq_ok h
    obtain ⟨hextends, index, hindex, rfl⟩ := StringPool.add_eq_some hadd
    refine ⟨hextends, fun final hfinal => ?_⟩
    have hplace := hfinal.idxOf? hindex
    rw [← hfinal.first]
    refine ⟨.newText (by simpa using htoken) htext hplace, _, rfl, ?_⟩
    rw [knowsText, StringPool.get?_of_idxOf? hplace, Option.isSome_some, Bool.or_true]
  case _ =>
    obtain ⟨_, _, hpool, h⟩ := EStateM.bind_eq_ok_iff.mp h
    cases hpool
    obtain ⟨hknown, rfl⟩ := check_eq_ok_iff.mp h
    exact ⟨.refl _, fun _ hfinal => knownText_eq_ok hknown hfinal⟩

theorem operand_word {kind : OperandKind} (hkind : kind.isWord) :
    assembler.operand target line kind token =
      match Text.decimal? 0x10000 token.toList with
      | some value => return .known (.word kind (UInt16.ofNat value))
      | none => throw (.malformedOperand line token .expectedNumber) := by
  cases kind <;> first | rfl | cases hkind

/-- An operand is drafted as a jump to a label only if its token is no number; else it is what the
    token denotes and refers to what exists, however the pool goes on. -/
theorem operand_eq_ok {kind : OperandKind} {draft : DraftOperand}
    (h : assembler.operand target line kind token pool = .ok draft after) :
    pool.Extends after ∧
      ((kind = .jump ∧ Text.decimal? 0x10000 token.toList = none ∧ draft = .label token) ∨
        ∃ operand, draft = .known operand ∧ ∀ final, after.Extends final →
          assembler.Denotes target final kind token operand ∧ assembler.Refers final operand) := by
  have hword : kind.isWord → pool.Extends after ∧ ∃ operand, draft = .known operand ∧
      ∀ final, after.Extends final →
        assembler.Denotes target final kind token operand ∧ assembler.Refers final operand := by
    intro hkind
    rw [operand_word hkind] at h
    cases hvalue : Text.decimal? 0x10000 token.toList with
    | none =>
      rw [hvalue] at h
      cases h
    | some value =>
      rw [hvalue] at h
      cases h
      exact ⟨.refl _, _, rfl, fun _ _ => ⟨.word hkind hvalue, trivial⟩⟩
  cases kind with
  | byte =>
    obtain ⟨operand, hoperand, rfl, rfl⟩ := return_check_eq_ok_iff.mp h
    exact ⟨.refl _, .inr ⟨operand, rfl, fun _ _ => byte_eq_ok hoperand⟩⟩
  | item =>
    obtain ⟨ref, href, rfl, rfl⟩ := return_check_eq_ok_iff.mp h
    exact ⟨.refl _, .inr ⟨_, rfl, fun _ _ => item_eq_ok href⟩⟩
  | text =>
    obtain ⟨ref, _, href, hdraft⟩ := EStateM.bind_eq_ok_iff.mp h
    cases hdraft
    obtain ⟨hextends, hdenotes⟩ := text_eq_ok href
    exact ⟨hextends, .inr ⟨_, rfl, hdenotes⟩⟩
  | list =>
    obtain ⟨operand, hoperand, rfl, rfl⟩ := return_check_eq_ok_iff.mp h
    exact ⟨.refl _, .inr ⟨operand, rfl, fun _ _ => list_eq_ok hoperand⟩⟩
  | jump =>
    unfold Assembler.operand at h
    dsimp only at h
    cases hvalue : Text.decimal? 0x10000 token.toList with
    | none =>
      rw [hvalue] at h
      cases h
      exact ⟨.refl _, .inl ⟨rfl, rfl, rfl⟩⟩
    | some value =>
      rw [hvalue] at h
      cases h
      exact ⟨.refl _, .inr ⟨_, rfl, fun _ _ => ⟨.position hvalue, trivial⟩⟩⟩
  | _ =>
    obtain ⟨hextends, hdenotes⟩ := hword rfl
    exact ⟨hextends, .inr hdenotes⟩

end Assembler

end Adventure.Listing
