import Mathlib.Data.List.Nodup
import Adventure.Instruction.Shipped
import Adventure.Proofs.Listing.Token

namespace Adventure.InstructionSet

open Listing

/-- The opcodes that mnemonics name are found again by their codes, and end no line. -/
def Sound (set : InstructionSet) : Prop :=
  ∀ mnemonic op, set.lookup? mnemonic = some op → set.get? op.code = some op ∧ op.code ≠ endOfLine

/-- A set that scripts can be listed with: each opcode is named by its mnemonic, which is a word
    without blanks, quotes and comments. -/
def Listable (set : InstructionSet) : Prop :=
  ∀ code op, set.get? code = some op →
    set.lookup? op.mnemonic = some op ∧ Plain op.mnemonic.toList

section codes

private theorem map_code_withMnemonics (taken : List String) (definitions : List OpcodeDefinition) :
    (withMnemonics taken definitions).map (·.code) = definitions.map (·.code) := by
  induction definitions generalizing taken with
  | nil => rfl
  | cons definition definitions ih =>
    unfold withMnemonics
    rw [List.map_cons, List.map_cons, ih]

theorem code_of_definition? {layers : List (List OpcodeDefinition)} {code : UInt8}
    {definition : OpcodeDefinition} (h : definition? layers code = some definition) :
    definition.code = code := by
  simpa using List.find?_some h

theorem codes_nodup : codes.Nodup := by
  refine List.Nodup.map_on (fun m hm n hn h => ?_) List.nodup_range
  have hm := List.mem_range.mp hm
  have hn := List.mem_range.mp hn
  have hvalue := congrArg UInt8.toNat h
  rwa [UInt8.toNat_ofNat_of_lt' (by change m < 256; omega),
    UInt8.toNat_ofNat_of_lt' (by change n < 256; omega)] at hvalue

theorem endOfLine_not_mem_codes : endOfLine ∉ codes := by
  intro h
  obtain ⟨n, hn, heq⟩ := List.mem_map.mp h
  have hn := List.mem_range.mp hn
  have hvalue := congrArg UInt8.toNat heq
  rw [UInt8.toNat_ofNat_of_lt' (by change n < 256; omega)] at hvalue
  change n = 255 at hvalue
  omega

theorem map_code_filterMap (layers : List (List OpcodeDefinition)) (within : List UInt8) :
    ((within.filterMap (definition? layers)).map (·.code)).Sublist within := by
  induction within with
  | nil => exact .slnil
  | cons code within ih =>
    rw [List.filterMap_cons]
    cases hdefinition : definition? layers code with
    | none => exact ih.cons _
    | some definition =>
      rw [List.map_cons, code_of_definition? hdefinition]
      exact ih.cons_cons _

/-- The opcodes of a set have different codes, in order. -/
theorem map_code_ofLayers (name : String) (layers : List (List OpcodeDefinition)) :
    ((ofLayers name layers).opcodes.map (·.code)).Sublist codes := by
  rw [ofLayers, map_code_withMnemonics]
  exact map_code_filterMap layers codes

/-- Where no two items share a key, each is found by its own. -/
theorem find?_key {α κ : Type} [DecidableEq κ] {key : α → κ} {items : List α}
    (hnodup : (items.map key).Nodup) {item : α} (h : item ∈ items) :
    items.find? (key · = key item) = some item := by
  rw [List.find?_eq_some_iff_append]
  obtain ⟨before, behind, hitems⟩ := List.append_of_mem h
  refine ⟨by simp, before, behind, hitems, fun other hother => ?_⟩
  rw [hitems, List.map_append, List.nodup_append] at hnodup
  have hne := hnodup.2.2 (key other) (List.mem_map_of_mem hother) (key item) (by simp)
  simp [hne]

/-- Every set that layers make is sound. -/
theorem ofLayers_sound (name : String) (layers : List (List OpcodeDefinition)) :
    (ofLayers name layers).Sound := by
  intro mnemonic op h
  have hmem : op ∈ (ofLayers name layers).opcodes := by
    simpa using List.mem_of_find?_eq_some h
  have hcodes := map_code_ofLayers name layers
  refine ⟨find?_key (hcodes.nodup codes_nodup) hmem, ?_⟩
  rintro hend
  exact endOfLine_not_mem_codes (hend ▸ hcodes.subset (List.mem_map_of_mem hmem))

/-- Every set that comes with a game is made of layers, and so is sound. -/
theorem shipped_sound : ∀ set ∈ shipped, set.Sound := by
  simp only [shipped, List.forall_mem_cons, List.not_mem_nil, false_implies, implies_true, and_true]
  exact ⟨ofLayers_sound _ _, ofLayers_sound _ _, ofLayers_sound _ _, ofLayers_sound _ _,
    ofLayers_sound _ _, ofLayers_sound _ _⟩

end codes

section mnemonics

/-- A name that is spelled like the mnemonic of an opcode without a name. -/
def looksNumbered (name : String) : Bool := ['O', 'P', '_'].isPrefixOf name.toList

/-- The characters from the digits up to the small letters. -/
def nameChar (c : Char) : Bool := 0x30 ≤ c.toNat && c.toNat ≤ 0x7a

private theorem wordChar_of_nameChar {c : Char} (h : nameChar c) : wordChar c := by
  simp only [nameChar, Bool.and_eq_true, decide_eq_true_eq] at h
  have hquote : c ≠ '"' := by
    rintro rfl
    exact absurd h.1 (by decide)
  have hslash : c ≠ '/' := by
    rintro rfl
    exact absurd h.1 (by decide)
  have hblank : Text.isBlank c = false := by
    simp only [Text.isBlank, Bool.or_eq_false_iff, Bool.and_eq_false_iff, decide_eq_false_iff_not,
      beq_eq_false_iff_ne]
    omega
  simp [wordChar, hblank, hquote, hslash]

/-- A definition whose name, if it has one, is a word that does not look numbered. -/
def WellNamed (definition : OpcodeDefinition) : Bool :=
  match definition.name with
  | some name => name ≠ "" && name.toList.all nameChar && !looksNumbered name
  | none => true

private theorem toList_numberedMnemonic (code : UInt8) : (Opcode.numberedMnemonic code).toList =
    'O' :: 'P' :: '_' :: (Text.hexPadded 2 code.toNat).map Char.toUpper := by
  simp [Opcode.numberedMnemonic, Opcode.capitalDigits]

private theorem looksNumbered_numberedMnemonic (code : UInt8) :
    looksNumbered (Opcode.numberedMnemonic code) := by
  simp [looksNumbered, toList_numberedMnemonic]

theorem numberedMnemonic_injective {code other : UInt8}
    (h : Opcode.numberedMnemonic code = Opcode.numberedMnemonic other) : code = other := by
  have hdigits : ∀ n : Fin 256, Text.numeral? 16 ((Text.hexPadded 2 n.val).map Char.toUpper) =
      some n.val := by decide +kernel
  have hcode := hdigits ⟨code.toNat, code.toNat_lt⟩
  have hother := hdigits ⟨other.toNat, other.toNat_lt⟩
  have hlist := congrArg String.toList h
  rw [toList_numberedMnemonic, toList_numberedMnemonic] at hlist
  simp only [List.cons.injEq, true_and] at hlist
  dsimp only at hcode hother
  rw [hlist, hother] at hcode
  exact UInt8.toNat_inj.mp (Option.some.inj hcode).symm

private theorem numberedMnemonic_plain (code : UInt8) : Plain (Opcode.numberedMnemonic code).toList := by
  have hdigits : ∀ n : Fin 256, ((Text.hexPadded 2 n.val).map Char.toUpper).all wordChar := by
    decide +kernel
  rw [toList_numberedMnemonic]
  refine plain_of_wordChar (List.cons_ne_nil _ _) ?_
  simp only [List.forall_mem_cons]
  exact ⟨by decide, by decide, by decide, List.all_eq_true.mp (hdigits ⟨code.toNat, code.toNat_lt⟩)⟩

variable {definitions : List OpcodeDefinition}

private theorem wellNamed_name {definition : OpcodeDefinition} (h : WellNamed definition) {name : String}
    (hname : definition.name = some name) : Plain name.toList ∧ looksNumbered name = false := by
  simp only [WellNamed, hname, Bool.and_eq_true, decide_eq_true_eq, List.all_eq_true,
    Bool.not_eq_true'] at h
  obtain ⟨⟨hne, hchars⟩, hlooks⟩ := h
  have hne : name.toList ≠ [] := by simpa using hne
  exact ⟨plain_of_wordChar hne fun c hc => wordChar_of_nameChar (hchars c hc), hlooks⟩

/-- Each opcode has its name or its numbered mnemonic. -/
theorem mnemonic_plain {taken : List String} (h : ∀ definition ∈ definitions, WellNamed definition) :
    ∀ op ∈ withMnemonics taken definitions, Plain op.mnemonic.toList := by
  induction definitions generalizing taken with
  | nil => simp [withMnemonics]
  | cons definition definitions ih =>
    obtain ⟨hnamed, hrest⟩ := List.forall_mem_cons.mp h
    unfold withMnemonics
    refine List.forall_mem_cons.mpr ⟨?_, ih hrest⟩
    dsimp only
    split
    · exact numberedMnemonic_plain _
    · cases hname : definition.name with
      | none => exact numberedMnemonic_plain _
      | some name => exact (wellNamed_name hnamed hname).1

/-- Mnemonics are all different where no name looks numbered. -/
theorem mnemonics_nodup {taken : List String}
    (h : ∀ definition ∈ definitions, WellNamed definition)
    (hcodes : (definitions.map (·.code)).Nodup)
    (htaken : ∀ definition ∈ definitions, Opcode.numberedMnemonic definition.code ∉ taken) :
    ((withMnemonics taken definitions).map (·.mnemonic)).Nodup ∧
      ∀ op ∈ withMnemonics taken definitions, op.mnemonic ∉ taken := by
  induction definitions generalizing taken with
  | nil => simp [withMnemonics]
  | cons definition definitions ih =>
    obtain ⟨hnamed, hrest⟩ := List.forall_mem_cons.mp h
    obtain ⟨hfresh, hfreshRest⟩ := List.forall_mem_cons.mp htaken
    rw [List.map_cons, List.nodup_cons] at hcodes
    unfold withMnemonics
    dsimp only
    generalize hmnemonic : (if definition.name.getD (Opcode.numberedMnemonic definition.code) ∈ taken
      then Opcode.numberedMnemonic definition.code
      else definition.name.getD (Opcode.numberedMnemonic definition.code)) = mnemonic
    have hnew : mnemonic ∉ taken := by
      rw [← hmnemonic]
      split
      · exact hfresh
      · assumption
    have hlater : ∀ later ∈ definitions, Opcode.numberedMnemonic later.code ≠ mnemonic := by
      intro later hmem heq
      have hne : later.code ≠ definition.code := fun hcode =>
        hcodes.1 (hcode ▸ List.mem_map_of_mem hmem)
      have hself : mnemonic ≠ Opcode.numberedMnemonic definition.code := fun hself =>
        hne (numberedMnemonic_injective (heq.trans hself))
      rw [← hmnemonic] at heq hself
      split at heq
      · exact hself (if_pos ‹_›)
      · cases hname : definition.name with
        | none =>
          rw [hname] at heq
          exact hne (numberedMnemonic_injective heq)
        | some name =>
          rw [hname] at heq
          have hlooks := looksNumbered_numberedMnemonic later.code
          rw [heq, Option.getD_some, (wellNamed_name hnamed hname).2] at hlooks
          cases hlooks
    obtain ⟨hnodup, hdisjoint⟩ := ih hrest hcodes.2
      fun later hmem hcontra => by
        rcases List.mem_cons.mp hcontra with heq | hcontra
        · exact hlater later hmem heq
        · exact hfreshRest later hmem hcontra
    refine ⟨List.nodup_cons.mpr ⟨fun hcontra => ?_, hnodup⟩, List.forall_mem_cons.mpr ⟨hnew, ?_⟩⟩
    · obtain ⟨op, hop, heq⟩ := List.mem_map.mp hcontra
      exact hdisjoint op hop (heq ▸ List.mem_cons_self)
    · exact fun op hop hcontra => hdisjoint op hop (List.mem_cons_of_mem _ hcontra)

/-- Layers of well named definitions make a set that scripts can be listed with. -/
theorem ofLayers_listable (name : String) {layers : List (List OpcodeDefinition)}
    (h : ∀ layer ∈ layers, ∀ definition ∈ layer, WellNamed definition) :
    (ofLayers name layers).Listable := by
  have hnamed : ∀ definition ∈ codes.filterMap (definition? layers), WellNamed definition := by
    intro definition hmem
    obtain ⟨code, -, hfound⟩ := List.mem_filterMap.mp hmem
    obtain ⟨layer, hlayer, hdefinition⟩ := List.mem_flatten.mp
      (List.mem_reverse.mp (List.mem_of_find?_eq_some hfound))
    exact h layer hlayer definition hdefinition
  have hcodes := (map_code_filterMap layers codes).nodup codes_nodup
  have hnodup : ((ofLayers name layers).opcodes.map (·.mnemonic)).Nodup :=
    (mnemonics_nodup hnamed hcodes (by simp)).1
  intro code op hop
  have hmem : op ∈ (ofLayers name layers).opcodes := List.mem_of_find?_eq_some hop
  refine ⟨?_, mnemonic_plain hnamed op hmem⟩
  refine find?_key ?_ (List.mem_reverse.mpr hmem)
  rw [List.map_reverse]
  exact List.nodup_reverse.mpr hnodup

/-- Every set that comes with a game can be used to list scripts. -/
theorem shipped_listable : ∀ set ∈ shipped, set.Listable := by
  have hlayers : ∀ layer ∈ [simonLayer, talkieLayer, waxworksLayer, simon2Layer, feebleLayer],
      ∀ definition ∈ layer, WellNamed definition := by decide +kernel
  have hset : ∀ name layers, (∀ layer ∈ layers, layer ∈
      [simonLayer, talkieLayer, waxworksLayer, simon2Layer, feebleLayer]) →
      (ofLayers name layers).Listable := fun name layers hsubset =>
    ofLayers_listable name fun layer hlayer => hlayers layer (hsubset layer hlayer)
  simp only [shipped, List.forall_mem_cons, List.not_mem_nil, false_implies, implies_true, and_true]
  refine ⟨hset _ _ ?_, hset _ _ ?_, hset _ _ ?_, hset _ _ ?_, hset _ _ ?_, hset _ _ ?_⟩ <;> simp

end mnemonics

end Adventure.InstructionSet
