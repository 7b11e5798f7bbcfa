import Adventure.Proofs.Instruction.Layer

namespace Adventure

/-- What a layer has said of an opcode. -/
def Opcode.definition (op : Opcode) : OpcodeDefinition := ⟨op.code, op.name, op.shape⟩

namespace InstructionSet

/-- An opcode of the set that is written with a word. -/
def Writes (set : InstructionSet) (op : Opcode) (word : String) : Prop :=
  set.get? op.code = some op ∧ op.mnemonic = word

/-- No opcode is called by the number of a later one that is written with it. -/
def NumbersFree (set : InstructionSet) : Prop :=
  ∀ earlier later, set.get? earlier.code = some earlier → set.get? later.code = some later →
    earlier.code < later.code → earlier.name = some (Opcode.numberedMnemonic later.code) →
      later.mnemonic ≠ Opcode.numberedMnemonic later.code

variable {name : String} {layers : List (List OpcodeDefinition)} {definitions : List OpcodeDefinition}
  {front back : List Opcode} {op other : Opcode}

/-- The last item of a kind: none of that kind stands behind it. -/
theorem find?_reverse_eq_some_iff {α : Type} {p : α → Bool} {items : List α} {item : α} :
    items.reverse.find? p = some item ↔ p item ∧
      ∃ before after, items = before ++ item :: after ∧ ∀ later ∈ after, p later = false := by
  rw [List.find?_eq_some_iff_append]
  refine and_congr_right fun _ => ⟨?_, ?_⟩
  · rintro ⟨after, before, hitems, hafter⟩
    refine ⟨before.reverse, after.reverse, ?_, fun later hlater => ?_⟩
    · rw [← List.reverse_reverse items, hitems]
      simp
    · simpa using hafter later (List.mem_reverse.mp hlater)
  · rintro ⟨before, after, rfl, hafter⟩
    refine ⟨after.reverse, before.reverse, by simp, fun later hlater => ?_⟩
    simpa using hafter later (List.mem_reverse.mp hlater)

section definitions

private theorem mem_codes_iff {code : UInt8} : code ∈ codes ↔ code ≠ endOfLine := by
  constructor
  · rintro hmem rfl
    exact endOfLine_not_mem_codes hmem
  · intro hne
    have hlt := code.toNat_lt
    have hvalue : code.toNat ≠ 255 := fun heq => hne (UInt8.toNat_inj.mp heq)
    exact List.mem_map.mpr ⟨code.toNat, List.mem_range.mpr (by omega), UInt8.ofNat_toNat⟩

private theorem map_definition_withMnemonics (taken : List String) (definitions : List OpcodeDefinition) :
    (withMnemonics taken definitions).map Opcode.definition = definitions := by
  induction definitions generalizing taken with
  | nil => rfl
  | cons definition definitions ih =>
    unfold withMnemonics
    rw [List.map_cons, ih]
    rfl

/-- The opcode of a code is what the last definition of the code says. The end mark has none. -/
theorem map_definition_get?_iff {code : UInt8} {definition : OpcodeDefinition} :
    ((ofLayers name layers).get? code).map Opcode.definition = some definition ↔
      code ≠ endOfLine ∧ definition.code = code ∧ ∃ before after,
        layers.flatten = before ++ definition :: after ∧ ∀ later ∈ after, later.code ≠ code := by
  have hfind : ((ofLayers name layers).get? code).map Opcode.definition =
      (codes.filterMap (definition? layers)).find? (·.code = code) := by
    rw [← map_definition_withMnemonics [] (codes.filterMap (definition? layers)), List.find?_map]
    rfl
  have hlast : definition? layers code = some definition ↔ definition.code = code ∧ ∃ before after,
      layers.flatten = before ++ definition :: after ∧ ∀ later ∈ after, later.code ≠ code := by
    rw [definition?, find?_reverse_eq_some_iff]
    simp only [decide_eq_true_eq, decide_eq_false_iff_not, ne_eq]
  rw [hfind, ← hlast, ← mem_codes_iff]
  constructor
  · intro h
    obtain ⟨listed, hlisted, hdefinition⟩ := List.mem_filterMap.mp (List.mem_of_find?_eq_some h)
    have hcode : definition.code = code := by simpa using List.find?_some h
    obtain rfl : listed = code := (code_of_definition? hdefinition).symm.trans hcode
    exact ⟨hlisted, hdefinition⟩
  · rintro ⟨hlisted, hdefinition⟩
    have hnodup := (map_code_filterMap layers codes).nodup codes_nodup
    have hmem : definition ∈ codes.filterMap (definition? layers) :=
      List.mem_filterMap.mpr ⟨code, hlisted, hdefinition⟩
    have hfound := find?_key hnodup hmem
    rwa [code_of_definition? hdefinition] at hfound

end definitions

section order

private theorem pairwise_codes : codes.Pairwise (· < ·) := by
  refine List.pairwise_map.mpr (List.pairwise_lt_range.imp_of_mem fun {m n} hm hn hlt => ?_)
  have hm := List.mem_range.mp hm
  have hn := List.mem_range.mp hn
  rw [UInt8.lt_iff_toNat_lt, UInt8.toNat_ofNat_of_lt' (by change m < 256; omega),
    UInt8.toNat_ofNat_of_lt' (by change n < 256; omega)]
  exact hlt

private theorem pairwise_opcodes (name : String) (layers : List (List OpcodeDefinition)) :
    (ofLayers name layers).opcodes.Pairwise (·.code < ·.code) :=
  List.pairwise_map.mp (pairwise_codes.sublist (map_code_ofLayers name layers))

private theorem mem_opcodes_iff :
    op ∈ (ofLayers name layers).opcodes ↔ (ofLayers name layers).get? op.code = some op :=
  ⟨find?_key ((map_code_ofLayers name layers).nodup codes_nodup), List.mem_of_find?_eq_some⟩

/-- Codes are smaller before an opcode and larger behind it. -/
theorem code_order (h : (ofLayers name layers).opcodes = front ++ op :: back) :
    (∀ earlier ∈ front, earlier.code < op.code) ∧ ∀ later ∈ back, op.code < later.code := by
  have hpairs := pairwise_opcodes name layers
  rw [h, List.pairwise_append, List.pairwise_cons] at hpairs
  obtain ⟨-, ⟨hback, -⟩, hfront⟩ := hpairs
  exact ⟨fun earlier hearlier => hfront earlier hearlier op List.mem_cons_self, hback⟩

/-- An opcode with a smaller code is one before. -/
theorem mem_front_of_lt (h : (ofLayers name layers).opcodes = front ++ op :: back)
    (hother : other ∈ (ofLayers name layers).opcodes) (hlt : other.code < op.code) : other ∈ front := by
  rw [h, List.mem_append, List.mem_cons] at hother
  rcases hother with hmem | rfl | hmem
  · exact hmem
  · exact absurd hlt (UInt8.lt_irrefl _)
  · exact absurd (UInt8.lt_trans hlt ((code_order h).2 other hmem)) (UInt8.lt_irrefl _)

end order

section words

/-- An opcode gets the word that it asks for, unless an opcode before it has that one. -/
theorem mnemonic_of_withMnemonics {taken : List String}
    (h : withMnemonics taken definitions = front ++ op :: back) :
    op.mnemonic = if wantedMnemonic op.definition ∈ front.map (·.mnemonic) ∨
      wantedMnemonic op.definition ∈ taken then Opcode.numberedMnemonic op.code
      else wantedMnemonic op.definition := by
  induction definitions generalizing taken front with
  | nil => simp [withMnemonics] at h
  | cons definition definitions ih =>
    unfold withMnemonics at h
    cases front with
    | nil =>
      obtain ⟨rfl, -⟩ := List.cons.inj h
      simp [wantedMnemonic, Opcode.definition]
    | cons first front =>
      obtain ⟨rfl, hrest⟩ := List.cons.inj h
      rw [ih hrest]
      simp only [List.map_cons, List.mem_cons]
      congr 1
      simp only [eq_iff_iff]
      tauto

/-- Two opcodes that share a word: the later one is written with its number, by which the earlier is called. -/
theorem numbered_of_shared (h : (ofLayers name layers).opcodes = front ++ op :: back)
    (hother : other ∈ front) (hshared : other.mnemonic = op.mnemonic) :
    op.mnemonic = Opcode.numberedMnemonic op.code ∧
      other.name = some (Opcode.numberedMnemonic op.code) := by
  have hop := mnemonic_of_withMnemonics h
  have hmem : op.mnemonic ∈ front.map (·.mnemonic) := hshared ▸ List.mem_map_of_mem hother
  have hnumbered : op.mnemonic = Opcode.numberedMnemonic op.code := by
    split at hop
    · exact hop
    case _ hfree => exact absurd (.inl (hop ▸ hmem)) hfree
  refine ⟨hnumbered, ?_⟩
  have hmem : other ∈ (ofLayers name layers).opcodes := h ▸ List.mem_append_left _ hother
  have hlt := (code_order h).1 other hother
  obtain ⟨before, after, hsplit⟩ := List.append_of_mem hmem
  have hword := mnemonic_of_withMnemonics hsplit
  have hne : Opcode.numberedMnemonic op.code ≠ Opcode.numberedMnemonic other.code := fun heq =>
    UInt8.ne_of_lt hlt (numberedMnemonic_injective heq).symm
  rw [hshared, hnumbered] at hword
  split at hword
  · exact absurd hword hne
  · unfold wantedMnemonic Opcode.definition at hword
    dsimp only at hword
    cases hname : other.name with
    | none =>
      rw [hname] at hword
      exact absurd hword hne
    | some called =>
      rw [hname, Option.getD_some] at hword
      rw [hword]

/-- The name of an opcode is a word of the set, of this opcode or of one before it. -/
theorem exists_mnemonic_eq_name (h : (ofLayers name layers).opcodes = front ++ op :: back) {word : String}
    (hname : op.name = some word) : ∃ writer ∈ front ++ [op], writer.mnemonic = word := by
  have hwanted : wantedMnemonic op.definition = word := by
    rw [wantedMnemonic, Opcode.definition, hname, Option.getD_some]
  have hop := mnemonic_of_withMnemonics h
  rw [hwanted] at hop
  split at hop
  case _ htaken =>
    obtain ⟨writer, hwriter, heq⟩ := List.mem_map.mp (htaken.resolve_right List.not_mem_nil)
    exact ⟨writer, List.mem_append_left _ hwriter, heq⟩
  case _ => exact ⟨op, by simp, hop⟩

/-- Different opcodes have different words exactly if no later one is written with a number that an earlier one
    is called by. -/
theorem words_differ_iff (name : String) (layers : List (List OpcodeDefinition)) :
    (∀ word op other, (ofLayers name layers).Writes op word → (ofLayers name layers).Writes other word →
      op = other) ↔ (ofLayers name layers).NumbersFree := by
  constructor
  · intro hdiffer earlier later hearlier hlater hlt hname hnumber
    obtain ⟨front, back, hsplit⟩ := List.append_of_mem (mem_opcodes_iff.mpr hlater)
    have hfront := mem_front_of_lt hsplit (mem_opcodes_iff.mpr hearlier) hlt
    obtain ⟨before, between, rfl⟩ := List.append_of_mem hfront
    rw [List.append_assoc, List.cons_append] at hsplit
    obtain ⟨writer, hwriter, hword⟩ := exists_mnemonic_eq_name hsplit hname
    have hsplit' : (ofLayers name layers).opcodes = (before ++ [earlier] ++ between) ++ later :: back := by
      simpa using hsplit
    have hmem : writer ∈ before ++ [earlier] ++ between := List.mem_append_left _ hwriter
    have hwrites : (ofLayers name layers).get? writer.code = some writer :=
      mem_opcodes_iff.mp (hsplit' ▸ List.mem_append_left _ hmem)
    have hsame := hdiffer _ writer later ⟨hwrites, hword⟩ ⟨hlater, hnumber⟩
    exact UInt8.ne_of_lt ((code_order hsplit').1 writer hmem) (congrArg Opcode.code hsame)
  · intro hfree word
    have hordered : ∀ op other, (ofLayers name layers).Writes op word →
        (ofLayers name layers).Writes other word → ¬ other.code < op.code := by
      rintro op other ⟨hop, hword⟩ ⟨hother, hword'⟩ hlt
      obtain ⟨front, back, hsplit⟩ := List.append_of_mem (mem_opcodes_iff.mpr hop)
      have hfront := mem_front_of_lt hsplit (mem_opcodes_iff.mpr hother) hlt
      obtain ⟨hnumbered, hname⟩ := numbered_of_shared hsplit hfront (hword'.trans hword.symm)
      exact hfree other op hother hop hlt hname hnumbered
    intro op other hop hother
    have hcode : op.code = other.code := UInt8.le_antisymm
      (UInt8.not_lt.mp (hordered op other hop hother)) (UInt8.not_lt.mp (hordered other op hother hop))
    exact Option.some.inj (hop.1.symm.trans (hcode ▸ hother.1))

/-- A word is read as the last opcode that is written with it. -/
theorem lookup?_eq_some_iff {word : String} : (ofLayers name layers).lookup? word = some op ↔
    (ofLayers name layers).Writes op word ∧
      ∀ other, (ofLayers name layers).Writes other word → other.code ≤ op.code := by
  rw [lookup?, find?_reverse_eq_some_iff, decide_eq_true_eq]
  constructor
  · rintro ⟨hword, front, back, hsplit, hback⟩
    have hop : op ∈ (ofLayers name layers).opcodes := by simp [hsplit]
    refine ⟨⟨mem_opcodes_iff.mp hop, hword⟩, fun other hother => ?_⟩
    have hmem := mem_opcodes_iff.mpr hother.1
    rw [hsplit, List.mem_append, List.mem_cons] at hmem
    rcases hmem with hfront | rfl | hlater
    · exact UInt8.le_of_lt ((code_order hsplit).1 other hfront)
    · exact UInt8.le_refl _
    · exact absurd hother.2 (of_decide_eq_false (hback other hlater))
  · rintro ⟨⟨hop, hword⟩, hlast⟩
    obtain ⟨front, back, hsplit⟩ := List.append_of_mem (mem_opcodes_iff.mpr hop)
    refine ⟨hword, front, back, hsplit, fun later hlater => decide_eq_false fun hword' => ?_⟩
    have hmem : later ∈ (ofLayers name layers).opcodes := by simp [hsplit, hlater]
    have hle := hlast later ⟨mem_opcodes_iff.mp hmem, hword'⟩
    exact absurd ((code_order hsplit).2 later hlater) (UInt8.not_lt.mpr hle)

end words

/-- An opcode of layers is what the last definition of its code says, and a word is read as the last opcode
    that is written with it. Words differ, and each is read as the one opcode that is written with it, exactly
    if no later opcode is written with a number that an earlier one is called by. -/
theorem words_of_layers (name : String) (layers : List (List OpcodeDefinition)) :
    let set := ofLayers name layers
    (∀ code definition, (set.get? code).map Opcode.definition = some definition ↔
      code ≠ endOfLine ∧ definition.code = code ∧ ∃ before after,
        layers.flatten = before ++ definition :: after ∧ ∀ later ∈ after, later.code ≠ code) ∧
    (∀ word op, set.lookup? word = some op ↔
      set.Writes op word ∧ ∀ other, set.Writes other word → other.code ≤ op.code) ∧
    ((∀ word op other, set.Writes op word → set.Writes other word → op = other) ↔ set.NumbersFree) ∧
    ((∀ word op, set.lookup? word = some op ↔ set.Writes op word) ↔ set.NumbersFree) := by
  intro set
  have hdiffer := words_differ_iff name layers
  refine ⟨fun _ _ => map_definition_get?_iff, fun _ _ => lookup?_eq_some_iff, hdiffer, ?_⟩
  rw [← hdiffer]
  constructor
  · intro hread word op other hop hother
    exact Option.some.inj (((hread word op).mpr hop).symm.trans ((hread word other).mpr hother))
  · intro hsame word op
    rw [lookup?_eq_some_iff]
    refine ⟨And.left, fun hop => ⟨hop, fun other hother => ?_⟩⟩
    exact UInt8.le_of_eq (congrArg Opcode.code (hsame word other op hother hop))

/-- An opcode that is called by the number of the next one: both are written with it. -/
theorem shared_word :
    let set := ofLayers "small" [[⟨1, some "OP_02", []⟩, ⟨2, none, [.byte]⟩]]
    set.Writes ⟨1, some "OP_02", "OP_02", []⟩ "OP_02" ∧ set.Writes ⟨2, none, "OP_02", [.byte]⟩ "OP_02" ∧
      set.lookup? "OP_02" = some ⟨2, none, "OP_02", [.byte]⟩ := by
  intro set
  exact ⟨⟨by decide +kernel, rfl⟩, ⟨by decide +kernel, rfl⟩, by decide +kernel⟩

end InstructionSet

end Adventure
