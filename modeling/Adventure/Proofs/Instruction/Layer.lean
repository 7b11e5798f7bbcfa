import Mathlib.Data.Nat.Bitwise
import Adventure.Proofs.Instruction.Set

namespace Adventure.InstructionSet

variable {definitions layer : List OpcodeDefinition}

/-- The word that a definition asks for. -/
def wantedMnemonic (definition : OpcodeDefinition) : String :=
  definition.name.getD (Opcode.numberedMnemonic definition.code)

/-- The opcode of a definition that gets the word it asks for. -/
def wantedOpcode (definition : OpcodeDefinition) : Opcode :=
  ⟨definition.code, definition.name, wantedMnemonic definition, definition.shape⟩

/-- Where all definitions ask for different words, each gets its own. -/
theorem withMnemonics_eq_map {taken : List String} (hnodup : (definitions.map wantedMnemonic).Nodup)
    (htaken : ∀ definition ∈ definitions, wantedMnemonic definition ∉ taken) :
    withMnemonics taken definitions = definitions.map wantedOpcode := by
  induction definitions generalizing taken with
  | nil => rfl
  | cons definition definitions ih =>
    obtain ⟨hfresh, hrest⟩ := List.forall_mem_cons.mp htaken
    rw [List.map_cons, List.nodup_cons] at hnodup
    obtain ⟨code, name, shape⟩ := definition
    have hword : (if name.getD (Opcode.numberedMnemonic code) ∈ taken then Opcode.numberedMnemonic code
        else name.getD (Opcode.numberedMnemonic code)) = wantedMnemonic ⟨code, name, shape⟩ := if_neg hfresh
    have hlater : ∀ later ∈ definitions,
        wantedMnemonic later ∉ wantedMnemonic ⟨code, name, shape⟩ :: taken := fun later hlater => by
      rw [List.mem_cons, not_or]
      exact ⟨fun heq => hnodup.1 (heq ▸ List.mem_map_of_mem hlater), hrest later hlater⟩
    unfold withMnemonics
    dsimp only
    rw [hword, ih hnodup.2 hlater]
    rfl

/-- A layer in the order of its codes is kept where it is the only one. -/
theorem filterMap_definition?_singleton {within : List UInt8} (hnodup : within.Nodup)
    (hcodes : (layer.map (·.code)).Sublist within) : within.filterMap (definition? [layer]) = layer := by
  have hfound : ∀ definition ∈ layer, definition? [layer] definition.code = some definition := by
    intro definition hmem
    have hreversed : (layer.reverse.map (·.code)).Nodup := by
      rw [List.map_reverse]
      exact List.nodup_reverse.mpr (hcodes.nodup hnodup)
    rw [definition?, List.flatten_singleton]
    exact find?_key hreversed (List.mem_reverse.mpr hmem)
  have hmissing : ∀ code ∈ within, code ∉ layer.map (·.code) → definition? [layer] code = none := by
    intro code _ hcode
    refine Option.eq_none_iff_forall_ne_some.mpr fun definition hdefinition => hcode ?_
    have hmem := List.mem_of_find?_eq_some hdefinition
    rw [List.flatten_singleton, List.mem_reverse] at hmem
    exact code_of_definition? hdefinition ▸ List.mem_map_of_mem hmem
  generalize definition? [layer] = found at hfound hmissing
  induction within generalizing layer with
  | nil =>
    rw [List.sublist_nil, List.map_eq_nil_iff] at hcodes
    rw [hcodes, List.filterMap_nil]
  | cons code within ih =>
    rw [List.nodup_cons] at hnodup
    obtain ⟨hnew, hrest⟩ := hnodup
    rw [List.sublist_cons_iff] at hcodes
    rcases hcodes with hcodes | ⟨codes, hlayer, hcodes⟩
    · rw [List.filterMap_cons, hmissing code List.mem_cons_self fun hmem => hnew (hcodes.subset hmem)]
      exact ih hrest hcodes hfound fun other hother => hmissing other (List.mem_cons_of_mem _ hother)
    · obtain ⟨definition, layer, rfl, rfl, rfl⟩ := List.map_eq_cons_iff.mp hlayer
      obtain ⟨hhead, htail⟩ := List.forall_mem_cons.mp hfound
      rw [List.filterMap_cons, hhead]
      dsimp only
      rw [ih hrest hcodes htail fun other hother hnot => ?_]
      refine hmissing other (List.mem_cons_of_mem _ hother) ?_
      rw [List.map_cons, List.mem_cons, not_or]
      exact ⟨fun heq => hnew (heq ▸ hother), hnot⟩

/-- Numbers that are different from each other and from those of the set bits. -/
def apart (bits : Nat) : List Nat → Bool
  | [] => true
  | number :: rest => !bits.testBit number && apart (bits ||| 1 <<< number) rest

private theorem nodup_of_apart {bits : Nat} {numbers : List Nat} (h : apart bits numbers) :
    numbers.Nodup ∧ ∀ number ∈ numbers, bits.testBit number = false := by
  induction numbers generalizing bits with
  | nil => simp
  | cons number rest ih =>
    rw [apart, Bool.and_eq_true, Bool.not_eq_true'] at h
    obtain ⟨hnodup, hbits⟩ := ih h.2
    have hother : ∀ other ∈ rest, bits.testBit other = false ∧ other ≠ number := by
      intro other hmem
      have hbit := hbits other hmem
      rw [Nat.testBit_or, Bool.or_eq_false_iff] at hbit
      refine ⟨hbit.1, ?_⟩
      rintro rfl
      simp [Nat.one_shiftLeft, Nat.testBit_two_pow_self] at hbit
    refine ⟨List.nodup_cons.mpr ⟨fun hmem => (hother number hmem).2 rfl, hnodup⟩, ?_⟩
    exact List.forall_mem_cons.mpr ⟨h.1, fun other hmem => (hother other hmem).1⟩

/-- A number of a word, by which those of the first layer are told apart. -/
def wordKey (word : String) : Nat := word.toList.foldl (fun key c => (32 * key + c.toNat) % 2867) 0

theorem simon_eq : simon = ⟨"simon", simonLayer.map wantedOpcode⟩ := by
  have hnodup : (simonLayer.map wantedMnemonic).Nodup :=
    List.Nodup.of_map wordKey (nodup_of_apart (show apart 0 _ by decide +kernel)).1
  have hcodes : (simonLayer.map (·.code)).Sublist codes := by decide +kernel
  rw [simon, ofLayers, filterMap_definition?_singleton codes_nodup hcodes,
    withMnemonics_eq_map hnodup fun _ _ => List.not_mem_nil]

end Adventure.InstructionSet
