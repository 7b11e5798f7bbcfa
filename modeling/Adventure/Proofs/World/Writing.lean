import Mathlib.Data.List.Sort
import Adventure.Proofs.Script.Writing
import Adventure.Proofs.World.Spelling

namespace Adventure

open Bytes

/-- What reading makes sure of in a property. -/
def Property.Stored : Property → Prop
  | .room _ exits =>
    exits.length = Exit.count ∧ ∀ exit, some exit ∈ exits → exit.target ≠ 0
  | .object _ _ slots _ => ∃ mask : Nat, slots.map Prod.fst = ObjectField.bits.filter mask.testBit
  | .superRoom _ x y z exits => exits.length = Item.superRoomExits x y z
  | .userFlag flags => flags.length = Property.userFlagCount
  | .container .. | .chain _ | .inherit _ => True

/-- What reading makes sure of in an item. -/
structure Item.Stored (item : Item) : Prop where
  properties : ∀ property ∈ item.properties, property.Stored
  announced : item.propertiesInit = 0 → item.properties = []

theorem Exit.TargetsSpelled.target_ne_zero {exits : List (Option Exit)} {bytes : List UInt8}
    (h : Exit.TargetsSpelled exits bytes) : ∀ exit, Option.some exit ∈ exits → exit.target ≠ 0 := by
  induction h with
  | nil => simp
  | none _ ih => simpa using ih
  | some _ hne _ ih =>
    intro other hother
    rcases List.mem_cons.mp hother with heq | hrest
    · exact Option.some.inj heq ▸ hne
    · exact ih other hrest

theorem Property.Spelled.stored {property : Property} {bytes : List UInt8}
    (h : property.Spelled bytes) : property.Stored := by
  cases h with
  | room hcount _ htargets => exact ⟨hcount, htargets.target_ne_zero⟩
  | object _ hslots => exact ⟨_, hslots⟩
  | superRoom hcount => exact hcount
  | userFlag hcount => exact hcount
  | container => trivial
  | chain => trivial
  | inherit => trivial

theorem Item.PropertiesSpelled.stored {position : Nat} {init : UInt32} {properties : List Property}
    {bytes : List UInt8} (h : Item.PropertiesSpelled position init properties bytes) :
    (∀ property ∈ properties, property.Stored) ∧ (init = 0 → properties = []) := by
  cases h with
  | absent => simp
  | listed hinit hlisted =>
    refine ⟨fun property hproperty => ?_, fun hzero => absurd hzero hinit⟩
    obtain ⟨_, _, _, hspelled, -⟩ := hlisted.exists_spelled property hproperty
    exact hspelled.stored

theorem Item.Spelled.stored {position : Nat} {item : Item} {bytes : List UInt8}
    (h : item.Spelled position bytes) : item.Stored := by
  obtain ⟨_, _, _, _, -, -, -, hproperties, -⟩ := h.parts
  exact ⟨hproperties.stored.1, hproperties.stored.2⟩

namespace Item

section masks

private theorem exitStates_lt (exits : List (Option Exit)) : exitStates exits < 4 ^ exits.length := by
  induction exits with
  | nil => decide
  | cons exit exits ih =>
    have hcode := exitCode_lt exit
    rw [exitStates, List.length_cons, Nat.pow_succ]
    omega

/-- The mask has the bits that it starts with and those of the values. -/
theorem testBit_foldl_slots (slots : List (Nat × UInt16)) (mask bit : Nat) :
    (slots.foldl (fun mask (bit, _) => mask ||| 1 <<< bit) mask).testBit bit =
      (mask.testBit bit || decide (bit ∈ slots.map Prod.fst)) := by
  induction slots generalizing mask with
  | nil => simp
  | cons slot slots ih =>
    rw [List.foldl_cons, ih, Nat.testBit_or, Nat.one_shiftLeft, Nat.testBit_two_pow]
    simp only [List.map_cons, List.mem_cons, Bool.decide_or, Bool.or_assoc, eq_comm]

theorem testBit_objectMask {description : Option UInt32} {slots : List (Nat × UInt16)} {flags : UInt16}
    (bit : Nat) : (objectMask description slots flags).testBit bit =
      ((if bit < 16 then decide (bit = 0) && description.isSome else flags.toNat.testBit (bit - 16)) ||
        decide (bit ∈ slots.map Prod.fst)) := by
  have hlow : (if description.isSome then 1 else 0) < 2 ^ 16 := by split <;> decide
  rw [objectMask, testBit_foldl_slots, show 0x10000 = 2 ^ 16 from rfl,
    Nat.testBit_two_pow_mul_add _ hlow]
  congr 2
  cases description with
  | none => simp
  | some =>
    cases bit with
    | zero => simp
    | succ bit => simp [Nat.testBit_succ]

theorem mem_bits {bit : Nat} : bit ∈ ObjectField.bits ↔ 1 ≤ bit ∧ bit < 16 := by
  rw [ObjectField.bits, List.mem_range'_1]

/-- Values of an object by their bits, ascending. -/
def Ascending (values : List (Nat × UInt16)) : Prop :=
  (values.map Prod.fst).Pairwise (· < ·) ∧ ∀ bit ∈ values.map Prod.fst, bit ∈ ObjectField.bits

/-- The values that a mask stands for are those that ascend. -/
theorem ascending_iff_exists_mask {values : List (Nat × UInt16)} :
    Ascending values ↔ ∃ mask : Nat, values.map Prod.fst = ObjectField.bits.filter mask.testBit := by
  have hbits : ObjectField.bits.Pairwise (· < ·) := List.pairwise_lt_range'
  constructor
  · rintro ⟨hsorted, hmem⟩
    refine ⟨values.foldl (fun mask slot => mask ||| 1 <<< slot.1) 0, ?_⟩
    refine hsorted.eq_of_mem_iff (hbits.sublist List.filter_sublist) fun bit => ?_
    have htest := testBit_foldl_slots values 0 bit
    rw [List.mem_filter, htest, Nat.zero_testBit, Bool.false_or, decide_eq_true_iff]
    exact ⟨fun hbit => ⟨hmem bit hbit, hbit⟩, And.right⟩
  · rintro ⟨mask, hslots⟩
    rw [Ascending, hslots]
    exact ⟨hbits.sublist List.filter_sublist, fun bit => List.mem_of_mem_filter⟩

variable {description : Option UInt32} {slots : List (Nat × UInt16)} {flags : UInt16} {mask : Nat}

private theorem objectMask_lt (hslots : slots.map Prod.fst = ObjectField.bits.filter mask.testBit) :
    objectMask description slots flags < 2 ^ 32 := by
  refine Nat.lt_pow_two_of_testBit _ fun bit hbit => ?_
  have hflags : flags.toNat.testBit (bit - 16) = false :=
    Nat.testBit_lt_two_pow (Nat.lt_of_lt_of_le flags.toNat_lt (Nat.pow_le_pow_right (by decide) (by omega)))
  have hnot : bit ∉ slots.map Prod.fst := by
    rw [hslots, List.mem_filter, mem_bits]
    omega
  rw [testBit_objectMask, if_neg (by omega), hflags, decide_eq_false hnot]
  rfl

private theorem testBit_zero_objectMask (hslots : slots.map Prod.fst = ObjectField.bits.filter mask.testBit) :
    (objectMask description slots flags).testBit 0 = description.isSome := by
  have hnot : 0 ∉ slots.map Prod.fst := by
    rw [hslots, List.mem_filter, mem_bits]
    omega
  rw [testBit_objectMask, decide_eq_false hnot]
  simp

/-- The bits of the mask are those of the values. -/
theorem filter_testBit_objectMask
    (hslots : slots.map Prod.fst = ObjectField.bits.filter mask.testBit) :
    ObjectField.bits.filter (objectMask description slots flags).testBit = slots.map Prod.fst := by
  rw [hslots]
  refine List.filter_congr fun bit hbit => ?_
  have hrange := mem_bits.mp hbit
  rw [testBit_objectMask, if_pos hrange.2, decide_eq_false (by omega), hslots]
  simp [hbit]

/-- The upper half of the mask is the flags. -/
theorem objectMask_div (hslots : slots.map Prod.fst = ObjectField.bits.filter mask.testBit) :
    objectMask description slots flags / 0x10000 = flags.toNat := by
  refine Nat.eq_of_testBit_eq fun bit => ?_
  have hnot : bit + 16 ∉ slots.map Prod.fst := by
    rw [hslots, List.mem_filter, mem_bits]
    omega
  rw [show 0x10000 = 2 ^ 16 from rfl, Nat.testBit_div_two_pow, testBit_objectMask,
    if_neg (by omega), decide_eq_false hnot, Bool.or_false, Nat.add_sub_cancel]

end masks

section written

variable {bytes : List UInt8}

theorem referenceBytes_eq_ok_iff {item : UInt32} :
    referenceBytes item = .ok bytes ↔ ItemRef.stored? item = some bytes := by
  rw [referenceBytes]
  cases ItemRef.stored? item <;> simp

private theorem referenceBytes_eq_ok {item : UInt32} (h : referenceBytes item = .ok bytes) :
    ∃ word, ItemRef.ofStored word = item ∧ bytes = word32 word :=
  ItemRef.stored?_eq_some (referenceBytes_eq_ok_iff.mp h)

/-- The doors that a word of states tells of are followed by their items. -/
theorem targetsSpelled_of_mapM {exits : List (Option Exit)} {targets : List (List UInt8)}
    (hne : ∀ exit, some exit ∈ exits → exit.target ≠ 0)
    (h : List.Forall₂ (fun exit target => referenceBytes exit.target = .ok target)
      (exits.filterMap id) targets) :
    Exit.TargetsSpelled exits targets.flatten := by
  induction exits generalizing targets with
  | nil =>
    cases h
    exact .nil
  | cons exit exits ih =>
    have hrest : ∀ exit, some exit ∈ exits → exit.target ≠ 0 :=
      fun exit hexit => hne exit (List.mem_cons_of_mem _ hexit)
    cases exit with
    | none => exact .none (ih hrest h)
    | some exit =>
      rw [List.filterMap_cons_some (f := id) rfl] at h
      cases h with
      | cons head tail =>
        obtain ⟨word, htarget, rfl⟩ := referenceBytes_eq_ok head
        exact .some htarget (hne exit List.mem_cons_self) (ih hrest tail)

/-- What is written for a property spells it. -/
theorem propertyBytes_spelled {property : Property} (hstored : property.Stored)
    (h : propertyBytes property = .ok bytes) : property.Spelled bytes := by
  cases property with
  | room table exits =>
    obtain ⟨hcount, hne⟩ := hstored
    obtain ⟨targets, htargets, rfl⟩ := Except.map_eq_ok_iff.mp h
    refine .room hcount ?_ (targetsSpelled_of_mapM hne (Except.mapM_eq_ok_iff.mp htargets))
    have hlt := exitStates_lt exits
    rw [hcount] at hlt
    rw [UInt16.toNat_ofNat_of_lt' (Nat.lt_trans hlt (by decide)), Nat.mod_eq_of_lt hlt]
  | object name description slots flags =>
    cases h
    obtain ⟨mask, hslots⟩ := hstored
    have hword : (UInt32.ofNat (objectMask description slots flags)).toNat =
        objectMask description slots flags := UInt32.toNat_ofNat_of_lt' (objectMask_lt hslots)
    have hspelled : Property.Spelled (.object name description slots
        (UInt16.ofNat ((UInt32.ofNat (objectMask description slots flags)).toNat / 0x10000))) _ :=
      .object (by rw [hword, testBit_zero_objectMask hslots])
        (by rw [hword, filter_testBit_objectMask hslots])
    rwa [hword, objectMask_div hslots, UInt16.ofNat_toNat] at hspelled
  | superRoom id x y z exits =>
    have hcount : exits.length = superRoomExits x y z := hstored
    simp only [propertyBytes, if_pos hcount, Except.ok.injEq] at h
    exact h ▸ .superRoom hcount
  | container volume flags =>
    cases h
    exact .container volume flags
  | chain item =>
    obtain ⟨word, hitem, rfl⟩ := referenceBytes_eq_ok h
    exact .chain hitem
  | inherit item =>
    obtain ⟨word, hitem, rfl⟩ := referenceBytes_eq_ok h
    exact .inherit hitem
  | userFlag flags =>
    cases h
    exact .userFlag hstored

/-- What is written for a property behind the word for its kind introduces it. -/
theorem introduced_of_map {property : Property} (hstored : property.Stored)
    (h : (propertyBytes property).map (word16 property.kind.code ++ ·) = .ok bytes) (position : Nat) :
    property.Introduced position bytes := by
  obtain ⟨rest, hrest, rfl⟩ := Except.map_eq_ok_iff.mp h
  exact ⟨rest, propertyBytes_spelled hstored hrest, rfl⟩

/-- What is written for an item spells it, wherever it stands. -/
theorem toBytes_spelled {item : Item} (hstored : item.Stored) (h : item.toBytes = .ok bytes)
    (position : Nat) : item.Spelled position bytes := by
  unfold toBytes at h
  simp only [Except.bind_eq_ok_iff, Except.ite_bind_eq_ok_iff, Except.pure_eq_ok_iff] at h
  obtain ⟨next, hnext, child, hchild, parent, hparent, properties, hproperties, rfl⟩ := h
  obtain ⟨next, hnextItem, rfl⟩ := referenceBytes_eq_ok hnext
  obtain ⟨child, hchildItem, rfl⟩ := referenceBytes_eq_ok hchild
  obtain ⟨parent, hparentItem, rfl⟩ := referenceBytes_eq_ok hparent
  refine ⟨next, child, parent, properties, hnextItem, hchildItem, hparentItem, ?_, rfl⟩
  by_cases hinit : item.propertiesInit = 0
  · rw [if_pos hinit] at hproperties
    cases hproperties
    rw [hinit, hstored.announced hinit]
    exact .absent
  · rw [if_neg hinit] at hproperties
    obtain ⟨written, hwritten, rfl⟩ := Except.map_eq_ok_iff.mp hproperties
    exact .listed hinit (.of_mapM hwritten
      (fun property hproperty _ => introduced_of_map (hstored.properties property hproperty)) _)

/-- What is written for items spells them one after the other. -/
theorem allBytes_listed {items : List Item} (hstored : ∀ item ∈ items, item.Stored)
    (h : allBytes items = .ok bytes) (position : Nat) :
    Cursor.Listed Item.Spelled position items bytes := by
  obtain ⟨written, hwritten, rfl⟩ := Except.map_eq_ok_iff.mp h
  exact .of_mapM hwritten (fun item hitem _ => toBytes_spelled (hstored item hitem)) position

theorem stored_of_readAll {c c' : Cursor} {count : Nat} {items : List Item}
    (h : readAll c count = .ok (items, c')) : ∀ item ∈ items, item.Stored := by
  obtain ⟨-, _, hlisted, -⟩ := readAll_eq_ok_iff.mp h
  intro item hitem
  obtain ⟨_, _, hspelled⟩ := hlisted.exists_spelled item hitem
  exact hspelled.stored

/-- Items are read from bytes that spell them, whatever follows. -/
theorem readAll_of_listed {items : List Item} (h : Cursor.Listed Item.Spelled 0 items bytes)
    (rest : List UInt8) : readAll (Cursor.ofBytes (bytes ++ rest)) items.length =
      .ok (items, ⟨bytes ++ rest, bytes.length, rest⟩) := by
  refine readAll_eq_ok_iff.mpr ⟨rfl, bytes, h, rfl, ?_⟩
  simp [Cursor.ofBytes, Cursor.advance]

theorem readAll_allBytes {items : List Item} (hstored : ∀ item ∈ items, item.Stored)
    (h : allBytes items = .ok bytes) (rest : List UInt8) :
    readAll (Cursor.ofBytes (bytes ++ rest)) items.length =
      .ok (items, ⟨bytes ++ rest, bytes.length, rest⟩) :=
  readAll_of_listed (allBytes_listed hstored h 0) rest

end written

end Item

end Adventure
