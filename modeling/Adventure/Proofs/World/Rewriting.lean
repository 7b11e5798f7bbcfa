import Adventure.Proofs.Script.Rewriting
import Adventure.Proofs.World.Encoding

namespace Adventure

open Bytes

section unpacked

variable {description : Option UInt32} {slots : List (Nat × UInt16)} {mask : UInt32}

/-- The mask of an object is made up again from what it tells of. -/
theorem Item.objectMask_unpacked (hdescription : description.isSome = mask.toNat.testBit 0)
    (hslots : slots.map Prod.fst = ObjectField.bits.filter mask.toNat.testBit) :
    UInt32.ofNat (objectMask description slots (UInt16.ofNat (mask.toNat / 0x10000))) = mask := by
  have hflags : (UInt16.ofNat (mask.toNat / 0x10000)).toNat = mask.toNat / 2 ^ 16 := by
    have hlt := mask.toNat_lt
    exact UInt16.toNat_ofNat_of_lt' (Nat.div_lt_of_lt_mul hlt)
  have hmask : objectMask description slots (UInt16.ofNat (mask.toNat / 0x10000)) = mask.toNat := by
    refine Nat.eq_of_testBit_eq fun bit => ?_
    have hmem : bit ∈ slots.map Prod.fst ↔ (1 ≤ bit ∧ bit < 16) ∧ mask.toNat.testBit bit := by
      rw [hslots, List.mem_filter, mem_bits]
    rw [testBit_objectMask, hflags, Nat.testBit_div_two_pow, decide_eq_decide.mpr hmem]
    by_cases hupper : 16 ≤ bit
    · rw [if_neg (by omega), decide_eq_false (by omega), Bool.or_false, Nat.sub_add_cancel hupper]
    · rw [if_pos (by omega)]
      by_cases hzero : bit = 0
      · subst hzero
        simp [hdescription]
      · simp [hzero, show 1 ≤ bit ∧ bit < 16 by omega]
  rw [hmask, UInt32.ofNat_toNat]

/-- A word of states is written without its upper four bits. -/
theorem Item.kept_exitStates {states : UInt16} {exits : List (Option Exit)}
    (h : Item.exitStates exits = states.toNat % 4 ^ Exit.count) :
    Kept (fun bytes => bytes.head?.any (0x10 ≤ ·)) (word16 states)
      (word16 (UInt16.ofNat (Item.exitStates exits))) where
  length := rfl
  eq_iff := by
    have hlt := states.toNat_lt
    have hupper : (0x10 ≤ digit states.toNat 1) ↔ 4 ^ Exit.count ≤ states.toNat := by
      rw [UInt8.le_iff_toNat_le, digit, UInt8.toNat_ofNat', Nat.shiftRight_eq_div_pow]
      change 16 ≤ _ ↔ 4096 ≤ _
      omega
    have hsame : word16 (UInt16.ofNat (states.toNat % 4 ^ Exit.count)) = word16 states ↔
        states.toNat % 4 ^ Exit.count = states.toNat := by
      constructor
      · intro heq
        have hvalue := congrArg UInt16.toNat (word16_inj heq)
        rwa [UInt16.toNat_ofNat_of_lt' (Nat.lt_of_le_of_lt (Nat.mod_le _ _) hlt)] at hvalue
      · intro heq
        rw [heq, UInt16.ofNat_toNat]
    rw [h, hsame, Nat.mod_eq_iff_lt (by decide), ← Nat.not_le, ← hupper]
    simp [word16]
  settled _ := rfl

end unpacked

section sizes

/-- The number of bytes that a property takes behind the word for its kind. -/
def Property.size : Property → Nat
  | .room _ exits => 4 + 4 * (exits.filterMap id).length
  | .object _ description slots _ => 4 + 4 * description.toList.length + 2 * slots.length + 4
  | .superRoom _ _ _ _ exits => 8 + 2 * exits.length
  | .container .. => 4
  | .chain _ | .inherit _ => 4
  | .userFlag flags => 2 * flags.length

/-- The number of bytes that an item takes. -/
def Item.size (item : Item) : Nat :=
  26 + if item.propertiesInit = 0 then 0
    else item.properties.foldr (fun property rest => 2 + property.size + rest) 2

theorem Exit.TargetsSpelled.length_eq {exits : List (Option Exit)} {bytes : List UInt8}
    (h : Exit.TargetsSpelled exits bytes) : bytes.length = 4 * (exits.filterMap id).length := by
  induction h with
  | nil => rfl
  | none _ ih => exact ih
  | some _ _ _ ih =>
    rw [List.length_append, ih, length_word32, List.filterMap_cons_some (f := id) rfl, List.length_cons]
    omega

theorem Property.Spelled.length_eq {property : Property} {bytes : List UInt8}
    (h : property.Spelled bytes) : bytes.length = property.size := by
  cases h with
  | room _ _ htargets =>
    rw [List.length_append, htargets.length_eq]
    rfl
  | @object _ _ description =>
    cases description <;> simp [Property.size] <;> omega
  | superRoom =>
    simp [Property.size]
    omega
  | container => rfl
  | chain => rfl
  | inherit => rfl
  | userFlag =>
    simp [Property.size]
    omega

theorem Property.Introduced.length_eq (position : Nat) (property : Property) (bytes : List UInt8)
    (h : property.Introduced position bytes) : bytes.length = 2 + property.size := by
  obtain ⟨rest, hspelled, rfl⟩ := h
  rw [List.length_append, hspelled.length_eq, length_word16]

theorem Item.PropertiesSpelled.length_eq {position : Nat} {init : UInt32} {properties : List Property}
    {bytes : List UInt8} (h : Item.PropertiesSpelled position init properties bytes) :
    bytes.length = if init = 0 then 0
      else properties.foldr (fun property rest => 2 + property.size + rest) 2 := by
  cases h with
  | absent => rfl
  | listed hinit hlisted =>
    rw [if_neg hinit, List.length_append]
    exact hlisted.length_eq Property.Introduced.length_eq 2

theorem Item.Spelled.length_eq (position : Nat) (item : Item) (bytes : List UInt8)
    (h : item.Spelled position bytes) : bytes.length = item.size := by
  obtain ⟨_, _, _, _, -, -, -, hproperties, rfl⟩ := h.parts
  rw [List.length_append, hproperties.length_eq]
  rfl

end sizes

section kept

/-- What a property does not tell of in the bytes behind the word for its kind: the upper four bits of the
    states of doors, and that item 0 has been stored in its other spelling. -/
def Property.loses : Property → List UInt8 → Bool
  | .room .., bytes => (bytes.drop 2).head?.any (0x10 ≤ ·)
  | .chain _, bytes | .inherit _, bytes => (word32 ItemRef.wrappedWord).isPrefixOf bytes
  | _, _ => false

/-- What an item does not tell of in its bytes: other spellings of item 0 in the items around it, and what
    its properties do not tell of. -/
def Item.loses (item : Item) (bytes : List UInt8) : Bool :=
  ([6, 10, 14].any fun offset => (word32 ItemRef.wrappedWord).isPrefixOf (bytes.drop offset)) ||
    anyAt (2 + ·.size) (fun property bytes => property.loses (bytes.drop 2)) item.properties
      (bytes.drop 26)

variable {position : Nat} {bytes written : List UInt8}

theorem Item.referenceBytes_kept {item word : UInt32} (hitem : ItemRef.ofStored word = item)
    (h : referenceBytes item = .ok written) :
    Kept (word32 ItemRef.wrappedWord).isPrefixOf (word32 word) written := by
  subst hitem
  exact ItemRef.kept (referenceBytes_eq_ok_iff.mp h)

/-- The items behind doors are written as they have been read, since no door leads to item 0. -/
theorem Exit.TargetsSpelled.rewrite {exits : List (Option Exit)} {targets : List (List UInt8)}
    (h : Exit.TargetsSpelled exits bytes)
    (htargets : (exits.filterMap id).mapM (fun exit => Item.referenceBytes exit.target) = .ok targets) :
    targets.flatten = bytes := by
  rw [Except.mapM_eq_ok_iff] at htargets
  induction h generalizing targets with
  | nil =>
    cases htargets
    rfl
  | none _ ih => exact ih htargets
  | @some exit exits word bytes htarget hne tail ih =>
    rw [List.filterMap_cons_some (f := id) rfl] at htargets
    cases htargets with
    | cons hfirst hothers =>
      have hword : word ≠ ItemRef.wrappedWord := by
        rintro rfl
        exact hne htarget.symm
      rw [Item.referenceBytes_eq_ok_iff, ← htarget, ItemRef.stored?_ofStored_of_ne hword] at hfirst
      cases hfirst
      rw [List.flatten_cons, ih hothers]

theorem Property.Spelled.kept {property : Property} (h : property.Spelled bytes)
    (hwritten : Item.propertyBytes property = .ok written) : Kept property.loses bytes written := by
  cases h with
  | @room table states exits targets hcount hstates htargets =>
    obtain ⟨parts, hparts, rfl⟩ := Except.map_eq_ok_iff.mp hwritten
    rw [htargets.rewrite hparts]
    exact (Item.kept_exitStates hstates).between (word16 table) targets
  | object hdescription hslots =>
    cases hwritten
    rw [Item.objectMask_unpacked hdescription hslots]
    exact Kept.same _
  | superRoom hcount =>
    rw [Item.propertyBytes, if_pos hcount] at hwritten
    cases hwritten
    exact Kept.same _
  | chain hitem => exact Item.referenceBytes_kept hitem hwritten
  | inherit hitem => exact Item.referenceBytes_kept hitem hwritten
  | container | userFlag =>
    cases hwritten
    exact Kept.same _

theorem Property.Introduced.kept {property : Property} (h : property.Introduced position bytes)
    (hwritten : (Item.propertyBytes property).map (word16 property.kind.code ++ ·) = .ok written) :
    Kept (fun bytes => property.loses (bytes.drop 2)) bytes written := by
  obtain ⟨rest, hspelled, rfl⟩ := h
  obtain ⟨rewritten, hrest, rfl⟩ := Except.map_eq_ok_iff.mp hwritten
  exact ((Kept.same _).append (hspelled.kept hrest)).congr fun _ => rfl

theorem Item.PropertiesSpelled.kept {init : UInt32} {properties : List Property}
    (h : Item.PropertiesSpelled position init properties bytes)
    (hwritten : (if init = 0 then .ok [] else Item.propertiesBytes properties) = .ok written) :
    Kept (anyAt (2 + ·.size) (fun property bytes => property.loses (bytes.drop 2)) properties) bytes
      written := by
  cases h with
  | absent =>
    cases hwritten
    exact Kept.same []
  | listed hinit hlisted =>
    rw [if_neg hinit] at hwritten
    obtain ⟨parts, hparts, rfl⟩ := Except.map_eq_ok_iff.mp hwritten
    exact (Kept.listed hlisted hparts Property.Introduced.length_eq
      fun _ _ _ _ => Property.Introduced.kept).between [] (word16 0)

/-- What is written for an item is what it has been read from, but for what it does not tell of. -/
theorem Item.Spelled.kept {item : Item} (h : item.Spelled position bytes)
    (hwritten : item.toBytes = .ok written) : Kept item.loses bytes written := by
  obtain ⟨_, _, _, _, hnext, hchild, hparent, hproperties, rfl⟩ := h.parts
  unfold Item.toBytes at hwritten
  simp only [Except.bind_eq_ok_iff, Except.ite_bind_eq_ok_iff, Except.pure_eq_ok_iff] at hwritten
  obtain ⟨next, hnext', child, hchild', parent, hparent', properties, hproperties', rfl⟩ := hwritten
  have hwords := (Kept.same (word16 item.adjective ++ word16 item.noun ++ word16 item.state)).append
    (referenceBytes_kept hnext hnext')
  have hitems := (hwords.append (referenceBytes_kept hchild hchild')).append
    (referenceBytes_kept hparent hparent')
  have hheader := ((hitems.append (.same (word16 item.actorTable))).append
    (.same (word16 item.className))).append (.same (word32 item.propertiesInit))
  refine (hheader.append (hproperties.kept hproperties')).congr fun tail => ?_
  simp only [Item.loses, List.any_cons, List.any_nil, List.length_append, length_word16, length_word32,
    Bool.or_false, Bool.false_or, Bool.or_assoc]

end kept

section written

theorem Exit.TargetsSpelled.target_ne_player {exits : List (Option Exit)} {bytes : List UInt8}
    (h : Exit.TargetsSpelled exits bytes) : ∀ exit ∈ exits.filterMap id, exit.target ≠ 1 := by
  induction h with
  | nil => simp
  | none _ ih => exact ih
  | some htarget _ _ ih =>
    rw [List.filterMap_cons_some (f := id) rfl]
    exact List.forall_mem_cons.mpr ⟨htarget ▸ ItemRef.ofStored_ne_one _, ih⟩

theorem Property.Spelled.player_not_mem {property : Property} {bytes : List UInt8}
    (h : property.Spelled bytes) : 1 ∉ property.references := by
  cases h with
  | room _ _ htargets =>
    rw [Property.references, List.mem_map]
    rintro ⟨exit, hexit, hplayer⟩
    exact htargets.target_ne_player exit hexit hplayer
  | chain hitem | inherit hitem =>
    rw [Property.references, List.mem_singleton, ← hitem]
    exact (ItemRef.ofStored_ne_one _).symm
  | object | superRoom | container | userFlag => exact List.not_mem_nil

theorem Item.PropertiesSpelled.player_not_mem {position : Nat} {init : UInt32} {properties : List Property}
    {bytes : List UInt8} (h : Item.PropertiesSpelled position init properties bytes) :
    1 ∉ properties.flatMap Property.references := by
  cases h with
  | absent => exact List.not_mem_nil
  | listed _ hlisted =>
    rw [List.mem_flatMap]
    rintro ⟨property, hproperty, hplayer⟩
    obtain ⟨_, _, _, hspelled, -⟩ := hlisted.exists_spelled property hproperty
    exact hspelled.player_not_mem hplayer

/-- An item that has been read does not refer to the player. -/
theorem Item.Spelled.player_not_mem {position : Nat} {item : Item} {bytes : List UInt8}
    (h : item.Spelled position bytes) : 1 ∉ item.references := by
  obtain ⟨_, _, _, _, hnext, hchild, hparent, hproperties, -⟩ := h.parts
  simp only [Item.references, List.mem_cons, not_or, ← hnext, ← hchild, ← hparent]
  exact ⟨(ItemRef.ofStored_ne_one _).symm, (ItemRef.ofStored_ne_one _).symm,
    (ItemRef.ofStored_ne_one _).symm, hproperties.player_not_mem⟩

namespace Item

/-- The items at the start of a buffer are written in the bytes that they have been read from, unless
    there is something in these that the items do not tell of. In any case as many bytes are written, and
    the same items are read from them, whatever follows. -/
theorem read_items_rewritten {data : List UInt8} {count : Nat} {items : List Item} {c : Cursor}
    (h : readAll (Cursor.ofBytes data) count = .ok (items, c)) :
    c.position ≤ data.length ∧ ∃ written, allBytes items = .ok written ∧ written.length = c.position ∧
      (written = data.take c.position ↔ anyAt size loses items (data.take c.position) = false) ∧
      ∀ tail, readAll (Cursor.ofBytes (written ++ tail)) items.length =
        .ok (items, ⟨written ++ tail, written.length, tail⟩) := by
  have hstored := stored_of_readAll h
  obtain ⟨-, bytes, hlisted, hspan⟩ := readAll_eq_ok_iff.mp h
  have hplayer : 1 ∉ items.flatMap references := by
    rw [List.mem_flatMap]
    rintro ⟨item, hitem, hplayer⟩
    obtain ⟨_, _, hspelled⟩ := hlisted.exists_spelled item hitem
    exact hspelled.player_not_mem hplayer
  obtain ⟨written, hwritten⟩ := (allBytes_failsExactly hstored).succeeds hplayer
  obtain ⟨parts, hparts, rfl⟩ := Except.map_eq_ok_iff.mp hwritten
  have hkept := Kept.listed hlisted hparts Spelled.length_eq fun _ _ _ _ => Spelled.kept
  obtain ⟨hposition, htake, hle⟩ := hspan.take_ofBytes
  rw [htake]
  exact ⟨hle, _, hwritten, hposition ▸ hkept.length, hkept.eq_iff, readAll_allBytes hstored hwritten⟩

/-- A room with bits above those of its six doors, beside the other spelling of item 0. Neither comes back. -/
theorem read_items_rewritten_upper_bits :
    let data : List UInt8 := [0, 0, 0, 5, 0, 0, 0xff, 0xff, 0xff, 0xfe, 0xff, 0xff, 0xff, 0xff, 0xff, 0xff,
      0xff, 0xff, 0, 0, 0, 0, 0, 0, 0, 1, 0, 1, 0, 7, 0xf0, 0, 0, 0]
    let items : List Item := [⟨0, 5, 0, 0, 0, 0, 0, 0, 1, [.room 7 [none, none, none, none, none, none]]⟩]
    readAll (Cursor.ofBytes data) 1 = .ok (items, ⟨data, 34, []⟩) ∧
      ∃ written, allBytes items = .ok written ∧ written.length = 34 ∧ written ≠ data.take 34 := by
  intro data items
  have hread : readAll (Cursor.ofBytes data) 1 = .ok (items, ⟨data, 34, []⟩) :=
    Except.eq_ok_of_toOption (by decide +kernel)
  obtain ⟨-, written, hwritten, hlength, hsame, -⟩ := read_items_rewritten hread
  have hloses : anyAt size loses items (data.take 34) = true := by decide
  refine ⟨hread, written, hwritten, hlength, fun heq => ?_⟩
  rw [hsame.mp heq] at hloses
  cases hloses

end Item

end written

end Adventure
