import Mathlib.Algebra.Ring.Nat
import Adventure.Proofs.Bytes.Reading
import Adventure.World.Decode
import Adventure.World.Encode

namespace Adventure

open Bytes

/-- The bytes that spell the items behind the doors of a room. -/
inductive Exit.TargetsSpelled : List (Option Exit) → List UInt8 → Prop
  | nil : TargetsSpelled [] []
  | none {exits : List (Option Exit)} {bytes : List UInt8} (tail : TargetsSpelled exits bytes) :
      TargetsSpelled (none :: exits) bytes
  | some {exit : Exit} {exits : List (Option Exit)} {word : UInt32} {bytes : List UInt8}
      (htarget : ItemRef.ofStored word = exit.target) (hne : exit.target ≠ 0)
      (tail : TargetsSpelled exits bytes) :
      TargetsSpelled (some exit :: exits) (word32 word ++ bytes)

/-- The bytes that spell a property behind the word for its kind. The upper bits of the states of
    doors mean nothing. -/
inductive Property.Spelled : Property → List UInt8 → Prop
  | room {table states : UInt16} {exits : List (Option Exit)} {targets : List UInt8}
      (hcount : exits.length = Exit.count)
      (hstates : Item.exitStates exits = states.toNat % 4 ^ Exit.count)
      (htargets : Exit.TargetsSpelled exits targets) :
      Spelled (.room table exits) (word16 table ++ word16 states ++ targets)
  | object {mask name : UInt32} {description : Option UInt32} {slots : List (Nat × UInt16)}
      (hdescription : description.isSome = mask.toNat.testBit 0)
      (hslots : slots.map Prod.fst = ObjectField.bits.filter mask.toNat.testBit) :
      Spelled (.object name description slots (UInt16.ofNat (mask.toNat / 0x10000)))
        (word32 mask ++ (description.map word32).getD [] ++ (slots.flatMap fun (_, value) => word16 value)
          ++ word32 name)
  | superRoom {id x y z : UInt16} {exits : List UInt16}
      (hcount : exits.length = Item.superRoomExits x y z) :
      Spelled (.superRoom id x y z exits) ((id :: x :: y :: z :: exits).flatMap word16)
  | container (volume flags : UInt16) : Spelled (.container volume flags) (word16 volume ++ word16 flags)
  | chain {item word : UInt32} (h : ItemRef.ofStored word = item) : Spelled (.chain item) (word32 word)
  | inherit {item word : UInt32} (h : ItemRef.ofStored word = item) :
      Spelled (.inherit item) (word32 word)
  | userFlag {flags : List UInt16} (hcount : flags.length = Property.userFlagCount) :
      Spelled (.userFlag flags) (flags.flatMap word16)

/-- A property with the word for its kind. -/
def Property.Introduced (_position : Nat) (property : Property) (bytes : List UInt8) : Prop :=
  ∃ rest, property.Spelled rest ∧ bytes = word16 property.kind.code ++ rest

/-- The bytes that spell the properties of an item, which has none if they are not announced. -/
inductive Item.PropertiesSpelled (position : Nat) : UInt32 → List Property → List UInt8 → Prop
  | absent : PropertiesSpelled position 0 [] []
  | listed {init : UInt32} {properties : List Property} {bytes : List UInt8} (hinit : init ≠ 0)
      (h : Cursor.Listed Property.Introduced position properties bytes) :
      PropertiesSpelled position init properties (bytes ++ word16 0)

/-- The bytes that spell an item. -/
structure Item.Spelled (position : Nat) (item : Item) (bytes : List UInt8) : Prop where
  parts : ∃ next child parent properties, ItemRef.ofStored next = item.next ∧
    ItemRef.ofStored child = item.child ∧ ItemRef.ofStored parent = item.parent ∧
    Item.PropertiesSpelled (position + 26) item.propertiesInit item.properties properties ∧
    bytes = word16 item.adjective ++ word16 item.noun ++ word16 item.state ++ word32 next ++
      word32 child ++ word32 parent ++ word16 item.actorTable ++ word16 item.className ++
      word32 item.propertiesInit ++ properties

namespace Item

variable {offset : Nat} {c c' : Cursor}

theorem part_eq_ok_iff {α : Type} {read : Cursor → Except Fault (α × Cursor)} {result : α × Cursor} :
    part offset c read = .ok result ↔ read c = .ok result := by
  simp [part]

section properties

private theorem ofCode?_eq_none_iff {code : Nat} (h : code < 4) :
    DoorState.ofCode? code = none ↔ code = 0 := by
  match code, h with
  | 0, _ => simp [DoorState.ofCode?, DoorState.all, DoorState.code]
  | 1, _ => simp [DoorState.ofCode?, DoorState.all, DoorState.code]
  | 2, _ => simp [DoorState.ofCode?, DoorState.all, DoorState.code]
  | 3, _ => simp [DoorState.ofCode?, DoorState.all, DoorState.code]

private theorem ofCode?_eq_some_iff {code : Nat} {state : DoorState} :
    DoorState.ofCode? code = some state ↔ state.code = code := by
  constructor
  · intro h
    simpa using List.find?_some h
  · rintro rfl
    exact DoorState.ofCode?_code state

theorem exitCode_lt (exit : Option Exit) : (exit.map (·.state.code)).getD 0 < 4 := by
  cases exit with
  | none => decide
  | some exit =>
    show exit.state.code < 4
    cases exit.state <;> decide

/-- A door is told from its code, which is 0 where there is none. -/
theorem ofCode?_eq_map_iff {code : Nat} (h : code < 4) {exit : Option Exit} :
    DoorState.ofCode? code = exit.map Exit.state ↔ (exit.map (·.state.code)).getD 0 = code := by
  cases exit with
  | none =>
    rw [Option.map_none, ofCode?_eq_none_iff h]
    exact eq_comm
  | some exit =>
    rw [Option.map_some, ofCode?_eq_some_iff]
    rfl

/-- The lowest two bits of the states tell of the first door, the others of the doors behind it. -/
theorem exitStates_cons_eq_iff {count states : Nat} {exit : Option Exit} {exits : List (Option Exit)} :
    exitStates (exit :: exits) = states % 4 ^ (count + 1) ↔
      DoorState.ofCode? (states % 4) = exit.map Exit.state ∧
        exitStates exits = states / 4 % 4 ^ count := by
  have hcode := exitCode_lt exit
  have hlt : states % 4 < 4 := Nat.mod_lt _ (by decide)
  rw [ofCode?_eq_map_iff hlt, exitStates, Nat.pow_succ', Nat.mod_mul]
  omega

private theorem readExits_eq_ok_iff {count states : Nat} {exits : List (Option Exit)} :
    readExits offset count states c = .ok (exits, c') ↔ exits.length = count ∧
      exitStates exits = states % 4 ^ count ∧ ∃ bytes, Exit.TargetsSpelled exits bytes ∧
        c.Spans bytes c' := by
  induction count generalizing states exits c c' with
  | zero =>
    simp only [readExits, Except.ok.injEq, Prod.mk.injEq]
    constructor
    · rintro ⟨rfl, rfl⟩
      exact ⟨rfl, by simp [exitStates, Nat.mod_one], [], .nil, .nil _⟩
    · rintro ⟨hlength, -, bytes, htargets, hspan⟩
      obtain rfl := List.length_eq_zero_iff.mp hlength
      cases htargets
      exact ⟨rfl, (Cursor.Spans.nil_iff.mp hspan).symm⟩
  | succ count ih =>
    unfold readExits
    cases hcode : DoorState.ofCode? (states % 4) with
    | none =>
      simp only [Except.bind_eq_ok_iff, Prod.exists, ih, Except.pure_eq_ok_iff,
        Prod.mk.injEq]
      constructor
      · rintro ⟨rest, d, ⟨hlength, hstates, bytes, htargets, hspan⟩, rfl, rfl⟩
        exact ⟨by rw [List.length_cons, hlength], exitStates_cons_eq_iff.mpr ⟨hcode, hstates⟩, bytes,
          .none htargets, hspan⟩
      · rintro ⟨hlength, hstates, bytes, htargets, hspan⟩
        cases htargets with
        | nil => simp at hlength
        | none tail =>
          obtain ⟨-, hothers⟩ := exitStates_cons_eq_iff.mp hstates
          exact ⟨_, c', ⟨by simpa using hlength, hothers, bytes, tail, hspan⟩, rfl, rfl⟩
        | some =>
          obtain ⟨hdoor, -⟩ := exitStates_cons_eq_iff.mp hstates
          cases hcode.symm.trans hdoor
    | some state =>
      simp only [Except.bind_eq_ok_iff, Prod.exists, part_eq_ok_iff, Cursor.item_eq_ok_iff]
      constructor
      · rintro ⟨target, d, ⟨word, hword, hspan⟩, h⟩
        split at h
        · cases h
        case _ hne =>
          simp only [Except.bind_eq_ok_iff, Prod.exists, ih, Except.pure_eq_ok_iff,
            Prod.mk.injEq] at h
          obtain ⟨rest, e, ⟨hlength, hstates, bytes, htargets, hrest⟩, rfl, rfl⟩ := h
          exact ⟨by rw [List.length_cons, hlength], exitStates_cons_eq_iff.mpr ⟨hcode, hstates⟩, _,
            .some hword hne htargets, hspan.append hrest⟩
      · rintro ⟨hlength, hstates, bytes, htargets, hspan⟩
        cases htargets with
        | nil => simp at hlength
        | none =>
          obtain ⟨hdoor, -⟩ := exitStates_cons_eq_iff.mp hstates
          cases hcode.symm.trans hdoor
        | @some exit exits word bytes htarget hne tail =>
          obtain ⟨hdoor, hothers⟩ := exitStates_cons_eq_iff.mp hstates
          obtain rfl : state = exit.state := Option.some.inj (hcode.symm.trans hdoor)
          obtain ⟨d, hword, hrest⟩ := Cursor.Spans.append_iff.mp hspan
          refine ⟨exit.target, d, ⟨word, htarget, hword⟩, ?_⟩
          rw [if_neg hne]
          simp only [Except.bind_eq_ok_iff, Prod.exists, ih, Except.pure_eq_ok_iff,
            Prod.mk.injEq]
          exact ⟨exits, c', ⟨by simpa using hlength, hothers, bytes, tail, hrest⟩, rfl, rfl⟩

private theorem readValues_eq_ok_iff {mask : Nat} {bits : List Nat} {values : List (Nat × UInt16)} :
    readValues offset mask bits c = .ok (values, c') ↔
      values.map Prod.fst = bits.filter mask.testBit ∧
        c.Spans (values.flatMap fun (_, value) => word16 value) c' := by
  induction bits generalizing values c c' with
  | nil =>
    simp only [readValues, Except.ok.injEq, Prod.mk.injEq, List.filter_nil, List.map_eq_nil_iff]
    constructor
    · rintro ⟨rfl, rfl⟩
      exact ⟨rfl, .nil _⟩
    · rintro ⟨rfl, hspan⟩
      exact ⟨rfl, (Cursor.Spans.nil_iff.mp hspan).symm⟩
  | cons bit bits ih =>
    unfold readValues
    by_cases hbit : mask.testBit bit
    · simp only [hbit, if_true, Except.bind_eq_ok_iff, Prod.exists, part_eq_ok_iff,
        Cursor.word16_eq_ok_iff, ih, Except.pure_eq_ok_iff, Prod.mk.injEq,
        List.filter_cons_of_pos]
      constructor
      · rintro ⟨value, d, hvalue, rest, e, ⟨hrest, hspan⟩, rfl, rfl⟩
        exact ⟨by rw [List.map_cons, hrest], hvalue.append hspan⟩
      · rintro ⟨hvalues, hspan⟩
        cases values with
        | nil => cases hvalues
        | cons first rest =>
          obtain ⟨firstBit, value⟩ := first
          obtain ⟨rfl, hrest⟩ := List.cons.inj hvalues
          obtain ⟨d, hvalue, htail⟩ := Cursor.Spans.append_iff.mp hspan
          exact ⟨value, d, hvalue, rest, c', ⟨hrest, htail⟩, rfl, rfl⟩
    · simp only [hbit, Bool.false_eq_true, if_false, ih]
      rw [List.filter_cons_of_neg (by simpa using hbit)]

private theorem readDescription_eq_ok_iff {mask : Nat} {description : Option UInt32} :
    (if mask.testBit 0 then
        (part offset c Cursor.word32).map fun (description, c) => (some description, c)
      else .ok (none, c)) = .ok (description, c') ↔
      description.isSome = mask.testBit 0 ∧ c.Spans ((description.map word32).getD []) c' := by
  by_cases hbit : mask.testBit 0
  · simp only [hbit, if_true, Except.map_eq_ok_iff, Prod.exists, part_eq_ok_iff,
      Cursor.word32_eq_ok_iff, Prod.mk.injEq]
    constructor
    · rintro ⟨word, d, hword, rfl, rfl⟩
      exact ⟨rfl, hword⟩
    · rintro ⟨hsome, hspan⟩
      obtain ⟨word, rfl⟩ := Option.isSome_iff_exists.mp hsome
      exact ⟨word, c', hspan, rfl, rfl⟩
  · simp only [hbit, Bool.false_eq_true, if_false, Except.ok.injEq, Prod.mk.injEq]
    constructor
    · rintro ⟨rfl, rfl⟩
      exact ⟨rfl, .nil _⟩
    · rintro ⟨hnone, hspan⟩
      obtain rfl : description = none := by simpa [hbit] using hnone
      exact ⟨rfl, (Cursor.Spans.nil_iff.mp hspan).symm⟩

private theorem readWords_eq_ok_iff {count : Nat} {values : List UInt16} :
    readWords offset count c = .ok (values, c') ↔
      values.length = count ∧ c.Spans (values.flatMap word16) c' := by
  have hreads : Cursor.Reads (fun c => part offset c Cursor.word16)
      fun _ value bytes => bytes = word16 value := by
    intro c value c'
    rw [part_eq_ok_iff, Cursor.word16_eq_ok_iff]
    exact ⟨fun h => ⟨_, rfl, h⟩, fun ⟨_, hbytes, h⟩ => hbytes ▸ h⟩
  have hlisted : ∀ {position : Nat} {values : List UInt16} {bytes : List UInt8},
      Cursor.Listed (fun _ value bytes => bytes = word16 value) position values bytes ↔
        bytes = values.flatMap word16 := by
    intro position values bytes
    refine (Cursor.listed_iff_flatMap fun _ _ _ => (and_iff_right trivial).symm).trans ?_
    exact and_iff_right fun _ _ => trivial
  rw [readWords, Cursor.times_eq_ok_iff hreads]
  simp only [hlisted, List.reverse_nil, List.nil_append]
  constructor
  · rintro ⟨_, _, rfl, hlength, rfl, hspan⟩
    exact ⟨hlength, hspan⟩
  · rintro ⟨hlength, hspan⟩
    exact ⟨_, _, rfl, hlength, rfl, hspan⟩

private theorem readProperty_eq_ok_iff {kind : PropertyKind} {property : Property} :
    readProperty offset kind c = .ok (property, c') ↔
      property.kind = kind ∧ ∃ bytes, property.Spelled bytes ∧ c.Spans bytes c' := by
  cases kind with
  | room =>
    simp only [readProperty, Except.bind_eq_ok_iff, Prod.exists, part_eq_ok_iff,
      Cursor.word16_eq_ok_iff, readExits_eq_ok_iff, Except.pure_eq_ok_iff, Prod.mk.injEq]
    constructor
    · rintro ⟨table, d, htable, states, e, hstates, exits, f, ⟨hcount, hcode, bytes, htargets, hspan⟩,
        rfl, rfl⟩
      exact ⟨rfl, _, .room hcount hcode htargets, (htable.append hstates).append hspan⟩
    · rintro ⟨hkind, bytes, hspelled, hspan⟩
      cases hspelled with
      | @room table states exits targets hcount hcode htargets =>
        obtain ⟨e, hwords, hexits⟩ := Cursor.Spans.append_iff.mp hspan
        obtain ⟨d, htable, hstates⟩ := Cursor.Spans.append_iff.mp hwords
        exact ⟨table, d, htable, states, e, hstates, exits, c', ⟨hcount, hcode, targets, htargets, hexits⟩,
          rfl, rfl⟩
      | _ => cases hkind
  | object =>
    simp only [readProperty, Except.bind_eq_ok_iff, Except.ite_bind_eq_ok_iff, Prod.exists,
      part_eq_ok_iff, Cursor.word32_eq_ok_iff, readDescription_eq_ok_iff,
      readValues_eq_ok_iff, Except.pure_eq_ok_iff, Prod.mk.injEq]
    constructor
    · rintro ⟨mask, d, hmask, description, e, ⟨hdescription, hshown⟩, slots, f, ⟨hslots, hvalues⟩, name,
        g, hname, rfl, rfl⟩
      exact ⟨rfl, _, .object hdescription hslots, ((hmask.append hshown).append hvalues).append hname⟩
    · rintro ⟨hkind, bytes, hspelled, hspan⟩
      cases hspelled with
      | @object mask name description slots hdescription hslots =>
        obtain ⟨f, hfront, hname⟩ := Cursor.Spans.append_iff.mp hspan
        obtain ⟨e, hstart, hvalues⟩ := Cursor.Spans.append_iff.mp hfront
        obtain ⟨d, hmask, hshown⟩ := Cursor.Spans.append_iff.mp hstart
        exact ⟨mask, d, hmask, description, e, ⟨hdescription, hshown⟩, slots, f, ⟨hslots, hvalues⟩, name,
          c', hname, rfl, rfl⟩
      | _ => cases hkind
  | superRoom =>
    simp only [readProperty, Except.bind_eq_ok_iff, Prod.exists, part_eq_ok_iff,
      Cursor.word16_eq_ok_iff, readWords_eq_ok_iff, Except.pure_eq_ok_iff, Prod.mk.injEq]
    constructor
    · rintro ⟨id, d, hid, x, e, hx, y, f, hy, z, g, hz, exits, i, ⟨hcount, hexits⟩, rfl, rfl⟩
      exact ⟨rfl, _, .superRoom hcount, hid.append (hx.append (hy.append (hz.append hexits)))⟩
    · rintro ⟨hkind, bytes, hspelled, hspan⟩
      cases hspelled with
      | @superRoom id x y z exits hcount =>
        obtain ⟨d, hid, hspan⟩ := Cursor.Spans.append_iff.mp hspan
        obtain ⟨e, hx, hspan⟩ := Cursor.Spans.append_iff.mp hspan
        obtain ⟨f, hy, hspan⟩ := Cursor.Spans.append_iff.mp hspan
        obtain ⟨g, hz, hspan⟩ := Cursor.Spans.append_iff.mp hspan
        exact ⟨id, d, hid, x, e, hx, y, f, hy, z, g, hz, exits, c', ⟨hcount, hspan⟩, rfl, rfl⟩
      | _ => cases hkind
  | container =>
    simp only [readProperty, Except.bind_eq_ok_iff, Prod.exists, part_eq_ok_iff,
      Cursor.word16_eq_ok_iff, Except.pure_eq_ok_iff, Prod.mk.injEq]
    constructor
    · rintro ⟨volume, d, hvolume, flags, e, hflags, rfl, rfl⟩
      exact ⟨rfl, _, .container volume flags, hvolume.append hflags⟩
    · rintro ⟨hkind, bytes, hspelled, hspan⟩
      cases hspelled with
      | container volume flags =>
        obtain ⟨d, hvolume, hflags⟩ := Cursor.Spans.append_iff.mp hspan
        exact ⟨volume, d, hvolume, flags, c', hflags, rfl, rfl⟩
      | _ => cases hkind
  | chain =>
    simp only [readProperty, Except.bind_eq_ok_iff, Prod.exists, part_eq_ok_iff,
      Cursor.item_eq_ok_iff, Except.pure_eq_ok_iff, Prod.mk.injEq]
    constructor
    · rintro ⟨item, d, ⟨word, hword, hspan⟩, rfl, rfl⟩
      exact ⟨rfl, _, .chain hword, hspan⟩
    · rintro ⟨hkind, bytes, hspelled, hspan⟩
      cases hspelled with
      | @chain item word hword => exact ⟨item, c', ⟨word, hword, hspan⟩, rfl, rfl⟩
      | _ => cases hkind
  | inherit =>
    simp only [readProperty, Except.bind_eq_ok_iff, Prod.exists, part_eq_ok_iff,
      Cursor.item_eq_ok_iff, Except.pure_eq_ok_iff, Prod.mk.injEq]
    constructor
    · rintro ⟨item, d, ⟨word, hword, hspan⟩, rfl, rfl⟩
      exact ⟨rfl, _, .inherit hword, hspan⟩
    · rintro ⟨hkind, bytes, hspelled, hspan⟩
      cases hspelled with
      | @inherit item word hword => exact ⟨item, c', ⟨word, hword, hspan⟩, rfl, rfl⟩
      | _ => cases hkind
  | userFlag =>
    simp only [readProperty, Except.bind_eq_ok_iff, Prod.exists, readWords_eq_ok_iff,
      Except.pure_eq_ok_iff, Prod.mk.injEq]
    constructor
    · rintro ⟨flags, d, ⟨hcount, hspan⟩, rfl, rfl⟩
      exact ⟨rfl, _, .userFlag hcount, hspan⟩
    · rintro ⟨hkind, bytes, hspelled, hspan⟩
      cases hspelled with
      | @userFlag flags hcount => exact ⟨flags, c', ⟨hcount, hspan⟩, rfl, rfl⟩
      | _ => cases hkind

private theorem kind_ofCode?_eq_some_iff {code : UInt16} {kind : PropertyKind} :
    PropertyKind.ofCode? code = some kind ↔ kind.code = code := by
  constructor
  · intro h
    simpa using List.find?_some h
  · rintro rfl
    exact PropertyKind.ofCode?_code kind

private theorem kind_code_ne_zero (kind : PropertyKind) : kind.code ≠ 0 := by
  cases kind <;> decide

private theorem readNextProperty_eq_some_iff {property : Property} :
    readNextProperty offset c = .ok (some property, c') ↔
      ∃ bytes, property.Introduced c.position bytes ∧ c.Spans bytes c' := by
  simp only [readNextProperty, Except.bind_eq_ok_iff, Prod.exists, part_eq_ok_iff,
    Cursor.word16_eq_ok_iff]
  constructor
  · rintro ⟨word, d, hword, h⟩
    split at h
    · simp [pure, Except.pure] at h
    · split at h
      · cases h
      case _ kind hkind =>
        simp only [Except.bind_eq_ok_iff, Prod.exists, readProperty_eq_ok_iff, Except.pure_eq_ok_iff,
          Prod.mk.injEq, Option.some.injEq] at h
        obtain ⟨_, e, ⟨rfl, bytes, hspelled, hspan⟩, rfl, rfl⟩ := h
        refine ⟨_, ⟨bytes, hspelled, rfl⟩, ?_⟩
        rw [kind_ofCode?_eq_some_iff.mp hkind]
        exact hword.append hspan
  · rintro ⟨_, ⟨bytes, hspelled, rfl⟩, hspan⟩
    obtain ⟨d, hword, hrest⟩ := Cursor.Spans.append_iff.mp hspan
    refine ⟨property.kind.code, d, hword, ?_⟩
    rw [if_neg (kind_code_ne_zero _), PropertyKind.ofCode?_code]
    simp only [Except.bind_eq_ok_iff, Prod.exists, readProperty_eq_ok_iff, Except.pure_eq_ok_iff,
      Prod.mk.injEq, Option.some.injEq]
    exact ⟨property, c', ⟨rfl, bytes, hspelled, hrest⟩, rfl, rfl⟩

private theorem readNextProperty_eq_none_iff :
    readNextProperty offset c = .ok (none, c') ↔ c.Spans (word16 0) c' := by
  simp only [readNextProperty, Except.bind_eq_ok_iff, Prod.exists, part_eq_ok_iff,
    Cursor.word16_eq_ok_iff]
  constructor
  · rintro ⟨word, d, hword, h⟩
    split at h
    case _ hzero =>
      cases h
      exact hzero ▸ hword
    · split at h
      · cases h
      · simp [Except.bind_eq_ok_iff, pure, Except.pure] at h
  · intro hspan
    exact ⟨0, c', hspan, by rw [if_pos rfl]; rfl⟩

private theorem readsItem_readNextProperty :
    Cursor.ReadsItem (readNextProperty offset) Property.Introduced where
  some_iff _ _ _ := readNextProperty_eq_some_iff
  ne_nil := by
    rintro position property _ ⟨bytes, _, rfl⟩
    exact List.append_ne_nil_of_left_ne_nil (by simp [word16]) _

end properties

private theorem readProperties_eq_ok_iff {init : UInt32} {properties : List Property} :
    (if init = 0 then .ok ([], c) else c.collect (readNextProperty offset)) = .ok (properties, c') ↔
      ∃ bytes, PropertiesSpelled c.position init properties bytes ∧ c.Spans bytes c' := by
  by_cases hinit : init = 0
  · rw [if_pos hinit]
    simp only [Except.ok.injEq, Prod.mk.injEq]
    constructor
    · rintro ⟨rfl, rfl⟩
      exact ⟨[], hinit ▸ .absent, .nil _⟩
    · rintro ⟨bytes, hspelled, hspan⟩
      cases hspelled with
      | absent => exact ⟨rfl, (Cursor.Spans.nil_iff.mp hspan).symm⟩
      | listed hne => exact absurd hinit hne
  · rw [if_neg hinit, Cursor.collect_eq_ok_iff readsItem_readNextProperty]
    simp only [readNextProperty_eq_none_iff]
    constructor
    · rintro ⟨bytes, d, hlisted, hspan, hend⟩
      exact ⟨_, .listed hinit hlisted, hspan.append hend⟩
    · rintro ⟨_, hspelled, hspan⟩
      cases hspelled with
      | absent => exact absurd rfl hinit
      | @listed _ _ bytes _ hlisted =>
        obtain ⟨d, hbytes, hend⟩ := Cursor.Spans.append_iff.mp hspan
        exact ⟨bytes, d, hlisted, hbytes, hend⟩

/-- An item is read exactly where bytes follow that spell it. -/
theorem reads_read : Cursor.Reads read Item.Spelled := by
  intro c item c'
  unfold read
  simp only [Except.bind_eq_ok_iff, Except.ite_bind_eq_ok_iff, Prod.exists, part_eq_ok_iff, Cursor.word16_eq_ok_iff,
    Cursor.word32_eq_ok_iff, Cursor.item_eq_ok_iff, readProperties_eq_ok_iff, Except.pure_eq_ok_iff, Prod.mk.injEq]
  constructor
  · rintro ⟨adjective, d₁, h₁, noun, d₂, h₂, state, d₃, h₃, next, d₄, ⟨nextWord, hnext, h₄⟩, child, d₅,
      ⟨childWord, hchild, h₅⟩, parent, d₆, ⟨parentWord, hparent, h₆⟩, actorTable, d₇, h₇, className, d₈,
      h₈, init, d₉, h₉, properties, d, ⟨bytes, hproperties, hspan⟩, rfl, rfl⟩
    have hwords := ((((((((h₁.append h₂).append h₃).append h₄).append h₅).append h₆).append h₇).append
      h₈).append h₉)
    rw [hwords.position] at hproperties
    exact ⟨_, ⟨nextWord, childWord, parentWord, bytes, hnext, hchild, hparent, hproperties, rfl⟩,
      hwords.append hspan⟩
  · rintro ⟨_, ⟨nextWord, childWord, parentWord, bytes, hnext, hchild, hparent, hproperties, rfl⟩, hspan⟩
    obtain ⟨d₉, hwords, hspan⟩ := Cursor.Spans.append_iff.mp hspan
    have hposition := hwords.position
    obtain ⟨d₈, hwords, h₉⟩ := Cursor.Spans.append_iff.mp hwords
    obtain ⟨d₇, hwords, h₈⟩ := Cursor.Spans.append_iff.mp hwords
    obtain ⟨d₆, hwords, h₇⟩ := Cursor.Spans.append_iff.mp hwords
    obtain ⟨d₅, hwords, h₆⟩ := Cursor.Spans.append_iff.mp hwords
    obtain ⟨d₄, hwords, h₅⟩ := Cursor.Spans.append_iff.mp hwords
    obtain ⟨d₃, hwords, h₄⟩ := Cursor.Spans.append_iff.mp hwords
    obtain ⟨d₂, hwords, h₃⟩ := Cursor.Spans.append_iff.mp hwords
    obtain ⟨d₁, h₁, h₂⟩ := Cursor.Spans.append_iff.mp hwords
    refine ⟨_, d₁, h₁, _, d₂, h₂, _, d₃, h₃, _, d₄, ⟨nextWord, hnext, h₄⟩, _, d₅,
      ⟨childWord, hchild, h₅⟩, _, d₆, ⟨parentWord, hparent, h₆⟩, _, d₇, h₇, _, d₈, h₈, _, d₉, h₉, _, c',
      ⟨bytes, ?_, hspan⟩, rfl, rfl⟩
    rw [hposition]
    exact hproperties

/-- Items are read exactly where bytes follow that spell as many, one after the other. -/
theorem readAll_eq_ok_iff {count : Nat} {items : List Item} :
    readAll c count = .ok (items, c') ↔ items.length = count ∧
      ∃ bytes, Cursor.Listed Item.Spelled c.position items bytes ∧ c.Spans bytes c' := by
  rw [readAll, Cursor.times_eq_ok_iff reads_read]
  constructor
  · rintro ⟨new, bytes, rfl, hlength, hlisted, hspan⟩
    exact ⟨hlength, bytes, hlisted, hspan⟩
  · rintro ⟨hlength, bytes, hlisted, hspan⟩
    exact ⟨items, bytes, rfl, hlength, hlisted, hspan⟩

end Item

end Adventure
