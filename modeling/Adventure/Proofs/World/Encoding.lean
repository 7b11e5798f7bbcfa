import Adventure.Proofs.World.Parsed

namespace Adventure

open Bytes World

/-- The items that a property refers to. -/
def Property.references : Property → List UInt32
  | .room _ exits => (exits.filterMap id).map (·.target)
  | .chain item => [item]
  | .inherit item => [item]
  | .object .. | .superRoom .. | .container .. | .userFlag _ => []

namespace Item

/-- The items that an item refers to, its properties included. -/
def references (item : Item) : List UInt32 :=
  item.next :: item.child :: item.parent :: item.properties.flatMap Property.references

private theorem referenceBytes_failsExactly (item : UInt32) :
    Except.FailsExactly (.unencodableItem 1) (item = 1) (referenceBytes item) where
  fails := by
    rintro rfl
    rfl
  succeeds hplayer := by
    obtain ⟨bytes, hbytes⟩ := Option.ne_none_iff_exists'.mp (mt ItemRef.stored?_eq_none_iff.mp hplayer)
    exact ⟨bytes, by rw [referenceBytes, hbytes]⟩

private theorem propertyBytes_failsExactly {property : Property} (hstored : property.Stored) :
    Except.FailsExactly (.unencodableItem 1) (1 ∈ property.references) (propertyBytes property) := by
  cases property with
  | room table exits =>
    have htargets : Except.FailsExactly (.unencodableItem 1)
        (∃ exit ∈ exits.filterMap id, exit.target = 1)
        ((exits.filterMap id).mapM fun exit => referenceBytes exit.target) :=
      .mapM fun exit _ => referenceBytes_failsExactly exit.target
    exact htargets.map.congr (by simp [Property.references])
  | superRoom id x y z exits =>
    have hcount : exits.length = superRoomExits x y z := hstored
    rw [propertyBytes, if_pos hcount]
    exact (Except.FailsExactly.of_ok _).congr (by simp [Property.references])
  | chain item => exact (referenceBytes_failsExactly item).congr (by simp [Property.references, eq_comm])
  | inherit item => exact (referenceBytes_failsExactly item).congr (by simp [Property.references, eq_comm])
  | object | container | userFlag => exact (Except.FailsExactly.of_ok _).congr (by simp [Property.references])

private theorem propertiesBytes_failsExactly {properties : List Property}
    (hstored : ∀ property ∈ properties, property.Stored) :
    Except.FailsExactly (.unencodableItem 1) (1 ∈ properties.flatMap Property.references)
      (propertiesBytes properties) := by
  have hproperties := Except.FailsExactly.mapM fun property hproperty =>
    (propertyBytes_failsExactly (hstored property hproperty)).map
      (f := (word16 property.kind.code ++ ·))
  exact hproperties.map.congr List.mem_flatMap.symm

private theorem toBytes_failsExactly {item : Item} (hstored : item.Stored) :
    Except.FailsExactly (.unencodableItem 1) (1 ∈ item.references) item.toBytes := by
  have hproperties : Except.FailsExactly (.unencodableItem 1)
      (1 ∈ item.properties.flatMap Property.references)
      (if item.propertiesInit = 0 then .ok [] else propertiesBytes item.properties) := by
    by_cases hinit : item.propertiesInit = 0
    · rw [if_pos hinit, hstored.announced hinit]
      exact (Except.FailsExactly.of_ok []).congr (by simp)
    · rw [if_neg hinit]
      exact propertiesBytes_failsExactly hstored.properties
  unfold toBytes
  refine ((referenceBytes_failsExactly item.next).bind fun _ =>
    (referenceBytes_failsExactly item.child).bind fun _ =>
      (referenceBytes_failsExactly item.parent).bind fun _ =>
        hproperties.ite_bind fun _ => .of_ok _).congr ?_
  simp only [references, List.mem_cons, or_false, eq_comm]

theorem allBytes_failsExactly {items : List Item} (hstored : ∀ item ∈ items, item.Stored) :
    Except.FailsExactly (.unencodableItem 1) (1 ∈ items.flatMap references) (allBytes items) := by
  have hitems := Except.FailsExactly.mapM fun item hitem => toBytes_failsExactly (hstored item hitem)
  exact hitems.map.congr List.mem_flatMap.symm

/-- The items of a document are encoded unless one of them refers to the player, and otherwise the same
    items are read from their bytes, whatever follows. -/
theorem parsed_items_encode {document : String} {items : List Item}
    (h : parseAll document = .ok items) :
    (∀ error, allBytes items = .error error ↔
      error = .unencodableItem 1 ∧ 1 ∈ items.flatMap references) ∧
    (1 ∉ items.flatMap references → ∃ bytes, allBytes items = .ok bytes ∧
      ∀ tail, readAll (Cursor.ofBytes (bytes ++ tail)) items.length =
        .ok (items, ⟨bytes ++ tail, bytes.length, tail⟩)) := by
  have hstored := stored_of_parseAll h
  have hencoded := allBytes_failsExactly hstored
  refine ⟨fun _ => hencoded.eq_error_iff, fun hplayer => ?_⟩
  obtain ⟨bytes, hbytes⟩ := hencoded.succeeds hplayer
  exact ⟨bytes, hbytes, readAll_allBytes hstored hbytes⟩

/-- A block of no rooms is encoded, and an item in the player's hands is not. -/
theorem parsed_items_encode_unless_carried :
    let header := "== ITEM 2 ==\n\tADJECTIVE 0\n\tNOUN 5\n\tSTATE 0\n\tNEXT 0\n\tCHILD 0\n"
    let rest := "\tACTOR_TABLE 0\n\tCLASS 0\n\tPROPERTIES 9\n"
    let rooms : Item := ⟨0, 5, 0, 0, 0, 0, 0, 0, 9, [.superRoom 4 0 1 1 []]⟩
    let carried : Item := ⟨0, 5, 0, 0, 0, 1, 0, 0, 9, []⟩
    parseAll (header ++ "\tPARENT 0\n" ++ rest ++ "==> SUPER_ROOM\n\tSUPER_ROOM 4 0 1 1\n\tEXITS\n") =
        .ok [rooms] ∧
      (∃ bytes, allBytes [rooms] = .ok bytes ∧ ∀ tail, readAll (Cursor.ofBytes (bytes ++ tail)) 1 =
        .ok ([rooms], ⟨bytes ++ tail, bytes.length, tail⟩)) ∧
      parseAll (header ++ "\tPARENT 1\n" ++ rest) = .ok [carried] ∧
      allBytes [carried] = .error (.unencodableItem 1) := by
  intro header rest rooms carried
  have hrooms : parseAll (header ++ "\tPARENT 0\n" ++ rest ++
      "==> SUPER_ROOM\n\tSUPER_ROOM 4 0 1 1\n\tEXITS\n") = .ok [rooms] :=
    Except.eq_ok_of_toOption (by decide +kernel)
  have hcarried : parseAll (header ++ "\tPARENT 1\n" ++ rest) = .ok [carried] :=
    Except.eq_ok_of_toOption (by decide +kernel)
  exact ⟨hrooms, (parsed_items_encode hrooms).2 (by decide), hcarried,
    ((parsed_items_encode hcarried).1 _).mpr ⟨rfl, by decide⟩⟩

end Item

end Adventure
