import Adventure.Proofs.Text.Numeral
import Adventure.Proofs.World.Writing
import Adventure.World.Parse

namespace Adventure.Item

open Text World

section blocks

variable {fields rest : Fields}

private theorem parseExit_target_ne_zero {line : Nat} {value : List Char} {exit : Exit}
    (h : parseExit line value = .ok (some exit)) : exit.target ≠ 0 := by
  unfold parseExit at h
  dsimp only at h
  split at h
  · cases h
  · split at h
    · split at h
      case _ target state htarget _ =>
        split at h
        · cases h
        case _ hne =>
          cases h
          have hlt := decimal?_eq_some_lt htarget
          intro hzero
          have hvalue := congrArg UInt32.toNat hzero
          rw [UInt32.toNat_ofNat_of_lt' hlt] at hvalue
          exact hne hvalue
      · cases h
    · cases h

private theorem parseExits_eq_ok {numbers : List Nat} {exits : List (Option Exit)}
    (h : parseExits fields numbers = .ok (exits, rest)) :
    exits.length = numbers.length ∧ ∀ exit, some exit ∈ exits → exit.target ≠ 0 := by
  induction numbers generalizing fields exits with
  | nil =>
    cases h
    simp
  | cons number numbers ih =>
    simp only [parseExits, Except.bind_eq_ok_iff, Prod.exists, Except.pure_eq_ok_iff,
      Prod.mk.injEq] at h
    obtain ⟨line, value, _, -, exit, hexit, others, _, hothers, rfl, rfl⟩ := h
    obtain ⟨hlength, htargets⟩ := ih hothers
    refine ⟨by rw [List.length_cons, List.length_cons, hlength], fun door hdoor => ?_⟩
    rcases List.mem_cons.mp hdoor with rfl | hdoor
    · exact parseExit_target_ne_zero hexit
    · exact htargets door hdoor

private theorem parseFlags_length {numbers : List Nat} {flags : List UInt16}
    (h : parseFlags fields numbers = .ok (flags, rest)) : flags.length = numbers.length := by
  induction numbers generalizing fields flags with
  | nil =>
    cases h
    rfl
  | cons number numbers ih =>
    simp only [parseFlags, Except.bind_eq_ok_iff, Prod.exists, Except.pure_eq_ok_iff,
      Prod.mk.injEq] at h
    obtain ⟨_, _, -, _, _, hflags, rfl, rfl⟩ := h
    rw [List.length_cons, List.length_cons, ih hflags]

end blocks

section values

private theorem mem_insertValue {bit other : Nat} {value : UInt16} {values : List (Nat × UInt16)}
    (h : other ∈ (insertValue bit value values).map Prod.fst) :
    other = bit ∨ other ∈ values.map Prod.fst := by
  induction values with
  | nil => simpa [insertValue] using h
  | cons first values ih =>
    unfold insertValue at h
    split at h
    · simpa using h
    · split at h
      · rcases List.mem_cons.mp h with heq | hrest
        · exact .inl heq
        · exact .inr (List.mem_cons_of_mem _ hrest)
      · rcases List.mem_cons.mp h with heq | hrest
        · exact .inr (List.mem_cons.mpr (.inl heq))
        · exact (ih hrest).imp_right (List.mem_cons_of_mem _)

theorem Ascending.insertValue {bit : Nat} {value : UInt16} {values : List (Nat × UInt16)}
    (h : Ascending values) (hbit : bit ∈ ObjectField.bits) : Ascending (insertValue bit value values) := by
  refine ⟨?_, fun other hother => ?_⟩
  · replace h := h.1
    induction values with
    | nil => exact List.pairwise_singleton _ _
    | cons first values ih =>
      rw [List.map_cons, List.pairwise_cons] at h
      unfold Item.insertValue
      split
      case _ hlt =>
        rw [List.map_cons, List.map_cons, List.pairwise_cons, List.pairwise_cons]
        refine ⟨List.forall_mem_cons.mpr ⟨hlt, fun other hother => ?_⟩, h⟩
        exact Nat.lt_trans hlt (h.1 other hother)
      · split
        case _ heq =>
          rw [List.map_cons, List.pairwise_cons]
          exact ⟨heq ▸ h.1, h.2⟩
        case _ hnot hne =>
          rw [List.map_cons, List.pairwise_cons]
          refine ⟨fun other hother => ?_, ih h.2⟩
          rcases mem_insertValue hother with rfl | hother
          · omega
          · exact h.1 other hother
  · rcases mem_insertValue hother with rfl | hother
    · exact hbit
    · exact h.2 other hother

theorem Ascending.parseValues {gathered values : List (Nat × UInt16)}
    {fields : List (String × Nat × List Char)} (hgathered : Ascending gathered)
    (h : parseValues gathered fields = .ok values) : Ascending values := by
  induction fields generalizing gathered with
  | nil =>
    cases h
    exact hgathered
  | cons field fields ih =>
    obtain ⟨key, line, value⟩ := field
    unfold Item.parseValues at h
    split at h
    · cases h
    case _ bit hbit =>
      obtain ⟨number, -, hrest⟩ := Except.bind_eq_ok_iff.mp h
      exact ih (hgathered.insertValue (List.mem_of_find?_eq_some hbit)) hrest

end values

/-- A block gives a property that can be stored. -/
theorem parseProperty_stored {kind : PropertyKind} {fields : Fields} {property : Property}
    (h : parseProperty kind fields = .ok property) : property.Stored := by
  simp only [parseProperty, Except.bind_eq_ok_iff, Prod.exists, Except.pure_eq_ok_iff] at h
  obtain ⟨_, _, h, _, -, rfl⟩ := h
  cases kind <;>
    simp only [parsePropertyFields, Except.bind_eq_ok_iff, Except.pure_eq_ok_iff, Prod.exists, Prod.mk.injEq] at h
  case room =>
    obtain ⟨_, _, -, exits, _, hexits, rfl, -⟩ := h
    obtain ⟨hlength, htargets⟩ := parseExits_eq_ok hexits
    exact ⟨by rw [hlength, List.length_range'], htargets⟩
  case object =>
    obtain ⟨_, _, -, _, _, -, _, _, -, slots, hslots, rfl, -⟩ := h
    have hnone : Ascending [] := ⟨.nil, by simp⟩
    exact ascending_iff_exists_mask.mp (hnone.parseValues hslots)
  case superRoom =>
    obtain ⟨line, numbers, _, -, h⟩ := h
    split at h
    · simp only [Except.bind_eq_ok_iff, Except.throw_else_eq_ok_iff, Except.pure_eq_ok_iff, Prod.exists,
        Prod.mk.injEq] at h
      obtain ⟨_, exits, _, -, hcount, rfl, -⟩ := h
      exact not_not.mp hcount
    · cases h
  case container =>
    obtain ⟨_, _, -, _, _, -, rfl, -⟩ := h
    trivial
  case chain =>
    obtain ⟨_, _, -, rfl, -⟩ := h
    trivial
  case inherit =>
    obtain ⟨_, _, -, rfl, -⟩ := h
    trivial
  case userFlag =>
    obtain ⟨flags, _, hflags, rfl, -⟩ := h
    exact (parseFlags_length hflags).trans List.length_range'

theorem Draft.finish_stored {draft : Draft} {item : Item} (h : draft.finish = .ok item) :
    item.Stored := by
  simp only [Draft.finish, Except.bind_eq_ok_iff, Except.throw_else_eq_ok_iff, Except.pure_eq_ok_iff,
    Prod.exists] at h
  obtain ⟨_, _, -, _, _, -, _, _, -, _, _, -, _, _, -, _, _, -, _, _, -, _, _, -, init, _, -, properties,
    hproperties, _, -, hannounced, rfl⟩ := h
  refine ⟨fun property hproperty => ?_, fun hinit => ?_⟩
  · obtain ⟨block, -, hblock⟩ := forall₂_exists_left (Except.mapM_eq_ok_iff.mp hproperties) hproperty
    exact parseProperty_stored hblock
  · rw [not_and] at hannounced
    simpa using hannounced hinit

namespace Reading

/-- The items that are finished can be stored. -/
def Finished (reading : Reading) : Prop := ∀ item ∈ reading.items, item.Stored

variable {reading after : Reading} {line : Nat} {content : List Char}

theorem Finished.close (h : reading.Finished) {items : List Item} (hclose : reading.close = .ok items) :
    ∀ item ∈ items, item.Stored := by
  unfold Reading.close at hclose
  split at hclose
  · obtain ⟨item, hitem, rfl⟩ := Except.map_eq_ok_iff.mp hclose
    exact List.forall_mem_cons.mpr ⟨Draft.finish_stored hitem, h⟩
  · cases hclose
    exact h

theorem Finished.readItemStart (h : reading.Finished)
    (hread : reading.readItemStart line content = .ok after) : after.Finished := by
  unfold Reading.readItemStart at hread
  split at hread
  · obtain ⟨items, hitems, hread⟩ := Except.bind_eq_ok_iff.mp hread
    dsimp only at hread
    split at hread
    · cases hread
    · cases hread
      exact h.close hitems
  · cases hread

theorem Finished.readPropertyStart (h : reading.Finished)
    (hread : reading.readPropertyStart line content = .ok after) : after.Finished := by
  unfold Reading.readPropertyStart at hread
  split at hread
  · dsimp only at hread
    split at hread
    · cases hread
      exact h
    · cases hread
  · cases hread

theorem Finished.readField (h : reading.Finished)
    (hread : reading.readField line content = .ok after) : after.Finished := by
  unfold Reading.readField at hread
  split at hread
  · obtain ⟨draft, -, hread⟩ := Except.bind_eq_ok_iff.mp hread
    cases hread
    exact h
  · cases hread

theorem Finished.readLine (h : reading.Finished) (hread : reading.readLine line content = .ok after) :
    after.Finished := by
  unfold Reading.readLine at hread
  split at hread
  · cases hread
    exact h
  · exact h.readPropertyStart hread
  · exact h.readItemStart hread
  · exact h.readField hread

end Reading

/-- The items of an objects document can be stored. -/
theorem stored_of_parseAll {document : String} {items : List Item} (h : parseAll document = .ok items) :
    ∀ item ∈ items, item.Stored := by
  simp only [parseAll, Except.bind_eq_ok_iff, Except.pure_eq_ok_iff] at h
  obtain ⟨reading, hreading, closed, hclosed, rfl⟩ := h
  have hfinished : reading.Finished :=
    Except.foldlM_invariant Reading.Finished (fun _ _ _ _ h hread => h.readLine hread)
      (fun _ hitem => absurd hitem List.not_mem_nil) hreading
  intro item hitem
  exact hfinished.close hclosed item (List.mem_reverse.mp hitem)

end Adventure.Item
