import Adventure.Proofs.Bytes.Reading

namespace Adventure.Cursor

/-- The cursor at the same place of a buffer that goes on with `tail`. -/
def extend (c : Cursor) (tail : List UInt8) : Cursor :=
  { c with data := c.data ++ tail, rest := c.rest ++ tail }

@[simp] theorem position_extend (c : Cursor) (tail : List UInt8) : (c.extend tail).position = c.position := rfl

@[simp] theorem rest_extend (c : Cursor) (tail : List UInt8) : (c.extend tail).rest = c.rest ++ tail := rfl

theorem extend_ofBytes (data tail : List UInt8) : (ofBytes data).extend tail = ofBytes (data ++ tail) := rfl

private theorem advance_extend {c : Cursor} {n : Nat} (h : n ≤ c.rest.length) (tail : List UInt8) :
    (c.extend tail).advance n = (c.advance n).extend tail := by
  simp [advance, extend, List.drop_append_of_le_length h]

variable {ε ε' α β : Type}

theorem ReadsItem.rest_lt {step : Cursor → Except ε (Option α × Cursor)}
    {spelled : Nat → α → List UInt8 → Prop} (h : ReadsItem step spelled) {c d : Cursor} {a : α}
    (hread : step c = .ok (some a, d)) : d.rest.length < c.rest.length := by
  obtain ⟨bytes, hbytes, hspan⟩ := (h.some_iff c a d).mp hread
  rw [hspan.length_rest]
  exact Nat.lt_add_of_pos_left (List.length_pos_of_ne_nil (h.ne_nil _ _ _ hbytes))

/-- What is read from a buffer, and what is read when it goes on with `tail`: the same, unless the first is
    an error that tells that bytes are lacking. -/
inductive Outlasts (lacks : ε → Prop) (tail : List UInt8) :
    Except ε (α × Cursor) → Except ε (α × Cursor) → Prop
  | ok (a : α) (c : Cursor) : Outlasts lacks tail (.ok (a, c)) (.ok (a, c.extend tail))
  | error (fault : ε) : Outlasts lacks tail (.error fault) (.error fault)
  | lacks {fault : ε} (h : lacks fault) (later : Except ε (α × Cursor)) : Outlasts lacks tail (.error fault) later

/-- A reader that comes to the same answer however a buffer goes on, unless the buffer lacks bytes. -/
def Steady (lacks : ε → Prop) (read : Cursor → Except ε (α × Cursor)) : Prop :=
  ∀ c tail, Outlasts lacks tail (read c) (read (c.extend tail))

namespace Outlasts

variable {lacks : ε → Prop} {tail : List UInt8} {now later : Except ε (α × Cursor)}

theorem bind {next next' : α × Cursor → Except ε (β × Cursor)} (h : Outlasts lacks tail now later)
    (hnext : ∀ a c, Outlasts lacks tail (next (a, c)) (next' (a, c.extend tail))) :
    Outlasts lacks tail (now >>= next) (later >>= next') := by
  cases h with
  | ok a c => exact hnext a c
  | error fault => exact .error fault
  | lacks h => exact .lacks h _

theorem map {f : α → β} (h : Outlasts lacks tail now later) :
    Outlasts lacks tail (now.map fun (a, c) => (f a, c)) (later.map fun (a, c) => (f a, c)) := by
  cases h with
  | ok a c => exact .ok _ c
  | error fault => exact .error fault
  | lacks h => exact .lacks h _

theorem mapError {lacks' : ε' → Prop} {f : ε → ε'} (h : Outlasts lacks tail now later)
    (hf : ∀ fault, lacks fault → lacks' (f fault)) : Outlasts lacks' tail (now.mapError f) (later.mapError f) := by
  cases h with
  | ok a c => exact .ok a c
  | error fault => exact .error _
  | lacks h => exact .lacks (hf _ h) _

theorem ite {condition : Prop} [Decidable condition] {other other' : Except ε (α × Cursor)}
    (h : Outlasts lacks tail now later) (h' : Outlasts lacks tail other other') :
    Outlasts lacks tail (if condition then now else other) (if condition then later else other') := by
  split
  · exact h
  · exact h'

/-- Something that is not read from the buffer at all. -/
theorem check {x : Except ε β} {next next' : β → Except ε (α × Cursor)}
    (hnext : ∀ b, Outlasts lacks tail (next b) (next' b)) :
    Outlasts lacks tail (x >>= next) (x >>= next') := by
  cases x with
  | ok b => exact hnext b
  | error fault => exact .error fault

end Outlasts

section primitive

variable (c : Cursor) (tail : List UInt8)

/-- Reading a field fails for lack of bytes only. -/
theorem bytes_outlasts (n : Nat) : Outlasts (fun _ => True) tail (c.bytes n) ((c.extend tail).bytes n) := by
  by_cases hlength : (c.rest.take n).length < n
  · have hfault : c.bytes n = .error (.endOfData c.position n) := if_pos hlength
    rw [hfault]
    exact .lacks trivial _
  · have hle : n ≤ c.rest.length := by
      rw [List.length_take] at hlength
      omega
    have htake : (c.rest ++ tail).take n = c.rest.take n := List.take_append_of_le_length hle
    simp only [bytes, rest_extend, htake, if_neg hlength, advance_extend hle]
    exact .ok _ _

theorem byte_outlasts : Outlasts (fun _ => True) tail c.byte (c.extend tail).byte := by
  unfold byte
  cases hrest : c.rest with
  | nil => exact .lacks trivial _
  | cons b rest =>
    have hle : 1 ≤ c.rest.length := by simp [hrest]
    simp only [rest_extend, hrest, List.cons_append, advance_extend hle]
    exact .ok _ _

theorem word16_outlasts : Outlasts (fun _ => True) tail c.word16 (c.extend tail).word16 :=
  (bytes_outlasts c tail 2).map (f := fun field => UInt16.ofNat (Bytes.ofDigits field))

theorem word32_outlasts : Outlasts (fun _ => True) tail c.word32 (c.extend tail).word32 :=
  (bytes_outlasts c tail 4).map (f := fun field => UInt32.ofNat (Bytes.ofDigits field))

theorem item_outlasts : Outlasts (fun _ => True) tail c.item (c.extend tail).item :=
  (word32_outlasts c tail).map (f := ItemRef.ofStored)

end primitive

section collect

variable {lacks : ε → Prop} {step : Cursor → Except ε (Option α × Cursor)}
  {spelled : Nat → α → List UInt8 → Prop}

theorem Steady.extend {read : Cursor → Except ε (α × Cursor)} (h : Steady lacks read) {c d : Cursor} {a : α}
    (hread : read c = .ok (a, d)) (tail : List UInt8) : read (c.extend tail) = .ok (a, d.extend tail) := by
  have houtlasts := h c tail
  rw [hread] at houtlasts
  generalize read (c.extend tail) = later at houtlasts
  cases houtlasts
  rfl

/-- The two collections go by bounds of their own, and neither uses its bound up, since each item takes
    some bytes. -/
theorem collectWithin_outlasts (hsteady : Steady lacks step) (hstep : ReadsItem step spelled)
    {bound bound' tail : List UInt8} {c : Cursor} {gathered : List α} (hbound : c.rest.length ≤ bound.length)
    (hbound' : (c.extend tail).rest.length ≤ bound'.length) :
    Outlasts lacks tail (collectWithin step bound c gathered)
      (collectWithin step bound' (c.extend tail) gathered) := by
  fun_induction collectWithin step bound c gathered generalizing bound' with
  | case1 bound c gathered fault hc =>
    have hread := hsteady c tail
    unfold collectWithin
    rw [hc] at hread
    generalize step (c.extend tail) = later at hread
    cases hread with
    | error => exact .error fault
    | lacks h => exact .lacks h _
  | case2 bound c gathered d hc =>
    unfold collectWithin
    rw [hsteady.extend hc tail]
    exact .ok _ d
  | case3 c gathered a d hc =>
    have hlt := hstep.rest_lt hc
    simp only [List.length_nil] at hbound
    omega
  | case4 c gathered a d hc b bound ih =>
    have hlt := hstep.rest_lt hc
    simp only [rest_extend, List.length_append, List.length_cons] at hbound hbound' ih
    cases bound' with
    | nil =>
      simp only [List.length_nil] at hbound'
      omega
    | cons b' bound' =>
      rw [List.length_cons] at hbound'
      have hafter : d.rest.length + tail.length ≤ bound'.length := by omega
      conv_rhs => unfold collectWithin
      rw [hsteady.extend hc tail]
      exact ih (by omega) hafter

theorem collect_steady (hsteady : Steady lacks step) (hstep : ReadsItem step spelled) :
    Steady lacks (collect step) :=
  fun _ _ => collectWithin_outlasts hsteady hstep (Nat.le_refl _) (Nat.le_refl _)

end collect

end Adventure.Cursor
