import Mathlib.Data.List.Forall2

namespace Adventure

variable {ε ε' α β : Type}

theorem forall₂_exists_left {R : α → β → Prop} {as : List α} {bs : List β}
    (h : List.Forall₂ R as bs) {b : β} (hb : b ∈ bs) : ∃ a ∈ as, R a b := by
  induction h with
  | nil => cases hb
  | @cons a b as bs head _ ih =>
    rcases List.mem_cons.mp hb with rfl | hb
    · exact ⟨a, List.mem_cons_self, head⟩
    · obtain ⟨a, ha, hab⟩ := ih hb
      exact ⟨a, List.mem_cons_of_mem _ ha, hab⟩

theorem forall₂_exists_right {R : α → β → Prop} {as : List α} {bs : List β}
    (h : List.Forall₂ R as bs) {a : α} (ha : a ∈ as) : ∃ b ∈ bs, R a b :=
  forall₂_exists_left h.flip ha

theorem forall₂_comp {γ : Type} {R : α → β → Prop} {S : β → γ → Prop} {as : List α} {bs : List β}
    {cs : List γ} (h : List.Forall₂ R as bs) (h' : List.Forall₂ S bs cs) :
    List.Forall₂ (fun a c => ∃ b, R a b ∧ S b c) as cs := by
  induction h generalizing cs with
  | nil =>
    cases h'
    exact .nil
  | cons head _ ih =>
    cases h' with
    | cons head' tail' => exact .cons ⟨_, head, head'⟩ (ih tail')

theorem forall₂_trans {R : α → α → Prop} (htrans : ∀ a b c, R a b → R b c → R a c) {as bs cs : List α}
    (h : List.Forall₂ R as bs) (h' : List.Forall₂ R bs cs) : List.Forall₂ R as cs :=
  (forall₂_comp h h').imp fun _ _ ⟨_, hab, hbc⟩ => htrans _ _ _ hab hbc

/-- Items that are gone through with their positions, where the positions do not matter. -/
theorem forall₂_zipIdx_iff (R : α → β → Prop) {as : List α} {bs : List β} :
    List.Forall₂ (fun (a : α × Nat) b => R a.1 b) as.zipIdx bs ↔ List.Forall₂ R as bs := by
  have hmap := List.forall₂_map_left_iff (f := Prod.fst) (l := as.zipIdx) (u := bs) (R := R)
  rw [List.zipIdx_map_fst] at hmap
  exact hmap.symm

theorem forall₂_map_eq_iff {γ : Type} {f : α → γ} {g : β → γ} {as : List α} {bs : List β} :
    List.Forall₂ (fun a b => f a = g b) as bs ↔ as.map f = bs.map g := by
  rw [← List.forall₂_eq_eq_eq, List.forall₂_map_left_iff, List.forall₂_map_right_iff]

namespace Except

theorem bind_eq_ok_iff {x : Except ε α} {f : α → Except ε β} {b : β} :
    (x >>= f) = .ok b ↔ ∃ a, x = .ok a ∧ f a = .ok b := by
  cases x <;> simp [bind, Except.bind]

/-- Two ways to begin a chain, of which a condition takes one. -/
theorem ite_bind_eq_ok_iff {condition : Prop} [Decidable condition] {x y : Except ε α}
    {f : α → Except ε β} {b : β} :
    (if condition then x >>= f else y >>= f) = .ok b ↔
      ∃ a, (if condition then x else y) = .ok a ∧ f a = .ok b := by
  by_cases h : condition
  · simp only [if_pos h, bind_eq_ok_iff]
  · simp only [if_neg h, bind_eq_ok_iff]

theorem pure_eq_ok_iff {a b : α} : (pure a : Except ε α) = .ok b ↔ a = b := by
  simp [pure, Except.pure]

/-- A check that throws has been passed. -/
theorem throw_else_eq_ok_iff {condition : Prop} [Decidable condition] {error : ε}
    {skipped : α → Except ε β} {x : Except ε β} {b : β} :
    (if condition then throw error >>= skipped else x) = .ok b ↔ ¬condition ∧ x = .ok b := by
  by_cases h : condition
  · rw [if_pos h]
    simp [h, throw, throwThe, MonadExceptOf.throw, bind, Except.bind]
  · rw [if_neg h]
    simp [h]

/-- Success as an equation that can be decided. -/
theorem eq_ok_of_toOption {x : Except ε α} {a : α} (h : x.toOption = some a) : x = .ok a := by
  cases x with
  | ok => rw [Option.some.inj h]
  | error => cases h

theorem map_eq_ok_iff {x : Except ε α} {f : α → β} {b : β} :
    x.map f = .ok b ↔ ∃ a, x = .ok a ∧ f a = b := by
  cases x <;> simp [Except.map]

theorem map_map {γ : Type} (x : Except ε α) (f : α → β) (g : β → γ) : (x.map f).map g = x.map (g ∘ f) := by
  cases x <;> rfl

theorem bind_eq_error_iff {x : Except ε α} {f : α → Except ε β} {error : ε} :
    (x >>= f) = .error error ↔ x = .error error ∨ ∃ a, x = .ok a ∧ f a = .error error := by
  cases x <;> simp [bind, Except.bind]

theorem map_eq_error_iff {x : Except ε α} {f : α → β} {error : ε} :
    x.map f = .error error ↔ x = .error error := by
  cases x <;> simp [Except.map]

theorem mapError_eq_error_iff {x : Except ε α} {f : ε → ε'} {error : ε'} :
    x.mapError f = .error error ↔ ∃ cause, x = .error cause ∧ f cause = error := by
  cases x <;> simp [Except.mapError]

@[simp] theorem mapError_eq_ok_iff {x : Except ε α} {f : ε → ε'} {a : α} :
    x.mapError f = .ok a ↔ x = .ok a := by
  cases x <;> simp [Except.mapError]

theorem mapM_eq_ok_iff {f : α → Except ε β} {as : List α} {bs : List β} :
    as.mapM f = .ok bs ↔ List.Forall₂ (fun a b => f a = .ok b) as bs := by
  induction as generalizing bs with
  | nil =>
    simp only [List.mapM_nil, pure, Except.pure, Except.ok.injEq, List.forall₂_nil_left_iff]
    exact eq_comm
  | cons a as ih =>
    simp only [List.mapM_cons, bind_eq_ok_iff, ih, pure, Except.pure, Except.ok.injEq,
      List.forall₂_cons_left_iff]
    constructor
    · rintro ⟨b, hb, rest, hrest, rfl⟩
      exact ⟨b, rest, hb, hrest, rfl⟩
    · rintro ⟨b, rest, hb, hrest, rfl⟩
      exact ⟨b, hb, rest, hrest, rfl⟩

theorem exists_mapM_iff {f : α → Except ε β} {as : List α} :
    (∃ bs, as.mapM f = .ok bs) ↔ ∀ a ∈ as, ∃ b, f a = .ok b := by
  simp only [mapM_eq_ok_iff]
  constructor
  · rintro ⟨bs, hbs⟩ a ha
    obtain ⟨b, -, hb⟩ := forall₂_exists_right hbs ha
    exact ⟨b, hb⟩
  · intro h
    induction as with
    | nil => exact ⟨[], .nil⟩
    | cons a as ih =>
      obtain ⟨⟨b, hb⟩, has⟩ := List.forall_mem_cons.mp h
      obtain ⟨bs, hbs⟩ := ih has
      exact ⟨b :: bs, .cons hb hbs⟩

/-- A list that cannot be gone through stops at the first item that fails. -/
theorem mapM_eq_error_iff {f : α → Except ε β} {as : List α} {error : ε} :
    as.mapM f = .error error ↔ ∃ (index : Nat) (a : α), as[index]? = some a ∧ f a = .error error ∧
      ∀ earlier < index, ∀ a, as[earlier]? = some a → ∃ b, f a = .ok b := by
  induction as with
  | nil => simp [pure, Except.pure]
  | cons a as ih =>
    simp only [List.mapM_cons, bind_eq_error_iff, ih, pure, Except.pure, reduceCtorEq, and_false,
      exists_false, or_false]
    constructor
    · rintro (ha | ⟨b, hb, index, next, hnext, herror, hearlier⟩)
      · exact ⟨0, a, rfl, ha, fun earlier hlt => absurd hlt (Nat.not_lt_zero _)⟩
      · refine ⟨index + 1, next, hnext, herror, fun earlier hlt other hother => ?_⟩
        cases earlier with
        | zero =>
          cases hother
          exact ⟨b, hb⟩
        | succ earlier => exact hearlier earlier (by omega) other hother
    · rintro ⟨index, next, hnext, herror, hearlier⟩
      cases index with
      | zero =>
        cases hnext
        exact .inl herror
      | succ index =>
        obtain ⟨b, hb⟩ := hearlier 0 (by omega) a rfl
        exact .inr ⟨b, hb, index, next, hnext, herror, fun earlier hlt =>
          hearlier (earlier + 1) (by omega)⟩

/-- A list that cannot be gone through has an item that fails. -/
theorem mapM_eq_error {f : α → Except ε β} {as : List α} {error : ε} (h : as.mapM f = .error error) :
    ∃ a ∈ as, f a = .error error := by
  obtain ⟨index, a, ha, herror, -⟩ := mapM_eq_error_iff.mp h
  exact ⟨a, List.mem_of_getElem? ha, herror⟩

theorem mapM_congr {f g : α → Except ε β} {as : List α} (h : ∀ a ∈ as, f a = g a) :
    as.mapM f = as.mapM g := by
  induction as with
  | nil => rfl
  | cons a as ih =>
    obtain ⟨ha, has⟩ := List.forall_mem_cons.mp h
    rw [List.mapM_cons, List.mapM_cons, ha, ih has]

/-- A fold that succeeds keeps what each of its steps keeps. -/
theorem foldlM_invariant {f : β → α → Except ε β} (invariant : β → Prop) {as : List α}
    (hstep : ∀ a ∈ as, ∀ b b', invariant b → f b a = .ok b' → invariant b') {b b' : β}
    (hb : invariant b) (hfold : as.foldlM f b = .ok b') : invariant b' := by
  induction as generalizing b with
  | nil =>
    cases hfold
    exact hb
  | cons a as ih =>
    obtain ⟨ha, has⟩ := List.forall_mem_cons.mp hstep
    rw [List.foldlM_cons, bind_eq_ok_iff] at hfold
    obtain ⟨next, hnext, hrest⟩ := hfold
    exact ih has (ha b next hb hnext) hrest

/-- A step of a fold, between those before it and those behind it. -/
theorem exists_foldlM_of_mem {f : β → α → Except ε β} {as : List α} {a : α} (ha : a ∈ as) {start final : β}
    (h : as.foldlM f start = .ok final) : ∃ front back before after, as = front ++ a :: back ∧
      front.foldlM f start = .ok before ∧ f before a = .ok after ∧ back.foldlM f after = .ok final := by
  obtain ⟨front, back, rfl⟩ := List.append_of_mem ha
  rw [List.foldlM_append, bind_eq_ok_iff] at h
  obtain ⟨before, hfront, h⟩ := h
  rw [List.foldlM_cons, bind_eq_ok_iff] at h
  obtain ⟨after, hstep, hback⟩ := h
  exact ⟨front, back, before, after, rfl, hfront, hstep, hback⟩

/-- A fold that fails has a step that does. -/
theorem foldlM_eq_error {f : β → α → Except ε β} {as : List α} {b : β} {error : ε}
    (h : as.foldlM f b = .error error) : ∃ a ∈ as, ∃ b, f b a = .error error := by
  induction as generalizing b with
  | nil => cases h
  | cons a as ih =>
    rw [List.foldlM_cons, bind_eq_error_iff] at h
    rcases h with ha | ⟨next, -, hrest⟩
    · exact ⟨a, List.mem_cons_self, b, ha⟩
    · obtain ⟨other, hother, hfails⟩ := ih hrest
      exact ⟨other, List.mem_cons_of_mem _ hother, hfails⟩

/-- The order of steps does not matter for a fold that succeeds, if it does not for any two of them. -/
theorem foldlM_perm {f : β → α → Except ε β} {as bs : List α} (hperm : as.Perm bs)
    (hswap : ∀ a ∈ as, ∀ b ∈ as, ∀ start result,
      (f start a >>= (f · b)) = .ok result → (f start b >>= (f · a)) = .ok result)
    (start result : β) : as.foldlM f start = .ok result ↔ bs.foldlM f start = .ok result := by
  induction hperm generalizing start result with
  | nil => exact Iff.rfl
  | cons a _ ih =>
    have hrest := ih fun b hb c hc => hswap b (List.mem_cons_of_mem _ hb) c (List.mem_cons_of_mem _ hc)
    simp only [List.foldlM_cons, bind_eq_ok_iff, hrest]
  | swap a b as =>
    have hboth : ∀ middle, (f start b >>= (f · a)) = .ok middle ↔ (f start a >>= (f · b)) = .ok middle :=
      fun middle => ⟨hswap b (by simp) a (by simp) start middle, hswap a (by simp) b (by simp) start middle⟩
    have hassoc : ∀ first second, (first :: second :: as).foldlM f start =
        (f start first >>= (f · second)) >>= (as.foldlM f ·) := by
      intro first second
      rw [List.foldlM_cons, bind_assoc]
      simp only [List.foldlM_cons]
    simp only [hassoc, bind_eq_ok_iff (f := (as.foldlM f ·)), hboth]
  | trans hfirst _ ihfirst ihsecond =>
    rw [ihfirst hswap, ihsecond fun a ha b hb => hswap a (hfirst.mem_iff.mpr ha) b (hfirst.mem_iff.mpr hb)]

/-- A computation that fails only in one way, and exactly under a condition. -/
structure FailsExactly (error : ε) (condition : Prop) (x : Except ε α) : Prop where
  fails : condition → x = .error error
  succeeds : ¬condition → ∃ a, x = .ok a

namespace FailsExactly

variable {error : ε} {condition condition' : Prop} {x : Except ε α}

theorem of_ok (a : α) : FailsExactly error False (.ok a) := ⟨False.elim, fun _ => ⟨a, rfl⟩⟩

theorem congr (h : FailsExactly error condition x) (hiff : condition ↔ condition') :
    FailsExactly error condition' x :=
  ⟨fun hcondition => h.fails (hiff.mpr hcondition),
    fun hnot => h.succeeds fun hcondition => hnot (hiff.mp hcondition)⟩

theorem bind {f : α → Except ε β} (h : FailsExactly error condition x)
    (hf : ∀ a, FailsExactly error condition' (f a)) :
    FailsExactly error (condition ∨ condition') (x >>= f) := by
  by_cases hcondition : condition
  · rw [h.fails hcondition]
    exact ⟨fun _ => rfl, fun hnot => absurd (.inl hcondition) hnot⟩
  · obtain ⟨a, rfl⟩ := h.succeeds hcondition
    exact (hf a).congr (by simp [hcondition])

/-- As `bind`, for a chain that begins in one of two ways. -/
theorem ite_bind {choice : Prop} [Decidable choice] {y : Except ε α} {f : α → Except ε β}
    (h : FailsExactly error condition (if choice then x else y))
    (hf : ∀ a, FailsExactly error condition' (f a)) :
    FailsExactly error (condition ∨ condition') (if choice then x >>= f else y >>= f) := by
  by_cases hchoice : choice
  · rw [if_pos hchoice] at h ⊢
    exact h.bind hf
  · rw [if_neg hchoice] at h ⊢
    exact h.bind hf

theorem map {f : α → β} (h : FailsExactly error condition x) :
    FailsExactly error condition (x.map f) :=
  ⟨fun hcondition => by rw [h.fails hcondition]; rfl, fun hnot => by
    obtain ⟨a, rfl⟩ := h.succeeds hnot
    exact ⟨f a, rfl⟩⟩

theorem mapM {bad : α → Prop} {f : α → Except ε β} {as : List α}
    (h : ∀ a ∈ as, FailsExactly error (bad a) (f a)) :
    FailsExactly error (∃ a ∈ as, bad a) (as.mapM f) := by
  induction as with
  | nil => exact (of_ok []).congr (by simp)
  | cons a as ih =>
    obtain ⟨ha, has⟩ := List.forall_mem_cons.mp h
    rw [List.mapM_cons]
    refine (ha.bind fun b => (ih has).bind fun bs => of_ok (b :: bs)).congr ?_
    simp

theorem eq_error_iff (h : FailsExactly error condition x) {other : ε} :
    x = .error other ↔ other = error ∧ condition := by
  by_cases hcondition : condition
  · rw [h.fails hcondition]
    simp [hcondition, eq_comm]
  · obtain ⟨a, rfl⟩ := h.succeeds hcondition
    simp [hcondition]

end FailsExactly

end Except

namespace EStateM

variable {σ : Type}

theorem bind_eq_ok_iff {x : EStateM ε σ α} {f : α → EStateM ε σ β} {state after : σ} {b : β} :
    (x >>= f) state = .ok b after ↔ ∃ a middle, x state = .ok a middle ∧ f a middle = .ok b after := by
  simp only [bind, EStateM.bind]
  cases x state <;> simp

theorem bind_eq_error_iff {x : EStateM ε σ α} {f : α → EStateM ε σ β} {state after : σ} {error : ε} :
    (x >>= f) state = .error error after ↔ x state = .error error after ∨
      ∃ a middle, x state = .ok a middle ∧ f a middle = .error error after := by
  simp only [bind, EStateM.bind]
  cases x state <;> simp

theorem pure_eq_ok_iff {a b : α} {state after : σ} :
    (pure a : EStateM ε σ α) state = .ok b after ↔ a = b ∧ state = after := by
  simp [pure, EStateM.pure]

theorem get_apply (state : σ) : (get : EStateM ε σ σ) state = .ok state state := rfl

theorem throw_ne_ok {error : ε} {state after : σ} {b : β} :
    (throw error : EStateM ε σ β) state ≠ .ok b after := by
  intro h
  cases h

/-- A check that throws has been passed. -/
theorem throw_else_eq_ok_iff {condition : Prop} [Decidable condition] {error : ε}
    {skipped : α → EStateM ε σ β} {x : EStateM ε σ β} {state after : σ} {b : β} :
    (if condition then throw error >>= skipped else x) state = .ok b after ↔
      ¬condition ∧ x state = .ok b after := by
  by_cases h : condition
  · rw [if_pos h, bind_eq_ok_iff]
    simp [throw_ne_ok, h]
  · rw [if_neg h]
    simp [h]

end EStateM

end Adventure
