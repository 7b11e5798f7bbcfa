import Adventure.Proofs.Listing.Declared

namespace Adventure

namespace StringPool

variable {pool after : StringPool} {texts : List String}

/-- A pool in which no text stands twice, and whose numbers stay below its limit. -/
structure Proper (pool : StringPool) : Prop where
  nodup : pool.added.Nodup
  below : ∀ index < pool.added.length, pool.first + index < pool.limit

private theorem proper_bounded (first limit : Nat) : (bounded first limit).Proper :=
  ⟨List.nodup_nil, fun _ hindex => absurd hindex (Nat.not_lt_zero _)⟩

theorem Proper.add (h : pool.Proper) {text : String} {id : Nat} (hadd : pool.add text = some (id, after)) :
    after.Proper := by
  obtain ⟨-, rfl⟩ | ⟨hnew, hlimit, rfl⟩ := add_cases hadd
  · exact h
  · refine ⟨List.nodup_append.mpr ⟨h.nodup, List.nodup_singleton _, ?_⟩, fun index hindex => ?_⟩
    · rintro text htext _ hother rfl
      exact hnew (List.mem_singleton.mp hother ▸ htext)
    · rw [List.length_append, List.length_singleton] at hindex
      dsimp only
      omega

/-- What texts leave of a pool that are added to it: its start, its limit, and all that it has. -/
theorem addAll_kept (h : pool.addAll texts = some after) :
    pool.Extends after ∧ after.limit = pool.limit ∧ (pool.Proper → after.Proper) := by
  refine addAll_induction (R := fun pool _ after => pool.Extends after ∧ after.limit = pool.limit ∧
    (pool.Proper → after.Proper)) (fun pool => ⟨.refl _, rfl, id⟩) ?_ h
  rintro pool text id middle texts after hadd ⟨hextends, hlimit, hproper⟩
  refine ⟨(add_eq_some hadd).1.trans hextends, hlimit.trans ?_, fun h => hproper (h.add hadd)⟩
  obtain ⟨-, rfl⟩ | ⟨-, -, rfl⟩ := add_cases hadd <;> rfl

/-- The numbers in use follow one another. -/
theorem isSome_get?_iff {id : Nat} :
    (pool.get? id).isSome ↔ pool.first ≤ id ∧ id < pool.first + pool.added.length := by
  unfold get?
  split
  · simp only [Option.isSome_none, Bool.false_eq_true, false_iff]
    omega
  · rw [isSome_getElem?]
    omega

/-- In a proper pool, texts and their numbers belong together. -/
theorem Proper.get?_inj (h : pool.Proper) {id other : Nat} {text text' : String} (hid : pool.get? id = some text)
    (hother : pool.get? other = some text') : id = other ↔ text = text' := by
  constructor
  · rintro rfl
    exact Option.some.inj (hid.symm.trans hother)
  · rintro rfl
    have hlow := (isSome_get?_iff.mp (Option.isSome_of_eq_some hid)).1
    have hlow' := (isSome_get?_iff.mp (Option.isSome_of_eq_some hother)).1
    rw [get?, if_neg (Nat.not_lt.mpr hlow)] at hid
    rw [get?, if_neg (Nat.not_lt.mpr hlow')] at hother
    obtain ⟨hlt, -⟩ := List.getElem?_eq_some_iff.mp hid
    have := (List.getElem?_inj hlt h.nodup).mp (hid.trans hother.symm)
    omega

theorem Proper.lt_limit (h : pool.Proper) {id : Nat} (hid : (pool.get? id).isSome) :
    pool.first ≤ id ∧ id < pool.limit := by
  obtain ⟨hlow, hlt⟩ := isSome_get?_iff.mp hid
  have := h.below (id - pool.first) (by omega)
  omega

end StringPool

namespace Listing

open Assembler

variable {assembler : Assembler} {target : Target} {pool after : StringPool}

/-- A token that declares a text denotes it, by a number that the pool has for it. -/
theorem Assembler.Denotes.declared {token text : String} {operand : Operand}
    (h : assembler.Denotes target pool .text token operand) (htext : declaredText? token = some text) :
    ∃ id, operand = .text (.id (.ofNat id)) ∧ pool.get? id = some text := by
  obtain ⟨inner, chars, htoken, hchars, rfl⟩ := declaredText?_eq_some_iff.mp htext
  cases h with
  | newText hnew hunescape hindex =>
    obtain rfl : inner = _ := by simpa using htoken.symm.trans hnew
    cases hchars.symm.trans hunescape
    exact ⟨_, rfl, StringPool.get?_of_idxOf? hindex⟩
  | word hkind => cases hkind
  | noText => cases htoken
  | chosenText => cases htoken
  | quotedText hquoted => simp [hquoted] at htoken
  | numberedText hid => simp [htoken, Text.decimal?, Text.numeral?, Text.digits?, Text.digitValue?] at hid

/-- Files that are assembled one after the other: what each of them answers, and the pool behind it. -/
def Assembler.run (assembler : Assembler) : StringPool → List (SourceFile × Option (Nat × Nat)) →
    List (Except Error (List UInt8) × StringPool)
  | _, [] => []
  | pool, (file, texts) :: calls =>
    let outcome := assembler.assembleWith file texts pool
    outcome :: assembler.run outcome.2 calls

/-- The texts that a call has declared: those of its file, of which a call that fails may leave out some at
    the end. -/
def DeclaredBy (set : InstructionSet)
    (call : (SourceFile × Option (Nat × Nat)) × (Except Error (List UInt8) × StringPool))
    (texts : List String) : Prop :=
  texts <+: call.1.1.declared set ∧ (call.2.1.isOk → texts = call.1.1.declared set)

variable {calls : List (SourceFile × Option (Nat × Nat))}

/-- Behind each call, the pool has what the calls until then have declared. -/
theorem run_addAll (assembler : Assembler) (pool : StringPool) (calls : List (SourceFile × Option (Nat × Nat))) :
    ∃ declared, List.Forall₂ (DeclaredBy assembler.set) (calls.zip (assembler.run pool calls)) declared ∧
      ∀ n after, (pool :: (assembler.run pool calls).map Prod.snd)[n]? = some after →
        pool.addAll (declared.take n).flatten = some after := by
  induction calls generalizing pool with
  | nil =>
    refine ⟨[], .nil, fun n after h => ?_⟩
    cases n with
    | zero => exact h
    | succ n => cases h
  | cons call calls ih =>
    obtain ⟨file, texts⟩ := call
    obtain ⟨front, hfront, hadded, hall⟩ := assembler.assembleWith_addAll file texts pool
    obtain ⟨declared, hdeclared, hpools⟩ := ih (assembler.assembleWith file texts pool).2
    refine ⟨front :: declared, .cons ⟨hfront, hall⟩ hdeclared, fun n after h => ?_⟩
    cases n with
    | zero => exact h
    | succ n =>
      rw [List.take_succ_cons, List.flatten_cons, StringPool.addAll_append hadded]
      exact hpools n after h

/-- A call is made with the pool that the calls before it have left. -/
theorem run_getElem? {pool : StringPool} {n : Nat} {outcome : Except Error (List UInt8) × StringPool}
    (h : (assembler.run pool calls)[n]? = some outcome) : ∃ file texts before,
      calls[n]? = some (file, texts) ∧
        (pool :: (assembler.run pool calls).map Prod.snd)[n]? = some before ∧
        assembler.assembleWith file texts before = outcome := by
  induction calls generalizing pool n with
  | nil => cases h
  | cons call calls ih =>
    obtain ⟨file, texts⟩ := call
    cases n with
    | zero => exact ⟨file, texts, pool, rfl, rfl, Option.some.inj h⟩
    | succ n => exact ih h

/-- The pools of a run grow one out of the other. -/
theorem run_extends (assembler : Assembler) (pool : StringPool) (calls : List (SourceFile × Option (Nat × Nat))) :
    (pool :: (assembler.run pool calls).map Prod.snd).Pairwise StringPool.Extends := by
  induction calls generalizing pool with
  | nil => exact List.pairwise_singleton _ _
  | cons call calls ih =>
    obtain ⟨file, texts⟩ := call
    obtain ⟨front, -, hadded, -⟩ := assembler.assembleWith_addAll file texts pool
    have hrest := ih (assembler.assembleWith file texts pool).2
    refine List.pairwise_cons.mpr ⟨List.forall_mem_cons.mpr ⟨?_, fun later hlater => ?_⟩, hrest⟩
    · exact (StringPool.addAll_kept hadded).1
    · exact (StringPool.addAll_kept hadded).1.trans (List.rel_of_pairwise_cons hrest hlater)

/-- All pools of a run start where the first one does, keep its limit, and stay proper. -/
theorem run_kept (assembler : Assembler) (first limit : Nat) (calls : List (SourceFile × Option (Nat × Nat))) :
    ∀ pool ∈ StringPool.bounded first limit :: (assembler.run (.bounded first limit) calls).map Prod.snd,
      pool.first = first ∧ pool.limit = min limit TextIndex.firstBase ∧ pool.Proper := by
  intro pool hpool
  obtain ⟨_, -, hpools⟩ := run_addAll assembler (.bounded first limit) calls
  obtain ⟨n, hn⟩ := List.getElem?_of_mem hpool
  obtain ⟨hgrows, hlimit, hproper⟩ := StringPool.addAll_kept (hpools n pool hn)
  exact ⟨hgrows.first, hlimit, hproper (StringPool.proper_bounded _ _)⟩

/-- A file that is assembled has a number of the pool for each text that it declares. -/
theorem Assembler.assembleWith_declared {file : SourceFile} {texts : Option (Nat × Nat)} {bytes : List UInt8}
    (h : assembler.assembleWith file texts pool = (.ok bytes, after)) :
    ∃ ranges sources tables, file.body = .tables ranges sources ∧ Script.tablesBytes tables = .ok bytes ∧
      List.Forall₂ (TableMatches assembler.set fun kind token operand => ∀ text, kind = .text →
        declaredText? token = some text →
          ∃ id, operand = .text (.id (.ofNat id)) ∧ after.get? id = some text) sources tables := by
  obtain ⟨ranges, sources, tables, hbody, -, htables, hbytes⟩ := assembleWith_eq_ok_iff.mp h
  obtain ⟨labels, hmatches⟩ := tables_means htables
  refine ⟨ranges, sources, tables, hbody, hbytes, hmatches.imp fun source table htable => ?_⟩
  refine htable.imp fun kind token operand hmeans text hkind htext => ?_
  cases hmeans with
  | denoted hdenotes => exact Assembler.Denotes.declared (hkind ▸ hdenotes) htext
  | label => cases hkind

/-- Whatever files are assembled with one pool, and whichever of them fail: the pool only grows at its end.
    A declared text of a file that is assembled becomes a number within the bounds of the pool, which gives
    the text from then on. In every pool, different numbers have different texts, and the numbers from
    `first` on are in use without a gap, for the texts in the order in which they were declared first. -/
theorem run_declares (assembler : Assembler) (first limit : Nat)
    (calls : List (SourceFile × Option (Nat × Nat))) :
    let outcomes := assembler.run (.bounded first limit) calls
    let pools := StringPool.bounded first limit :: outcomes.map Prod.snd
    pools.Pairwise StringPool.Extends ∧
    (∀ n bytes after, outcomes[n]? = some (.ok bytes, after) → ∃ file texts ranges sources tables,
      calls[n]? = some (file, texts) ∧ file.body = .tables ranges sources ∧
        Script.tablesBytes tables = .ok bytes ∧
        List.Forall₂ (TableMatches assembler.set fun kind token operand => ∀ text, kind = .text →
          declaredText? token = some text → ∃ id, operand = .text (.id (.ofNat id)) ∧
            first ≤ id ∧ id < min limit TextIndex.firstBase ∧
            ∀ later ∈ pools.drop (n + 1), later.get? id = some text) sources tables) ∧
    (∀ pool ∈ pools, (∀ id, (pool.get? id).isSome ↔ first ≤ id ∧ id < first + pool.added.length) ∧
      ∀ id other text text', pool.get? id = some text → pool.get? other = some text' →
        (id = other ↔ text = text')) ∧
    ∃ declared, List.Forall₂ (DeclaredBy assembler.set) (calls.zip outcomes) declared ∧
      ∀ n pool, pools[n]? = some pool → pool.added = (declared.take n).flatten.eraseDups := by
  intro outcomes pools
  obtain ⟨declared, hdeclared, hpools⟩ := run_addAll assembler (.bounded first limit) calls
  have hextends : pools.Pairwise StringPool.Extends := run_extends assembler _ calls
  have hkept : ∀ pool ∈ pools, _ := run_kept assembler first limit calls
  refine ⟨hextends, fun n bytes after houtcome => ?_, fun pool hpool => ⟨fun id => ?_, ?_⟩, declared, hdeclared,
    fun n pool hpool => ?_⟩
  · obtain ⟨file, texts, before, hcall, -, hassembled⟩ := run_getElem? houtcome
    obtain ⟨ranges, sources, tables, hbody, hbytes, hmatches⟩ := assembleWith_declared hassembled
    refine ⟨file, texts, ranges, sources, tables, hcall, hbody, hbytes, hmatches.imp fun _ _ htable => ?_⟩
    refine htable.imp fun kind token operand hnumbered text hkind htext => ?_
    obtain ⟨id, hoperand, hid⟩ := hnumbered text hkind htext
    have hafter : pools[n + 1]? = some after := by
      rw [List.getElem?_cons_succ, List.getElem?_map, houtcome]
      rfl
    obtain ⟨hfirst, hlimit, hproper⟩ := hkept after (List.mem_of_getElem? hafter)
    obtain ⟨hlow, hhigh⟩ := hproper.lt_limit (Option.isSome_of_eq_some hid)
    refine ⟨id, hoperand, hfirst ▸ hlow, hlimit ▸ hhigh, fun later hlater => ?_⟩
    obtain ⟨hlt, hat⟩ := List.getElem?_eq_some_iff.mp hafter
    have hrest := hextends.sublist (List.drop_sublist (n + 1) pools)
    rw [List.drop_eq_getElem_cons hlt, hat] at hlater hrest
    rcases List.mem_cons.mp hlater with rfl | hlater
    · exact hid
    · exact (List.rel_of_pairwise_cons hrest hlater).get? hid
  · rw [StringPool.isSome_get?_iff, (hkept pool hpool).1]
  · exact fun id other text text' => (hkept pool hpool).2.2.get?_inj
  · exact StringPool.Declares.of_addAll (hpools n pool hpool) [] rfl

end Listing

end Adventure
