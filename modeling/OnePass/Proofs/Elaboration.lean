import OnePass.Proofs.Draft

/-!
# What statements leave alone

A statement works at the end of a draft, in the current scope and in the scopes that it adds.
Everything else it leaves alone: it ends in the scope in which it began, and of the scopes that were
there before it changes only the current one.

Main results:

* `Elaborates.keeps` — **statements keep what was there**;
* `Draft.Extends.ancestors`, `Draft.Extends.outermost?` — what is around a scope does not change.
-/

namespace OnePass

open List

variable {d d' : Draft} {H code : List Instruction}

namespace Draft

variable {d : Draft}

/-- Scopes are above the scopes around them, and there is a current scope. -/
structure Formed (d : Draft) : Prop where
  rooted : Rooted fun id => (d.outlines id).parent
  current_lt : d.current < d.size

theorem Formed.size_pos (h : d.Formed) : ScopeTree.root < d.size :=
  Nat.lt_of_le_of_lt (Nat.zero_le _) h.current_lt

/-- A draft holds everything that another one holds. -/
structure Extends (d d' : Draft) : Prop where
  size_le : d.size ≤ d'.size
  fixed : ∀ id < d.size, (d'.outlines id).kind = (d.outlines id).kind ∧
    (d'.outlines id).name = (d.outlines id).name ∧
    (d'.outlines id).parent = (d.outlines id).parent ∧
    (d'.outlines id).parameters = (d.outlines id).parameters
  names : ∀ id < d.size, d.names id ⊆ d'.names id
  code : d.code ⊆ d'.code

namespace Extends

variable {d d₁ d₂ : Draft}

theorem trans (h : Extends d d₁) (h' : Extends d₁ d₂) : Extends d d₂ where
  size_le := Nat.le_trans h.size_le h'.size_le
  fixed id hlt := by
    obtain ⟨hkind, hname, hparent, hcount⟩ := h.fixed id hlt
    obtain ⟨hkind', hname', hparent', hcount'⟩ := h'.fixed id (Nat.lt_of_lt_of_le hlt h.size_le)
    exact ⟨hkind'.trans hkind, hname'.trans hname, hparent'.trans hparent, hcount'.trans hcount⟩
  names id hlt :=
    Set.Subset.trans (h.names id hlt) (h'.names id (Nat.lt_of_lt_of_le hlt h.size_le))
  code := List.Subset.trans h.code h'.code

theorem ancestors (h : Extends d d₁) (hd : d.Formed) {id : Nat} (hlt : id < d.size) :
    d₁.ancestors id = d.ancestors id :=
  ancestorsBy_congr hd.rooted fun _ hi => (h.fixed _ (Nat.lt_of_le_of_lt hi hlt)).2.2.1

theorem outermost? (h : Extends d d₁) (hd : d.Formed) {id : Nat} (hlt : id < d.size) :
    d₁.outermost? id = d.outermost? id := by
  rw [Draft.outermost?, Draft.outermost?, h.ancestors hd hlt]
  congr 1
  refine filter_congr fun other hother => ?_
  rw [(h.fixed other (Nat.lt_of_le_of_lt (le_of_mem_ancestorsBy hd.rooted hother) hlt)).1]

end Extends

/-- A draft continues another one: of the scopes only the current one and new ones are different. -/
structure Keeps (d d' : Draft) : Prop where
  size_le : d.size ≤ d'.size
  current : d'.current = d.current
  outlines : ∀ id < d.size, id ≠ d.current → d'.outlines id = d.outlines id
  here : ∃ children conditionals hasReturn,
    d'.outlines d.current = { d.outlines d.current with children, conditionals, hasReturn }
  names : ∀ id < d.size, id ≠ d.current → d'.names id = d.names id
  names_here : d.names d.current ⊆ d'.names d.current
  code : d.code ⊆ d'.code

namespace Keeps

variable {d d₁ d₂ : Draft}

theorem trans (h : Keeps d d₁) (h' : Keeps d₁ d₂) : Keeps d d₂ where
  size_le := Nat.le_trans h.size_le h'.size_le
  current := h'.current.trans h.current
  outlines id hlt hne :=
    (h'.outlines id (Nat.lt_of_lt_of_le hlt h.size_le) (h.current ▸ hne)).trans (h.outlines id hlt hne)
  here := by
    obtain ⟨children, conditionals, hasReturn, heq⟩ := h.here
    obtain ⟨children', conditionals', hasReturn', heq'⟩ := h'.here
    rw [h.current, heq] at heq'
    exact ⟨children', conditionals', hasReturn', heq'⟩
  names id hlt hne :=
    (h'.names id (Nat.lt_of_lt_of_le hlt h.size_le) (h.current ▸ hne)).trans (h.names id hlt hne)
  names_here := Set.Subset.trans h.names_here (h.current ▸ h'.names_here)
  code := List.Subset.trans h.code h'.code

theorem toExtends (h : Keeps d d₁) : Extends d d₁ where
  size_le := h.size_le
  fixed id hlt := by
    by_cases hid : id = d.current
    · obtain ⟨_, _, _, heq⟩ := h.here
      subst hid
      rw [heq]
      exact ⟨rfl, rfl, rfl, rfl⟩
    · rw [h.outlines id hlt hid]
      exact ⟨rfl, rfl, rfl, rfl⟩
  names id hlt := by
    by_cases hid : id = d.current
    · subst hid
      exact h.names_here
    · rw [h.names id hlt hid]
  code := h.code

end Keeps

/-! ### The current scope -/

theorem declare_here (d : Draft) (name : String) (base : Ty) : (d.declare name base).names d.current =
      insert (name, ⟨.variable, base⟩) (d.names d.current) :=
  Function.update_self ..

theorem declare_of_ne {id : Nat} (h : id ≠ d.current) (name : String) (base : Ty) :
    (d.declare name base).names id = d.names id := Function.update_of_ne h _ _

theorem subset_declare (d : Draft) (name : String) (base : Ty) (id : Nat) :
    d.names id ⊆ (d.declare name base).names id := by
  by_cases h : id = d.current
  · rw [h, declare_here]
    exact Set.subset_insert _ _
  · rw [declare_of_ne h]

theorem giveBack_here (d : Draft) :
    d.giveBack.outlines d.current = { d.outlines d.current with hasReturn := true } :=
  Function.update_self ..

theorem giveBack_of_ne {id : Nat} (h : id ≠ d.current) :
    d.giveBack.outlines id = d.outlines id := Function.update_of_ne h _ _

theorem giveBack_children (d : Draft) (id : Nat) :
    (d.giveBack.outlines id).children = (d.outlines id).children := by
  by_cases h : id = d.current
  · rw [h, giveBack_here]
  · rw [giveBack_of_ne h]

theorem Keeps.declare (d : Draft) (name : String) (base : Ty) : Keeps d (d.declare name base) where
  size_le := Nat.le_refl _
  current := rfl
  outlines _ _ _ := rfl
  here := ⟨_, _, _, rfl⟩
  names _ _ hid := declare_of_ne hid name base
  names_here := subset_declare d name base d.current
  code _ h := h

theorem Keeps.giveBack (d : Draft) : Keeps d d.giveBack where
  size_le := Nat.le_refl _
  current := rfl
  outlines _ _ hid := giveBack_of_ne hid
  here := ⟨_, _, true, giveBack_here d⟩
  names _ _ _ := rfl
  names_here _ h := h
  code _ h := h

theorem Keeps.more {calls : Calls} (hcode : d.code ⊆ code) : Keeps d { d with code, calls } :=
  ⟨Nat.le_refl _, rfl, fun _ _ _ => rfl, ⟨_, _, _, rfl⟩, fun _ _ _ => rfl, fun _ h => h, hcode⟩

/-! ### Blocks -/

section blocks

variable {d d₁ d₂ : Draft} {kind : ScopeKind} {code code' : List Instruction}

theorem opened_current : (d.opened kind code).outlines d.current = d.parenting := Function.update_self ..

theorem opened_new (hd : d.Formed) : (d.opened kind code).outlines d.size = d.numbered kind :=
  (Function.update_of_ne (Nat.ne_of_gt hd.current_lt) _ _).trans (Function.update_self ..)

theorem opened_of_ne {id : Nat} (hcurrent : id ≠ d.current) (hsize : id ≠ d.size) :
    (d.opened kind code).outlines id = d.outlines id :=
  (Function.update_of_ne hcurrent _ _).trans (Function.update_of_ne hsize _ _)

theorem opened_parent (hd : d.Formed) (id : Nat) : ((d.opened kind code).outlines id).parent =
      if id = d.size then some d.current else (d.outlines id).parent := by
  split
  · rename_i hid
    rw [hid, opened_new hd]
    rfl
  · rename_i hsize
    by_cases hcurrent : id = d.current
    · rw [hcurrent, opened_current]
      rfl
    · rw [opened_of_ne hcurrent hsize]

theorem Formed.opened (hd : d.Formed) : (d.opened kind code).Formed where
  rooted := by
    intro id above habove
    replace habove := (opened_parent hd id).symm.trans habove
    split at habove
    · rename_i hid
      cases habove
      exact hid ▸ hd.current_lt
    · exact hd.rooted id above habove
  current_lt := Nat.lt_succ_self _

theorem extends_opened : Extends d (d.opened kind code) where
  size_le := Nat.le_succ _
  fixed id hlt := by
    by_cases hid : id = d.current
    · rw [hid, opened_current]
      exact ⟨rfl, rfl, rfl, rfl⟩
    · rw [opened_of_ne hid (Nat.ne_of_lt hlt)]
      exact ⟨rfl, rfl, rfl, rfl⟩
  names id hlt := (Function.update_of_ne (Nat.ne_of_lt hlt) _ _).ge
  code := subset_append_left _ _

theorem ancestors_opened (hd : d.Formed) :
    (d.opened kind code).ancestors d.size = d.size :: d.ancestors d.current := by
  have hparent := @opened_parent d kind code hd
  rw [Draft.ancestors, ancestorsBy_of_some hd.opened.rooted (by rw [hparent, if_pos rfl])]
  congr 1
  refine ancestorsBy_congr hd.rooted fun i hi => ?_
  rw [hparent, if_neg (Nat.ne_of_lt (Nat.lt_of_le_of_lt hi hd.current_lt))]

theorem extends_closed (parent : Nat) : Extends d (d.closed parent code) :=
  ⟨Nat.le_refl _, fun _ _ => ⟨rfl, rfl, rfl, rfl⟩, fun _ _ _ h => h, subset_append_left _ _⟩

theorem Formed.closed (hd : d.Formed) {parent : Nat} (h : parent < d.size) :
    (d.closed parent code).Formed := ⟨hd.rooted, h⟩

theorem Keeps.block (hd : d.Formed) (h : Keeps (d.opened kind code) d₁) :
    Keeps d (d₁.closed d.current code') where
  size_le := Nat.le_trans (Nat.le_succ _) h.size_le
  current := rfl
  outlines id hlt hne :=
    (h.outlines id (Nat.lt_succ_of_lt hlt) (Nat.ne_of_lt hlt)).trans (opened_of_ne hne (Nat.ne_of_lt hlt))
  here := by
    refine ⟨_, _, (d.outlines d.current).hasReturn, (h.outlines d.current
      (Nat.lt_succ_of_lt hd.current_lt) (Nat.ne_of_lt hd.current_lt)).trans (opened_current)⟩
  names id hlt hne :=
    (h.names id (Nat.lt_succ_of_lt hlt) (Nat.ne_of_lt hlt)).trans
      (Function.update_of_ne (Nat.ne_of_lt hlt) _ _)
  names_here := by
    refine Set.Subset.trans ?_ (h.toExtends.names _ (Nat.lt_succ_of_lt hd.current_lt))
    exact (Function.update_of_ne (Nat.ne_of_lt hd.current_lt) _ _).ge
  code i hi := mem_append_left _ (h.code (mem_append_left _ hi))

section alternative

variable {scope parent : Nat} (hscope : scope < d.size) (hparent : parent < d.size)
  (hne : scope ≠ parent)

include hne in
theorem alternative_parenting : (d.alternative scope parent code).outlines parent =
      { d.outlines parent with children := (d.outlines parent).children ++ [d.size] } :=
  (Function.update_of_ne hne.symm _ _).trans (Function.update_self ..)

include hscope hparent in
theorem alternative_new : (d.alternative scope parent code).outlines d.size =
      (d.outlines parent).below parent .elseBranch ((d.outlines scope).name ++ "$else") :=
  (Function.update_of_ne (Nat.ne_of_gt hscope) _ _).trans
    ((Function.update_of_ne (Nat.ne_of_gt hparent) _ _).trans (Function.update_self ..))

include hscope hne in
theorem alternative_first : (d.alternative scope parent code).outlines scope =
      { d.outlines scope with otherwise := some d.size } := by
  refine (Function.update_self ..).trans ?_
  rw [Function.update_of_ne hne, Function.update_of_ne (Nat.ne_of_lt hscope)]

theorem alternative_of_ne {id : Nat} (hid : id ≠ scope) (hid' : id ≠ parent) (hid'' : id ≠ d.size) :
    (d.alternative scope parent code).outlines id = d.outlines id :=
  (Function.update_of_ne hid _ _).trans
    ((Function.update_of_ne hid' _ _).trans (Function.update_of_ne hid'' _ _))

include hscope hparent hne

theorem alternative_parent (id : Nat) : ((d.alternative scope parent code).outlines id).parent =
      if id = d.size then some parent else (d.outlines id).parent := by
  split
  · rename_i hid
    rw [hid, alternative_new hscope hparent]
    rfl
  · rename_i hsize
    by_cases hid : id = scope
    · rw [hid, alternative_first hscope hne]
    · by_cases hid' : id = parent
      · rw [hid', alternative_parenting hne]
      · rw [alternative_of_ne hid hid' hsize]

omit hparent in
theorem extends_alternative : Extends d (d.alternative scope parent code) where
  size_le := Nat.le_succ _
  fixed id hlt := by
    by_cases hid : id = scope
    · rw [hid, alternative_first hscope hne]
      exact ⟨rfl, rfl, rfl, rfl⟩
    · by_cases hid' : id = parent
      · rw [hid', alternative_parenting hne]
        exact ⟨rfl, rfl, rfl, rfl⟩
      · rw [alternative_of_ne hid hid' (Nat.ne_of_lt hlt)]
        exact ⟨rfl, rfl, rfl, rfl⟩
  names id hlt := (Function.update_of_ne (Nat.ne_of_lt hlt) _ _).ge
  code := subset_append_left _ _

theorem Formed.alternative (hd : d.Formed) : (d.alternative scope parent code).Formed where
  rooted := by
    intro id above habove
    replace habove := (alternative_parent hscope hparent hne id).symm.trans habove
    split at habove
    · rename_i hid
      cases habove
      exact hid ▸ hparent
    · exact hd.rooted id above habove
  current_lt := Nat.lt_succ_self _

theorem ancestors_alternative (hd : d.Formed) :
    (d.alternative scope parent code).ancestors d.size = d.size :: d.ancestors parent := by
  have heq := @alternative_parent d code scope parent hscope hparent hne
  rw [Draft.ancestors, ancestorsBy_of_some (hd.alternative hscope hparent hne).rooted
    (by rw [heq, if_pos rfl])]
  congr 1
  refine ancestorsBy_congr hd.rooted fun i hi => ?_
  rw [heq, if_neg (Nat.ne_of_lt (Nat.lt_of_le_of_lt hi hparent))]

end alternative

theorem Keeps.blocks_else {code'' : List Instruction} (hd : d.Formed) (h : Keeps (d.opened kind code) d₁)
    (h' : Keeps (d₁.alternative d.size d.current code') d₂) :
    Keeps d (d₂.closed d.current code'') := by
  have hfirst : Keeps d (d₁.closed d.current []) := h.block hd
  have hscope : d.size < d₁.size := h.size_le
  have hparent : d.current < d₁.size := Nat.lt_trans hd.current_lt hscope
  have hne : d.size ≠ d.current := Nat.ne_of_gt hd.current_lt
  have hold : ∀ {id}, id < d.size → id < d₁.size + 1 ∧ id ≠ d₁.size := fun hlt => by omega
  refine ⟨Nat.le_trans hfirst.size_le (Nat.le_trans (Nat.le_succ _) h'.size_le), rfl, ?_, ?_, ?_, ?_, ?_⟩
  · intro id hlt hid
    refine (h'.outlines id (hold hlt).1 (hold hlt).2).trans ?_
    rw [alternative_of_ne (Nat.ne_of_lt hlt) hid (hold hlt).2]
    exact hfirst.outlines id hlt hid
  · obtain ⟨children, conditionals, hasReturn, heq⟩ := hfirst.here
    refine ⟨children ++ [d₁.size], conditionals, hasReturn, ?_⟩
    refine (h'.outlines d.current (hold hd.current_lt).1 (hold hd.current_lt).2).trans ?_
    rw [alternative_parenting hne]
    exact congrArg (fun s : Scope => { s with children := s.children ++ [d₁.size] }) heq
  · intro id hlt hid
    refine (h'.names id (hold hlt).1 (hold hlt).2).trans ?_
    exact (Function.update_of_ne (hold hlt).2 _ _).trans (hfirst.names id hlt hid)
  · refine Set.Subset.trans hfirst.names_here ?_
    refine Set.Subset.trans ?_ (h'.toExtends.names _ (hold hd.current_lt).1)
    exact (Function.update_of_ne (hold hd.current_lt).2 _ _).ge
  · intro i hi
    refine mem_append_left _ (h'.code (mem_append_left _ ?_))
    simpa [closed] using hfirst.code hi

end blocks

end Draft

/-! ### Statements -/

theorem Draft.Keeps.formed (h : d.Keeps d') (hd : d.Formed) (hsize : d'.size = d.size)
    (hnew : ∀ id, d.size ≤ id → d'.outlines id = d.outlines id) : d'.Formed where
  rooted id above habove := by
    refine hd.rooted id above (Eq.trans ?_ habove)
    by_cases hlt : id < d.size
    · exact (h.toExtends.fixed id hlt).2.2.1.symm
    · exact (congrArg Scope.parent (hnew id (Nat.le_of_not_lt hlt))).symm
  current_lt := by
    rw [hsize, h.current]
    exact hd.current_lt

theorem Step.keeps (h : Step d H code d') : d.Keeps d' := by
  cases h with
  | skip => exact .more (List.Subset.refl _)
  | store | call => exact .more (subset_append_left _ _)
  | giveBack => exact (Draft.Keeps.more (subset_append_left _ _)).trans (.giveBack _)
  | declare => exact (Draft.Keeps.more (subset_append_left _ _)).trans (.declare _ _ _)
  | hoist _ _ _ hcode =>
    refine (Draft.Keeps.more (fun i hi => ?_)).trans (.declare _ _ _)
    rw [hcode] at hi
    simp only [mem_append, mem_cons] at hi ⊢
    tauto

theorem Step.size_eq (h : Step d H code d') : d'.size = d.size := by
  cases h <;> rfl

theorem Step.formed (h : Step d H code d') (hd : d.Formed) : d'.Formed := by
  refine h.keeps.formed hd h.size_eq fun id hid => ?_
  have hne : id ≠ d.current := Nat.ne_of_gt (Nat.lt_of_lt_of_le hd.current_lt hid)
  cases h with
  | giveBack => exact Draft.giveBack_of_ne hne
  | _ => rfl

theorem Elaborates.keeps {T : Flow} (h : Elaborates d H T d') (hd : d.Formed) : d'.Formed ∧ d.Keeps d' := by
  induction h with
  | step hstep => exact ⟨hstep.formed hd, hstep.keeps⟩
  | seq _ _ ih ih' =>
    obtain ⟨hd₁, hkeeps⟩ := ih hd
    obtain ⟨hd₂, hkeeps'⟩ := ih' hd₁
    exact ⟨hd₂, hkeeps.trans hkeeps'⟩
  | ifThen _ _ _ _ _ ih | loop _ _ _ _ _ _ ih | nested _ _ _ _ _ _ ih =>
    obtain ⟨hd₁, hkeeps⟩ := ih hd.opened
    exact ⟨hd₁.closed (Nat.lt_trans hd.current_lt hkeeps.size_le), hkeeps.block hd⟩
  | ifElse _ _ _ _ _ _ ih ih' =>
    obtain ⟨hd₁, hkeeps⟩ := ih hd.opened
    have hscope := Nat.lt_of_lt_of_le (Nat.lt_succ_self _) hkeeps.size_le
    have hparent := Nat.lt_trans hd.current_lt hscope
    obtain ⟨hd₂, hkeeps'⟩ :=
      ih' (hd₁.alternative hscope hparent (Nat.ne_of_gt hd.current_lt))
    refine ⟨hd₂.closed (Nat.lt_of_lt_of_le (Nat.lt_succ_of_lt hparent) hkeeps'.size_le), ?_⟩
    exact hkeeps.blocks_else hd hkeeps'

end OnePass
