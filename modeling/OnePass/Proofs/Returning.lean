import OnePass.Proofs.Deeds
import OnePass.Proofs.Functions
import OnePass.Proofs.Safety
import OnePass.Proofs.Survey

/-!
# Functions that return on every path

Whether a function returns on every path is read off its scopes: a scope returns if a return stands in
it, or if both blocks of some conditional in it return.  This is exact: it holds if and only if the jump
graph of the function has no path from its beginning to its end without a return.

Main results:

* `Elaborates.returning` — **the current scope returns if it did before or the statements do**;
* `ScopeTree.returns_iff` — the check computes it;
* `checkReturns_exact` — **the check of returns is exact**.
-/

namespace OnePass

open List

variable {id header : Nat} {d d' : Draft} {H code : List Instruction} {T : Flow}

/-! ### Scopes that return -/

/-- A scope returns on every path. -/
inductive Returning (outlines : Nat → Scope) : Nat → Prop where
  | here {id : Nat} (h : (outlines id).hasReturn) : Returning outlines id
  | blocks {id child other : Nat} (hchild : child ∈ (outlines id).children)
      (hkind : (outlines child).kind = .thenBranch)
      (hother : (outlines child).otherwise = some other) (hfirst : Returning outlines child)
      (hsecond : Returning outlines other) : Returning outlines id

/-- Both blocks of a conditional return on every path. -/
def BothReturn (outlines : Nat → Scope) (child : Nat) : Prop :=
  (outlines child).kind = .thenBranch ∧ ∃ other, (outlines child).otherwise = some other ∧
    Returning outlines child ∧ Returning outlines other

theorem returning_iff {outlines : Nat → Scope} : Returning outlines id ↔
      (outlines id).hasReturn ∨ ∃ child ∈ (outlines id).children, BothReturn outlines child := by
  constructor
  · rintro (h | ⟨hchild, hkind, hother, hfirst, hsecond⟩)
    · exact .inl h
    · exact .inr ⟨_, hchild, hkind, _, hother, hfirst, hsecond⟩
  · rintro (h | ⟨child, hchild, hkind, other, hother, hfirst, hsecond⟩)
    · exact .here h
    · exact .blocks hchild hkind hother hfirst hsecond

theorem not_returning {outlines : Nat → Scope} (hreturn : (outlines id).hasReturn = false)
    (hchildren : (outlines id).children = []) : ¬ Returning outlines id := by
  rw [returning_iff, hreturn, hchildren]
  simp

namespace Draft

variable {d d' : Draft}
variable {code : List Instruction}

/-- Scopes are newer than the scopes around them, and second blocks are newer than first ones. -/
structure Nested (d : Draft) : Prop where
  children : ∀ id < d.size, ∀ child ∈ (d.outlines id).children, id < child ∧ child < d.size
  otherwise : ∀ id < d.size, ∀ other, (d.outlines id).otherwise = some other → id < other ∧ other < d.size

theorem Nested.returning_congr (h : d.Nested) {outlines : Nat → Scope} {low : Nat}
    (hsame : ∀ id, low < id → id < d.size → outlines id = d.outlines id) (hlow : low < id)
    (hlt : id < d.size) : Returning outlines id ↔ Returning d.outlines id := by
  constructor
  · intro hreturning
    induction hreturning with
    | here hhere => exact .here (hsame _ hlow hlt ▸ hhere)
    | @blocks id child other hchild hkind hother _ _ ih ih' =>
      rw [hsame id hlow hlt] at hchild
      obtain ⟨hnew, hchild'⟩ := h.children id hlt child hchild
      have hlow' := Nat.lt_trans hlow hnew
      rw [hsame child hlow' hchild'] at hkind hother
      obtain ⟨hnew', hother'⟩ := h.otherwise child hchild' other hother
      exact .blocks hchild hkind hother (ih hlow' hchild') (ih' (Nat.lt_trans hlow' hnew') hother')
  · intro hreturning
    induction hreturning with
    | here hhere => exact .here ((hsame _ hlow hlt).symm ▸ hhere)
    | @blocks id child other hchild hkind hother _ _ ih ih' =>
      obtain ⟨hnew, hchild'⟩ := h.children id hlt child hchild
      have hlow' := Nat.lt_trans hlow hnew
      obtain ⟨hnew', hother'⟩ := h.otherwise child hchild' other hother
      rw [← hsame id hlow hlt] at hchild
      rw [← hsame child hlow' hchild'] at hkind hother
      exact .blocks hchild hkind hother (ih hlow' hchild') (ih' (Nat.lt_trans hlow' hnew') hother')

/-- A scope with new conditionals in it returns if it did before or if both blocks of a new conditional
return. -/
theorem Nested.returning_grown (h : d.Nested) {outlines : Nat → Scope} (hlt : id < d.size)
    (new : List Nat) (hsame : ∀ other, id < other → other < d.size → outlines other = d.outlines other)
    (hreturn : (outlines id).hasReturn = (d.outlines id).hasReturn)
    (hchildren : (outlines id).children = (d.outlines id).children ++ new) :
    Returning outlines id ↔ Returning d.outlines id ∨ ∃ child ∈ new, BothReturn outlines child := by
  have hold : ∀ child ∈ (d.outlines id).children,
      BothReturn outlines child ↔ BothReturn d.outlines child := by
    intro child hchild
    obtain ⟨hnew, hchild'⟩ := h.children id hlt child hchild
    unfold BothReturn
    rw [hsame child hnew hchild', h.returning_congr hsame hnew hchild']
    refine and_congr_right fun _ => exists_congr fun other => and_congr_right fun hother => ?_
    obtain ⟨hnew', hother'⟩ := h.otherwise child hchild' other hother
    rw [h.returning_congr hsame (Nat.lt_trans hnew hnew') hother']
  rw [returning_iff, @returning_iff _ d.outlines, hreturn, hchildren, or_assoc]
  refine or_congr_right ?_
  constructor
  · rintro ⟨child, hchild, hboth⟩
    rcases mem_append.1 hchild with hchild | hchild
    · exact .inl ⟨child, hchild, (hold child hchild).1 hboth⟩
    · exact .inr ⟨child, hchild, hboth⟩
  · rintro (⟨child, hchild, hboth⟩ | ⟨child, hchild, hboth⟩)
    · exact ⟨child, mem_append_left _ hchild, (hold child hchild).2 hboth⟩
    · exact ⟨child, mem_append_right _ hchild, hboth⟩

/-! ### Nested scopes -/

/-- Old scopes may get new children and new second blocks, and new scopes have neither. -/
theorem Nested.extend (h : d.Nested) (hsize : d.size ≤ d'.size)
    (hold : ∀ id < d.size, (∀ child ∈ (d'.outlines id).children,
        child ∈ (d.outlines id).children ∨ d.size ≤ child ∧ child < d'.size) ∧
      ∀ other, (d'.outlines id).otherwise = some other →
        (d.outlines id).otherwise = some other ∨ d.size ≤ other ∧ other < d'.size)
    (hnew : ∀ id, d.size ≤ id → id < d'.size → (∀ child ∈ (d'.outlines id).children,
        id < child ∧ child < d'.size) ∧ (d'.outlines id).otherwise = none) : d'.Nested where
  children id hlt child hchild := by
    by_cases hid : id < d.size
    · rcases (hold id hid).1 child hchild with hchild | ⟨hle, hchild⟩
      · obtain ⟨hnewer, hchild⟩ := h.children id hid child hchild
        exact ⟨hnewer, Nat.lt_of_lt_of_le hchild hsize⟩
      · exact ⟨Nat.lt_of_lt_of_le hid hle, hchild⟩
    · exact (hnew id (Nat.le_of_not_lt hid) hlt).1 child hchild
  otherwise id hlt other hother := by
    by_cases hid : id < d.size
    · rcases (hold id hid).2 other hother with hother | ⟨hle, hother⟩
      · obtain ⟨hnewer, hother⟩ := h.otherwise id hid other hother
        exact ⟨hnewer, Nat.lt_of_lt_of_le hother hsize⟩
      · exact ⟨Nat.lt_of_lt_of_le hid hle, hother⟩
    · rw [(hnew id (Nat.le_of_not_lt hid) hlt).2] at hother
      cases hother

theorem Nested.opened {kind : ScopeKind} (h : d.Nested) (hd : d.Formed) :
    (d.opened kind code).Nested := by
  refine h.extend (Nat.le_succ _) (fun id hid => ?_) fun id hle hlt => ?_
  · by_cases hcurrent : id = d.current
    · rw [hcurrent, opened_current]
      refine ⟨fun child hchild => ?_, fun other hother => .inl hother⟩
      refine (mem_append.1 hchild).imp_right fun hchild => ?_
      rw [mem_singleton.1 hchild]
      exact ⟨Nat.le_refl _, Nat.lt_succ_self _⟩
    · rw [opened_of_ne hcurrent (Nat.ne_of_lt hid)]
      exact ⟨fun child hchild => .inl hchild, fun other hother => .inl hother⟩
  · obtain rfl : id = d.size := Nat.le_antisymm (Nat.le_of_lt_succ hlt) hle
    rw [opened_new hd]
    exact ⟨fun child hchild => absurd hchild not_mem_nil, rfl⟩

theorem Nested.alternative {scope parent : Nat} (h : d.Nested) (hscope : scope < d.size)
    (hparent : parent < scope) : (d.alternative scope parent code).Nested := by
  have hne : scope ≠ parent := Nat.ne_of_gt hparent
  refine h.extend (Nat.le_succ _) (fun id hid => ?_) fun id hle hlt => ?_
  · by_cases hid' : id = scope
    · rw [hid', alternative_first hscope hne]
      refine ⟨fun child hchild => .inl hchild, fun other hother => .inr ?_⟩
      cases hother
      exact ⟨Nat.le_refl _, Nat.lt_succ_self _⟩
    · by_cases hid'' : id = parent
      · rw [hid'', alternative_parenting hne]
        refine ⟨fun child hchild => ?_, fun other hother => .inl hother⟩
        refine (mem_append.1 hchild).imp_right fun hchild => ?_
        rw [mem_singleton.1 hchild]
        exact ⟨Nat.le_refl _, Nat.lt_succ_self _⟩
      · rw [alternative_of_ne hid' hid'' (Nat.ne_of_lt hid)]
        exact ⟨fun child hchild => .inl hchild, fun other hother => .inl hother⟩
  · obtain rfl : id = d.size := Nat.le_antisymm (Nat.le_of_lt_succ hlt) hle
    rw [alternative_new hscope (Nat.lt_trans hparent hscope)]
    exact ⟨fun child hchild => absurd hchild not_mem_nil, rfl⟩

theorem Nested.headed {name : String} {params : List (String × Ty)} {returns : Ty} (h : d.Nested)
    (hd : d.Formed) : (d.headed name params returns code).Nested := by
  refine h.extend (Nat.le_add_right _ 2) (fun id hid => ?_) fun id hle hlt => ?_
  · by_cases hid' : id = ScopeTree.root
    · rw [hid', headed_root]
      refine ⟨fun child hchild => ?_, fun other hother => .inl hother⟩
      refine (mem_append.1 hchild).imp_right fun hchild => ?_
      rw [mem_singleton.1 hchild]
      exact ⟨Nat.le_refl _, Nat.lt_succ_of_lt (Nat.lt_succ_self _)⟩
    · rw [headed_of_ne hid' (Nat.ne_of_lt hid) (Nat.ne_of_lt (Nat.lt_succ_of_lt hid))]
      exact ⟨fun child hchild => .inl hchild, fun other hother => .inl hother⟩
  · have hlt' : id < d.size + 2 := hlt
    by_cases hheader : id = d.size
    · rw [hheader, headed_header hd]
      refine ⟨fun child hchild => ?_, rfl⟩
      rw [mem_singleton.1 hchild]
      exact ⟨Nat.lt_succ_self _, Nat.lt_succ_self _⟩
    · obtain rfl : id = d.size + 1 := by omega
      rw [headed_body]
      exact ⟨fun child hchild => absurd hchild not_mem_nil, rfl⟩

theorem Nested.giveBack (h : d.Nested) : d.giveBack.Nested := by
  refine h.extend (Nat.le_refl _) (fun id _ => ?_) fun id hle hlt => absurd hlt (Nat.not_lt.2 hle)
  by_cases hid : id = d.current
  · rw [hid, giveBack_here]
    exact ⟨fun child hchild => .inl hchild, fun other hother => .inl hother⟩
  · rw [giveBack_of_ne hid]
    exact ⟨fun child hchild => .inl hchild, fun other hother => .inl hother⟩

end Draft

theorem Step.nested (h : Step d H code d') (hnested : d.Nested) : d'.Nested := by
  cases h with
  | giveBack => exact Draft.Nested.giveBack ⟨hnested.children, hnested.otherwise⟩
  | _ => exact ⟨hnested.children, hnested.otherwise⟩

theorem Elaborates.keeps_nested (h : Elaborates d H T d') (hd : d.Formed) (hnested : d.Nested) :
    d'.Nested :=
  h.preserves (P := Draft.Nested) (fun _ hstep h => hstep.nested h) (fun hd _ h => h.opened hd)
    (fun hd _ hkeeps _ _ h => h.alternative hkeeps.size_le hd.current_lt)
    (fun _ _ _ _ _ _ h => ⟨h.children, h.otherwise⟩) hd hnested

theorem start_nested : Context.start.draft.Nested := by
  have hall : ∀ id < 11, (∀ child ∈ (ScopeTree.withBuiltins.scope id).children, id < child ∧ child < 11) ∧
      (ScopeTree.withBuiltins.scope id).otherwise = none := by decide +kernel
  refine ⟨fun id hid child hchild => ?_, fun id hid other hother => ?_⟩
  · obtain ⟨hnewer, hlt⟩ := (hall id (start_size ▸ hid)).1 child hchild
    exact ⟨hnewer, Nat.lt_of_lt_of_eq hlt start_size.symm⟩
  · cases (hall id (start_size ▸ hid)).2.symm.trans hother

theorem Composes.nested {parts : List Part} (h : Composes parts d) : d.Nested :=
  h.preserves (P := Draft.Nested) start_nested (fun hd hbody => hbody.keeps_nested hd)
    (fun hsound _ _ _ _ _ _ _ h => h.headed hsound.formed)
    (fun _ _ _ _ _ h => ⟨h.children, h.otherwise⟩)

/-! ### Statements that return -/

theorem Draft.Reads.giveBack_notMem {deeds : List Deed} (h : d.Reads deeds) : .giveBack ∉ deeds := by
  intro hmem
  obtain ⟨_, _, heq, -⟩ := h _ hmem
  cases heq

theorem Step.returning (h : Step d H code d') :
    Returning d'.outlines d.current ↔ Returning d.outlines d.current ∨ .giveBack ∈ deeds code := by
  cases h with
  | skip => exact (or_iff_left not_mem_nil).symm
  | store hvalue hpop => exact (or_iff_left (hvalue.reads_store hpop).giveBack_notMem).symm
  | call _ hcode hafter => exact (or_iff_left (hcode.reads hafter).giveBack_notMem).symm
  | giveBack hvalue _ hkind =>
    rw [deeds_giveBack hkind]
    refine iff_of_true (.here ?_) (.inr (mem_append_right _ (mem_singleton_self _)))
    exact congrArg Scope.hasReturn (Draft.giveBack_here _)
  | @declare name _ define _ _ hdefine =>
    have hdeeds : deeds [define] = [.define _] := filterMap_cons_some hdefine.deed?
    rw [hdeeds]
    exact (or_iff_left (by simp)).symm
  | hoist => exact (or_iff_left not_mem_nil).symm

section blocks

variable {d d₁ d₂ : Draft} {kind : ScopeKind} {code code' : List Instruction}

theorem Draft.Keeps.outlines_block (h : (d.opened kind code).Keeps d₁)
    (hlow : d.current < id) (hid : id < d.size) : d₁.outlines id = d.outlines id :=
  (h.outlines id (Nat.lt_succ_of_lt hid) (Nat.ne_of_lt hid)).trans
    (opened_of_ne (Nat.ne_of_gt hlow) (Nat.ne_of_lt hid))

theorem Draft.Keeps.outlines_parent (h : (d.opened kind code).Keeps d₁) (hd : d.Formed) :
    d₁.outlines d.current = d.parenting :=
  (h.outlines d.current (Nat.lt_succ_of_lt hd.current_lt) (Nat.ne_of_lt hd.current_lt)).trans opened_current

theorem Draft.Keeps.outlines_own (h : (d.opened kind code).Keeps d₁) (hd : d.Formed) :
    (d₁.outlines d.size).kind = kind ∧ (d₁.outlines d.size).otherwise = none := by
  obtain ⟨_, _, _, heq⟩ := h.here
  rw [show (d.opened kind code).current = d.size from rfl, opened_new hd] at heq
  rw [heq]
  exact ⟨rfl, rfl⟩

theorem Draft.not_returning_opened (hd : d.Formed) : ¬ Returning (d.opened kind code).outlines d.size :=
  not_returning (by rw [opened_new hd]; rfl) (by rw [opened_new hd]; rfl)

theorem Draft.not_returning_alternative {scope parent : Nat} (hscope : scope < d.size)
    (hparent : parent < d.size) : ¬ Returning (d.alternative scope parent code).outlines d.size :=
  not_returning (by rw [alternative_new hscope hparent]; rfl) (by rw [alternative_new hscope hparent]; rfl)

theorem Draft.Nested.returning_block (h : d.Nested) (hd : d.Formed)
    (hkeeps : (d.opened kind code).Keeps d₁) :
    Returning d₁.outlines d.current ↔ Returning d.outlines d.current := by
  have hparent := hkeeps.outlines_parent hd
  refine (h.returning_grown hd.current_lt [d.size] (fun _ => hkeeps.outlines_block)
    (by rw [hparent]; rfl) (by rw [hparent]; rfl)).trans (or_iff_left ?_)
  rintro ⟨child, hchild, -, other, hother, -⟩
  rw [mem_singleton.1 hchild] at hother
  cases (hkeeps.outlines_own hd).2.symm.trans hother

theorem Draft.Nested.returning_first (h₁ : d₁.Nested) (hd : d.Formed)
    (hkeeps : (d.opened kind code).Keeps d₁)
    (hkeeps' : (d₁.alternative d.size d.current code').Keeps d₂) :
    Returning d₂.outlines d.size ↔ Returning d₁.outlines d.size := by
  have hscope : d.size < d₁.size := hkeeps.size_le
  have hfirst : d₂.outlines d.size = { d₁.outlines d.size with otherwise := some d₁.size } :=
    (hkeeps'.outlines d.size (Nat.lt_succ_of_lt hscope) (Nat.ne_of_lt hscope)).trans
      (alternative_first hscope (Nat.ne_of_gt hd.current_lt))
  refine (h₁.returning_grown hscope [] (fun id hlow hlt => ?_) (by rw [hfirst])
    (by rw [hfirst, append_nil])).trans (or_iff_left ?_)
  · refine (hkeeps'.outlines id (Nat.lt_succ_of_lt hlt) (Nat.ne_of_lt hlt)).trans ?_
    exact alternative_of_ne (Nat.ne_of_gt hlow) (Nat.ne_of_gt (Nat.lt_trans hd.current_lt hlow))
      (Nat.ne_of_lt hlt)
  · exact fun ⟨_, hchild, _⟩ => absurd hchild not_mem_nil

theorem Draft.Nested.returning_blocks (h : d.Nested) (h₁ : d₁.Nested) (hd : d.Formed)
    (hkeeps : (d.opened .thenBranch code).Keeps d₁)
    (hkeeps' : (d₁.alternative d.size d.current code').Keeps d₂) :
    Returning d₂.outlines d.current ↔ Returning d.outlines d.current ∨
      Returning d₁.outlines d.size ∧ Returning d₂.outlines d₁.size := by
  have hscope : d.size < d₁.size := hkeeps.size_le
  have hparent : d.current < d₁.size := Nat.lt_trans hd.current_lt hscope
  have hne : d.size ≠ d.current := Nat.ne_of_gt hd.current_lt
  have haround : d₂.outlines d.current =
      { d.parenting with children := d.parenting.children ++ [d₁.size] } := by
    rw [hkeeps'.outlines d.current (Nat.lt_succ_of_lt hparent) (Nat.ne_of_lt hparent),
      alternative_parenting hne, hkeeps.outlines_parent hd]
  have hfirst : d₂.outlines d.size = { d₁.outlines d.size with otherwise := some d₁.size } :=
    (hkeeps'.outlines d.size (Nat.lt_succ_of_lt hscope) (Nat.ne_of_lt hscope)).trans
      (alternative_first hscope hne)
  have hsecond : (d₂.outlines d₁.size).kind = .elseBranch := by
    obtain ⟨_, _, _, heq⟩ := hkeeps'.here
    rw [show (d₁.alternative d.size d.current code').current = d₁.size from rfl,
      alternative_new hscope hparent] at heq
    rw [heq]
    rfl
  have hchildren : (d₂.outlines d.current).children =
      (d.outlines d.current).children ++ [d.size, d₁.size] := by
    rw [haround]
    simp [Draft.parenting]
  refine (h.returning_grown hd.current_lt [d.size, d₁.size] (fun id hlow hlt => ?_)
    (by rw [haround]; rfl) hchildren).trans (or_congr_right ?_)
  · have hlt' : id < d₁.size := Nat.lt_trans hlt hscope
    refine (hkeeps'.outlines id (Nat.lt_succ_of_lt hlt') (Nat.ne_of_lt hlt')).trans ?_
    rw [alternative_of_ne (Nat.ne_of_lt hlt) (Nat.ne_of_gt hlow) (Nat.ne_of_lt hlt')]
    exact hkeeps.outlines_block hlow hlt
  · rw [← h₁.returning_first hd hkeeps hkeeps']
    constructor
    · rintro ⟨child, hchild, hkind, other, hother, hboth⟩
      rcases mem_cons.1 hchild with rfl | hchild
      · rw [hfirst] at hother
        cases hother
        exact hboth
      · rw [mem_singleton.1 hchild, hsecond] at hkind
        cases hkind
    · intro hboth
      refine ⟨d.size, mem_cons_self, ?_, d₁.size, ?_, hboth⟩
      · rw [hfirst]
        exact (hkeeps.outlines_own hd).1
      · rw [hfirst]

end blocks

/-- After statements, the current scope returns if it did before or if the statements do. -/
theorem Elaborates.returning (h : Elaborates d H T d') (hd : d.Formed) (hnested : d.Nested) :
    Returning d'.outlines d.current ↔ Returning d.outlines d.current ∨ T.passes .giveBack := by
  induction h with
  | step hstep => exact hstep.returning
  | seq hfirst _ ih ih' =>
    obtain ⟨hd₁, hkeeps⟩ := hfirst.keeps hd
    have hsecond := ih' hd₁ (hfirst.keeps_nested hd hnested)
    rw [hkeeps.current] at hsecond
    rw [hsecond, ih hd hnested, or_assoc]
    rfl
  | ifThen hhead htest hbody _ _ ih =>
    obtain ⟨-, hkeeps⟩ := hbody.keeps hd.opened
    refine (hnested.returning_block hd hkeeps).trans (or_iff_left ?_).symm
    rintro (hmem | ⟨-, hmem⟩)
    · exact (hhead.reads_if htest).giveBack_notMem hmem
    · cases hmem
  | @ifElse d d₁ d₂ head H H' test els fin T U hhead htest hbody _ hother _ ih ih' =>
    obtain ⟨hd₁, hkeeps⟩ := hbody.keeps hd.opened
    obtain ⟨-, hkeeps'⟩ := hother.keeps (hd.otherwise hd₁ hkeeps)
    have hscope : d.size < d₁.size := hkeeps.size_le
    have hnested₁ := hbody.keeps_nested hd.opened (hnested.opened hd)
    have hfirst : Returning d₁.outlines d.size ↔ T.passes .giveBack :=
      (ih hd.opened (hnested.opened hd)).trans (or_iff_right (Draft.not_returning_opened hd))
    have hsecond : Returning d₂.outlines d₁.size ↔ U.passes .giveBack :=
      (ih' (hd.otherwise hd₁ hkeeps) (hnested₁.alternative hscope hd.current_lt)).trans
        (or_iff_right (Draft.not_returning_alternative hscope (Nat.lt_trans hd.current_lt hscope)))
    refine (hnested.returning_blocks hnested₁ hd hkeeps hkeeps').trans (or_congr_right ?_)
    rw [hfirst, hsecond]
    exact (or_iff_right (hhead.reads_if htest).giveBack_notMem).symm
  | loop _ hhead _ htest hbody _ ih =>
    obtain ⟨-, hkeeps⟩ := hbody.keeps hd.opened
    refine (hnested.returning_block hd hkeeps).trans (or_iff_left ?_).symm
    rintro (hmem | hmem)
    · obtain ⟨i, hi, heq⟩ := mem_filterMap.1 hmem
      rw [Instruction.deed?, hbody.hoisted i hi] at heq
      obtain ⟨_, -, heq⟩ := Option.map_eq_some_iff.1 heq
      cases heq
    · exact (hhead.reads_while htest).giveBack_notMem hmem
  | nested _ hhead _ htest hbody _ ih =>
    obtain ⟨-, hkeeps⟩ := hbody.keeps hd.opened
    refine (hnested.returning_block hd hkeeps).trans (or_iff_left ?_).symm
    exact (hhead.reads_while htest).giveBack_notMem

/-! ### The check -/

namespace ScopeTree

variable {tree : ScopeTree}

theorem returning_of_returnsWithin {n : Nat} (h : tree.returnsWithin n id) : Returning tree.outlines id := by
  induction n generalizing id with
  | zero => cases h
  | succ n ih =>
    rw [returnsWithin, Bool.or_eq_true, any_eq_true] at h
    rcases h with h | ⟨child, hchild, hboth⟩
    · exact .here h
    · obtain ⟨hkind, hother⟩ := Bool.and_eq_true_iff.1 hboth
      obtain ⟨other, hother, hreturns⟩ := (Option.any_eq_true _ _).1 hother
      obtain ⟨hfirst, hsecond⟩ := Bool.and_eq_true_iff.1 hreturns
      exact .blocks hchild (beq_iff_eq.1 hkind) hother (ih hfirst) (ih hsecond)

theorem returnsWithin_of_returning (hnested : d.Nested) (houtlines : d.outlines = tree.outlines)
    {n : Nat} (h : Returning tree.outlines id) (hlt : id < d.size) (hn : d.size ≤ id + n) :
    tree.returnsWithin n id := by
  induction h generalizing n with
  | @here id h =>
    obtain ⟨n, rfl⟩ : ∃ m, n = m + 1 := ⟨n - 1, by omega⟩
    rw [returnsWithin, Bool.or_eq_true]
    exact .inl h
  | @blocks id child other hchild hkind hother _ _ ih ih' =>
    obtain ⟨n, rfl⟩ : ∃ m, n = m + 1 := ⟨n - 1, by omega⟩
    obtain ⟨hnewer, hchild'⟩ := hnested.children id hlt child (houtlines ▸ hchild)
    obtain ⟨hnewer', hother'⟩ := hnested.otherwise child hchild' other (houtlines ▸ hother)
    rw [returnsWithin, Bool.or_eq_true, any_eq_true]
    refine .inr ⟨child, hchild, Bool.and_eq_true_iff.2 ⟨beq_iff_eq.2 hkind, ?_⟩⟩
    refine (Option.any_eq_true _ _).2 ⟨other, hother, Bool.and_eq_true_iff.2 ⟨?_, ?_⟩⟩
    · exact ih hchild' (by omega)
    · exact ih' hother' (by omega)

end ScopeTree

theorem Context.returns_iff {c : Context} (h : c.draft.Nested) (hlt : id < c.draft.size) :
    c.scopes.returns id ↔ Returning c.draft.outlines id :=
  ⟨ScopeTree.returning_of_returnsWithin, fun hreturning =>
    ScopeTree.returnsWithin_of_returning h rfl hreturning hlt (Nat.le_add_left _ _)⟩

/-! ### Functions -/

/-- The scopes of a function with a header and a flow. -/
structure Draft.Hosts (d : Draft) (header : Nat) (T : Flow) : Prop where
  pos : ScopeTree.root < header
  lt : header + 1 < d.size
  children : (d.outlines header).children = [header + 1]
  kind : (d.outlines (header + 1)).kind = .functionBody
  returning : Returning d.outlines (header + 1) ↔ T.passes .giveBack

theorem Draft.Hosts.later (h : d.Hosts header T) (hnested : d.Nested) (hsize : d.size ≤ d'.size)
    (hsame : ∀ id, ScopeTree.root < id → id < d.size → d'.outlines id = d.outlines id) :
    d'.Hosts header T where
  pos := h.pos
  lt := Nat.lt_of_lt_of_le h.lt hsize
  children := by
    rw [hsame header h.pos (Nat.lt_of_succ_lt h.lt)]
    exact h.children
  kind := by
    rw [hsame (header + 1) (Nat.succ_pos _) h.lt]
    exact h.kind
  returning := (hnested.returning_congr hsame (Nat.succ_pos _) h.lt).trans h.returning

theorem Composes.hosts {parts : List Part} (h : Composes parts d) :
    ∀ part ∈ parts, ∀ header, part.header = some header → d.Hosts header part.flow := by
  induction h with
  | start => exact forall_mem_singleton.2 nofun
  | @statement parts d d' H T h hbody ih =>
    obtain ⟨hsound, hcurrent, -⟩ := h.sound
    obtain ⟨-, hkeeps⟩ := hbody.keeps hsound.formed
    refine forall_mem_append.2 ⟨fun part hpart header hheader => ?_, forall_mem_singleton.2 nofun⟩
    exact (ih part hpart header hheader).later h.nested hkeeps.size_le fun id hpos hlt =>
      hkeeps.outlines id hlt (hcurrent ▸ Nat.ne_of_gt hpos)
  | @function parts d d' name params returns entry fin pops H T h hname hfresh hparams hentry hpops hbody hfin
      ih =>
    have hd : d.Formed := h.sound.1.formed
    have hformed : (d.headed name params returns (entry :: pops)).Formed := hd.headed
    obtain ⟨-, hkeeps⟩ := hbody.keeps hformed
    have hsize : d.size + 2 ≤ d'.size := hkeeps.size_le
    refine forall_mem_append.2 ⟨fun part hpart header hheader => ?_, forall_mem_singleton.2 ?_⟩
    · refine (ih part hpart header hheader).later h.nested (Nat.le_of_add_right_le hsize)
        fun id hpos hid => ?_
      refine (hkeeps.outlines id (Nat.lt_of_lt_of_le hid (Nat.le_add_right _ 2))
        (Nat.ne_of_lt (Nat.lt_succ_of_lt hid))).trans ?_
      exact Draft.headed_of_ne (Nat.ne_of_gt hpos) (Nat.ne_of_lt hid) (Nat.ne_of_lt (Nat.lt_succ_of_lt hid))
    · rintro header ⟨⟩
      have hreturning := hbody.returning hformed (h.nested.headed hd)
      have hheader : d'.outlines d.size = _ :=
        (hkeeps.outlines d.size (Nat.lt_succ_of_lt (Nat.lt_succ_self _))
          (Nat.ne_of_lt (Nat.lt_succ_self _))).trans (Draft.headed_header hd)
      have hown : (d'.outlines (d.size + 1)).kind = .functionBody := by
        obtain ⟨_, _, _, heq⟩ := hkeeps.here
        rw [show (d.headed name params returns (entry :: pops)).current = d.size + 1 from rfl,
          Draft.headed_body] at heq
        rw [heq]
        rfl
      have hbefore : ¬ Returning (d.headed name params returns (entry :: pops)).outlines (d.size + 1) :=
        not_returning (by rw [Draft.headed_body]; rfl) (by rw [Draft.headed_body]; rfl)
      refine ⟨hd.size_pos, hsize, congrArg Scope.children hheader, hown, ?_⟩
      refine hreturning.trans ((or_iff_right hbefore).trans ?_)
      have hentry' : .giveBack ∉ deeds (entry :: pops) := by
        rw [hpops.entry_deeds hentry]
        simp
      exact ((or_iff_left not_mem_nil).trans (or_iff_right hentry')).symm

/-! ### Paths through functions -/

/-- There is a path from the beginning to the end of a function without a return. -/
def Unreturned (code : List Instruction) : Prop :=
  ∃ first last entry fin, code[first]? = some entry ∧ entry.kind = .functionBegin ∧
    code[last]? = some fin ∧ fin.kind = .functionEnd ∧ Avoids code Instruction.Returns first last

theorem Instruction.returns_iff {i : Instruction} : i.Returns ↔ i.deed? = some .giveBack := by
  unfold Returns deed?
  cases i.kind <;> simp

theorem Part.Lays.unreturned_iff (h : Part.Lays ⟨some header, T⟩ code) (honce : MarksOnce code) :
    Unreturned code ↔ ¬ T.passes .giveBack := by
  cases h with
  | @function _ T entry fin l hlays hentry hinner hfin =>
    have hcode : entry :: l ++ [fin] = [] ++ (entry :: l) ++ [fin] := by simp
    have hlast : (entry :: l ++ [fin])[(entry :: l).length]? = some fin := by simp
    have hpasses : (T.seq (.straight [])).passes .giveBack ↔ T.passes .giveBack :=
      or_iff_left not_mem_nil
    rw [hpasses]
    constructor
    · rintro ⟨first, last, entry', fin', hfirst, hbegin, hlast', hend, hpath⟩ hpasses
      -- the bounds stand at the first and at the last position
      obtain rfl : first = 0 := by
        cases first with
        | zero => rfl
        | succ n =>
          have hmem : entry' ∈ l ++ [fin] := mem_of_getElem? (i := n) hfirst
          rcases mem_append.1 hmem with hmem | hmem
          · have hbound := hinner _ hmem
            rw [hbegin] at hbound
            cases hbound
          · rw [mem_singleton.1 hmem, hfin.1] at hbegin
            cases hbegin
      obtain ⟨sure, hsurvey⟩ := @Lays.survey _ [] (entry :: l) [fin] .giveBack False T 0
        (entry :: l).length hlays honce hcode rfl (Nat.zero_add _).symm
      have hstop : ∀ next, ¬ Steps (entry :: l ++ [fin]) (entry :: l).length next :=
        fun next hstep => hstep.kind_ne_functionEnd hlast hfin.1
      have hpath' : Avoids (entry :: l ++ [fin]) (fun i => i.deed? = some .giveBack) 0 last :=
        Relation.ReflTransGen.mono (fun p q ⟨hstep, havoids⟩ =>
          ⟨hstep, fun i hi hdeed => havoids i hi (Instruction.returns_iff.2 hdeed)⟩) _ _ hpath
      obtain ⟨hle, hsure⟩ := hsurvey.avoids hstop hpath'
      obtain rfl : last = (entry :: l).length := by
        refine Nat.le_antisymm hle (Nat.le_of_not_lt fun hlt => ?_)
        rw [List.getElem?_append_left hlt] at hlast'
        have hmem : fin' ∈ entry :: l := mem_of_getElem? hlast'
        rcases mem_cons.1 hmem with rfl | hmem
        · cases hend.symm.trans hentry.1
        · have hbound := hinner _ hmem
          rw [hend] at hbound
          cases hbound
      exact hsure (hsurvey.leave (.inr hpasses))
    · intro hT
      refine ⟨0, (entry :: l).length, entry, fin, rfl, hentry.1, hlast, hfin.1, ?_⟩
      refine hlays.escape (fun i hi hkind => ?_) hT hcode rfl (Nat.zero_add _).symm
      rcases mem_cons.1 hi with rfl | hi
      · cases hkind.symm.trans hentry.1
      · have hbound := hinner i hi
        rw [hkind] at hbound
        cases hbound

/-! ### Checked programs -/

theorem ScopeTree.returnsValue_iff {tree : ScopeTree} :
    tree.returnsValue header ↔ (tree.scope header).kind = .functionHeader ∧
      ∃ returns, ((tree.scope root).table.get? (tree.scope header).name).map Symbol.kind =
        some (.function returns false) ∧ returns ≠ .void := by
  rw [returnsValue, Bool.and_eq_true_iff, beq_iff_eq]
  refine and_congr_right fun _ => ?_
  split
  · rename_i returns hkind
    rw [hkind]
    simp
  · rename_i hnone
    constructor
    · nofun
    · rintro ⟨returns, hkind, -⟩
      exact absurd hkind (hnone returns)

theorem ScopeTree.checkReturns_iff {tree : ScopeTree} :
    (∃ function, tree.checkReturns = .error { fault := .pathWithoutReturn function }) ↔
      ∃ header ∈ (tree.scope root).children, tree.returnsValue header ∧ ¬ tree.bodyReturns header := by
  unfold checkReturns
  split
  · rename_i header hfind
    have hfound := List.find?_some hfind
    rw [Bool.and_eq_true_iff, Bool.not_eq_true'] at hfound
    refine iff_of_true ⟨_, rfl⟩ ⟨header, mem_of_find?_eq_some hfind, hfound.1, ?_⟩
    rw [hfound.2]
    exact Bool.false_ne_true
  · rename_i hfind
    refine iff_of_false nofun ?_
    rintro ⟨header, hmem, hvalue, hreturns⟩
    have hnone := List.find?_eq_none.1 hfind header hmem
    simp [hvalue, hreturns] at hnone

section accepted

variable {c : Context} {p : Program}

theorem Accepted.exists_function (h : Accepted c p) {returns : Ty}
    (hkind : (c.scopes.scope header).kind = .functionHeader)
    (hsymbol : ((c.scopes.scope ScopeTree.root).table.get? (c.scopes.scope header).name).map Symbol.kind =
      some (.function returns false)) :
    ∃ T, c.draft.Hosts header T ∧ MarksOnce (bodyCode (some header) p.stream.code) ∧
      Part.Lays ⟨some header, T⟩ (bodyCode (some header) p.stream.code) := by
  obtain ⟨parts, hparts⟩ := h.composed.composes
  obtain ⟨i, hi, hmarks⟩ := h.begun hkind hsymbol
  obtain ⟨codes, hcodes, hcode⟩ := hparts.lays
  rw [show c.stream.code = codes.flatten from hcode] at hi
  obtain ⟨⟨_, T⟩, hpart, rfl⟩ := exists_part hcodes hi hmarks
  have htrims : Trims codes.flatten p.stream.code := hcode ▸ h.trims
  obtain ⟨codes', hcodes', hcode'⟩ := lays_trim hcodes htrims
  rw [hcode']
  exact ⟨T, hparts.hosts _ hpart header rfl, hparts.marksOnce_body hcodes' _,
    bodyCode_function hcodes' (hparts.headers_nodup hcodes') hpart rfl⟩

theorem Draft.Hosts.bodyReturns_iff (h : c.draft.Hosts header T)
    (hnested : c.draft.Nested) : c.scopes.bodyReturns header ↔ T.passes .giveBack := by
  have hfind : ((c.scopes.scope header).children.find? fun id =>
      (c.scopes.scope id).kind == .functionBody) = some (header + 1) := by
    have hchildren : (c.scopes.scope header).children = [header + 1] := h.children
    have hkind : (c.scopes.scope (header + 1)).kind = .functionBody := h.kind
    rw [hchildren, List.find?_cons, hkind]
    rfl
  rw [ScopeTree.bodyReturns, hfind]
  exact (c.returns_iff hnested h.lt).trans h.returning

/-- The check of returns fails exactly if some function with a result has a path without a return. -/
theorem Accepted.checkReturns_iff (h : Accepted c p) :
    (∃ function, c.scopes.checkReturns = .error { fault := .pathWithoutReturn function }) ↔
      ∃ header, (c.scopes.scope header).kind = .functionHeader ∧
        (∃ returns, ((c.scopes.scope ScopeTree.root).table.get? (c.scopes.scope header).name).map
          Symbol.kind = some (.function returns false) ∧ returns ≠ .void) ∧
        Unreturned (bodyCode (some header) p.stream.code) := by
  obtain ⟨parts, hparts⟩ := h.composed.composes
  rw [ScopeTree.checkReturns_iff]
  constructor
  · rintro ⟨header, -, hvalue, hreturns⟩
    obtain ⟨hkind, returns, hsymbol, hvoid⟩ := ScopeTree.returnsValue_iff.1 hvalue
    obtain ⟨T, hhosts, honce, hlays⟩ := h.exists_function hkind hsymbol
    refine ⟨header, hkind, ⟨returns, hsymbol, hvoid⟩, (hlays.unreturned_iff honce).2 ?_⟩
    rwa [← hhosts.bodyReturns_iff hparts.nested]
  · rintro ⟨header, hkind, ⟨returns, hsymbol, hvoid⟩, hpath⟩
    obtain ⟨T, hhosts, honce, hlays⟩ := h.exists_function hkind hsymbol
    have hlt : header < c.draft.size := Meaning.lt_size_of_kind (hkind ▸ nofun)
    refine ⟨header, hparts.headers.listed header hlt hkind,
      ScopeTree.returnsValue_iff.2 ⟨hkind, returns, hsymbol, hvoid⟩, ?_⟩
    rw [hhosts.bodyReturns_iff hparts.nested]
    exact (hlays.unreturned_iff honce).1 hpath

end accepted

theorem ofFeed_of_checked {feed : Feed} {c : Context}
    (h : (Meaning.checked (parse feed)).run.run .start = (.ok (), c)) :
    (Program.ofFeed feed).result = c.scopes.checkReturns.map
      fun _ => { scopes := c.scopes, stream := c.stream, calls := c.calls } := by
  unfold Program.ofFeed Meaning.program
  rw [run_bind, h]
  dsimp only
  rw [run_get_bind, run_bind]
  cases c.scopes.checkReturns <;> rfl

/-- The check of returns is exact: once parsing and the check of calls have succeeded, a compilation fails
for a path without a return exactly if some function of the program with a result has, in the jump graph
of its instructions, a path from its beginning to its end that passes no return. -/
theorem checkReturns_exact {settings : Settings} {source : String} {c : Context}
    (hsettings : settings.check = .ok ())
    (h : (Meaning.checked (parse (.ofSource source))).run.run .start = (.ok (), c)) :
    (∃ function, (compile settings source).result = .error { fault := .pathWithoutReturn function }) ↔
      ∃ header, (c.scopes.scope header).kind = .functionHeader ∧
        (∃ returns, ((c.scopes.scope ScopeTree.root).table.get? (c.scopes.scope header).name).map
          Symbol.kind = some (.function returns false) ∧ returns ≠ .void) ∧
        Unreturned (bodyCode (some header) c.stream.code) := by
  obtain ⟨c₀, haccepted, -⟩ := (Meaning.meets_checked source).of_run h
  have hscopes : c.scopes = c₀.scopes := haccepted.scopes
  have hresult := ofFeed_of_checked h
  rw [hscopes, ← haccepted.checkReturns_iff, ← hscopes]
  cases hreturns : c.scopes.checkReturns with
  | ok =>
    rw [hreturns] at hresult
    rw [compile_of_ok hsettings hresult]
    exact iff_of_false nofun nofun
  | error d =>
    rw [hreturns] at hresult
    rw [compile_of_error hsettings hresult]
    simp

/-- A conditional without a second block leaves a path without a return. -/
theorem checkReturns_exact_conditional : ∃ c, (Meaning.checked (parse (.ofSource
        "func f() -> Int \x7b\n if 1 < 2 \x7b\n  return 1\n \x7d\n\x7d\n"))).run.run .start = (.ok (), c) ∧
      ∃ header, (c.scopes.scope header).kind = .functionHeader ∧
        Unreturned (bodyCode (some header) c.stream.code) := by
  have hrun : ((Meaning.checked (parse (.ofSource
      "func f() -> Int \x7b\n if 1 < 2 \x7b\n  return 1\n \x7d\n\x7d\n"))).run.run .start).1.toOption.isSome := by
    decide +kernel
  have hfails : (compile {} "func f() -> Int \x7b\n if 1 < 2 \x7b\n  return 1\n \x7d\n\x7d\n").result =
        .error { fault := .pathWithoutReturn "f" } := by
    decide +kernel
  obtain ⟨_, c, hchecked⟩ := exists_run_of_isSome hrun
  obtain ⟨header, hkind, -, hpath⟩ := (@checkReturns_exact {} _ c rfl hchecked).1 ⟨"f", hfails⟩
  exact ⟨c, hchecked, header, hkind, hpath⟩

end OnePass
