import OnePass.Proofs.Nesting
import OnePass.Proofs.Safety

/-!
# Moves of sheets

Between two statements, and between two words of a statement, a sheet changes in a few ways only: an
expression is written, a call, a declaration, a store, a bracket, the head of a function.  These are
its moves.  What every move keeps is kept by programs.

Main results:

* `Fills.moves` — **programs are runs of moves**;
* `Sheet.Moves.formed` — every move leaves a tree of scopes.
-/

namespace OnePass

variable {w w' : Sheet}

/-- A declaration in full: its storage, its initial value and its symbol. -/
inductive Sheet.Introduces (w : Sheet) (isMutable : Bool) (name : String) (ty : Ty) :
    Option Phrase.RightSide → Bool → Sheet → Prop where
  | intro {w₁ w₂ w₃ : Sheet} {place : Location} {init : Option Phrase.RightSide} {defined : Bool}
      (hreserve : w.Reserves name w₁) (hinit : w₁.Initializes ty isMutable init defined w₂)
      (hdeclare : (if defined then w₂.write [w₂.scopes.named .popVariable name w₂.scopes.current]
        else w₂).Declares w₂.scopes.current
          { name, kind := .var isMutable ty defined, location := some place } w₃) :
      Introduces w isMutable name ty init defined w₃

/-- One move of a sheet. -/
inductive Sheet.Moves (w : Sheet) : Sheet → Prop where
  | evaluate {e : Phrase.Expr} {code : List Instruction}
      (hvalue : w.scopes.Evaluates e code) : Moves w (w.write code)
  | request {callee : String} {args : List Phrase.Arg} {target : Option Ty} {w' : Sheet}
      (hcall : w.Requests callee args target w') : Moves w w'
  | declare {isMutable defined : Bool} {name : String} {ty : Ty} {init : Option Phrase.RightSide}
      {w' : Sheet} (hdeclare : w.Introduces isMutable name ty init defined w') : Moves w w'
  | store {name : String} {owner : Nat} {symbol : Symbol} {isMutable defined : Bool} {ty : Ty}
      (hmeans : w.scopes.Denotes name owner symbol) (hkind : symbol.kind = .var isMutable ty defined)
      (hfree : isMutable ∨ defined = false) :
      Moves w ((w.write [w.scopes.named .popVariable name owner]).onScopes
        fun t => t.modifyVisible t.current name (·.withDefined true))
  | giveBack {header : Nat} (hheader : w.scopes.enclosingFunction w.scopes.current = .ok header) :
      Moves w ((w.marked .returnValue w.scopes.current).onScopes
        fun t => t.modify t.current fun scope => { scope with hasReturn := true })
  /-- a scope for a conditional or a loop -/
  | note {kind : ScopeKind} (hkind : kind = .thenBranch ∨ kind = .whileBody) :
      Moves w (w.onScopes (·.noted kind))
  | label {id : Nat} (hlt : id < w.scopes.size)
      (hchild : Child w.scopes.scope w.scopes.current id .whileBody) : Moves w (w.marked .whileLabel id)
  /-- the test of a conditional or of a loop -/
  | test {test : InstructionKind} {kind : ScopeKind} {id : Nat} (hlt : id < w.scopes.size)
      (hchild : Child w.scopes.scope w.scopes.current id kind)
      (htest : test = .ifCondition ∧ kind = .thenBranch ∨ test = .whileCondition ∧ kind = .whileBody) :
      Moves w ((w.marked test id).onScopes (·.goTo id))
  | present {name : String} {owner id : Nat} {symbol : Symbol} (hlt : id < w.scopes.size)
      (hchild : Child w.scopes.scope w.scopes.current id .thenBranch)
      (hmeans : w.scopes.Denotes name owner symbol) (hdefined : symbol.isDefined) :
      Moves w ((w.write [{ w.scopes.named .ifLetCondition name owner with scope := id }]).onScopes
        (·.goTo id))
  /-- another type for what a name means in some scope -/
  | retype (id : Nat) (narrowed : Option (String × Ty)) :
      Moves w (w.onScopes fun t => ((t.goTo id).retyped narrowed).goTo t.current)
  /-- the end of a conditional without a second block -/
  | close {parent : Nat} (hchild : Child w.scopes.scope parent w.scopes.current .thenBranch) :
      Moves w ((w.onScopes (·.goTo parent)).write
        [w.scopes.mark .elseMark w.scopes.current, w.scopes.mark .endIf w.scopes.current])
  /-- from the first block of a conditional to the second one -/
  | switch {parent : Nat} (hchild : Child w.scopes.scope parent w.scopes.current .thenBranch) :
      Moves w (((w.onScopes (·.goTo parent)).write
        [w.scopes.mark .elseMark w.scopes.current]).onScopes (·.alternative w.scopes.current))
  | endIf {id parent : Nat} (hlt : id < w.scopes.current)
      (hchild : Child w.scopes.scope parent id .thenBranch)
      (hother : Child w.scopes.scope parent w.scopes.current .elseBranch) :
      Moves w ((w.onScopes (·.goTo parent)).write [w.scopes.mark .endIf id])
  | endWhile {parent : Nat} (hchild : Child w.scopes.scope parent w.scopes.current .whileBody) :
      Moves w ((w.onScopes (·.goTo parent)).write [w.scopes.mark .endWhile w.scopes.current])
  | begin {f : Phrase.Function} {w' : Sheet} (hroot : w.scopes.current = ScopeTree.root)
      (hbegin : w.Begins f w') : Moves w w'
  | finish {header : Nat}
      (hbody : Child w.scopes.scope header w.scopes.current .functionBody)
      (hheader : Child w.scopes.scope ScopeTree.root header .functionHeader) :
      Moves w ((w.onScopes (·.goTo ScopeTree.root)).write
        [{ w.scopes.mark .functionEnd header with payload := some (.name (w.scopes.scope header).name) }])

/-! ### Programs are runs of moves -/

/-- What a run of moves leads to. -/
abbrev Sheet.Reaches : Sheet → Sheet → Prop := Relation.ReflTransGen Sheet.Moves

theorem ScopeTree.goTo_eq_self {t : ScopeTree} {id : Nat} (h : t.current = id) : t.goTo id = t := by
  subst h
  rfl

theorem Scope.Alike.child {s : Scope} {t : ScopeTree} {above id : Nat} (h : s.Alike (t.scope id))
    (hparent : s.parent = some above) : Child t.scope above id s.kind :=
  ⟨h.kind, h.parent.trans hparent⟩

namespace Sheet

variable {w w' : Sheet}
variable {condition : Phrase.Condition} {narrowed : Option (String × Ty)}

theorem Supplies.reaches {ty : Ty} {side : Phrase.RightSide} (h : w.Supplies ty side w') :
    w.Reaches w' := by
  cases h with
  | expression hvalue => exact .single (.evaluate hvalue)
  | call hcall => exact .single (.request hcall)

theorem Enters.reaches (h : w.Enters condition narrowed w') : w.Reaches w' := by
  have hnote : w.Moves (w.onScopes (·.noted .thenBranch)) := .note (.inl rfl)
  have hchild : Child (w.scopes.noted .thenBranch).scope w.scopes.current w.scopes.size .thenBranch :=
    (w.scopes.alike_noted (.inl rfl)).child rfl
  have hlt : w.scopes.size < (w.scopes.noted .thenBranch).size := by
    rw [ScopeTree.size_noted]
    exact Nat.lt_succ_self _
  cases h with
  | comparison hvalue =>
    refine Relation.ReflTransGen.head hnote (.head (.evaluate hvalue) (.single ?_))
    exact .test hlt hchild (.inl ⟨rfl, rfl⟩)
  | present hmeans hdefined hty =>
    refine Relation.ReflTransGen.head hnote (.head (.present hlt hchild hmeans hdefined) (.single ?_))
    exact .retype w.scopes.current _

theorem reaches_retyped (w : Sheet) (parent : Nat) (narrowed : Option (String × Ty)) :
    ∃ t : ScopeTree, w.Reaches { w with scopes := t } ∧ t.current = w.scopes.current ∧
      w.scopes.Grows t ∧ t.goTo parent = (w.scopes.goTo parent).retyped narrowed := by
  refine ⟨_, .single (.retype parent narrowed), rfl,
    ((ScopeTree.grows_goTo _ _).trans (ScopeTree.grows_retyped _ _)).goTo _, ?_⟩
  exact ScopeTree.goTo_eq_self (ScopeTree.current_retyped ..)

/-- The first block of a conditional ends in the scope of the block, below the scope around it. -/
theorem Enters.ending {w₁ : Sheet}
    {body : Phrase.Statement} (h : w.Enters condition narrowed w₁) (hbody : Adds w₁ body w') :
    ∃ t : ScopeTree, w'.Reaches { w' with scopes := t } ∧ t.current = w.scopes.size ∧
      w.scopes.size < t.size ∧ Child t.scope w.scopes.current w.scopes.size .thenBranch ∧
      t.goTo w.scopes.current = (w'.scopes.goTo w.scopes.current).retyped narrowed := by
  obtain ⟨hgrows, hcurrent, hsize⟩ := h.grows
  obtain ⟨hgrows', hcurrent'⟩ := hbody.grows
  obtain ⟨t, hreaches, htcurrent, htgrows, hback⟩ := w'.reaches_retyped w.scopes.current narrowed
  have hwhole := (hgrows.trans hgrows').trans htgrows
  have halike := (w.scopes.alike_noted (.inl rfl)).trans (hwhole.alike w.scopes.size (by simp))
  have hlt : w.scopes.size < t.size := by
    have hle := hwhole.size_le
    rw [ScopeTree.size_noted] at hle
    exact hle
  exact ⟨t, hreaches, htcurrent.trans (hcurrent'.trans hcurrent), hlt, halike.child rfl, hback⟩

theorem Enters.switching {w₁ : Sheet}
    {body : Phrase.Statement} (h : w.Enters condition narrowed w₁) (hbody : Adds w₁ body w') :
    w'.Reaches ((w'.halfway w.scopes.size w.scopes.current narrowed).onScopes
      (·.alternative w.scopes.size)) := by
  obtain ⟨t, hreaches, hcurrent, -, hchild, hback⟩ := h.ending hbody
  refine hreaches.tail ?_
  have hmove := Sheet.Moves.switch (w := { w' with scopes := t }) (hcurrent ▸ hchild)
  rw [show ({ w' with scopes := t } : Sheet).scopes.current = _ from hcurrent] at hmove
  unfold Sheet.halfway
  convert hmove using 1
  simp only [Sheet.marked, Sheet.onScopes, Sheet.write, ← hback]
  rfl

theorem child_looping (w : Sheet) : Child w.looping.scopes.scope w.scopes.current w.scopes.size .whileBody ∧
      w.scopes.size < w.looping.scopes.size := by
  refine ⟨(w.scopes.alike_noted (.inr rfl)).child rfl, ?_⟩
  show w.scopes.size < (w.scopes.noted .whileBody).size
  rw [ScopeTree.size_noted]
  exact Nat.lt_succ_self _

theorem reaches_loop {condition : Phrase.Expr} {code : List Instruction}
    (h : w.looping.scopes.Evaluates condition code) :
    w.Reaches (((w.looping.write code).marked .whileCondition w.scopes.size).onScopes
      (·.goTo w.scopes.size)) := by
  obtain ⟨hchild, hlt⟩ := w.child_looping
  have hlabel : (w.onScopes (·.noted .whileBody)).Moves w.looping := .label hlt hchild
  have htest : (w.looping.write code).Moves (((w.looping.write code).marked .whileCondition
      w.scopes.size).onScopes (·.goTo w.scopes.size)) := .test hlt hchild (.inr ⟨rfl, rfl⟩)
  exact .head (.note (.inr rfl)) (.head hlabel (.head (.evaluate h) (.single htest)))

end Sheet

theorem Adds.reaches {s : Phrase.Statement} (h : Adds w s w') : w.Reaches w' := by
  induction h with
  | skip => exact .refl
  | seq _ _ ih ih' => exact ih.trans ih'
  | declare _ hreserve hinit hdeclare => exact .single (.declare (.intro hreserve hinit hdeclare))
  | assign hmeans hkind hfree hvalue =>
    refine hvalue.reaches.tail ?_
    rw [← hvalue.scopes] at hmeans
    exact .store hmeans hkind hfree
  | call hcall => exact .single (.request hcall)
  | giveBack hheader hreturns hvalue =>
    cases hvalue with
    | nothing =>
      rw [Sheet.write, List.append_nil]
      exact .single (.giveBack hheader)
    | value _ hvalue => exact .head (.evaluate hvalue) (.single (.giveBack hheader))
  | @ifThen w w₁ w₂ _ _ narrowed hcondition hbody ih =>
    obtain ⟨t, hreaches, hcurrent, -, hchild, hback⟩ := hcondition.ending hbody
    refine (hcondition.reaches.trans ih).trans (hreaches.tail ?_)
    have hmove := Sheet.Moves.close (w := { w₂ with scopes := t }) (hcurrent ▸ hchild)
    rw [show ({ w₂ with scopes := t } : Sheet).scopes.current = _ from hcurrent] at hmove
    unfold Sheet.halfway
    convert hmove using 1
    simp only [Sheet.marked, Sheet.onScopes, Sheet.write, ← hback, List.append_assoc]
    rfl
  | @ifElse w w₁ w₂ w₃ _ _ _ narrowed hcondition hbody hother ih ih' =>
    obtain ⟨t, -, hcurrent, hlt, hchild, hback⟩ := hcondition.ending hbody
    have hmiddle := (hcondition.reaches.trans ih).trans ((hcondition.switching hbody).trans ih')
    refine hmiddle.tail ?_
    -- the scopes of both blocks, seen from the end of the second one
    obtain ⟨hgrows, hhere⟩ := hother.grows
    have hscopes : (w₂.halfway w.scopes.size w.scopes.current narrowed).scopes =
        t.goTo w.scopes.current := hback.symm
    simp only [Sheet.scopes_onScopes, hscopes, ScopeTree.current_alternative] at hgrows hhere
    have hnew := ((t.goTo w.scopes.current).alike_alternative w.scopes.size).trans
      (hgrows.alike _ (by rw [ScopeTree.size_alternative]; exact Nat.lt_succ_self _))
    have hold := ((ScopeTree.grows_goTo t w.scopes.current).trans
      ((ScopeTree.grows_alternative _ w.scopes.size).trans hgrows)).alike _ hlt
    have hfirst : Child w₃.scopes.scope w.scopes.current w.scopes.size .thenBranch :=
      ⟨hold.kind.trans hchild.1, hold.parent.trans hchild.2⟩
    have hsecond : Child w₃.scopes.scope w.scopes.current w₃.scopes.current .elseBranch := by
      rw [hhere]
      exact hnew.child rfl
    exact .endIf (by rw [hhere]; exact hlt) hfirst hsecond
  | @loop w w₁ _ _ _ code hcondition hbody ih =>
    obtain ⟨hchild, hlt⟩ := w.child_looping
    refine ((w.reaches_loop hcondition).trans ih).tail ?_
    obtain ⟨hgrows, hcurrent⟩ := hbody.grows
    replace hcurrent : w₁.scopes.current = w.scopes.size := hcurrent
    have halike := hgrows.alike w.scopes.size hlt
    have hclose : Child w₁.scopes.scope w.scopes.current w₁.scopes.current .whileBody := by
      rw [hcurrent]
      exact ⟨halike.kind.trans hchild.1, halike.parent.trans hchild.2⟩
    have hmove := Sheet.Moves.endWhile hclose
    rwa [hcurrent] at hmove

theorem Sheet.Defines.reaches {f : Phrase.Function} (h : w.Defines f w')
    (hroot : w.scopes.current = ScopeTree.root) :
    w.Reaches w' ∧ w'.scopes.current = ScopeTree.root := by
  cases h with
  | @intro w₁ w₂ hbegin hbody =>
    obtain ⟨-, hcurrent, hsize, hheader, hinner⟩ := hbegin.grows
    obtain ⟨hgrows, hhere⟩ := hbody.grows
    have houter := hheader.trans (hgrows.alike _ (by omega))
    have hbelow := hinner.trans (hgrows.alike _ (by omega))
    rw [← hcurrent, ← hhere] at hbelow
    have hmove : w₂.Moves _ := .finish (hbelow.child rfl) (houter.child (congrArg some hroot))
    refine ⟨(Relation.ReflTransGen.head (.begin hroot hbegin) hbody.reaches).tail ?_, hroot⟩
    rw [houter.name] at hmove
    rw [hroot]
    exact hmove

theorem Fills.reaches {items : List Phrase.Item} (h : Fills w items w')
    (hroot : w.scopes.current = ScopeTree.root) : w.Reaches w' := by
  induction h with
  | nil => exact .refl
  | statement hfirst _ ih => exact hfirst.reaches.trans (ih (hfirst.grows.2.trans hroot))
  | function hfirst _ ih =>
    obtain ⟨hreaches, hroot'⟩ := hfirst.reaches hroot
    exact hreaches.trans (ih hroot')

/-! ### Trees of scopes -/

namespace ScopeTree

variable {t t' : ScopeTree}
variable {id : Nat}

/-- The place and the frame of a scope are those of its kind. -/
def Fitting (t : ScopeTree) (id : Nat) : Prop :=
  match (t.scope id).kind with
  | .global => id = root ∧ (t.scope id).parent = none ∧ (t.scope id).frame = .global
  | .functionHeader => 0 < id ∧ (t.scope id).parent = some root ∧ (t.scope id).frame = .local
  | .functionBody => ∃ header < id, (t.scope id).parent = some header ∧
      (t.scope header).kind = .functionHeader ∧ (t.scope id).frame = .local
  | _ => ∃ above < id, (t.scope id).parent = some above ∧
      (t.scope above).kind ≠ .functionHeader ∧ (t.scope id).frame = (t.scope above).frame

/-- The scopes form a tree, and the current one is a scope for statements. -/
structure Formed (t : ScopeTree) : Prop where
  ordered : t.Ordered
  fitting : ∀ id < t.size, t.Fitting id
  global : (t.scope root).kind = .global
  current_lt : t.current < t.size
  here : (t.scope t.current).kind ≠ .functionHeader

theorem Fitting.lt {above : Nat} (h : t.Fitting id) (hparent : (t.scope id).parent = some above) :
    above < id := by
  unfold Fitting at h
  rw [hparent] at h
  split at h
  · exact absurd h.2.1 nofun
  · obtain ⟨hlt, habove, -⟩ := h
    cases habove
    exact hlt
  all_goals
    obtain ⟨_, hlt, habove, -⟩ := h
    cases habove
    exact hlt

theorem Formed.rooted (h : t.Formed) : Rooted fun id => (t.scope id).parent := by
  intro id above hparent
  by_cases hlt : id < t.size
  · exact (h.fitting id hlt).lt hparent
  · have hnone : (t.scope id).parent = none := by
      rw [scope_of_le (Nat.le_of_not_lt hlt)]
      rfl
    cases hnone.symm.trans hparent

theorem Fitting.grow (h : t.Fitting id) (hgrows : t.Grows t') (hlt : id < t.size) :
    t'.Fitting id := by
  have halike := hgrows.alike id hlt
  have habove : ∀ above < id, (t'.scope above).kind = (t.scope above).kind ∧
      (t'.scope above).frame = (t.scope above).frame := fun above habove =>
    ⟨(hgrows.alike above (Nat.lt_trans habove hlt)).kind, (hgrows.alike above (Nat.lt_trans habove hlt)).frame⟩
  unfold Fitting at h ⊢
  rw [halike.kind, halike.parent, halike.frame]
  split at h
  · exact h
  · exact h
  · obtain ⟨header, hheader, hparent, hkind, hframe⟩ := h
    exact ⟨header, hheader, hparent, (habove header hheader).1.trans hkind, hframe⟩
  · obtain ⟨above, hless, hparent, hkind, hframe⟩ := h
    obtain ⟨hkind', hframe'⟩ := habove above hless
    exact ⟨above, hless, hparent, hkind' ▸ hkind, hframe'.symm ▸ hframe⟩

theorem Formed.size_pos (h : t.Formed) : root < t.size := Nat.lt_of_le_of_lt (Nat.zero_le _) h.current_lt

theorem Formed.grow (h : t.Formed) (hgrows : t.Grows t') (hordered : t'.Ordered)
    (hnew : ∀ id, t.size ≤ id → id < t'.size → t'.Fitting id) (hcurrent : t'.current < t'.size)
    (hhere : (t'.scope t'.current).kind ≠ .functionHeader) : t'.Formed where
  ordered := hordered
  fitting id hlt := by
    by_cases hold : id < t.size
    · exact (h.fitting id hold).grow hgrows hold
    · exact hnew id (Nat.le_of_not_lt hold) hlt
  global := (hgrows.alike root h.size_pos).kind.trans h.global
  current_lt := hcurrent
  here := hhere

theorem Formed.keep (h : t.Formed) (hgrows : t.Grows t') (hordered : t'.Ordered)
    (hsize : t'.size = t.size) (hcurrent : t'.current = t.current) : t'.Formed := by
  refine h.grow hgrows hordered (fun id hle hlt => absurd hlt (by omega)) ?_ ?_
  · rw [hcurrent, hsize]
    exact h.current_lt
  · rw [hcurrent, (hgrows.alike _ h.current_lt).kind]
    exact h.here

theorem Formed.goTo (h : t.Formed) (hlt : id < t.size)
    (hkind : (t.scope id).kind ≠ .functionHeader) : (t.goTo id).Formed :=
  h.grow (grows_goTo t id) h.ordered (fun _ hle hlt => absurd hle (Nat.not_le.2 hlt)) hlt hkind

theorem Formed.leave (h : t.Formed) {above : Nat} {kind : ScopeKind} (hchild : Child t.scope above t.current kind)
    (hkind : kind = .thenBranch ∨ kind = .elseBranch ∨ kind = .whileBody) : (t.goTo above).Formed := by
  have hfitting := h.fitting _ h.current_lt
  unfold Fitting at hfitting
  rw [hchild.1, hchild.2] at hfitting
  rcases hkind with rfl | rfl | rfl <;>
  · obtain ⟨above', hless, hparent, hkind, -⟩ := hfitting
    cases hparent
    exact h.goTo (Nat.lt_trans hless h.current_lt) hkind

theorem Ordered.setTable (h : t.Ordered) {symbol : Symbol} {table : SymbolTable}
    (hinsert : (t.scope id).table.insert symbol = .ok table) : (t.setTable id table).Ordered :=
  h.modify (SymbolTable.names_insert (h id) hinsert).1

theorem Ordered.modifyVisible (h : t.Ordered) (id : Nat) (name : String) {change : Symbol → Symbol}
    (hname : ∀ s, (change s).name = s.name) : (t.modifyVisible id name change).Ordered := by
  unfold ScopeTree.modifyVisible
  split
  · exact h.modify ((h _).modify name hname)
  · exact h

theorem Ordered.retyped (h : t.Ordered) (narrowed : Option (String × Ty)) : (t.retyped narrowed).Ordered := by
  cases narrowed with
  | none => exact h
  | some narrowed => exact h.modifyVisible _ _ (Symbol.name_withTy _)

theorem Formed.noted (h : t.Formed) {kind : ScopeKind} (hkind : kind = .thenBranch ∨ kind = .whileBody) :
    (t.noted kind).Formed := by
  have hgrows := t.grows_noted kind
  have hcurrent := hgrows.alike _ h.current_lt
  refine h.grow hgrows ((h.ordered.modify (h.ordered _)).createChild kind _) (fun id hle hlt => ?_) ?_ ?_
  · rw [size_noted] at hlt
    obtain rfl : id = t.size := by omega
    have hnew := t.alike_noted hkind
    unfold Fitting
    rw [hnew.kind, hnew.parent, hnew.frame]
    rcases hkind with rfl | rfl <;>
      exact ⟨t.current, h.current_lt, rfl, hcurrent.kind ▸ h.here, hcurrent.frame.symm⟩
  · rw [size_noted]
    exact Nat.lt_succ_of_lt h.current_lt
  · rw [current_noted, hcurrent.kind]
    exact h.here

theorem Formed.alternative (h : t.Formed) (id : Nat) : (t.alternative id).Formed := by
  have hgrows := t.grows_alternative id
  have hcurrent := hgrows.alike _ h.current_lt
  have hnew := t.alike_alternative id
  have hordered : (t.alternative id).Ordered :=
    (h.ordered.createChild _ _).modify ((h.ordered.createChild _ _) id)
  refine h.grow hgrows hordered (fun other hle hlt => ?_) ?_ ?_
  · rw [size_alternative] at hlt
    obtain rfl : other = t.size := by omega
    unfold Fitting
    rw [hnew.kind, hnew.parent, hnew.frame]
    exact ⟨t.current, h.current_lt, rfl, hcurrent.kind ▸ h.here, hcurrent.frame.symm⟩
  · rw [size_alternative]
    exact Nat.lt_succ_self _
  · rw [current_alternative, hnew.kind]
    exact nofun

end ScopeTree

namespace Sheet

variable {w w' : Sheet}

theorem Declares.ordered {id : Nat} {symbol : Symbol} (h : w.Declares id symbol w')
    (hordered : w.scopes.Ordered) : w'.scopes.Ordered := by
  obtain ⟨table, hinsert, rfl⟩ := h
  exact hordered.setTable hinsert

theorem Takes.ordered {index : Nat} {params : List Phrase.Param} (h : w.Takes index params w')
    (hordered : w.scopes.Ordered) : w'.scopes.Ordered := by
  induction h with
  | nil => exact hordered
  | cons hfirst _ ih => exact ih (hfirst.ordered hordered)

theorem Begins.ordered {f : Phrase.Function} (h : w.Begins f w') (hordered : w.scopes.Ordered) :
    w'.scopes.Ordered := by
  cases h with
  | intro _ hparams hsymbol _ =>
    have hheader := hparams.ordered (hordered.createChild .functionHeader f.name)
    exact (hsymbol.ordered (hheader.modify (hheader _))).createChild _ _

theorem Introduces.scopes {isMutable defined : Bool} {name : String} {ty : Ty}
    {init : Option Phrase.RightSide} (h : w.Introduces isMutable name ty init defined w') :
    ∃ place table, (w.scopes.scope w.scopes.current).table.insert
        { name, kind := .var isMutable ty defined, location := some place } = .ok table ∧
      w'.scopes = w.scopes.setTable w.scopes.current table := by
  cases h with
  | @intro w₁ w₂ w₃ place _ _ hreserve hinit hdeclare =>
    have hscopes : w₂.scopes = w.scopes := hinit.scopes.trans hreserve.scopes.1
    have hpop : (if defined then w₂.write [w₂.scopes.named .popVariable name w₂.scopes.current]
        else w₂).scopes = w.scopes := by
      split <;> exact hscopes
    obtain ⟨table, hinsert, rfl⟩ := hdeclare
    rw [hpop, hscopes] at hinsert
    exact ⟨place, table, hinsert, by rw [scopes_onScopes, hpop, hscopes]⟩

theorem Moves.formed (h : w.Moves w') (hw : w.scopes.Formed) :
    w.scopes.Grows w'.scopes ∧ w'.scopes.Formed := by
  cases h with
  | evaluate | label => exact ⟨.refl _, hw⟩
  | request hcall =>
    rw [hcall.scopes]
    exact ⟨.refl _, hw⟩
  | declare hdeclare =>
    obtain ⟨place, table, hinsert, hscopes⟩ := hdeclare.scopes
    have hgrows : w.scopes.Grows (w.scopes.setTable w.scopes.current table) :=
      ScopeTree.grows_modify (fun _ => by exact ⟨rfl, rfl, rfl, rfl⟩) _ _
    rw [hscopes]
    exact ⟨hgrows, hw.keep hgrows (hw.ordered.setTable hinsert) (ScopeTree.size_modify ..) rfl⟩
  | store =>
    have hgrows := ScopeTree.grows_modifyVisible w.scopes w.scopes.current
    refine ⟨hgrows _ _, hw.keep (hgrows _ _) ?_ (ScopeTree.size_modifyVisible ..)
      (ScopeTree.current_modifyVisible ..)⟩
    exact hw.ordered.modifyVisible _ _ (Symbol.name_withDefined _)
  | giveBack =>
    have hgrows : w.scopes.Grows (w.scopes.modify w.scopes.current
        fun scope => { scope with hasReturn := true }) :=
      ScopeTree.grows_modify (fun _ => by exact ⟨rfl, rfl, rfl, rfl⟩) _ _
    exact ⟨hgrows, hw.keep hgrows (hw.ordered.modify (hw.ordered _)) (ScopeTree.size_modify ..) rfl⟩
  | note hkind => exact ⟨w.scopes.grows_noted _, hw.noted hkind⟩
  | test hlt hchild htest =>
    refine ⟨ScopeTree.grows_goTo _ _, hw.goTo hlt ?_⟩
    rcases htest with ⟨-, rfl⟩ | ⟨-, rfl⟩ <;>
    · rw [hchild.1]
      exact nofun
  | present hlt hchild =>
    refine ⟨ScopeTree.grows_goTo _ _, hw.goTo hlt ?_⟩
    rw [hchild.1]
    exact nofun
  | retype id narrowed =>
    have hgrows := (((ScopeTree.grows_goTo w.scopes id).trans
      (ScopeTree.grows_retyped _ narrowed))).goTo w.scopes.current
    refine ⟨hgrows, hw.keep hgrows ?_ ?_ rfl⟩
    · exact ScopeTree.Ordered.retyped (t := w.scopes.goTo id) hw.ordered narrowed
    · exact ScopeTree.size_retyped (w.scopes.goTo id) narrowed
  | close hchild => exact ⟨ScopeTree.grows_goTo _ _, hw.leave hchild (.inl rfl)⟩
  | switch hchild =>
    exact ⟨(ScopeTree.grows_goTo _ _).trans (ScopeTree.grows_alternative _ _),
      (hw.leave hchild (.inl rfl)).alternative _⟩
  | endIf _ _ hother => exact ⟨ScopeTree.grows_goTo _ _, hw.leave hother (.inr (.inl rfl))⟩
  | endWhile hchild => exact ⟨ScopeTree.grows_goTo _ _, hw.leave hchild (.inr (.inr rfl))⟩
  | begin hroot hbegin =>
    obtain ⟨hgrows, hcurrent, hsize, hheader, hbody⟩ := hbegin.grows
    refine ⟨hgrows, hw.grow hgrows (hbegin.ordered hw.ordered) (fun id hle hlt => ?_) ?_ ?_⟩
    · have hcases : id = w.scopes.size ∨ id = w.scopes.size + 1 := by omega
      unfold ScopeTree.Fitting
      rcases hcases with rfl | rfl
      · rw [hheader.kind, hheader.parent, hheader.frame]
        exact ⟨hw.size_pos, congrArg some hroot, rfl⟩
      · rw [hbody.kind, hbody.parent, hbody.frame]
        exact ⟨w.scopes.size, Nat.lt_succ_self _, rfl, hheader.kind, rfl⟩
    · rw [hcurrent, hsize]
      exact Nat.lt_succ_self _
    · rw [hcurrent, hbody.kind]
      exact nofun
  | finish =>
    refine ⟨ScopeTree.grows_goTo _ _, hw.goTo hw.size_pos ?_⟩
    rw [hw.global]
    exact nofun

theorem Reaches.preserves {P : Sheet → Prop}
    (hstep : ∀ {w w' : Sheet}, w.scopes.Formed → w.Moves w' → P w → P w') (h : w.Reaches w')
    (hw : w.scopes.Formed) (hP : P w) : w'.scopes.Formed ∧ P w' := by
  induction h with
  | refl => exact ⟨hw, hP⟩
  | tail _ hmove ih => exact ⟨(hmove.formed ih.1).2, hstep ih.1 hmove ih.2⟩

theorem Reaches.formed (h : w.Reaches w') (hw : w.scopes.Formed) : w'.scopes.Formed :=
  (h.preserves (P := fun _ => True) (fun _ _ _ => trivial) hw trivial).1

end Sheet

/-! ### Accepted programs -/

theorem ScopeTree.withBuiltins_current : ScopeTree.withBuiltins.current = root := rfl

theorem ScopeTree.withBuiltins_formed : ScopeTree.withBuiltins.Formed := by
  have hroot : (ScopeTree.withBuiltins.scope root).kind = .global ∧
      (ScopeTree.withBuiltins.scope root).parent = none ∧
      (ScopeTree.withBuiltins.scope root).frame = .global := by decide +kernel
  have hheaders : ∀ id < 11, 0 < id → (ScopeTree.withBuiltins.scope id).kind = .functionHeader ∧
      (ScopeTree.withBuiltins.scope id).parent = some root ∧
      (ScopeTree.withBuiltins.scope id).frame = .local := by decide +kernel
  have hfitting : ∀ id < ScopeTree.withBuiltins.size, ScopeTree.withBuiltins.Fitting id := by
    intro id hlt
    rw [start_size] at hlt
    unfold Fitting
    rcases Nat.eq_zero_or_pos id with hzero | hpos
    · rw [show id = root from hzero, hroot.1]
      exact ⟨rfl, hroot.2⟩
    · obtain ⟨hkind, hrest⟩ := hheaders id hlt hpos
      rw [hkind]
      exact ⟨hpos, hrest⟩
  refine ⟨Meaning.fit_start.scopes, hfitting, hroot.1, ?_, ?_⟩
  · rw [withBuiltins_current, start_size]
    decide
  · rw [withBuiltins_current, hroot.1]
    exact nofun

theorem accepted_of_fills {source : String} {p : Program}
    (h : (Program.ofFeed (.ofSource source)).result = .ok p) :
    ∃ items c, (parse (.ofSource source)).events.filter Event.isSpoken = items.flatMap Phrase.Item.events ∧
      Fills Context.start.sheet items c.sheet ∧ Accepted c p := by
  obtain ⟨c, haccepted, -, items, -, hevents, hfills⟩ := accepted_of_ok h
  exact ⟨items, c, hevents, hfills, haccepted⟩

theorem accepted_of_moves {P : Sheet → Prop} (hstart : P Context.start.sheet)
    (hstep : ∀ {w w' : Sheet}, w.scopes.Formed → w.Moves w' → P w → P w') {source : String}
    {p : Program} (h : (Program.ofFeed (.ofSource source)).result = .ok p) :
    ∃ c, Accepted c p ∧ c.scopes.Formed ∧ P c.sheet := by
  obtain ⟨items, c, -, hfills, haccepted⟩ := accepted_of_fills h
  obtain ⟨hformed, hP⟩ := Sheet.Reaches.preserves hstep (hfills.reaches ScopeTree.withBuiltins_current)
    ScopeTree.withBuiltins_formed hstart
  exact ⟨c, haccepted, hformed, hP⟩

end OnePass
