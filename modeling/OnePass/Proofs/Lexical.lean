import OnePass.Proofs.Assignment

/-!
# Names in sight

Which variable a name means can be read off the text of a program alone: it is the one of the nearest
block around that has declared the name before.  This module reads it off, without scopes and tables,
and compares the result with the instructions.

Main results:

* `Adds.references`, `Fills.references` — **instructions use the variables that names mean in the
  text**.
-/

namespace OnePass

open List
open Meaning (storageName)

/-! ### Names in the text -/

/-- The blocks around a place of a text, inside out, each with its number and the names that it has
declared before the place, and the number of the next block. -/
structure Sight where
  around : List (Nat × List String)
  next : Nat

/-- How a variable is used, and which one. -/
abbrev Reference : Type := InstructionKind × Option String

namespace Sight

/-- The place of the variable that a name means. -/
def target? (v : Sight) (name : String) : Option String :=
  (v.around.find? fun block => block.2.contains name).map fun block => storageName name block.1

/-- Into a block, which begins with some names. -/
def enter (v : Sight) (names : List String) : Sight := ⟨(v.next, names) :: v.around, v.next + 1⟩

def leave (v : Sight) : Sight := { v with around := v.around.tail }

/-- The block declares a name. -/
def declare (v : Sight) (name : String) : Sight where
  around := match v.around with
    | [] => []
    | (id, names) :: outer => (id, name :: names) :: outer
  next := v.next

/-- The use of a variable as an operand, if the token is the name of one. -/
def operand (v : Sight) (token : Token) : List Reference :=
  (token.identifier?.map fun name => (.pushVariable, v.target? name)).toList

/-- A text begins with the names of the built-in functions; they have blocks of their own. -/
def start : Sight := ⟨[(ScopeTree.root, Builtin.all.map Builtin.name)], Builtin.all.length + 1⟩

end Sight

namespace Phrase

def Expr.uses (v : Sight) : Expr → List Reference
  | operand token => v.operand token
  | binary _ _ left right => left.uses v ++ right.uses v
  | unwrap _ inner => inner.uses v

def RightSide.uses (v : Sight) : RightSide → List Reference
  | expression value => value.uses v
  | call _ _ args => args.flatMap fun arg => v.operand arg.term

def Condition.uses (v : Sight) : Condition → List Reference
  | comparison value _ => value.uses v
  | present name _ => [(.ifLetCondition, v.target? name)]

/-- Whether a declaration stores a value: an initial one, or the absent one of an optional variable. -/
def isInitialized (isMutable : Bool) (stated : Option Ty) (init : Option RightSide) : Bool :=
  init.isSome || isMutable && stated.any Ty.isOptional

/-- The uses of variables in a statement, and what is in sight behind it.  A name is in sight from the
end of its declaration to the end of the block. -/
def Statement.uses : Sight → Statement → List Reference × Sight
  | v, skip => ([], v)
  | v, seq first second =>
      let (before, v₁) := first.uses v
      let (after, v₂) := second.uses v₁
      (before ++ after, v₂)
  | v, declare isMutable name _ stated init =>
      (init.elim [] (RightSide.uses v) ++
        (if isInitialized isMutable stated init then [(.popVariable, (v.declare name).target? name)] else []),
        v.declare name)
  | v, assign name _ value => (value.uses v ++ [(.popVariable, v.target? name)], v)
  | v, call callee place args => ((RightSide.call callee place args).uses v, v)
  | v, giveBack _ value => (value.elim [] (Expr.uses v), v)
  | v, ifThen condition body =>
      let (inner, v₁) := body.uses (v.enter [])
      (condition.uses v ++ inner, v₁.leave)
  | v, ifElse condition body other =>
      let (inner, v₁) := body.uses (v.enter [])
      let (inner', v₂) := other.uses (v₁.leave.enter [])
      (condition.uses v ++ inner ++ inner', v₂.leave)
  | v, loop condition _ body =>
      let (inner, v₁) := body.uses (v.enter [])
      (condition.uses v ++ inner, v₁.leave)

/-- The names of parameters; one without a name is called after its index. -/
def Function.keys (f : Function) : List String :=
  f.params.mapIdx fun index param => param.name.getD s!"_${index}"

def Item.uses (v : Sight) : Item → List Reference × Sight
  | statement content => content.uses v
  | function content =>
      let (inner, v₁) := content.body.uses (((v.declare content.name).enter content.keys).enter [])
      (inner, v₁.leave.leave)

/-- The uses of variables in a text. -/
def usesOf : Sight → List Item → List Reference
  | _, [] => []
  | v, item :: later => (item.uses v).1 ++ usesOf (item.uses v).2 later

end Phrase

/-! ### Uses in code -/

/-- The use of a variable that an instruction makes. -/
def Instruction.reference? (i : Instruction) : Option Reference :=
  match i.kind with
  | .pushVariable | .popVariable | .ifLetCondition => some (i.kind, i.name?)
  | _ => none

/-- The uses of variables in code. -/
def references (code : List Instruction) : List Reference := code.filterMap Instruction.reference?

theorem references_append (first second : List Instruction) :
    references (first ++ second) = references first ++ references second := filterMap_append

theorem Trims.references {l m : List Instruction} (h : Trims l m) : references m = OnePass.references l := by
  refine h.filterMap (fun hi => ?_) fun hi => ?_
  · rw [Instruction.reference?, Instruction.reference?, hi.fields.1, hi.fields.2.2.2.2]
  · rw [Instruction.reference?, hi]

theorem references_of_kinds {code : List Instruction} (h : ∀ i ∈ code, i.reference? = none) :
    references code = [] := filterMap_eq_nil_iff.2 h

namespace ScopeTree

variable {t : ScopeTree} {v : Sight}
variable {i : Instruction}

/-- What a name means in the current scope is what it means in the text. -/
def Shows (t : ScopeTree) (v : Sight) : Prop :=
  ∀ name owner symbol, t.Denotes name owner symbol → v.target? name = some (storageName name owner)

theorem Literal.reference? {payload : Payload} (h : t.Literal i payload) : i.reference? = none := by
  rw [Instruction.reference?, h.kind]

theorem reference?_of_takes (h : i.kind.takes = 2) : i.reference? = none := by
  unfold Instruction.reference?
  split
  · rename_i hkind
    rw [hkind] at h
    cases h
  · rename_i hkind
    rw [hkind] at h
    cases h
  · rename_i hkind
    rw [hkind] at h
    cases h
  · rfl

theorem Evaluates.references {e : Phrase.Expr} {code : List Instruction}
    (h : t.Evaluates e code) (hshows : t.Shows v) : references code = e.uses v := by
  induction h with
  | @literal token i _ hterm hi =>
    rw [OnePass.references, filterMap_cons_none hi.reference?, Phrase.Expr.uses, Sight.operand, hterm]
    rfl
  | @«variable» token name owner _ hterm hmeans =>
    rw [Phrase.Expr.uses, Sight.operand, hterm, Option.map_some, hshows _ _ _ hmeans]
    rfl
  | binary _ _ htakes _ ih ih' =>
    rw [references_append, references_append, ih, ih',
      references_of_kinds (forall_mem_singleton.2 (reference?_of_takes htakes)), append_nil]
    rfl
  | @unwrap _ _ _ i _ hkind _ ih | @convert _ _ i _ hkind _ ih =>
    have hi : i.reference? = none := by rw [Instruction.reference?, hkind]
    rw [references_append, ih, references_of_kinds (forall_mem_singleton.2 hi), append_nil]
    first | done | rfl

theorem Hands.reference? {arg : Phrase.Arg} {argument : Argument}
    (h : t.Hands arg i argument) (hshows : t.Shows v) : i.reference?.toList = v.operand arg.term := by
  cases h with
  | literal hterm hi =>
    rw [hi.reference?, Sight.operand, hterm]
    rfl
  | «variable» hterm hmeans =>
    rw [Sight.operand, hterm, Option.map_some, hshows _ _ _ hmeans]
    rfl

theorem Passes.references {variadic : Bool} {args : List Phrase.Arg} {code : List Instruction}
    {arguments : List Argument} (h : t.Passes variadic args code arguments) (hshows : t.Shows v) :
    references code = args.flatMap fun arg => v.operand arg.term := by
  induction h with
  | nil => rfl
  | @concat _ arg _ i _ _ _ hlast ih =>
    have hwrite : OnePass.references (if variadic then [t.mark .write t.current] else []) = [] := by
      split <;> rfl
    have hi : OnePass.references [i] = v.operand arg.term := by
      rw [← hlast.reference? hshows, OnePass.references, filterMap_cons, filterMap_nil]
      cases i.reference? <;> rfl
    have hcons := references_append [i] (if variadic then [t.mark .write t.current] else [])
    rw [hi, hwrite, append_nil] at hcons
    rw [references_append, ih, flatMap_append, flatMap_singleton]
    exact congrArg _ hcons

end ScopeTree

/-! ### What is in sight -/

/-- The blocks around a place of the text are the scopes around the current one. -/
structure Sheet.Sees (w : Sheet) (v : Sight) : Prop where
  next : v.next = w.scopes.size
  around : v.around.map Prod.fst = w.scopes.ancestors w.scopes.current
  names : ∀ block ∈ v.around, ∀ name, name ∈ block.2 ↔ w.scopes.sense? block.1 name ≠ none

theorem ScopeTree.contains_iff_sense? (t : ScopeTree) (id : Nat) (name : String) :
    (t.scope id).table.contains name = true ↔ t.sense? id name ≠ none := by
  rw [ne_eq, sense?_eq_none_iff, ← ne_eq, Option.ne_none_iff_isSome]
  rfl

theorem ScopeTree.Formed.ancestors_cons {t : ScopeTree} (ht : t.Formed) (id : Nat) :
    ∃ outer, t.ancestors id = id :: outer ∧ ∀ other ∈ outer, other < id := by
  rw [ancestors_eq]
  cases hparent : (t.scope id).parent with
  | none => exact ⟨[], ancestorsBy_of_none hparent, forall_mem_nil _⟩
  | some above =>
    refine ⟨_, ancestorsBy_of_some ht.rooted hparent, fun other hmem => ?_⟩
    exact Nat.lt_of_le_of_lt (le_of_mem_ancestorsBy ht.rooted hmem) (ht.rooted _ _ hparent)

namespace Sheet

variable {w w' : Sheet} {v : Sight}
variable {ty : Ty}

theorem Sees.owner? (h : w.Sees v) (name : String) : w.scopes.owner? w.scopes.current name =
      (v.around.find? fun block => block.2.contains name).map Prod.fst := by
  rw [ScopeTree.owner?, ← h.around, List.find?_map]
  congr 1
  refine List.find?_congr fun block hblock => ?_
  rw [Function.comp_apply, Bool.eq_iff_iff, ScopeTree.contains_iff_sense?, ← h.names block hblock,
    contains_iff_mem]

theorem Sees.shows (h : w.Sees v) : w.scopes.Shows v := by
  intro name owner symbol hmeans
  have howner := h.owner? name
  rw [hmeans.found] at howner
  obtain ⟨block, hblock, rfl⟩ := Option.map_eq_some_iff.1 howner.symm
  rw [Sight.target?, hblock]
  rfl

theorem Sees.keep (h : w.Sees v) (hw : w.scopes.Formed) (hgrows : w.scopes.Grows w'.scopes)
    (hsize : w'.scopes.size = w.scopes.size) (hcurrent : w'.scopes.current = w.scopes.current)
    (hsense : ∀ id name, w'.scopes.sense? id name = none ↔ w.scopes.sense? id name = none) :
    w'.Sees v where
  next := h.next.trans hsize.symm
  around := by rw [hcurrent, hgrows.ancestors hw hw.current_lt, h.around]
  names block hblock name := by rw [h.names block hblock, ne_eq, ne_eq, hsense]

theorem Sees.enter (h : w.Sees v) (hw : w.scopes.Formed) (hw' : w'.scopes.Formed)
    (hgrows : w.scopes.Grows w'.scopes) (hsize : w'.scopes.size = w.scopes.size + 1)
    (hcurrent : w'.scopes.current = w.scopes.size)
    (hparent : (w'.scopes.scope w.scopes.size).parent = some w.scopes.current)
    (hsense : ∀ id name, w'.scopes.sense? id name = w.scopes.sense? id name) : w'.Sees (v.enter []) where
  next := by rw [hsize, ← h.next, Sight.enter]
  around := by
    have hchild : Child w'.scopes.scope w.scopes.current w.scopes.size
        (w'.scopes.scope w.scopes.size).kind := ⟨rfl, hparent⟩
    rw [hcurrent, hw'.ancestors_of_child hchild, hgrows.ancestors hw hw.current_lt, ← h.around, ← h.next]
    rfl
  names := by
    refine forall_mem_cons.2 ⟨fun name => ?_, fun block hblock name => ?_⟩
    · have hnone : w.scopes.sense? v.next name = none := by
        rw [h.next]
        exact ScopeTree.sense?_eq_none_iff.2 (w.scopes.symbol?_of_le (Nat.le_refl _) name)
      rw [hsense, hnone]
      simp
    · rw [hsense]
      exact h.names block hblock name

theorem Sees.back (h : w.Sees v) {blocks : List (Nat × List String)} (hsub : blocks ⊆ v.around)
    (haround : blocks.map Prod.fst = w'.scopes.ancestors w'.scopes.current)
    (hsize : w'.scopes.size = w.scopes.size)
    (hsense : ∀ id name, w'.scopes.sense? id name = w.scopes.sense? id name) :
    w'.Sees ⟨blocks, v.next⟩ where
  next := h.next.trans hsize.symm
  around := haround
  names block hblock name := by
    rw [hsense]
    exact h.names block (hsub hblock) name

theorem Sees.leave (h : w.Sees v) (hw : w.scopes.Formed) (hgrows : w.scopes.Grows w'.scopes)
    (hsize : w'.scopes.size = w.scopes.size)
    (hparent : (w.scopes.scope w.scopes.current).parent = some w'.scopes.current)
    (hsense : ∀ id name, w'.scopes.sense? id name = w.scopes.sense? id name) : w'.Sees v.leave := by
  refine h.back (fun _ => mem_of_mem_tail) ?_ hsize hsense
  have hchild : Child w.scopes.scope w'.scopes.current w.scopes.current
      (w.scopes.scope w.scopes.current).kind := ⟨rfl, hparent⟩
  have hlt := Nat.lt_trans (hw.rooted _ _ hparent) hw.current_lt
  rw [hgrows.ancestors hw hlt, map_tail, h.around, hw.ancestors_of_child hchild, tail_cons]

theorem Sees.declare (h : w.Sees v) (hw : w.scopes.Formed) (hgrows : w.scopes.Grows w'.scopes)
    (hsize : w'.scopes.size = w.scopes.size) (hcurrent : w'.scopes.current = w.scopes.current)
    {name : String} (hsense : ∀ id key, w'.scopes.sense? id key ≠ none ↔
      (id = w.scopes.current ∧ key = name) ∨ w.scopes.sense? id key ≠ none) : w'.Sees (v.declare name) := by
  obtain ⟨outer, houter, hless⟩ := hw.ancestors_cons w.scopes.current
  have haround := h.around
  rw [houter] at haround
  obtain ⟨⟨id, names⟩, blocks, hblocks, rfl, rfl⟩ := map_eq_cons_iff.1 haround
  have hdeclare : (v.declare name).around = (w.scopes.current, name :: names) :: blocks := by
    rw [Sight.declare, hblocks]
  have hnames := h.names
  rw [hblocks] at hnames
  obtain ⟨hfirst, hrest⟩ := forall_mem_cons.1 hnames
  refine ⟨h.next.trans hsize.symm, ?_, ?_⟩
  · rw [hdeclare, hcurrent, hgrows.ancestors hw hw.current_lt, houter]
    rfl
  · rw [hdeclare]
    refine forall_mem_cons.2 ⟨fun key => ?_, fun block hblock key => ?_⟩
    · rw [hsense, mem_cons, hfirst]
      simp
    · have hne := Nat.ne_of_lt (hless block.1 (mem_map_of_mem hblock))
      rw [hsense, hrest block hblock]
      simp [hne]

theorem Sees.target?_declare (h : w.Sees v) (name : String) :
    (v.declare name).target? name = some (storageName name w.scopes.current) := by
  have haround : v.around.map Prod.fst = w.scopes.current :: (w.scopes.ancestors w.scopes.current).tail := by
    rw [h.around]
    unfold ScopeTree.ancestors
    rfl
  obtain ⟨⟨id, names⟩, blocks, hblocks, rfl, -⟩ := map_eq_cons_iff.1 haround
  rw [Sight.target?, Sight.declare, hblocks, List.find?_cons_of_pos (by simp)]
  rfl

theorem Sees.shows_noted (h : w.Sees v) (hw : w.scopes.Formed) (kind : ScopeKind) :
    (w.scopes.noted kind).Shows v := by
  have hsees : (w.onScopes (·.noted kind)).Sees ⟨v.around, v.next + 1⟩ := by
    refine ⟨?_, ?_, fun block hblock name => ?_⟩
    · rw [scopes_onScopes, ScopeTree.size_noted, h.next]
    · rw [scopes_onScopes, ScopeTree.current_noted,
        (w.scopes.grows_noted kind).ancestors hw hw.current_lt, h.around]
    · rw [scopes_onScopes, ScopeTree.sense?, ScopeTree.symbol?_noted]
      exact h.names block hblock name
  exact hsees.shows

theorem Sees.alternative (h : w.Sees v) (hw : w.scopes.Formed) (id : Nat) :
    (w.onScopes (·.alternative id)).Sees (v.enter []) := by
  refine h.enter hw (hw.alternative id) ?_ ?_ ?_ ?_ fun other name => ?_ <;> rw [scopes_onScopes]
  · exact ScopeTree.grows_alternative ..
  · exact ScopeTree.size_alternative ..
  · exact ScopeTree.current_alternative ..
  · exact (w.scopes.alike_alternative id).parent
  · exact congrArg (Option.map _) (ScopeTree.symbol?_alternative ..)

theorem Sees.repeated (h : w.Sees v) (hw : w.scopes.Formed) :
    ((w.scopes.noted .whileBody).goTo w.scopes.size).Formed ∧
      ∀ w' : Sheet, w'.scopes = (w.scopes.noted .whileBody).goTo w.scopes.size → w'.Sees (v.enter []) := by
  have halike := w.scopes.alike_noted (.inr rfl)
  have hwithin : ((w.scopes.noted .whileBody).goTo w.scopes.size).Formed := by
    refine (hw.noted (.inr rfl)).goTo (by simp) ?_
    rw [halike.kind]
    exact nofun
  refine ⟨hwithin, fun w' hscopes => ?_⟩
  refine h.enter hw (hscopes ▸ hwithin) ?_ ?_ ?_ ?_ fun other name => ?_ <;> rw [hscopes]
  · exact (w.scopes.grows_noted _).goTo _
  · exact ScopeTree.size_noted ..
  · rfl
  · exact halike.parent
  · exact congrArg (Option.map _) (ScopeTree.symbol?_noted ..)

/-! ### Parts of statements -/

theorem references_marked (w : Sheet) {kind : InstructionKind} {id : Nat}
    (hkind : (w.scopes.mark kind id).reference? = none) :
    references (w.marked kind id).code = references w.code := by
  rw [marked, code_write, references_append, references_of_kinds (forall_mem_singleton.2 hkind),
    append_nil]

theorem Requests.references {callee : String} {args : List Phrase.Arg} {target : Option Ty}
    (h : w.Requests callee args target w') (hshows : w.scopes.Shows v) (place : Location) :
    references w'.code = references w.code ++ (Phrase.RightSide.call callee place args).uses v := by
  cases h with
  | @intro code site hargs =>
    have hcall : OnePass.references (w.callCode callee site.scaffolded) = [] := by
      unfold callCode
      split
      · rfl
      · split <;> rfl
    show OnePass.references (w.code ++ (code ++ w.callCode callee site.scaffolded)) = _
    rw [references_append, references_append, hcall, append_nil, hargs.references hshows]
    rfl

theorem Supplies.references {side : Phrase.RightSide} (h : w.Supplies ty side w')
    (hshows : w.scopes.Shows v) : references w'.code = references w.code ++ side.uses v := by
  cases h with
  | expression hvalue => rw [code_write, references_append, hvalue.references hshows, Phrase.RightSide.uses]
  | call hcall => exact hcall.references hshows _

theorem Initializes.references {isMutable defined : Bool} {init : Option Phrase.RightSide}
    (h : w.Initializes ty isMutable init defined w') (hshows : w.scopes.Shows v) :
    references w'.code = references w.code ++ init.elim [] (Phrase.RightSide.uses v) := by
  cases h with
  | side hside => exact hside.references hshows
  | absent hi =>
    rw [code_write, references_append, references_of_kinds (forall_mem_singleton.2 hi.reference?)]
    rfl
  | waiting => exact (append_nil _).symm

theorem Initializes.defined {isMutable defined : Bool} {init : Option Phrase.RightSide}
    {stated : Option Ty} (h : w.Initializes ty isMutable init defined w')
    (hty : stated = some ty ∨ stated = none ∧ init.isSome) :
    defined = Phrase.isInitialized isMutable stated init := by
  cases h with
  | side => rfl
  | absent _ hoptional =>
    rcases hty with rfl | ⟨-, hsome⟩
    · exact hoptional.symm
    · cases hsome
  | waiting hnot =>
    rcases hty with rfl | ⟨-, hsome⟩
    · rw [and_comm, ← Bool.and_eq_true, Bool.not_eq_true] at hnot
      exact hnot.symm
    · cases hsome

theorem Reserves.references {name : String} (h : w.Reserves name w') :
    references w'.code = OnePass.references w.code := by
  obtain ⟨pre, post, hcode, hcode'⟩ := h.code
  rw [hcode', hcode, references_append, references_append]
  rfl

theorem Enters.sees {condition : Phrase.Condition} {narrowed : Option (String × Ty)}
    (h : w.Enters condition narrowed w') (hw : w.scopes.Formed) (hv : w.Sees v) :
    references w'.code = references w.code ++ condition.uses v ∧ w'.Sees (v.enter []) ∧
      (w'.scopes.scope w.scopes.size).parent = some w.scopes.current := by
  obtain ⟨hgrows, hcurrent, hsize⟩ := h.grows
  have hw' := h.reaches.formed hw
  have hshows := hv.shows_noted hw .thenBranch
  have hparent : (w'.scopes.scope w.scopes.size).parent = some w.scopes.current :=
    ((w.scopes.alike_noted (.inl rfl)).trans (hgrows.alike _ (by simp))).parent
  have hsees : (∀ id name, w'.scopes.sense? id name = w.scopes.sense? id name) → w'.Sees (v.enter []) :=
    hv.enter hw hw' ((w.scopes.grows_noted _).trans hgrows) hsize hcurrent hparent
  cases h with
  | comparison hvalue =>
    refine ⟨?_, hsees fun id name => ?_, hparent⟩
    · rw [code_onScopes, references_marked _ rfl, code_write, code_onScopes, references_append,
        hvalue.references hshows]
      rfl
    · exact congrArg (Option.map _) (ScopeTree.symbol?_noted ..)
  | present hmeans =>
    refine ⟨?_, hsees fun id name => ?_, hparent⟩
    · rw [code_onScopes, code_write, code_onScopes, references_append, Phrase.Condition.uses, hshows _ _ _ hmeans]
      rfl
    · rw [scopes_onScopes, ScopeTree.sense?, ScopeTree.symbol?_goTo]
      exact (ScopeTree.sense?_retyped ..).trans (congrArg (Option.map _) (ScopeTree.symbol?_noted ..))

theorem Enters.sees_halfway {condition : Phrase.Condition} {narrowed : Option (String × Ty)}
    {body : Phrase.Statement} {w₁ : Sheet} (h : w.Enters condition narrowed w₁) (hbody : Adds w₁ body w')
    (hw : w.scopes.Formed) (hv : w.Sees v) {v' : Sight} (hv' : w'.Sees v') :
    (w'.halfway w.scopes.size w.scopes.current narrowed).scopes.Formed ∧
      (w'.halfway w.scopes.size w.scopes.current narrowed).Sees v'.leave := by
  obtain ⟨hgrows, hcurrent, -⟩ := h.grows
  obtain ⟨hgrows', hcurrent'⟩ := hbody.grows
  obtain ⟨-, -, hparent⟩ := h.sees hw hv
  have hw' := hbody.reaches.formed (h.reaches.formed hw)
  have hwhole := ((w.scopes.grows_noted _).trans hgrows).trans hgrows'
  have hlt := Nat.lt_of_lt_of_le hw.current_lt hwhole.size_le
  have hkind : (w'.scopes.scope w.scopes.current).kind ≠ .functionHeader := by
    rw [(hwhole.alike _ hw.current_lt).kind]
    exact hw.here
  have hback := hw'.goTo hlt hkind
  refine ⟨hback.keep (ScopeTree.grows_retyped _ _) (hback.ordered.retyped _) (ScopeTree.size_retyped ..)
    (ScopeTree.current_retyped ..), ?_⟩
  refine hv'.leave hw' (w'.grows_halfway w.scopes.size w.scopes.current narrowed) (w'.size_halfway ..) ?_
    fun id name => ScopeTree.sense?_retyped ..
  rw [current_halfway, hcurrent', hcurrent]
  refine (hgrows'.alike _ ?_).parent.trans hparent
  have hless := hgrows.size_le
  rw [ScopeTree.size_noted] at hless
  exact hless

end Sheet

/-! ### Statements, functions and programs -/

theorem Adds.references {w w' : Sheet} {s : Phrase.Statement} (h : Adds w s w') {v : Sight}
    (hw : w.scopes.Formed) (hv : w.Sees v) :
    references w'.code = references w.code ++ (s.uses v).1 ∧ w'.Sees (s.uses v).2 := by
  induction h generalizing v with
  | skip => exact ⟨(append_nil _).symm, hv⟩
  | seq hfirst _ ih ih' =>
    obtain ⟨hcode, hsees⟩ := ih hw hv
    obtain ⟨hcode', hsees'⟩ := ih' (hfirst.reaches.formed hw) hsees
    refine ⟨?_, hsees'⟩
    rw [hcode', hcode, append_assoc]
    rfl
  | @declare w w₁ w₂ w₃ isMutable name _ stated init ty defined hty hreserve hinit hdeclare =>
    have hscopes : w₂.scopes = w.scopes := hinit.scopes.trans hreserve.scopes.1
    have hcode₂ : OnePass.references w₂.code =
        OnePass.references w.code ++ init.elim [] (Phrase.RightSide.uses v) := by
      rw [hinit.references (hreserve.scopes.1 ▸ hv.shows), hreserve.references]
    have hintro : w.Introduces isMutable name ty init defined w₃ := .intro hreserve hinit hdeclare
    obtain ⟨place, table, hinsert, hscopes₃⟩ := hintro.scopes
    have hgrows : w.scopes.Grows w₃.scopes := ((Sheet.Moves.declare hintro).formed hw).1
    have hsense := ScopeTree.sense?_setTable hw.ordered hw.current_lt hinsert
    constructor
    · obtain ⟨-, -, -, hcode₃, -⟩ := hdeclare.grows
      rw [hcode₃, hinit.defined hty]
      unfold Phrase.Statement.uses
      split
      · rw [Sheet.code_write, references_append, hcode₂, hv.target?_declare, hscopes, append_assoc]
        rfl
      · rw [hcode₂, append_nil]
    · refine hv.declare hw hgrows (by rw [hscopes₃]; exact ScopeTree.size_modify ..) (by rw [hscopes₃]; rfl)
        fun id key => ?_
      rw [hscopes₃, hsense]
      split
      · rename_i hsame
        simp [hsame]
      · rename_i hother
        simp only [hother, false_or]
  | @assign w w₁ name _ value owner symbol _ _ ty hmeans hkind _ hvalue =>
    have hscopes := hvalue.scopes
    constructor
    · rw [Sheet.code_onScopes, Sheet.code_write, references_append, hvalue.references hv.shows, hscopes,
        Phrase.Statement.uses, hv.shows _ _ _ hmeans, append_assoc]
      rfl
    · refine hv.keep hw ?_ ?_ ?_ fun id key => ?_
      · rw [Sheet.scopes_onScopes, Sheet.scopes_write, hscopes]
        exact ScopeTree.grows_modifyVisible ..
      · rw [Sheet.scopes_onScopes, Sheet.scopes_write, ScopeTree.size_modifyVisible, hscopes]
      · rw [Sheet.scopes_onScopes, Sheet.scopes_write, ScopeTree.current_modifyVisible, hscopes]
      · rw [Sheet.scopes_onScopes, Sheet.scopes_write, hscopes, ScopeTree.sense?_modifyVisible hmeans]
        split
        · rename_i hsame
          rw [hsame.1, hsame.2, hmeans.sense]
          simp
        · rfl
  | @call _ _ _ place _ hcall =>
    refine ⟨hcall.references hv.shows place, hv.keep hw ?_ ?_ ?_ fun _ _ => ?_⟩ <;> rw [hcall.scopes]
    exact .refl _
  | @giveBack w _ value code header returns _ _ hvalue =>
    constructor
    · have hcode : OnePass.references code = value.elim [] (Phrase.Expr.uses v) := by
        cases hvalue with
        | nothing => rfl
        | value _ hvalue => exact hvalue.references hv.shows
      rw [Sheet.code_onScopes, Sheet.references_marked _ rfl, Sheet.code_write, references_append, hcode]
      rfl
    · refine hv.keep hw (ScopeTree.grows_modify (fun _ => by exact ⟨rfl, rfl, rfl, rfl⟩) _ _)
        (ScopeTree.size_modify ..) rfl fun id name => ?_
      rw [ScopeTree.sense?_eq_none_iff, ScopeTree.sense?_eq_none_iff]
      exact iff_of_eq (congrArg (· = none) (ScopeTree.symbol?_modify (fun _ => by rfl) ..))
  | ifThen hcondition hbody ih =>
    obtain ⟨hcode, hsees, -⟩ := hcondition.sees hw hv
    obtain ⟨hcode', hsees'⟩ := ih (hcondition.reaches.formed hw) hsees
    obtain ⟨-, hleave⟩ := hcondition.sees_halfway hbody hw hv hsees'
    refine ⟨?_, hleave.next, hleave.around, hleave.names⟩
    rw [Sheet.references_marked _ rfl, Sheet.halfway, Sheet.references_marked _ rfl, Sheet.code_onScopes,
      hcode', hcode, append_assoc]
    rfl
  | @ifElse w w₁ w₂ w₃ condition body other narrowed hcondition hbody hother ih ih' =>
    obtain ⟨hcode, hsees, -⟩ := hcondition.sees hw hv
    obtain ⟨hcode', hsees'⟩ := ih (hcondition.reaches.formed hw) hsees
    obtain ⟨hhalf, hleave⟩ := hcondition.sees_halfway hbody hw hv hsees'
    obtain ⟨hcode'', hsees''⟩ := ih' (hhalf.alternative _) (hleave.alternative hhalf _)
    have hback : (w₃.onScopes (·.goTo w.scopes.current)).Sees
        (Phrase.Statement.uses v (.ifElse condition body other)).2 := by
      refine hsees''.leave (hother.reaches.formed (hhalf.alternative _)) (ScopeTree.grows_goTo ..) rfl ?_
        fun _ _ => rfl
      obtain ⟨hgrows, hcurrent⟩ := hother.grows
      rw [hcurrent]
      refine (hgrows.alike _ (hhalf.alternative _).current_lt).parent.trans ?_
      refine (ScopeTree.alike_alternative ..).parent.trans ?_
      exact congrArg some (w₂.current_halfway w.scopes.size w.scopes.current narrowed)
    refine ⟨?_, hback.next, hback.around, hback.names⟩
    rw [Sheet.references_marked _ rfl, Sheet.code_onScopes, hcode'', Sheet.code_onScopes, Sheet.halfway,
      Sheet.references_marked _ rfl, Sheet.code_onScopes, hcode', hcode, append_assoc, append_assoc,
      ← append_assoc (condition.uses v)]
    rfl
  | @loop w w₁ condition _ body code hcondition hbody ih =>
    obtain ⟨hwithin, henter⟩ := hv.repeated hw
    obtain ⟨hcode, hsees⟩ := ih hwithin (henter _ rfl)
    have hback : (w₁.onScopes (·.goTo w.scopes.current)).Sees
        (Phrase.Statement.uses v (.loop condition .start body)).2 := by
      refine hsees.leave (hbody.reaches.formed hwithin) (ScopeTree.grows_goTo ..) rfl ?_ fun _ _ => rfl
      obtain ⟨hgrows, hcurrent⟩ := hbody.grows
      rw [hcurrent]
      exact (hgrows.alike _ hwithin.current_lt).parent.trans (w.scopes.alike_noted (.inr rfl)).parent
    refine ⟨?_, hback.next, hback.around, hback.names⟩
    rw [Sheet.references_marked _ rfl, Sheet.code_onScopes, hcode, Sheet.code_onScopes,
      Sheet.references_marked _ rfl, Sheet.code_write, references_append, Sheet.looping,
      Sheet.references_marked _ rfl, Sheet.code_onScopes, hcondition.references (hv.shows_noted hw _),
      append_assoc]
    rfl

namespace Sheet

variable {w w' : Sheet} {v : Sight}
variable {f : Phrase.Function}

theorem Heads.keys (h : w.Heads f w') (name : String) :
    name ∈ f.keys ↔ w'.scopes.sense? w.scopes.size name ≠ none := by
  rw [Phrase.Function.keys, mem_mapIdx]
  constructor
  · rintro ⟨index, hindex, rfl⟩
    have hsense := (h.params _ _).2 ⟨index, _, List.getElem?_eq_getElem hindex, rfl, rfl⟩
    show w'.scopes.sense? w.scopes.size (paramSymbol index f.params[index]).name ≠ none
    rw [hsense]
    exact nofun
  · intro hsome
    obtain ⟨kind, hsense⟩ := Option.ne_none_iff_exists'.1 hsome
    obtain ⟨index, param, hparam, rfl, -⟩ := (h.params _ _).1 hsense
    obtain ⟨hindex, rfl⟩ := List.getElem?_eq_some_iff.1 hparam
    exact ⟨index, hindex, rfl⟩

theorem Heads.sees (h : w.Heads f w') (hw : w.scopes.Formed) (hw' : w'.scopes.Formed)
    (hroot : w.scopes.current = ScopeTree.root) (hcurrent : w'.scopes.current = w.scopes.size + 1)
    (hv : w.Sees v) : w'.Sees (((v.declare f.name).enter f.keys).enter []) := by
  have haround := hv.around
  rw [hroot, hw.ancestors_root] at haround
  obtain ⟨⟨id, names⟩, rest, hblocks, rfl, hrest⟩ := map_eq_cons_iff.1 haround
  obtain rfl := map_eq_nil_iff.1 hrest
  have hnames := hv.names
  rw [hblocks] at hnames
  have hsight : (((v.declare f.name).enter f.keys).enter []).around =
      [(w.scopes.size + 1, []), (w.scopes.size, f.keys), (ScopeTree.root, f.name :: names)] := by
    rw [← hv.next, Sight.enter, Sight.enter, Sight.declare, hblocks]
  refine ⟨?_, ?_, ?_⟩
  · rw [h.size, ← hv.next]
    rfl
  · rw [hsight, hcurrent, hw'.ancestors_of_child (h.body.child rfl), hw'.ancestors_of_child (h.header.child rfl),
      hroot, hw'.ancestors_root]
    rfl
  · have hroot' : ScopeTree.root ≠ w.scopes.size := Nat.ne_of_lt hw.size_pos
    rw [hsight]
    refine forall_mem_cons.2 ⟨fun name => ?_, forall_mem_cons.2 ⟨h.keys,
      forall_mem_singleton.2 fun name => ?_⟩⟩
    · have hnone : w'.scopes.sense? (w.scopes.size + 1) name = none := by
        rw [h.others _ _ (Nat.succ_ne_self _) fun hsame => nomatch hsame.1]
        exact ScopeTree.sense?_eq_none_iff.2 (w.scopes.symbol?_of_le (Nat.le_succ _) name)
      rw [hnone]
      simp
    · by_cases hname : name = f.name
      · rw [hname, h.function]
        simp
      · rw [h.others _ _ hroot' fun hsame => hname hsame.2, ← hnames _ mem_cons_self, mem_cons]
        exact or_iff_right hname

theorem Defines.references (h : w.Defines f w') (hw : w.scopes.Formed)
    (hroot : w.scopes.current = ScopeTree.root) (hv : w.Sees v) :
    references w'.code = references w.code ++ (Phrase.Item.uses v (.function f)).1 ∧
      w'.Sees (Phrase.Item.uses v (.function f)).2 := by
  cases h with
  | @intro w₁ w₂ hbegin hbody =>
    obtain ⟨-, hcurrent, -⟩ := hbegin.grows
    have hheads := hbegin.heads hw
    have hw₁ : w₁.scopes.Formed := ((Moves.begin hroot hbegin).formed hw).2
    obtain ⟨hcode, hsees⟩ := hbody.references hw₁ (hheads.sees hw hw₁ hroot hcurrent hv)
    constructor
    · obtain ⟨entry, pops, hentry, -, hcode₁, -, hpops⟩ := hheads.code
      have hhead : OnePass.references (entry :: pops) = [] := by
        refine references_of_kinds (forall_mem_cons.2 ⟨?_, fun i hi => ?_⟩)
        · rw [Instruction.reference?, hentry]
        · obtain ⟨name, -, rfl⟩ := (hpops i).1 hi
          rfl
      rw [code_write, code_onScopes, references_append, hcode, hcode₁, references_append, hhead,
        append_nil]
      exact append_nil _
    · have hw₂ := hbody.reaches.formed hw₁
      obtain ⟨hgrows, hhere⟩ := hbody.grows
      have hheader := hheads.header.trans (hgrows.alike _ (by rw [hheads.size]; omega))
      have hinner := hheads.body.trans (hgrows.alike _ (by rw [hheads.size]; omega))
      refine hsees.back (fun _ hblock => mem_of_mem_tail (mem_of_mem_tail hblock)) ?_ rfl
        fun _ _ => rfl
      rw [map_tail, Sight.leave, map_tail, hsees.around, hhere, hcurrent,
        hw₂.ancestors_of_child (hinner.child rfl), hw₂.ancestors_of_child (hheader.child rfl), hroot]
      exact ((ScopeTree.grows_goTo w₂.scopes ScopeTree.root).ancestors hw₂ hw₂.size_pos).symm

end Sheet

theorem Fills.references {w w' : Sheet} {items : List Phrase.Item} (h : Fills w items w') {v : Sight}
    (hw : w.scopes.Formed) (hroot : w.scopes.current = ScopeTree.root) (hv : w.Sees v) :
    references w'.code = references w.code ++ Phrase.usesOf v items := by
  induction h generalizing v with
  | nil => exact (append_nil _).symm
  | statement hfirst _ ih =>
    obtain ⟨hcode, hsees⟩ := hfirst.references hw hv
    rw [ih (hfirst.reaches.formed hw) (hfirst.grows.2.trans hroot) hsees, hcode, append_assoc]
    rfl
  | function hfirst _ ih =>
    obtain ⟨hcode, hsees⟩ := hfirst.references hw hroot hv
    obtain ⟨hreaches, hroot'⟩ := hfirst.reaches hroot
    rw [ih (hreaches.formed hw) hroot' hsees, hcode, append_assoc]
    rfl

theorem Sheet.start_sees : Context.start.sheet.Sees Sight.start := by
  have hall : ∀ symbol ∈ (ScopeTree.withBuiltins.scope ScopeTree.root).table.toList,
      symbol.name ∈ Builtin.all.map Builtin.name := by decide +kernel
  have hmem : ∀ name ∈ Builtin.all.map Builtin.name,
      ∃ symbol ∈ (ScopeTree.withBuiltins.scope ScopeTree.root).table.toList, symbol.name = name := by
    decide +kernel
  have hordered := ScopeTree.withBuiltins_formed.ordered ScopeTree.root
  refine ⟨start_size.symm, ?_, forall_mem_singleton.2 fun name => ?_⟩
  · show _ = ScopeTree.withBuiltins.ancestors ScopeTree.withBuiltins.current
    rw [ScopeTree.withBuiltins_current, ScopeTree.withBuiltins_formed.ancestors_root]
    rfl
  · rw [ne_eq, ScopeTree.sense?_eq_none_iff, ← ne_eq, Option.ne_none_iff_exists']
    constructor
    · intro hname
      obtain ⟨symbol, hsymbol, rfl⟩ := hmem name hname
      exact ⟨symbol, (SymbolTable.get?_eq_some_iff hordered).2 ⟨hsymbol, rfl⟩⟩
    · rintro ⟨symbol, hsymbol⟩
      obtain ⟨hheld, rfl⟩ := (SymbolTable.get?_eq_some_iff hordered).1 hsymbol
      exact hall symbol hheld

end OnePass
