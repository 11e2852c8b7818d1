import OnePass.Proofs.Growth
import OnePass.Proofs.Soundness

/-!
# The drafts of sheets

A sheet has a draft, which no longer says which variables have values.  Where a phrase turns one sheet
into another one, it turns the draft of the first into that of the second: expressions leave their
values, calls are recorded, and statements elaborate drafts.  Meanwhile every variable that is marked
as having a value is stored somewhere in the code.

Main results:

* `ScopeTree.Evaluates.plains` — an expression writes plain code, which leaves one value;
* `Sheet.Requests.calling` — a call writes the code of its record;
* `Adds.elaborates` — **statements elaborate drafts**.
-/

namespace OnePass

open List

variable {i : Instruction} {code : List Instruction} {w : Sheet}

/-! ### Code in other drafts -/

namespace Draft

/-- Everything in sight in a draft is in sight in another one. -/
structure Shows (d e : Draft) : Prop where
  ancestors : e.ancestors e.current = d.ancestors d.current
  names : ∀ id ∈ d.ancestors d.current, d.names id ⊆ e.names id
  functions : d.names ScopeTree.root ⊆ e.names ScopeTree.root

section shows

variable {d e : Draft} (h : d.Shows e)
variable {name : String} {code : List Instruction}

include h

theorem Shows.sees {owner : Nat} (hsees : d.Sees name owner) : e.Sees name owner := by
  obtain ⟨howner, role, hrole, hsort⟩ := hsees
  exact ⟨h.ancestors ▸ howner, role, h.names owner howner hrole, hsort⟩

theorem Shows.results {returns : Ty} (hresults : d.Results name returns) : e.Results name returns := by
  obtain ⟨builtin, hrole⟩ := hresults
  exact ⟨builtin, h.functions hrole⟩

theorem Shows.computes (hi : d.Computes i) : e.Computes i where
  plain := by
    cases hi.plain with
    | literal hkind hpayload => exact .literal hkind hpayload
    | «variable» hkind hname hsees => exact .variable hkind hname (h.sees hsees)
    | operation hkind => exact .operation hkind
  leaves := hi.leaves

theorem Shows.plains {level : Nat} (hcode : d.Plains code level) : e.Plains code level :=
  ⟨fun i hi => h.computes (hcode.computes i hi), hcode.level⟩

theorem Shows.pushes {argument : Argument} {push : Instruction} (hpush : d.Pushes argument push) :
    e.Pushes argument push := by
  cases hpush with
  | literal hliteral hkind hpayload hty => exact .literal hliteral hkind hpayload hty
  | «variable» hliteral hkind hname howner hrole hsort hbase =>
    exact .variable hliteral hkind hname (h.ancestors ▸ howner) (h.names _ howner hrole) hsort hbase

theorem Shows.passes {variadic : Bool} {arguments : List Argument}
    (hcode : d.Passes variadic arguments code) : e.Passes variadic arguments code := by
  induction hcode with
  | nil => exact .nil
  | push hvariadic hpush _ ih => exact .push hvariadic (h.pushes hpush) ih
  | write hvariadic hpush hkind _ ih => exact .write hvariadic (h.pushes hpush) hkind ih

theorem Shows.calling {site : CallSite} (hcode : d.Calling site code) : e.Calling site code := by
  cases hcode with
  | written hvariadic hkept hcode => exact .written hvariadic hkept (h.passes hcode)
  | kept hvariadic hkept hpushes hcall hvoid =>
    exact .kept hvariadic hkept (h.passes hpushes) hcall fun htarget => h.results (hvoid htarget)
  | dropped hvariadic hdropped htarget hpushes hcall hdrop =>
    exact .dropped hvariadic hdropped htarget (h.passes hpushes) hcall hdrop

end shows

variable {d : Draft}

theorem shows_declare (d : Draft) (name : String) (base : Ty) : d.Shows (d.declare name base) where
  ancestors := rfl
  names id _ := d.subset_declare name base id
  functions := d.subset_declare name base _

theorem Passes.push_last {arguments : List Argument} {argument : Argument}
    {push : Instruction} (h : d.Passes false arguments code) (hpush : d.Pushes argument push) :
    d.Passes false (arguments ++ [argument]) (code ++ [push]) := by
  induction h with
  | nil => exact .push rfl hpush .nil
  | push _ hfirst _ ih => exact .push rfl hfirst ih
  | write hvariadic => cases hvariadic

theorem Passes.write_last {arguments : List Argument} {argument : Argument}
    {push write : Instruction} (h : d.Passes true arguments code) (hpush : d.Pushes argument push)
    (hkind : write.kind = .write) :
    d.Passes true (arguments ++ [argument]) (code ++ [push, write]) := by
  induction h with
  | nil => exact .write rfl hpush hkind .nil
  | push hvariadic => cases hvariadic
  | write _ hfirst hkind' _ ih => exact .write rfl hfirst hkind' ih

/-! ### Values -/

/-- Code that leaves one value: an expression, or a call whose result has to fit something. -/
inductive Leaves (d : Draft) : Draft → Prop where
  | plain {code : List Instruction} (hcode : d.Plains code 1) : Leaves d (d.write code)
  | call {site : CallSite} {code : List Instruction} (hid : site.callId = d.calls.nextId)
      (hcode : d.Calling site code) (htarget : site.target.isSome) :
      Leaves d { d.write code with calls := d.calls.record site }

theorem Leaves.declare {d₁ : Draft} (h : d.Leaves d₁) (name : String) (base : Ty) :
    (d.declare name base).Leaves (d₁.declare name base) := by
  cases h with
  | plain hcode => exact .plain ((d.shows_declare name base).plains hcode)
  | call hid hcode htarget => exact .call hid ((d.shows_declare name base).calling hcode) htarget

theorem Leaves.store {d₁ : Draft} (h : d.Leaves d₁) (pop : Instruction) (hpop : d.Stores pop) :
    ∃ code, Step d [] code (d₁.write [pop]) := by
  cases h with
  | plain hcode =>
    have hstep := Step.store hcode hpop
    rw [← write_write] at hstep
    exact ⟨_, hstep⟩
  | call hid hcode htarget =>
    have hstep := Step.call hid hcode (.store htarget hpop)
    rw [← write_write] at hstep
    exact ⟨_, hstep⟩

theorem Computes.of_operation (hkind : i.kind.isOperation)
    (hleaves : i.kind.leaves = 1) : d.Computes i where
  plain := .operation hkind
  leaves := hleaves

/-! ### What names mean -/

/-- A name means a symbol with a role in a scope: the nearest one around. -/
def Finds (d : Draft) (id : Nat) (name : String) (role : Role) : Prop :=
  ∃ before owner after, d.ancestors id = before ++ owner :: after ∧
    (∀ i ∈ before, ∀ other, (name, other) ∉ d.names i) ∧ (name, role) ∈ d.names owner

theorem Finds.congr {d' : Draft} {id : Nat} {name : String} {role : Role}
    (h : d.Finds id name role) (hancestors : d'.ancestors id = d.ancestors id)
    (hnames : ∀ i ∈ d.ancestors id, d'.names i = d.names i) : d'.Finds id name role := by
  obtain ⟨before, owner, after, hsplit, hbefore, howner⟩ := h
  refine ⟨before, owner, after, hancestors.trans hsplit, fun i hi => ?_, ?_⟩
  · rw [hnames i (hsplit ▸ mem_append_left _ hi)]
    exact hbefore i hi
  · rw [hnames owner (hsplit ▸ mem_append_right _ mem_cons_self)]
    exact howner

/-- A name means a variable or parameter in a scope, whose type is another one only in whether it is
optional. -/
def Binds (d : Draft) (id : Nat) (name : String) (ty : Ty) : Prop :=
  ∃ role, d.Finds id name role ∧ (∀ builtin, role.sort ≠ .function builtin) ∧ role.base = ty.unwrapped

end Draft

/-! ### Sheets -/

namespace Sheet

variable {id : Nat}

/-- The draft of a sheet. -/
def draft (w : Sheet) : Draft where
  size := w.scopes.size
  current := w.scopes.current
  outlines := w.scopes.outlines
  names := w.scopes.names
  code := w.code
  calls := w.calls

/-- The tables can be searched. -/
structure Fit (w : Sheet) : Prop where
  scopes : w.scopes.Ordered

variable {w w' : Sheet}

theorem draft_write (w : Sheet) (code : List Instruction) : (w.write code).draft = w.draft.write code := rfl

theorem outermost?_draft (w : Sheet) (id : Nat) : w.scopes.outermostWhile? id = w.draft.outermost? id := by
  rw [ScopeTree.outermostWhile?, ScopeTree.loops, ScopeTree.ancestors_eq]
  rfl

theorem Fit.grow (h : w.Fit) (hscopes : w'.scopes = w.scopes) : w'.Fit := ⟨hscopes ▸ h.scopes⟩

theorem Fit.write (h : w.Fit) (code : List Instruction) : (w.write code).Fit := h.grow rfl

theorem Fit.modify (h : w.Fit) {change : Scope → Scope}
    (hchange : (change (w.scopes.scope id)).table = (w.scopes.scope id).table) :
    { w with scopes := w.scopes.modify id change : Sheet }.Fit := ⟨h.scopes.modify (hchange ▸ h.scopes id)⟩

theorem Fit.goTo (h : w.Fit) (id : Nat) : (w.onScopes (·.goTo id)).Fit := ⟨h.scopes⟩

theorem draft_goTo (w : Sheet) (change : ScopeTree → ScopeTree) (id : Nat) :
    (w.onScopes fun t => (change t).goTo id).draft = { (w.onScopes change).draft with current := id } := rfl

theorem Fit.goTo_onScopes {change : ScopeTree → ScopeTree} (h : (w.onScopes change).Fit) (id : Nat) :
    (w.onScopes fun t => (change t).goTo id).Fit := ⟨h.scopes⟩

theorem Fit.createChild (h : w.Fit) (parent : Nat) (kind : ScopeKind) (name : String) :
    { w with scopes := (w.scopes.createChild parent kind name).1 : Sheet }.Fit := ⟨h.scopes.createChild kind name⟩

theorem Fit.modifyVisible (h : w.Fit) (id : Nat) (name : String) {change : Symbol → Symbol}
    (hname : ∀ s, (change s).name = s.name)
    (hrole : ∀ s, w.scopes.lookup? id name = some s → (change s).role = s.role) :
    { w with scopes := w.scopes.modifyVisible id name change : Sheet }.Fit ∧
      { w with scopes := w.scopes.modifyVisible id name change : Sheet }.draft = w.draft := by
  obtain ⟨hnames, hordered⟩ := ScopeTree.names_modifyVisible h.scopes hname hrole
  refine ⟨⟨hordered⟩, ?_⟩
  simp only [draft, ScopeTree.size_modifyVisible, ScopeTree.current_modifyVisible,
    ScopeTree.outlines_modifyVisible, hnames]

theorem not_contains_iff (hw : w.Fit) {name : String} :
    (w.scopes.scope id).table.contains name = false ↔ ∀ role, (name, role) ∉ w.draft.names id := by
  rw [Bool.eq_false_iff, Ne, SymbolTable.contains_iff (hw.scopes id), not_exists]
  rfl

theorem role_of_finds (hw : w.Fit) {name : String} {role : Role} (h : w.draft.Finds id name role)
    {symbol : Symbol} (hsymbol : w.scopes.lookup? id name = some symbol) : symbol.role = role := by
  obtain ⟨before, owner, after, hsplit, hbefore, howner⟩ := h
  have hfound : w.scopes.owner? id name = some owner := by
    rw [ScopeTree.owner?, ScopeTree.ancestors_eq]
    refine List.find?_eq_some_iff_append.2 ⟨?_, before, after, hsplit, fun i hi => ?_⟩
    · exact (SymbolTable.contains_iff (hw.scopes owner)).2 ⟨role, howner⟩
    · rw [(not_contains_iff hw).2 (hbefore i hi)]
      rfl
  rw [ScopeTree.lookup?, hfound] at hsymbol
  exact SymbolTable.role_unique (hw.scopes owner)
    (SymbolTable.mem_names_of_get? (hw.scopes owner) hsymbol) howner

theorem Fit.retyped (h : w.Fit) (narrowed : Option (String × Ty))
    (hbinds : ∀ name ty, narrowed = some (name, ty) → w.draft.Binds w.draft.current name ty) :
    (w.onScopes (·.retyped narrowed)).Fit ∧ (w.onScopes (·.retyped narrowed)).draft = w.draft := by
  cases narrowed with
  | none => exact ⟨h, rfl⟩
  | some pair =>
    obtain ⟨role, hfinds, hsort, hbase⟩ := hbinds pair.1 pair.2 rfl
    refine h.modifyVisible _ _ (Symbol.name_withTy pair.2) fun s hs => ?_
    have hs' := role_of_finds h hfinds hs
    refine Symbol.role_withTy (Bool.eq_false_iff.2 fun hfunction => ?_) ?_
    · obtain ⟨builtin, hfunction⟩ := Symbol.isFunction_iff.1 hfunction
      exact hsort builtin (hs' ▸ hfunction)
    · rw [hs', hbase]

end Sheet

/-! ### Expressions -/

section denotes

variable {w : Sheet} {name : String} {owner : Nat} {symbol : Symbol}
  (h : w.scopes.Denotes name owner symbol)

include h

namespace ScopeTree.Denotes

theorem around : owner ∈ w.draft.ancestors w.draft.current := by
  have hmem := mem_of_find?_eq_some h.found
  rw [ScopeTree.ancestors_eq] at hmem
  exact hmem

theorem role (hw : w.Fit) : (name, symbol.role) ∈ w.draft.names owner :=
  SymbolTable.mem_names_of_get? (hw.scopes owner) h.held

theorem sort (builtin : Bool) : symbol.role.sort ≠ .function builtin := by
  intro hsort
  have hfunction := Symbol.isFunction_iff.2 ⟨builtin, hsort⟩
  rw [h.value] at hfunction
  cases hfunction

theorem sees (hw : w.Fit) : w.draft.Sees name owner := ⟨h.around, symbol.role, h.role hw, h.sort⟩

theorem binds (hw : w.Fit) : w.draft.Binds w.draft.current name symbol.ty := by
  have hfound := h.found
  rw [ScopeTree.owner?, ScopeTree.ancestors_eq] at hfound
  obtain ⟨-, before, after, hsplit, hbefore⟩ := List.find?_eq_some_iff_append.1 hfound
  refine ⟨symbol.role, ⟨before, owner, after, hsplit, fun i hi => ?_, h.role hw⟩, h.sort,
    Symbol.base_role h.value⟩
  exact (Sheet.not_contains_iff hw).1 (by simpa using hbefore i hi)

end ScopeTree.Denotes

end denotes

theorem ScopeTree.Literal.isSome {t : ScopeTree} {payload : Payload} (h : t.Literal i payload) :
    (i.payload.bind Target.literal?).isSome := by
  rw [h.holds]
  cases payload with
  | name target => exact absurd rfl (h.nameless target)
  | _ => rfl

theorem level?_unary (h : level? 0 code = some 1) (hi : i.lift? 1 = some 1) :
    level? 0 (code ++ [i]) = some 1 :=
  level?_trans h ((level?_singleton 1 i).trans hi)

theorem level?_binary {l r : List Instruction} (hl : level? 0 l = some 1) (hr : level? 0 r = some 1)
    (hi : i.lift? 2 = some 1) : level? 0 (l ++ (r ++ [i])) = some 1 :=
  level?_trans hl (level?_trans (level?_add hr 1) ((level?_singleton 2 i).trans hi))

theorem ScopeTree.Evaluates.computes {e : Phrase.Expr} (h : w.scopes.Evaluates e code)
    (hw : w.Fit) : (∀ i ∈ code, w.draft.Computes i) ∧ level? 0 code = some 1 := by
  -- an operation comes behind the code of its operands
  have hlast : ∀ {code : List Instruction} {i : Instruction}, (∀ j ∈ code, w.draft.Computes j) →
      w.draft.Computes i → ∀ j ∈ code ++ [i], w.draft.Computes j := fun hcode hi =>
    forall_mem_append.2 ⟨hcode, forall_mem_singleton.2 hi⟩
  induction h with
  | literal hterm hi =>
    refine ⟨forall_mem_singleton.2 ⟨.literal hi.kind hi.isSome, ?_⟩, ?_⟩
    · rw [hi.kind]
      rfl
    · rw [level?_singleton, Instruction.lift?, hi.kind]
      rfl
  | «variable» _ hmeans =>
    exact ⟨forall_mem_singleton.2 ⟨.variable (.inl rfl) rfl (hmeans.sees hw), rfl⟩, rfl⟩
  | @binary _ _ _ _ _ _ i _ _ htakes _ ihl ihr =>
    have hkind : i.kind.isOperation ∧ i.kind.leaves = 1 := by
      cases hkind : i.kind <;> first | exact ⟨rfl, rfl⟩ | (rw [hkind] at htakes; cases htakes)
    refine ⟨forall_mem_append.2 ⟨ihl.1, hlast ihr.1 (.of_operation hkind.1 hkind.2)⟩, ?_⟩
    exact level?_binary ihl.2 ihr.2 (by simp [Instruction.lift?, htakes, hkind.2])
  | unwrap _ hkind _ ih | convert _ hkind _ ih =>
    refine ⟨hlast ih.1 (.of_operation ?_ ?_), level?_unary ih.2 ?_⟩ <;>
      simp [Instruction.lift?, hkind, InstructionKind.isOperation, InstructionKind.takes,
        InstructionKind.leaves]

theorem ScopeTree.Evaluates.plains {e : Phrase.Expr} (h : w.scopes.Evaluates e code)
    (hw : w.Fit) : w.draft.Plains code 1 :=
  ⟨(h.computes hw).1, (h.computes hw).2⟩

/-! ### Calls -/

namespace ScopeTree

variable {w : Sheet} {args : List Phrase.Arg} {code : List Instruction} {arguments : List Argument}
  {variadic : Bool}

theorem Hands.pushes {arg : Phrase.Arg} {argument : Argument}
    (h : w.scopes.Hands arg i argument) (hw : w.Fit) : w.draft.Pushes argument i := by
  cases h with
  | literal _ hi hliteral hty => exact .literal hliteral hi.kind hi.holds hty
  | «variable» _ hmeans hliteral hty =>
    refine .variable hliteral rfl rfl hmeans.around (hmeans.role hw) hmeans.sort ?_
    rw [Symbol.base_role hmeans.value, hty]

theorem Passes.passes (h : w.scopes.Passes variadic args code arguments) (hw : w.Fit) :
    w.draft.Passes variadic arguments code := by
  induction h with
  | nil => exact .nil
  | concat _ hlast ih =>
    cases variadic with
    | true => exact ih.write_last (hlast.pushes hw) rfl
    | false => exact ih.push_last (hlast.pushes hw)

theorem Hands.isPush {t : ScopeTree} {arg : Phrase.Arg} {argument : Argument}
    (h : t.Hands arg i argument) : i.kind = .pushLiteral ∨ i.kind = .pushVariable := by
  cases h with
  | literal _ hi => exact .inl hi.kind
  | «variable» => exact .inr rfl

end ScopeTree

namespace Sheet

variable {w w' : Sheet}

theorem Requests.calling {callee : String} {args : List Phrase.Arg} {target : Option Ty}
    (h : w.Requests callee args target w') (hw : w.Fit) :
    w'.Fit ∧ ∃ site code, site.callId = w.draft.calls.nextId ∧ w.draft.Calling site code ∧
      site.target = target ∧
      w'.draft = { w.draft.write code with calls := w.draft.calls.record site } := by
  cases h with
  | @intro code site hargs hname htarget hid hscaffolded =>
    refine ⟨hw.grow rfl, site, code ++ w.callCode callee site.scaffolded, hid,
      ?_, htarget, ?_⟩
    · have hpasses := hargs.passes hw
      rw [← hname, ← htarget] at hscaffolded
      rw [← hname] at hpasses ⊢
      unfold callCode
      cases hvariadic : Builtin.isVariadic site.name with
      | true =>
        rw [hvariadic] at hpasses hscaffolded
        rw [if_pos rfl, append_nil]
        exact .written hvariadic (by simpa using hscaffolded) hpasses
      | false =>
        rw [hvariadic] at hpasses hscaffolded
        rw [if_neg Bool.false_ne_true]
        cases hdropped : site.scaffolded with
        | true =>
          rw [hdropped] at hscaffolded
          simp only [Bool.not_false, Bool.and_true, Bool.true_eq, Bool.and_eq_true,
            Option.isNone_iff_eq_none] at hscaffolded
          exact .dropped hvariadic hdropped hscaffolded.1 hpasses ⟨rfl, rfl, hid.symm⟩ rfl
        | false =>
          refine .kept hvariadic hdropped hpasses ⟨rfl, rfl, hid.symm⟩ fun hnone => ?_
          rw [hdropped, hnone] at hscaffolded
          refine (ScopeTree.functionResult?_eq_some_iff hw.scopes).1 ?_
          simpa using hscaffolded
    · rfl

/-! ### Stores and declarations -/

theorem Supplies.leaves {ty : Ty} {side : Phrase.RightSide} (h : w.Supplies ty side w') (hw : w.Fit) :
    w'.Fit ∧ w.draft.Leaves w'.draft := by
  cases h with
  | expression hvalue => exact ⟨hw.write _, .plain (hvalue.plains hw)⟩
  | call hcall =>
    obtain ⟨hfit, site, code, hid, hcode, htarget, hdraft⟩ := hcall.calling hw
    rw [hdraft]
    exact ⟨hfit, .call hid hcode (by rw [htarget]; rfl)⟩

theorem Initializes.leaves {ty : Ty} {isMutable : Bool} {init : Option Phrase.RightSide}
    (h : w.Initializes ty isMutable init true w') (hw : w.Fit) : w'.Fit ∧ w.draft.Leaves w'.draft := by
  cases h with
  | side hside => exact hside.leaves hw
  | absent hi =>
    have hnil : w.draft.Plains [_] 1 := ⟨forall_mem_singleton.2
      ⟨.literal hi.kind hi.isSome, by rw [hi.kind]; rfl⟩,
      by rw [level?_singleton, Instruction.lift?, hi.kind]; rfl⟩
    exact ⟨hw.write _, .plain hnil⟩

theorem Reserves.step {name : String} (h : w.Reserves name w') (hw : w.Fit)
    (hfresh : ∀ role, (name, role) ∉ w.draft.names w.draft.current) :
    w'.Fit ∧ ∀ base, ∃ H code, Step w.draft H code (w'.draft.declare name base) := by
  cases h with
  | here hloop =>
    rw [outermost?_draft] at hloop
    exact ⟨hw.write _, fun base => ⟨_, _, .declare hloop hfresh ⟨rfl, rfl⟩⟩⟩
  | @before loop pre post label hloop hcode hkind hscope hlast =>
    rw [outermost?_draft] at hloop
    exact ⟨hw.grow rfl, fun base => ⟨_, _, .hoist hloop hfresh ⟨rfl, rfl⟩ hcode ⟨hkind, hscope⟩ hlast⟩⟩

theorem Declares.fresh {id : Nat} {symbol : Symbol} (h : w.Declares id symbol w') (hw : w.scopes.Ordered) :
    ∀ role, (symbol.name, role) ∉ w.scopes.names id := by
  obtain ⟨table, htable, -⟩ := h
  exact (SymbolTable.names_insert (hw id) htable).2.2

theorem Declares.fit {id : Nat} {symbol : Symbol} (h : w.Declares id symbol w') (hw : w.Fit)
    (hid : id < w.scopes.size) :
    w'.Fit ∧ w'.draft = { w.draft with
      names := Function.update w.draft.names id (insert (symbol.name, symbol.role) (w.draft.names id)) } := by
  obtain ⟨table, htable, rfl⟩ := h
  obtain ⟨hordered, hnames, -⟩ := SymbolTable.names_insert (hw.scopes id) htable
  have houtlines : (w.scopes.setTable id table).outlines = w.scopes.outlines := by
    rw [ScopeTree.setTable, ScopeTree.outlines_modify hid]
    exact Function.update_eq_self id w.scopes.outlines
  have hnames' : (w.scopes.setTable id table).names = Function.update w.scopes.names id
      (insert (symbol.name, symbol.role) (w.scopes.names id)) := by
    rw [ScopeTree.setTable, ScopeTree.names_modify hid, hnames]
    rfl
  exact ⟨⟨hw.scopes.modify hordered⟩,
    Draft.ext (ScopeTree.size_modify ..) rfl houtlines hnames' rfl rfl⟩

/-! ### Returns -/

theorem function?_draft {header : Nat}
    (h : w.scopes.enclosingFunction w.scopes.current = .ok header) : w.draft.function? = some header := by
  unfold ScopeTree.enclosingFunction at h
  split at h
  · rename_i found hfound
    cases h
    rw [ScopeTree.ancestors_eq] at hfound
    exact hfound
  · cases h

theorem Answers.plains {returns : Ty} {value : Option Phrase.Expr}
    {header : Nat} (h : Answers w.scopes returns value code) (hw : w.Fit)
    (hheader : w.draft.function? = some header)
    (hreturns : w.draft.Results (w.draft.outlines header).name returns) :
    ∃ level, w.draft.Plains code level ∧ w.draft.Returns level := by
  cases h with
  | nothing hvoid => exact ⟨0, w.draft.plains_nil, header, returns, hheader, hreturns, (if_pos hvoid).symm⟩
  | value hvoid hvalue =>
    exact ⟨1, hvalue.plains hw, header, returns, hheader, hreturns, (if_neg hvoid).symm⟩

theorem Fit.giveBack (h : w.Fit) (hlt : w.scopes.current < w.scopes.size) :
    (w.onScopes fun t => t.modify t.current fun scope => { scope with hasReturn := true }).Fit ∧
      (w.onScopes fun t => t.modify t.current fun scope => { scope with hasReturn := true }).draft =
        w.draft.giveBack :=
  ⟨h.modify rfl, Draft.ext (ScopeTree.size_modify ..) rfl (ScopeTree.outlines_modify hlt _)
    (ScopeTree.names_modify_of_table hlt rfl) rfl rfl⟩

end Sheet

/-! ### Blocks -/

/-- A conditional or loop is noted, but its block has not begun. -/
def Draft.opening (d : Draft) (kind : ScopeKind) (code : List Instruction) : Draft :=
  { d.opened kind code with current := d.current }

section opening

variable {d : Draft} (hd : d.Formed) {kind : ScopeKind} {code : List Instruction}

include hd

theorem Draft.ancestors_opening : (d.opening kind code).ancestors d.current = d.ancestors d.current :=
  (@extends_opened d kind code).ancestors hd hd.current_lt

theorem Draft.names_opening {id : Nat} (hid : id ∈ d.ancestors d.current) :
    (d.opening kind code).names id = d.names id :=
  Function.update_of_ne (Nat.ne_of_lt
    (Nat.lt_of_le_of_lt (le_of_mem_ancestorsBy hd.rooted hid) hd.current_lt)) _ _

theorem Draft.shows_of_opening : (d.opening kind code).Shows d := by
  refine ⟨(ancestors_opening hd).symm, fun id hid => ?_, ?_⟩
  · rw [names_opening hd (ancestors_opening hd ▸ hid)]
  · exact (Function.update_of_ne (Nat.ne_of_lt (Nat.zero_lt_of_lt hd.current_lt)) _ _).le

end opening

namespace Sheet

variable {w w₁ w₂ : Sheet} {d : Draft}
variable {condition : Phrase.Condition} {narrowed : Option (String × Ty)}

theorem Fit.noted (h : w.Fit) (hlt : w.scopes.current < w.scopes.size) (kind : ScopeKind) :
    (w.onScopes (·.noted kind)).Fit ∧ (w.onScopes (·.noted kind)).draft = w.draft.opening kind [] := by
  have hsize : (w.scopes.nextConditionalName kind).1.size = w.scopes.size :=
    ScopeTree.size_nextConditionalName kind
  have hnamed : { w with scopes := (w.scopes.nextConditionalName kind).1 : Sheet }.Fit := h.modify rfl
  refine ⟨hnamed.createChild _ kind (w.scopes.nextConditionalName kind).2, ?_⟩
  exact Draft.ext ((ScopeTree.size_createChild kind _).trans (congrArg (· + 1) hsize)) rfl
    (ScopeTree.outlines_numbered hlt kind _) (ScopeTree.names_numbered hlt kind _)
    (append_nil _).symm rfl

theorem draft_test {kind : ScopeKind} {before : List Instruction}
    (hdraft : w.draft = d.opening kind before) (code : List Instruction) (test : Instruction) :
    (((w.write code).write [test]).onScopes (·.goTo d.size)).draft =
      d.opened kind (before ++ (code ++ [test])) := by
  show { ((w.write code).write [test]).draft with current := d.size } = _
  rw [draft_write, draft_write, hdraft]
  simp [Draft.write, Draft.opening, Draft.opened]

theorem Enters.opened (h : w.Enters condition narrowed w₁) (hw : w.Fit) (hd : w.draft.Formed) :
    w₁.Fit ∧ (∃ (head : List Instruction) (test : Instruction),
      w.draft.Plains head test.kind.takes ∧ w.draft.Conditions w.draft.size test ∧
        w₁.draft = w.draft.opened .thenBranch (head ++ [test])) ∧
      ∀ name ty, narrowed = some (name, ty) → w.draft.Binds w.draft.current name ty := by
  obtain ⟨hnoted, hdraft⟩ := hw.noted hd.current_lt .thenBranch
  have hshows : (w.draft.opening .thenBranch []).Shows w.draft := Draft.shows_of_opening hd
  cases h with
  | comparison hvalue =>
    have hplains := hvalue.plains hnoted
    rw [hdraft] at hplains
    refine ⟨((hnoted.write _).write _).goTo _, ⟨_, (w.scopes.noted .thenBranch).mark .ifCondition
      w.scopes.size, hshows.plains hplains, .inl ⟨rfl, rfl⟩, ?_⟩, nofun⟩
    exact draft_test hdraft _ _
  | @present name place owner symbol hmeans =>
    let test : Instruction :=
      { (w.scopes.noted .thenBranch).named .ifLetCondition name owner with scope := w.scopes.size }
    have hsees := hmeans.sees hnoted
    obtain ⟨role, hfinds, hsort, hbase⟩ := hmeans.binds hnoted
    -- the type of the variable changes, but not its role
    obtain ⟨hretyped, hsame⟩ := (hnoted.write [test]).retyped (some (name, symbol.ty.unwrapped)) (by
      rintro _ _ ⟨⟩
      exact ⟨role, hfinds, hsort, hbase.trans symbol.ty.unwrapped_unwrapped.symm⟩)
    rw [hdraft] at hsees hfinds
    refine ⟨hretyped.goTo_onScopes _, ⟨[], test, w.draft.plains_nil,
      .inr ⟨⟨rfl, rfl⟩, name, owner, rfl, hshows.sees hsees⟩, ?_⟩, ?_⟩
    · refine Eq.trans ?_ (draft_test hdraft [] test)
      rw [draft_goTo, hsame]
      simp [write, onScopes]
      rfl
    · rintro _ _ ⟨⟩
      refine ⟨role, hfinds.congr (Draft.ancestors_opening hd).symm fun i hi => ?_, hsort, hbase⟩
      exact (Draft.names_opening hd (Draft.ancestors_opening hd ▸ hi)).symm

theorem Fit.halfway (h : w.Fit) (id parent : Nat) (narrowed : Option (String × Ty))
    (hbinds : ∀ name ty, narrowed = some (name, ty) → w.draft.Binds parent name ty) :
    (w.halfway id parent narrowed).Fit ∧ ∃ els : Instruction, els.Marks .elseMark id ∧
      (w.halfway id parent narrowed).draft = { w.draft.write [els] with current := parent } := by
  obtain ⟨hfit, hdraft⟩ := (h.goTo parent).retyped narrowed hbinds
  refine ⟨hfit.write _, ((w.scopes.goTo parent).retyped narrowed).mark .elseMark id, ⟨rfl, rfl⟩,
    (draft_write _ _).trans ?_⟩
  exact congrArg (Draft.write · _) hdraft

theorem Enters.halfway (h : w.Enters condition narrowed w₁) (hw : w.Fit) (hd : w.draft.Formed)
    (hbody : w₁.Fit → w₁.draft.Formed → w₂.Fit ∧ ∃ H T, Elaborates w₁.draft H T w₂.draft) :
    (w₂.halfway w.scopes.size w.scopes.current narrowed).Fit ∧
      ∃ (head H : List Instruction) (test els : Instruction) (T : Flow),
        w.draft.Plains head test.kind.takes ∧ w.draft.Conditions w.draft.size test ∧
        Elaborates (w.draft.opened .thenBranch (head ++ [test])) H T w₂.draft ∧
        els.Marks .elseMark w.draft.size ∧
        (w₂.halfway w.scopes.size w.scopes.current narrowed).draft =
          { w₂.draft.write [els] with current := w.draft.current } := by
  obtain ⟨hfit₁, ⟨head, test, hhead, htest, hdraft⟩, hbinds⟩ := h.opened hw hd
  obtain ⟨hfit₂, H, T, hT⟩ := hbody hfit₁ (hdraft ▸ hd.opened)
  rw [hdraft] at hT
  obtain ⟨-, hkeeps⟩ := hT.keeps hd.opened
  have hextends := Draft.extends_opened.trans hkeeps.toExtends
  obtain ⟨hfit, els, hels, hhalf⟩ := hfit₂.halfway w.scopes.size w.scopes.current narrowed (by
      intro name ty hnarrowed
      obtain ⟨role, hfinds, hrest⟩ := hbinds name ty hnarrowed
      refine ⟨role, hfinds.congr (hextends.ancestors hd hd.current_lt) fun i hi => ?_, hrest⟩
      -- the statements do not declare anything around the block
      have hlt : i < w.draft.size :=
        Nat.lt_of_le_of_lt (le_of_mem_ancestorsBy hd.rooted hi) hd.current_lt
      exact (hkeeps.names i (Nat.lt_succ_of_lt hlt) (Nat.ne_of_lt hlt)).trans
        (Function.update_of_ne (Nat.ne_of_lt hlt) _ _))
  exact ⟨hfit, head, H, test, els, T, hhead, htest, hT, hels, hhalf⟩

theorem Fit.alternative (h : w.Fit) (id : Nat) (hid : id < w.scopes.size)
    (hlt : w.scopes.current < w.scopes.size) :
    (w.onScopes (·.alternative id)).Fit ∧
      (w.onScopes (·.alternative id)).draft = w.draft.alternative id w.draft.current [] := by
  have hlt' : id < (w.scopes.createChild w.scopes.current .elseBranch
      ((w.scopes.scope id).name ++ "$else")).1.size := by
    rw [ScopeTree.size_createChild]
    exact Nat.lt_succ_of_lt hid
  have hfit := h.createChild w.scopes.current .elseBranch ((w.scopes.scope id).name ++ "$else")
  have hmodified := @Fit.modify id _ hfit (fun scope => { scope with otherwise := some w.scopes.size }) rfl
  refine ⟨hmodified.goTo w.scopes.size, ?_⟩
  refine Draft.ext ?_ rfl ?_ ?_ (append_nil _).symm rfl
  · exact (ScopeTree.size_modify ..).trans (ScopeTree.size_createChild ..)
  · refine (ScopeTree.outlines_modify hlt' _).trans ?_
    have hcreated := ScopeTree.outlines_createChild hlt .elseBranch ((w.scopes.scope id).name ++ "$else")
    exact congrArg (fun outlines => Function.update outlines id
      { outlines id with otherwise := some w.scopes.size }) hcreated
  · exact (ScopeTree.names_modify_of_table hlt' rfl).trans (ScopeTree.names_createChild hlt _ _)

theorem Enters.second (h : w.Enters condition narrowed w₁) (hw : w.Fit) (hd : w.draft.Formed)
    (hbody : w₁.Fit → w₁.draft.Formed → w₂.Fit ∧ ∃ H T, Elaborates w₁.draft H T w₂.draft) :
    ((w₂.halfway w.scopes.size w.scopes.current narrowed).onScopes (·.alternative w.scopes.size)).Fit ∧
      ∃ (head H : List Instruction) (test els : Instruction) (T : Flow),
        w.draft.Plains head test.kind.takes ∧ w.draft.Conditions w.draft.size test ∧
        Elaborates (w.draft.opened .thenBranch (head ++ [test])) H T w₂.draft ∧
        els.Marks .elseMark w.draft.size ∧ w.draft.size < w₂.draft.size ∧
        ((w₂.halfway w.scopes.size w.scopes.current narrowed).onScopes (·.alternative w.scopes.size)).draft =
            w₂.draft.alternative w.draft.size w.draft.current [els] := by
  obtain ⟨hfit, head, H, test, els, T, hhead, htest, hT, hels, hdraft⟩ := h.halfway hw hd hbody
  have hscope : w.draft.size < w₂.draft.size :=
    Nat.lt_of_lt_of_le (Nat.lt_succ_self _) (hT.keeps hd.opened).2.size_le
  have hsize : (w₂.halfway w.scopes.size w.scopes.current narrowed).scopes.size = w₂.scopes.size :=
    congrArg Draft.size hdraft
  have hhere : (w₂.halfway w.scopes.size w.scopes.current narrowed).scopes.current =
      w.scopes.current := congrArg Draft.current hdraft
  obtain ⟨hfit', hdraft'⟩ := hfit.alternative w.scopes.size (hsize ▸ hscope)
    (by rw [hsize, hhere]; exact Nat.lt_trans hd.current_lt hscope)
  refine ⟨hfit', head, H, test, els, T, hhead, htest, hT, hels, hscope, ?_⟩
  rw [hdraft', hdraft]
  simp [Draft.write, Draft.alternative, Sheet.draft]

theorem Fit.looping (h : w.Fit) (hlt : w.scopes.current < w.scopes.size) :
    w.looping.Fit ∧ ∃ label : Instruction, label.Marks .whileLabel w.draft.size ∧
      w.looping.draft = w.draft.opening .whileBody [label] := by
  obtain ⟨hnoted, hdraft⟩ := h.noted hlt .whileBody
  refine ⟨hnoted.write _, (w.scopes.noted .whileBody).mark .whileLabel w.scopes.size, ⟨rfl, rfl⟩,
    (draft_write _ _).trans ?_⟩
  rw [hdraft]
  simp [Draft.write, Draft.opening, Draft.opened]

theorem Fit.opened_while (hw : w.Fit) (hd : w.draft.Formed) {condition : Phrase.Expr}
    (hcondition : w.looping.scopes.Evaluates condition code) :
    (((w.looping.write code).marked .whileCondition w.scopes.size).onScopes (·.goTo w.scopes.size)).Fit ∧
      ∃ (label test : Instruction), w.draft.Plains code test.kind.takes ∧
        label.Marks .whileLabel w.draft.size ∧ test.Marks .whileCondition w.draft.size ∧
        (((w.looping.write code).marked .whileCondition w.scopes.size).onScopes
          (·.goTo w.scopes.size)).draft = w.draft.opened .whileBody (label :: code ++ [test]) := by
  obtain ⟨hfit, label, hlabel, hdraft⟩ := hw.looping hd.current_lt
  have hhead := hcondition.plains hfit
  rw [hdraft] at hhead
  exact ⟨((hfit.write _).write _).goTo _, label, w.looping.scopes.mark .whileCondition w.scopes.size,
    (Draft.shows_of_opening hd).plains hhead, hlabel, ⟨rfl, rfl⟩, draft_test hdraft code _⟩

end Sheet

/-! ### Statements -/

theorem Sheet.elaborates_declare {w₁ w₂ w₃ : Sheet} {isMutable defined : Bool} {name : String}
    {place : Location} {init : Option Phrase.RightSide} {ty : Ty} (hreserve : w.Reserves name w₁)
    (hinit : w₁.Initializes ty isMutable init defined w₂)
    (hdeclare : (if defined then w₂.write [w₂.scopes.named .popVariable name w₂.scopes.current]
      else w₂).Declares w₂.scopes.current
        { name, kind := .var isMutable ty defined, location := some place } w₃) (hw : w.Fit)
    (hd : w.draft.Formed) : w₃.Fit ∧ ∃ H T, Elaborates w.draft H T w₃.draft := by
  have hscopes₁ : w₁.scopes = w.scopes := hreserve.scopes.1
  have hscopes₂ : w₂.scopes = w₁.scopes := hinit.scopes
  have hlt : w₂.scopes.current < w₂.scopes.size := by
    rw [hscopes₂, hscopes₁]
    exact hd.current_lt
  have hfresh : ∀ role, (name, role) ∉ w.draft.names w.draft.current := by
    have hnames : ∀ w' : Sheet, w'.scopes = w.scopes → ∀ symbol w'',
        w'.Declares w₂.scopes.current symbol w'' →
        ∀ role, (symbol.name, role) ∉ w.scopes.names w.scopes.current := by
      intro w' hw' symbol w'' hdeclares
      have hfresh := hdeclares.fresh (hw' ▸ hw.scopes)
      rwa [hw', hscopes₂, hscopes₁] at hfresh
    refine hnames _ ?_ _ _ hdeclare
    split <;> exact hscopes₂.trans hscopes₁
  obtain ⟨hfit₁, hsteps⟩ := hreserve.step hw hfresh
  obtain ⟨H, code, hstep⟩ := hsteps ty.unwrapped
  -- whether or not there is a value, the symbol follows
  suffices hbound : w₃.Fit ∧ ∃ code, Step (w₁.draft.declare name ty.unwrapped) [] code w₃.draft by
    obtain ⟨hfit₃, code', hstep'⟩ := hbound
    exact ⟨hfit₃, _, _, (Elaborates.step hstep).seq (.step hstep')⟩
  cases defined with
  | true =>
    obtain ⟨hfit₂, hleaves⟩ := hinit.leaves hfit₁
    obtain ⟨hfit₃, hdraft₃⟩ := hdeclare.fit (hfit₂.write _) hlt
    refine ⟨hfit₃, ?_⟩
    rw [hdraft₃, if_pos rfl, draft_write]
    have hscope : w₂.scopes.current = w₁.draft.current := congrArg ScopeTree.current hscopes₂
    have hsees : (w₁.draft.declare name ty.unwrapped).Sees name w₂.scopes.current := by
      rw [hscope]
      refine ⟨mem_ancestorsBy_self _, ⟨.variable, ty.unwrapped⟩, ?_, nofun⟩
      rw [w₁.draft.declare_here name]
      exact Set.mem_insert ..
    exact (hleaves.declare name ty.unwrapped).store _ ⟨rfl, _, _, rfl, hsees⟩
  | false =>
    cases hinit with
    | waiting =>
      obtain ⟨hfit₃, hdraft₃⟩ := hdeclare.fit hfit₁ hlt
      refine ⟨hfit₃, [], ?_⟩
      rw [hdraft₃]
      exact .skip

theorem Adds.elaborates {w' : Sheet} {s : Phrase.Statement} (h : Adds w s w') (hw : w.Fit)
    (hd : w.draft.Formed) : w'.Fit ∧ ∃ H T, Elaborates w.draft H T w'.draft := by
  induction h with
  | skip => exact ⟨hw, _, _, .refl _⟩
  | seq _ _ ih ih' =>
    obtain ⟨hfit₁, H, T, hT⟩ := ih hw hd
    obtain ⟨hfit₂, H', T', hT'⟩ := ih' hfit₁ (hT.keeps hd).1
    exact ⟨hfit₂, _, _, hT.seq hT'⟩
  | declare _ hreserve hinit hdeclare => exact Sheet.elaborates_declare hreserve hinit hdeclare hw hd
  | @assign w w₁ name _ _ owner symbol _ _ _ hmeans _ _ hvalue =>
    obtain ⟨hfit₁, hleaves⟩ := hvalue.leaves hw
    have hscopes : w₁.scopes = w.scopes := hvalue.scopes
    obtain ⟨code, hstep⟩ := hleaves.store (w₁.scopes.named .popVariable name owner)
      ⟨rfl, name, owner, rfl, hmeans.sees hw⟩
    rw [← w₁.draft_write] at hstep
    obtain ⟨hfit, hdraft⟩ := (hfit₁.write [w₁.scopes.named .popVariable name owner]).modifyVisible
      w₁.scopes.current name (Symbol.name_withDefined true) fun s _ => Symbol.role_withDefined true s
    rw [← hdraft] at hstep
    exact ⟨hfit, _, _, .step hstep⟩
  | call hcall =>
    obtain ⟨hfit, site, code, hid, hcode, htarget, hdraft⟩ := hcall.calling hw
    have hstep := Step.call hid hcode (.none htarget)
    rw [append_nil, ← hdraft] at hstep
    exact ⟨hfit, _, _, .step hstep⟩
  | @giveBack w _ _ code header returns hheader hreturns hvalue =>
    obtain ⟨level, hplains, hlevel⟩ := hvalue.plains hw (Sheet.function?_draft hheader)
      ((ScopeTree.functionResult?_eq_some_iff hw.scopes).1 hreturns)
    let i := w.scopes.mark .returnValue w.scopes.current
    have hwritten : ((w.write code).write [i]).draft = w.draft.write (code ++ [i]) := w.draft.write_write _ _
    obtain ⟨hfit, hdraft⟩ := ((hw.write code).write [i]).giveBack hd.current_lt
    rw [hwritten] at hdraft
    exact ⟨hfit, _, _, .step (Eq.mpr (congrArg (Step w.draft [] _) hdraft)
      (.giveBack hplains hlevel rfl))⟩
  | @ifThen w w₁ w₂ condition body narrowed hcondition hbody ih =>
    obtain ⟨hfit, head, H, test, els, T, hhead, htest, hT, hels, hdraft⟩ :=
      hcondition.halfway hw hd ih
    let fin := (w₂.halfway w.scopes.size w.scopes.current narrowed).scopes.mark .endIf w.scopes.size
    have hclosed : ((w₂.halfway w.scopes.size w.scopes.current narrowed).write [fin]).draft =
        w₂.draft.closed w.draft.current [els, fin] := by
      rw [Sheet.draft_write, hdraft]
      simp [Draft.write, Draft.closed]
    exact ⟨hfit.write _, _, _, Eq.mpr (congrArg (Elaborates w.draft _ _) hclosed)
      (.ifThen hhead htest hT hels ⟨rfl, rfl⟩)⟩
  | @ifElse w w₁ w₂ w₃ condition body other narrowed hcondition hbody hother ih ih' =>
    obtain ⟨hfit, head, H, test, els, T, hhead, htest, hT, hels, hscope, hdraft⟩ :=
      hcondition.second hw hd ih
    obtain ⟨hfit₃, H', U, hU⟩ := ih' hfit (hdraft ▸ (hT.keeps hd.opened).1.alternative hscope
      (Nat.lt_trans hd.current_lt hscope) (Nat.ne_of_gt hd.current_lt))
    rw [hdraft] at hU
    have hclosed : ((w₃.onScopes (·.goTo w.scopes.current)).marked .endIf w.scopes.size).draft =
        w₃.draft.closed w.draft.current [(w₃.scopes.goTo w.scopes.current).mark .endIf w.scopes.size] :=
      Sheet.draft_write _ _
    exact ⟨(hfit₃.goTo _).write _, _, _, Eq.mpr (congrArg (Elaborates w.draft _ _) hclosed)
      (.ifElse hhead htest hT hels hU ⟨rfl, rfl⟩)⟩
  | @loop w w₁ condition place body code hcondition hbody ih =>
    obtain ⟨hfit, label, test, hhead, hlabel, htest, hdraft⟩ :=
      hw.opened_while hd hcondition
    obtain ⟨hfit₁, H, T, hT⟩ := ih hfit (hdraft ▸ hd.opened)
    rw [hdraft] at hT
    have hclosed : ((w₁.onScopes (·.goTo w.scopes.current)).marked .endWhile w.scopes.size).draft =
        w₁.draft.closed w.draft.current [(w₁.scopes.goTo w.scopes.current).mark .endWhile w.scopes.size] :=
      Sheet.draft_write _ _
    refine ⟨(hfit₁.goTo _).write _, ?_⟩
    rw [hclosed]
    cases hloop : w.draft.outermost? w.draft.current with
    | none => exact ⟨_, _, .loop hloop hhead hlabel htest hT ⟨rfl, rfl⟩⟩
    | some outer => exact ⟨_, _, .nested hloop hhead hlabel htest hT ⟨rfl, rfl⟩⟩

end OnePass
