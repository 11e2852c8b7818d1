import OnePass.Proofs.Moves

/-!
# Storage

Declarations, stores and heads of functions are the only moves that give names a sense or variables a
value.  All other moves are quiet: they write code that reads variables in sight.

Main results:

* `Sheet.Moves.shifts` — **every move is quiet, a declaration, a store or the head of a function**;
* `immutable_stored_once` — **a constant is stored at most once**.
-/

namespace OnePass

open List
open Meaning (storageName)

/-! ### Instructions on variables -/

/-- Instructions on a variable or on a parameter. -/
def InstructionKind.isAccess : InstructionKind → Bool
  | defineVariable | pushVariable | popVariable | ifLetCondition | paramPop => true
  | _ => false

namespace SymbolKind

def hasValue : SymbolKind → Bool
  | var _ _ defined => defined
  | function .. => false
  | parameter .. => true

def isFunction : SymbolKind → Bool
  | function .. => true
  | _ => false

end SymbolKind

namespace Symbol

theorem hasValue_untyped (symbol : Symbol) : symbol.untyped.hasValue = symbol.isDefined := by
  rcases symbol with ⟨_, _ | _ | _, _⟩ <;> rfl

theorem isFunction_untyped (symbol : Symbol) : symbol.untyped.isFunction = symbol.isFunction := by
  rcases symbol with ⟨_, _ | _ | _, _⟩ <;> rfl

theorem untyped_of_var {symbol : Symbol} {isMutable defined : Bool} {ty : Ty}
    (h : symbol.kind = .var isMutable ty defined) :
    symbol.untyped = .var isMutable .void defined ∧
      (symbol.withDefined true).untyped = .var isMutable .void true := by
  rcases symbol with ⟨_, _ | _ | _, _⟩ <;> cases h
  exact ⟨rfl, rfl⟩

end Symbol

/-- All arguments of all calls have values. -/
def Calls.Settled (calls : Calls) : Prop :=
  ∀ site ∈ calls.recorded, ∀ argument ∈ site.arguments, argument.initialized = true

namespace ScopeTree

variable {t t' : ScopeTree} {i : Instruction} {name : String} {owner : Nat} {symbol : Symbol}
variable {id : Nat}

theorem Denotes.sense (h : t.Denotes name owner symbol) : t.sense? owner name = some symbol.untyped := by
  rw [sense?, h.held]
  rfl

theorem Denotes.mem_ancestors (h : t.Denotes name owner symbol) : owner ∈ t.ancestors t.current :=
  mem_of_find?_eq_some h.found

/-- An instruction is on a variable of a scope around its own scope. -/
structure Aims (t : ScopeTree) (i : Instruction) (name : String) (owner : Nat) : Prop where
  target : i.name? = some (storageName name owner)
  frame : i.frame = (t.scope owner).frame
  sight : owner ∈ t.ancestors i.scope
  scope_lt : i.scope < t.size

/-- An instruction reads a variable in sight; the variable has a value, if all arguments of calls
have. -/
def Reads (t : ScopeTree) (calls : Calls) (i : Instruction) : Prop :=
  (i.kind = .pushVariable ∨ i.kind = .ifLetCondition) ∧ ∃ name owner kind,
    t.sense? owner name = some kind ∧ kind.isFunction = false ∧ t.Aims i name owner ∧
      (calls.Settled → kind.hasValue = true)

theorem Grows.ancestors (h : t.Grows t') (ht : t.Formed) (hlt : id < t.size) :
    t'.ancestors id = t.ancestors id := by
  rw [ancestors_eq, ancestors_eq]
  exact ancestorsBy_congr ht.rooted fun other hle => (h.alike other (Nat.lt_of_le_of_lt hle hlt)).parent

theorem Formed.lt_of_mem_ancestors (ht : t.Formed) {other : Nat} (hlt : id < t.size)
    (h : other ∈ t.ancestors id) : other < t.size := by
  rw [ancestors_eq] at h
  exact Nat.lt_of_le_of_lt (le_of_mem_ancestorsBy ht.rooted h) hlt

theorem Aims.grow (h : t.Aims i name owner) (ht : t.Formed) (hgrows : t.Grows t') : t'.Aims i name owner where
  target := h.target
  frame := h.frame.trans (hgrows.alike owner (ht.lt_of_mem_ancestors h.scope_lt h.sight)).frame.symm
  sight := by
    rw [hgrows.ancestors ht h.scope_lt]
    exact h.sight
  scope_lt := Nat.lt_of_lt_of_le h.scope_lt hgrows.size_le

theorem Formed.ancestors_of_child (ht : t.Formed) {above : Nat} {kind : ScopeKind}
    (h : Child t.scope above id kind) : t.ancestors id = id :: t.ancestors above := by
  rw [ancestors_eq, ancestors_eq]
  exact ancestorsBy_of_some ht.rooted h.2

theorem aims_named (ht : t.Formed) {kind : InstructionKind} (h : owner ∈ t.ancestors t.current) :
    t.Aims (t.named kind name owner) name owner := ⟨rfl, rfl, h, ht.current_lt⟩

theorem mem_ancestors_self (t : ScopeTree) (id : Nat) : id ∈ t.ancestors id := by
  rw [ancestors_eq]
  exact mem_ancestorsBy_self id

/-! ### Code that reads -/

theorem isAccess_of_takes {kind : InstructionKind} (h : kind.takes = 2) : kind.isAccess = false := by
  cases kind <;> first | rfl | cases h

theorem Evaluates.reads {e : Phrase.Expr} {code : List Instruction}
    (h : t.Evaluates e code) (ht : t.Formed) (calls : Calls) :
    ∀ i ∈ code, i.kind.isAccess → t.Reads calls i := by
  induction h with
  | literal _ hi =>
    refine forall_mem_singleton.2 fun haccess => ?_
    rw [hi.kind] at haccess
    cases haccess
  | «variable» _ hmeans hdefined =>
    refine forall_mem_singleton.2 fun _ => ⟨.inl rfl, _, _, _, hmeans.sense, ?_,
      aims_named ht hmeans.mem_ancestors, fun _ => ?_⟩
    · rw [Symbol.isFunction_untyped]
      exact hmeans.value
    · rw [Symbol.hasValue_untyped]
      exact hdefined
  | binary _ _ htakes _ ih ih' =>
    refine forall_mem_append.2 ⟨ih, forall_mem_append.2 ⟨ih', ?_⟩⟩
    refine forall_mem_singleton.2 fun haccess => ?_
    rw [isAccess_of_takes htakes] at haccess
    cases haccess
  | unwrap _ hkind _ ih | convert _ hkind _ ih =>
    refine forall_mem_append.2 ⟨ih, forall_mem_singleton.2 fun haccess => ?_⟩
    rw [hkind] at haccess
    cases haccess

theorem Hands.reads {arg : Phrase.Arg} {argument : Argument} (h : t.Hands arg i argument) (ht : t.Formed)
    {calls : Calls} (hsettled : calls.Settled → argument.initialized = true) (haccess : i.kind.isAccess) :
    t.Reads calls i := by
  cases h with
  | literal _ hi =>
    rw [hi.kind] at haccess
    cases haccess
  | «variable» _ hmeans _ _ hinitialized =>
    refine ⟨.inl rfl, _, _, _, hmeans.sense, ?_, aims_named ht hmeans.mem_ancestors, fun h => ?_⟩
    · rw [Symbol.isFunction_untyped]
      exact hmeans.value
    · rw [Symbol.hasValue_untyped, ← hinitialized]
      exact hsettled h

theorem Passes.reads {variadic : Bool} {args : List Phrase.Arg} {code : List Instruction}
    {arguments : List Argument} (h : t.Passes variadic args code arguments) (ht : t.Formed) {calls : Calls}
    (hsettled : calls.Settled → ∀ argument ∈ arguments, argument.initialized = true) :
    ∀ i ∈ code, i.kind.isAccess → t.Reads calls i := by
  induction h with
  | nil => exact forall_mem_nil _
  | concat _ hlast ih =>
    refine forall_mem_append.2 ⟨ih fun h argument hmem => hsettled h argument
      (mem_append_left _ hmem), forall_mem_cons.2 ⟨fun haccess => ?_, ?_⟩⟩
    · exact hlast.reads ht (fun h => hsettled h _ (mem_append_right _ mem_cons_self)) haccess
    · split
      · exact forall_mem_singleton.2 fun haccess => by cases haccess
      · exact forall_mem_nil _

end ScopeTree

/-! ### Quiet moves -/

namespace Sheet

variable {w w' : Sheet}
variable {ty : Ty} {index n : Nat} {t : ScopeTree} {pops : List Instruction}

/-- A piece of code that only reads variables. -/
def Reading (w w' : Sheet) (code : List Instruction) : Prop :=
  ∀ i ∈ code, i.kind.isAccess → w.scopes.Reads w'.calls i

theorem reading_of_kinds {code : List Instruction} (h : ∀ i ∈ code, i.kind.isAccess = false) :
    w.Reading w' code := by
  intro i hi haccess
  rw [h i hi] at haccess
  cases haccess

/-- No function has been added. -/
def SameHeaders (w w' : Sheet) : Prop :=
  ∀ id, w.scopes.size ≤ id → (w'.scopes.scope id).kind ≠ .functionHeader

theorem sameHeaders_of_size (h : w'.scopes.size = w.scopes.size) : w.SameHeaders w' := by
  intro id hle hkind
  rw [ScopeTree.scope_of_le (h ▸ hle)] at hkind
  cases hkind

theorem sameHeaders_of_succ (h : w'.scopes.size = w.scopes.size + 1)
    (hkind : (w'.scopes.scope w.scopes.size).kind ≠ .functionHeader) : w.SameHeaders w' := by
  intro id hle
  rcases Nat.eq_or_lt_of_le hle with rfl | hlt
  · exact hkind
  · rw [ScopeTree.scope_of_le (h ▸ hlt)]
    exact nofun

/-- Nothing but code that reads has been added. -/
structure Quiet (w w' : Sheet) : Prop where
  sense : ∀ id name, w'.scopes.sense? id name = w.scopes.sense? id name
  headers : w.SameHeaders w'
  calls : w.calls.recorded ⊆ w'.calls.recorded
  code : ∃ code, w'.code = w.code ++ code ∧ w.Reading w' code

theorem Requests.reading {callee : String} {args : List Phrase.Arg} {target : Option Ty}
    (h : w.Requests callee args target w') (hw : w.scopes.Formed) :
    w.calls.recorded ⊆ w'.calls.recorded ∧ ∃ code, w'.code = w.code ++ code ∧ w.Reading w' code := by
  cases h with
  | @intro code site hargs =>
    refine ⟨subset_cons_self _ _, _, rfl, forall_mem_append.2 ⟨?_, ?_⟩⟩
    · exact hargs.reads hw fun h => h site mem_cons_self
    · refine reading_of_kinds ?_
      unfold callCode
      split
      · exact forall_mem_nil _
      · refine forall_mem_cons.2 ⟨rfl, ?_⟩
        split
        · exact forall_mem_singleton.2 rfl
        · exact forall_mem_nil _

theorem Supplies.reading {side : Phrase.RightSide} (h : w.Supplies ty side w') (hw : w.scopes.Formed) :
    w.calls.recorded ⊆ w'.calls.recorded ∧ ∃ code, w'.code = w.code ++ code ∧ w.Reading w' code := by
  cases h with
  | expression hvalue => exact ⟨List.Subset.refl _, _, rfl, hvalue.reads hw _⟩
  | call hcall => exact hcall.reading hw

theorem Initializes.reading {isMutable defined : Bool} {init : Option Phrase.RightSide}
    (h : w.Initializes ty isMutable init defined w') (hw : w.scopes.Formed) :
    w.calls.recorded ⊆ w'.calls.recorded ∧ ∃ code, w'.code = w.code ++ code ∧ w.Reading w' code := by
  cases h with
  | side hside => exact hside.reading hw
  | absent hi =>
    refine ⟨List.Subset.refl _, _, rfl, reading_of_kinds (forall_mem_singleton.2 ?_)⟩
    rw [hi.kind]
    rfl
  | waiting => exact ⟨List.Subset.refl _, [], (append_nil _).symm, forall_mem_nil _⟩

theorem Reserves.code {name : String} (h : w.Reserves name w') : ∃ pre post, w.code = pre ++ post ∧
      w'.code = pre ++ w.scopes.named .defineVariable name w.scopes.current :: post := by
  cases h with
  | here => exact ⟨w.code, [], (append_nil _).symm, rfl⟩
  | before _ hcode => exact ⟨_, _, hcode, rfl⟩

/-! ### Heads of functions -/

/-- The symbol of the parameter at an index. -/
def paramSymbol (index : Nat) (param : Phrase.Param) : Symbol where
  name := param.name.getD s!"_${index}"
  kind := .parameter index param.label param.ty
  location := some param.place

theorem Takes.symbol?_iff {params : List Phrase.Param} (h : w.Takes index params w')
    (hordered : w.scopes.Ordered) (hlt : w.scopes.current < w.scopes.size) (id : Nat) (name : String)
    (symbol : Symbol) :
    w'.scopes.symbol? id name = some symbol ↔ w.scopes.symbol? id name = some symbol ∨
      id = w.scopes.current ∧ name = symbol.name ∧
        ∃ k param, params[k]? = some param ∧ symbol = paramSymbol (index + k) param := by
  induction h with
  | nil => simp
  | @cons w w₁ w₂ index first later hfirst hlater ih =>
    obtain ⟨-, hcurrent, hsize, -⟩ := hfirst.grows
    rw [ih (hfirst.ordered hordered) (hcurrent.trans_lt (hlt.trans_eq hsize.symm)), hcurrent]
    obtain ⟨table, hinsert, rfl⟩ := hfirst
    have hfresh : w.scopes.symbol? w.scopes.current (paramSymbol index first).name = none :=
      SymbolTable.get?_of_insert hinsert
    have hfound := ScopeTree.symbol?_setTable hordered hlt hinsert id name
    rw [scopes_onScopes, hfound]
    constructor
    · rintro (hold | ⟨hid, hname, k, param, hk, rfl⟩)
      · split at hold
        · rename_i hsame
          cases hold
          exact .inr ⟨hsame.1, hsame.2, 0, first, rfl, rfl⟩
        · exact .inl hold
      · refine .inr ⟨hid, hname, k + 1, param, hk, ?_⟩
        rw [Nat.add_right_comm, Nat.add_assoc]
    · rintro (hold | ⟨hid, hname, k, param, hk, rfl⟩)
      · refine .inl ?_
        rw [if_neg, hold]
        rintro ⟨rfl, rfl⟩
        cases hfresh.symm.trans hold
      · cases k with
        | zero =>
          cases hk
          exact .inl (if_pos ⟨hid, hname⟩)
        | succ k =>
          refine .inr ⟨hid, hname, k, param, hk, ?_⟩
          rw [Nat.add_right_comm, Nat.add_assoc]

theorem symbol?_of_parameterAt? (hordered : t.Ordered) {id : Nat} {symbol : Symbol}
    (h : (t.scope id).table.parameterAt? index = some symbol) :
    t.symbol? id symbol.name = some symbol ∧ symbol.isParameterAt index :=
  ⟨(SymbolTable.get?_eq_some_iff (hordered id)).2 ⟨mem_of_find?_eq_some h, rfl⟩, List.find?_some h⟩

theorem eq_of_isParameterAt {symbol : Symbol} {other : Nat} (h : symbol.isParameterAt index)
    (h' : symbol.isParameterAt other) : index = other := by
  rcases symbol with ⟨_, _ | _ | position, _⟩
  · cases h
  · cases h
  · exact (eq_of_beq h).symm.trans (eq_of_beq h')

theorem Pops.mem_iff (h : Pops t n pops) (i : Instruction) : i ∈ pops ↔ ∃ index < n, ∃ symbol,
      (t.scope t.current).table.parameterAt? index = some symbol ∧
        i = t.named .paramPop symbol.name t.current := by
  induction h with
  | zero => simp
  | @succ index symbol code hsymbol _ ih =>
    rw [mem_cons, ih]
    constructor
    · rintro (rfl | ⟨other, hlt, hrest⟩)
      · exact ⟨index, Nat.lt_succ_self _, symbol, hsymbol, rfl⟩
      · exact ⟨other, Nat.lt_succ_of_lt hlt, hrest⟩
    · rintro ⟨other, hlt, symbol', hsymbol', rfl⟩
      rcases Nat.lt_or_eq_of_le (Nat.le_of_lt_succ hlt) with hless | rfl
      · exact .inr ⟨other, hless, symbol', hsymbol', rfl⟩
      · cases hsymbol.symm.trans hsymbol'
        exact .inl rfl

theorem Pops.exists_parameterAt? (h : Pops t n pops) (hlt : index < n) :
    ∃ symbol, (t.scope t.current).table.parameterAt? index = some symbol := by
  induction h with
  | zero => exact absurd hlt (Nat.not_lt_zero _)
  | succ hsymbol _ ih =>
    rcases Nat.lt_or_eq_of_le (Nat.le_of_lt_succ hlt) with hless | rfl
    · exact ih hless
    · exact ⟨_, hsymbol⟩

theorem Pops.nodup (hordered : t.Ordered) (h : Pops t n pops) : (pops.map Instruction.name?).Nodup := by
  induction h with
  | zero => exact nodup_nil
  | @succ index symbol code hsymbol hbefore ih =>
    refine nodup_cons.2 ⟨fun hmem => ?_, ih⟩
    obtain ⟨i, hi, hname⟩ := mem_map.1 hmem
    obtain ⟨other, hlt, symbol', hsymbol', rfl⟩ := (hbefore.mem_iff i).1 hi
    have hsame : symbol'.name = symbol.name := (storageName_inj (Option.some.inj hname)).1
    obtain ⟨hfound, hat⟩ := symbol?_of_parameterAt? hordered hsymbol
    obtain ⟨hfound', hat'⟩ := symbol?_of_parameterAt? hordered hsymbol'
    rw [hsame, hfound] at hfound'
    cases hfound'
    exact absurd (eq_of_isParameterAt hat hat') (Nat.ne_of_gt hlt)

/-- What the head of a function adds to the senses of names and to the code. -/
structure Heads (w : Sheet) (f : Phrase.Function) (w' : Sheet) : Prop where
  size : w'.scopes.size = w.scopes.size + 2
  header : Scope.Alike
    { kind := .functionHeader, name := f.name, parent := some w.scopes.current, frame := .local }
    (w'.scopes.scope w.scopes.size)
  body : Scope.Alike { kind := .functionBody, name := f.name, parent := some w.scopes.size, frame := .local }
    (w'.scopes.scope (w.scopes.size + 1))
  fresh : w.scopes.sense? ScopeTree.root f.name = none
  function : w'.scopes.sense? ScopeTree.root f.name = some (.function .void false)
  others : ∀ id name, id ≠ w.scopes.size → ¬ (id = ScopeTree.root ∧ name = f.name) →
    w'.scopes.sense? id name = w.scopes.sense? id name
  params : ∀ name kind, w'.scopes.sense? w.scopes.size name = some kind ↔
    ∃ index param, f.params[index]? = some param ∧ name = (paramSymbol index param).name ∧
      kind = .parameter index param.label .void
  calls : w'.calls = w.calls
  code : ∃ entry pops, entry.kind = .functionBegin ∧ entry.scope = w.scopes.size ∧
    w'.code = w.code ++ entry :: pops ∧ (pops.map Instruction.name?).Nodup ∧ ∀ i, i ∈ pops ↔ ∃ name,
      (w'.scopes.sense? w.scopes.size name).isSome ∧
        i = ⟨.paramPop, w.scopes.size, .local, 0, some (.name (storageName name w.scopes.size))⟩

theorem symbol?_of_head {w₁ w₂ : Sheet} {f : Phrase.Function} (hw : w.scopes.Formed)
    (hfresh : (w.scopes.scope ScopeTree.root).table.contains f.name = false)
    (hparams : Takes (w.onScopes fun t => (t.enter .functionHeader f.name).1) 0 f.params w₁)
    (hsymbol : (w₁.onScopes fun t => t.modify w.scopes.size fun scope =>
      { scope with parameters := f.params.length }).Declares ScopeTree.root
        { name := f.name, kind := .function f.returns false, location := some f.place } w₂)
    (id : Nat) (name : String) (symbol : Symbol) :
    w₂.scopes.symbol? id name = some symbol ↔ w.scopes.symbol? id name = some symbol ∨
      (id = ScopeTree.root ∧ name = f.name ∧
        symbol = { name := f.name, kind := .function f.returns false, location := some f.place }) ∨
      id = w.scopes.size ∧ name = symbol.name ∧
        ∃ k param, f.params[k]? = some param ∧ symbol = paramSymbol k param := by
  have hentered : (w.scopes.enter .functionHeader f.name).1.Ordered := hw.ordered.createChild _ _
  have hordered₁ : w₁.scopes.Ordered := hparams.ordered hentered
  have hsize : w₁.scopes.size = w.scopes.size + 1 :=
    hparams.grows.2.2.1.trans (ScopeTree.size_createChild ..)
  have hfound := hparams.symbol?_iff hentered
    ((ScopeTree.size_createChild ..).symm ▸ Nat.lt_succ_self _) id name symbol
  simp only [scopes_onScopes, ScopeTree.symbol?_enter, Nat.zero_add] at hfound
  have hnone : w.scopes.symbol? ScopeTree.root f.name = none :=
    Option.not_isSome_iff_eq_none.1 (Bool.eq_false_iff.1 hfresh)
  have hroot : ScopeTree.root ≠ w.scopes.size := Nat.ne_of_lt hw.size_pos
  obtain ⟨table, hinsert, rfl⟩ := hsymbol
  have hlt : ScopeTree.root < (w₁.scopes.modify w.scopes.size fun scope =>
      { scope with parameters := f.params.length }).size := by
    rw [ScopeTree.size_modify, hsize]
    exact Nat.succ_pos _
  have hdeclared := ScopeTree.symbol?_setTable (hordered₁.modify (hordered₁ _)) hlt hinsert id name
  rw [scopes_onScopes, scopes_onScopes, hdeclared, ScopeTree.symbol?_modify fun _ => by rfl]
  split
  · rename_i hsame
    obtain ⟨rfl, rfl⟩ := hsame
    rw [hnone, Option.some_inj]
    simp [hroot, eq_comm]
  · rename_i hother
    rw [hfound]
    constructor
    · rintro (hold | hnew)
      · exact .inl hold
      · exact .inr (.inr hnew)
    · rintro (hold | ⟨hid, hname, -⟩ | hnew)
      · exact .inl hold
      · exact absurd ⟨hid, hname⟩ hother
      · exact .inr hnew

theorem Begins.heads {f : Phrase.Function} (h : w.Begins f w') (hw : w.scopes.Formed) : w.Heads f w' := by
  obtain ⟨-, -, hsize, hheader, hbody⟩ := h.grows
  cases h with
  | @intro w₁ w₂ pops hfresh hparams hsymbol hpops =>
    have hfound := symbol?_of_head hw hfresh hparams hsymbol
    have hnone : w.scopes.symbol? ScopeTree.root f.name = none :=
      Option.not_isSome_iff_eq_none.1 (Bool.eq_false_iff.1 hfresh)
    have hroot : ScopeTree.root ≠ w.scopes.size := Nat.ne_of_lt hw.size_pos
    have hempty := w.scopes.symbol?_of_le (Nat.le_refl w.scopes.size)
    have hordered₁ : w₁.scopes.Ordered :=
      hparams.ordered (hw.ordered.createChild .functionHeader f.name)
    have hordered : w₂.scopes.Ordered := hsymbol.ordered (hordered₁.modify (hordered₁ _))
    have hcurrent : w₂.scopes.current = w.scopes.size := hsymbol.grows.2.1.trans hparams.grows.2.1
    have hframe : (w₂.scopes.scope w.scopes.size).frame = .local := by
      obtain ⟨hgrows, -⟩ := w₂.scopes.enter_spec .functionBody f.name (.inr rfl)
      have hlt : w.scopes.size < w₂.scopes.size := by
        rw [hsymbol.grows.2.2.1, scopes_onScopes, ScopeTree.size_modify, hparams.grows.2.2.1]
        exact (ScopeTree.size_createChild ..).symm ▸ Nat.lt_succ_self _
      exact (hgrows.alike _ hlt).frame.symm.trans hheader.frame
    have hsense : ∀ id name, ((w₂.write ({ w₂.scopes.mark .functionBegin w.scopes.size with
        payload := some (.name f.name) } :: pops)).onScopes
          fun t => (t.enter .functionBody f.name).1).scopes.sense? id name =
        (w₂.scopes.symbol? id name).map Symbol.untyped := fun id name => by
      rw [scopes_onScopes, scopes_write, ScopeTree.sense?, ScopeTree.symbol?_enter]
    refine ⟨hsize, hheader, hbody, ScopeTree.sense?_eq_none_iff.2 hnone, ?_, fun id name hid hname => ?_,
      fun name kind => ?_, hsymbol.grows.2.2.2.2.trans hparams.grows.2.2.2.2, ?_⟩
    · rw [hsense, (hfound _ _ _).2 (.inr (.inl ⟨rfl, rfl, rfl⟩))]
      rfl
    · rw [hsense, ScopeTree.sense?]
      congr 1
      ext symbol
      rw [hfound]
      constructor
      · rintro (hold | ⟨hroot, hfunction, -⟩ | ⟨hheader, -⟩)
        · exact hold
        · exact absurd ⟨hroot, hfunction⟩ hname
        · exact absurd hheader hid
      · exact .inl
    · rw [hsense]
      constructor
      · intro hkind
        obtain ⟨symbol, hsymbol, rfl⟩ := Option.map_eq_some_iff.1 hkind
        rcases (hfound _ _ _).1 hsymbol with hold | ⟨hid, -⟩ | ⟨-, hname, k, param, hk, rfl⟩
        · cases (hempty name).symm.trans hold
        · exact absurd hid.symm hroot
        · exact ⟨k, param, hk, hname, rfl⟩
      · rintro ⟨k, param, hk, hname, rfl⟩
        rw [(hfound _ _ (paramSymbol k param)).2 (.inr (.inr ⟨rfl, hname, k, param, hk, rfl⟩))]
        rfl
    · refine ⟨{ w₂.scopes.mark .functionBegin w.scopes.size with payload := some (.name f.name) }, pops,
        rfl, rfl, ?_, hpops.nodup hordered, fun i => ?_⟩
      · rw [code_onScopes, code_write, hsymbol.grows.2.2.2.1, code_onScopes, hparams.grows.2.2.2.1]
        rfl
      · have hnamed : ∀ name, w₂.scopes.named .paramPop name w₂.scopes.current =
            ⟨.paramPop, w.scopes.size, .local, 0, some (.name (storageName name w.scopes.size))⟩ := by
          intro name
          rw [hcurrent, ScopeTree.named, hcurrent, hframe]
        rw [hpops.mem_iff]
        constructor
        · rintro ⟨index, -, symbol, hat, rfl⟩
          refine ⟨symbol.name, ?_, hnamed _⟩
          have hheld := (symbol?_of_parameterAt? hordered hat).1
          rw [hcurrent] at hheld
          rw [hsense, hheld]
          rfl
        · rintro ⟨name, hsome, rfl⟩
          rw [hsense, Option.isSome_map] at hsome
          obtain ⟨symbol, hheld⟩ := Option.isSome_iff_exists.1 hsome
          rcases (hfound _ _ _).1 hheld with hold | ⟨hid, -⟩ | ⟨-, rfl, k, param, hk, rfl⟩
          · cases (hempty name).symm.trans hold
          · exact absurd hid.symm hroot
          -- the parameter that is found at the index is this one
          · have hk' : k < f.params.length := (List.getElem?_eq_some_iff.1 hk).1
            obtain ⟨symbol, hat⟩ := hpops.exists_parameterAt? hk'
            obtain ⟨hheld', hindex⟩ := symbol?_of_parameterAt? hordered hat
            rw [hcurrent] at hheld'
            rcases (hfound _ _ _).1 hheld' with hold | ⟨hid, -⟩ | ⟨-, -, k', param', hk'', rfl⟩
            · cases (hempty _).symm.trans hold
            · exact absurd hid.symm hroot
            · obtain rfl : k' = k := eq_of_beq hindex
              cases hk.symm.trans hk''
              exact ⟨k', hk', _, hat, (hnamed _).symm⟩

/-! ### Shifts -/

/-- A move, seen through the senses of names and the instructions on variables. -/
inductive Shifts (w w' : Sheet) : Prop where
  | quiet (h : w.Quiet w')
  | declare {name : String} {isMutable defined : Bool} {pre post code : List Instruction}
      (hsize : w'.scopes.size = w.scopes.size) (hfresh : w.scopes.sense? w.scopes.current name = none)
      (hsense : ∀ id key, w'.scopes.sense? id key =
        if id = w.scopes.current ∧ key = name then some (.var isMutable .void defined)
        else w.scopes.sense? id key)
      (hcalls : w.calls.recorded ⊆ w'.calls.recorded) (hcode : w.code = pre ++ post)
      (hcode' : w'.code = pre ++ w.scopes.named .defineVariable name w.scopes.current :: post ++
        (code ++ if defined then [w.scopes.named .popVariable name w.scopes.current] else []))
      (hreading : w.Reading w' code)
  | store {name : String} {owner : Nat} {isMutable defined : Bool}
      (hsize : w'.scopes.size = w.scopes.size)
      (hheld : w.scopes.sense? owner name = some (.var isMutable .void defined))
      (hfree : isMutable ∨ defined = false) (hsight : owner ∈ w.scopes.ancestors w.scopes.current)
      (hsense : ∀ id key, w'.scopes.sense? id key =
        if id = owner ∧ key = name then some (.var isMutable .void true) else w.scopes.sense? id key)
      (hcalls : w'.calls = w.calls)
      (hcode : w'.code = w.code ++ [w.scopes.named .popVariable name owner])
  | head {f : Phrase.Function} (h : w.Heads f w')

theorem Introduces.shifts {isMutable defined : Bool} {name : String} {init : Option Phrase.RightSide}
    (h : w.Introduces isMutable name ty init defined w') (hw : w.scopes.Formed) : w.Shifts w' := by
  obtain ⟨place, table, hinsert, hscopes⟩ := h.scopes
  have hfresh : w.scopes.sense? w.scopes.current name = none :=
    ScopeTree.sense?_eq_none_iff.2 (SymbolTable.get?_of_insert hinsert)
  have hsense := ScopeTree.sense?_setTable hw.ordered hw.current_lt hinsert
  rw [← hscopes] at hsense
  cases h with
  | @intro w₁ w₂ w₃ _ _ _ hreserve hinit hdeclare =>
    obtain ⟨hscopes₁, hcalls₁⟩ := hreserve.scopes
    have hscopes₂ : w₂.scopes = w.scopes := hinit.scopes.trans hscopes₁
    obtain ⟨pre, post, hcode, hcode₁⟩ := hreserve.code
    obtain ⟨hcalls₂, code, hcode₂, hreading⟩ := hinit.reading (hscopes₁ ▸ hw)
    obtain ⟨-, -, -, hcode₃, hcalls₃⟩ := hdeclare.grows
    have hcalls : w'.calls = w₂.calls := by
      rw [hcalls₃]
      split <;> rfl
    have hpop : w'.code = w₂.code ++
        if defined then [w.scopes.named .popVariable name w.scopes.current] else [] := by
      rw [hcode₃, hscopes₂]
      split
      · rfl
      · exact (append_nil _).symm
    have hwhole : w'.code = pre ++ w.scopes.named .defineVariable name w.scopes.current :: post ++
        (code ++ if defined then [w.scopes.named .popVariable name w.scopes.current] else []) := by
      rw [hpop, hcode₂, hcode₁, append_assoc]
    have hreads : w.Reading w' code := by
      unfold Reading at hreading ⊢
      rwa [← hscopes₁, hcalls]
    have hsize : w'.scopes.size = w.scopes.size := by
      rw [hscopes]
      exact ScopeTree.size_modify ..
    refine .declare hsize hfresh hsense ?_ hcode hwhole hreads
    rw [hcalls, ← hcalls₁]
    exact hcalls₂

theorem Moves.shifts (h : w.Moves w') (hw : w.scopes.Formed) : w.Shifts w' := by
  cases h with
  | evaluate hvalue =>
    exact .quiet ⟨fun _ _ => rfl, sameHeaders_of_size rfl, List.Subset.refl _, _, rfl, hvalue.reads hw _⟩
  | request hcall =>
    obtain ⟨hcalls, hcode⟩ := hcall.reading hw
    exact .quiet ⟨fun id name => by rw [hcall.scopes],
      sameHeaders_of_size (congrArg ScopeTree.size hcall.scopes), hcalls, hcode⟩
  | declare hdeclare => exact hdeclare.shifts hw
  | store hmeans hkind hfree =>
    obtain ⟨hsense, hsense'⟩ := Symbol.untyped_of_var hkind
    refine .store (ScopeTree.size_modifyVisible ..) (hmeans.sense.trans (congrArg some hsense)) hfree hmeans.mem_ancestors
      (fun id key => ?_) rfl rfl
    rw [← hsense']
    exact ScopeTree.sense?_modifyVisible hmeans id key
  | giveBack =>
    refine .quiet ⟨fun id name => ?_, sameHeaders_of_size (ScopeTree.size_modify ..), List.Subset.refl _, _,
      rfl, reading_of_kinds ?_⟩
    · exact congrArg (Option.map _) (ScopeTree.symbol?_modify (fun _ => by rfl) _ _ id name)
    · exact forall_mem_singleton.2 rfl
  | note hkind =>
    refine .quiet ⟨fun id name => congrArg (Option.map _) (ScopeTree.symbol?_noted ..),
      sameHeaders_of_succ (ScopeTree.size_noted ..) ?_, List.Subset.refl _, [],
      (append_nil _).symm, forall_mem_nil _⟩
    have halike := w.scopes.alike_noted hkind
    rw [scopes_onScopes, halike.kind]
    rcases hkind with rfl | rfl <;> exact nofun
  | label =>
    exact .quiet ⟨fun _ _ => rfl, sameHeaders_of_size rfl, List.Subset.refl _, _, rfl, reading_of_kinds (forall_mem_singleton.2 rfl)⟩
  | test _ _ htest =>
    refine .quiet ⟨fun _ _ => rfl, sameHeaders_of_size rfl, List.Subset.refl _, _, rfl, reading_of_kinds (forall_mem_singleton.2 ?_)⟩
    rcases htest with ⟨rfl, -⟩ | ⟨rfl, -⟩ <;> rfl
  | @present name owner id symbol hlt hchild hmeans hdefined =>
    refine .quiet ⟨fun _ _ => rfl, sameHeaders_of_size rfl, List.Subset.refl _, _, rfl, forall_mem_singleton.2 fun _ => ?_⟩
    refine ⟨.inr rfl, name, owner, _, hmeans.sense, ?_, ⟨rfl, rfl, ?_, hlt⟩, fun _ => ?_⟩
    · rw [Symbol.isFunction_untyped]
      exact hmeans.value
    · rw [hw.ancestors_of_child hchild]
      exact mem_cons_of_mem _ hmeans.mem_ancestors
    · rw [Symbol.hasValue_untyped]
      exact hdefined
  | retype id narrowed =>
    refine .quiet ⟨fun _ _ => ?_, sameHeaders_of_size ?_, List.Subset.refl _, [], (append_nil _).symm, forall_mem_nil _⟩
    · exact ScopeTree.sense?_retyped (w.scopes.goTo id) narrowed _ _
    · exact ScopeTree.size_retyped (w.scopes.goTo id) narrowed
  | close =>
    refine .quiet ⟨fun _ _ => rfl, sameHeaders_of_size rfl, List.Subset.refl _, _, rfl, reading_of_kinds ?_⟩
    exact forall_mem_cons.2 ⟨rfl, forall_mem_singleton.2 rfl⟩
  | @switch parent =>
    refine .quiet ⟨fun id name => congrArg (Option.map _) (ScopeTree.symbol?_alternative ..),
      sameHeaders_of_succ (ScopeTree.size_alternative ..) ?_, List.Subset.refl _, _, rfl,
      reading_of_kinds (forall_mem_singleton.2 rfl)⟩
    have halike := (w.scopes.goTo parent).alike_alternative w.scopes.current
    exact fun hkind => nomatch halike.kind.symm.trans hkind
  | endIf | endWhile | finish =>
    exact .quiet ⟨fun _ _ => rfl, sameHeaders_of_size rfl, List.Subset.refl _, _, rfl, reading_of_kinds (forall_mem_singleton.2 rfl)⟩
  | begin _ hbegin => exact .head (hbegin.heads hw)

end Sheet

/-! ### Constants -/

/-- The variable that an instruction stores into. -/
def Instruction.stored? (i : Instruction) : Option String :=
  if i.kind = .popVariable then i.name? else none

/-- The variables that code stores into, one for each store. -/
def stored (code : List Instruction) : List String := code.filterMap Instruction.stored?

theorem stored_append (first second : List Instruction) :
    stored (first ++ second) = stored first ++ stored second := filterMap_append

theorem stored_eq_nil {code : List Instruction} (h : ∀ i ∈ code, i.kind ≠ .popVariable) : stored code = [] :=
  filterMap_eq_nil_iff.2 fun i hi => if_neg (h i hi)

theorem Trims.stored {l m : List Instruction} (h : Trims l m) : stored m = OnePass.stored l := by
  refine h.filterMap (fun hi => ?_) fun hi => ?_
  · rw [Instruction.stored?, Instruction.stored?, hi.fields.1, hi.fields.2.2.2.2]
  · rw [Instruction.stored?, hi, if_neg nofun]

/-- How often something of a sense may have been stored: a constant once if it has a value, and what is no
variable never. -/
def SymbolKind.Bounds : Option SymbolKind → Nat → Prop
  | some (.var true _ _), _ => True
  | some (.var false _ true), n => n = 1
  | _, n => n = 0

namespace Sheet

variable {w w' : Sheet}

/-- Constants are stored once. -/
def Single (w : Sheet) : Prop :=
  ∀ id name, SymbolKind.Bounds (w.scopes.sense? id name) ((stored w.code).count (storageName name id))

theorem Reading.stored {code : List Instruction} (h : w.Reading w' code) : stored code = [] := by
  refine stored_eq_nil fun i hi hkind => ?_
  obtain ⟨hread | hread, -⟩ := h i hi (by rw [hkind]; rfl) <;>
  · rw [hkind] at hread
    cases hread

theorem count_named (t : ScopeTree) (name key : String) (owner id : Nat) :
    (stored [t.named .popVariable name owner]).count (storageName key id) =
      if id = owner ∧ key = name then 1 else 0 := by
  have hstored : stored [t.named .popVariable name owner] = [storageName name owner] := rfl
  rw [hstored, count_singleton]
  by_cases hsame : id = owner ∧ key = name
  · rw [if_pos hsame, hsame.1, hsame.2]
    simp
  · rw [if_neg hsame, if_neg]
    intro heq
    obtain ⟨rfl, rfl⟩ := storageName_inj (eq_of_beq heq)
    exact hsame ⟨rfl, rfl⟩

theorem Shifts.single (h : w.Shifts w') (hw : w.Single) : w'.Single := by
  intro id key
  have hold := hw id key
  cases h with
  | quiet h =>
    obtain ⟨code, hcode, hreading⟩ := h.code
    rw [h.sense, hcode, stored_append, hreading.stored, append_nil]
    exact hold
  | @declare name isMutable defined pre post code _ hfresh hsense _ hcode hcode' hreading =>
    have hdefine : stored [w.scopes.named .defineVariable name w.scopes.current] = [] := rfl
    have hcount : (stored w'.code).count (storageName key id) = (stored w.code).count (storageName key id) +
          if id = w.scopes.current ∧ key = name then (if defined then 1 else 0) else 0 := by
      have hsplit : pre ++ w.scopes.named .defineVariable name w.scopes.current :: post =
          pre ++ ([w.scopes.named .defineVariable name w.scopes.current] ++ post) := rfl
      rw [hcode', hsplit, stored_append, stored_append, stored_append, stored_append, hdefine,
        hreading.stored, nil_append, nil_append, count_append, hcode, stored_append]
      congr 1
      cases defined
      · simp [stored]
      · rw [if_pos rfl, count_named, if_pos rfl]
    rw [hsense, hcount]
    split
    · rename_i hsame
      rw [hsame.1, hsame.2, hfresh] at hold
      rw [hsame.1, hsame.2, show (stored w.code).count (storageName name w.scopes.current) = 0 from hold]
      cases isMutable <;> cases defined <;> trivial
    · exact hold
  | @store name owner isMutable defined _ hheld hfree _ hsense _ hcode =>
    rw [hsense, hcode, stored_append, count_append, count_named]
    split
    · rename_i hsame
      rw [hsame.1, hsame.2, hheld] at hold
      rcases hfree with rfl | rfl
      · trivial
      · cases isMutable with
        | false =>
          rw [hsame.1, hsame.2, show (stored w.code).count _ = 0 from hold]
          rfl
        | true => trivial
    · exact hold
  | @head f h =>
    obtain ⟨entry, pops, hentry, -, hcode, -, hpops⟩ := h.code
    have hnone : stored (entry :: pops) = [] := by
      refine stored_eq_nil (forall_mem_cons.2 ⟨by rw [hentry]; exact nofun, fun i hi => ?_⟩)
      obtain ⟨_, -, rfl⟩ := (hpops i).1 hi
      exact nofun
    rw [hcode, stored_append, hnone, append_nil]
    by_cases hfunction : id = ScopeTree.root ∧ key = f.name
    · rw [hfunction.1, hfunction.2] at hold ⊢
      rw [h.fresh] at hold
      rw [h.function]
      exact hold
    · by_cases hheader : id = w.scopes.size
      · subst hheader
        have hempty : w.scopes.sense? w.scopes.size key = none :=
          ScopeTree.sense?_eq_none_iff.2 (w.scopes.symbol?_of_le (Nat.le_refl _) key)
        rw [hempty] at hold
        cases hsense : w'.scopes.sense? w.scopes.size key with
        | none => exact hold
        | some kind =>
          obtain ⟨index, param, -, -, rfl⟩ := (h.params key kind).1 hsense
          exact hold
      · rw [h.others id key hheader hfunction]
        exact hold

end Sheet

theorem start_sense {id : Nat} {name : String} {kind : SymbolKind}
    (h : ScopeTree.withBuiltins.sense? id name = some kind) :
    ∀ isMutable ty defined, kind ≠ .var isMutable ty defined := by
  obtain ⟨symbol, hsymbol, rfl⟩ := Option.map_eq_some_iff.1 h
  have hall : ∀ id < 11, ∀ symbol ∈ (ScopeTree.withBuiltins.scope id).table.toList,
      symbol.sort ≠ .variable := by decide +kernel
  have hlt : id < 11 := by
    by_contra hle
    rw [ScopeTree.symbol?_of_le (by rw [start_size]; exact Nat.le_of_not_lt hle)] at hsymbol
    cases hsymbol
  have hmem := ((SymbolTable.get?_eq_some_iff (ScopeTree.withBuiltins_formed.ordered id)).1 hsymbol).1
  have hsort := hall id hlt symbol hmem
  intro isMutable ty defined hkind
  rcases symbol with ⟨_, _ | _ | _, _⟩
  · exact hsort rfl
  · cases hkind
  · cases hkind

theorem Sheet.start_single : Context.start.sheet.Single := by
  intro id name
  show SymbolKind.Bounds (ScopeTree.withBuiltins.sense? id name) 0
  cases hsense : ScopeTree.withBuiltins.sense? id name with
  | none => rfl
  | some kind =>
    cases kind with
    | var isMutable ty defined => exact absurd rfl (start_sense hsense isMutable ty defined)
    | function | parameter => rfl

/-- A constant is stored once in all code if it has got a value, and never otherwise; a parameter is never
stored. -/
theorem immutable_stored_once {source : String} {p : Program}
    (h : (Program.ofFeed (.ofSource source)).result = .ok p) :
    (∀ s x symbol ty defined, p.scopes.symbol? s x = some symbol → symbol.kind = .var false ty defined →
      (stored p.stream.code).count (storageName x s) = if defined then 1 else 0) ∧
    ∀ s x symbol index label ty, p.scopes.symbol? s x = some symbol →
      symbol.kind = .parameter index label ty → storageName x s ∉ stored p.stream.code := by
  obtain ⟨c, haccepted, -, hsingle⟩ := accepted_of_moves Sheet.start_single
    (fun hw hmove hsingle => (hmove.shifts hw).single hsingle) h
  have hstored : stored p.stream.code = stored c.stream.code := haccepted.trims.stored
  rw [haccepted.scopes, hstored]
  constructor
  · intro s x symbol ty defined hsymbol hkind
    have hsense : c.scopes.sense? s x = some (.var false .void defined) := by
      rw [ScopeTree.sense?, hsymbol, Option.map_some, (Symbol.untyped_of_var hkind).1]
    have hbounds := hsingle s x
    rw [show c.sheet.scopes.sense? s x = _ from hsense] at hbounds
    cases defined <;> exact hbounds
  · intro s x symbol index label ty hsymbol hkind
    have hsense : c.scopes.sense? s x = some (.parameter index label .void) := by
      rw [ScopeTree.sense?, hsymbol, Option.map_some, Symbol.untyped, Symbol.withTy, hkind]
    have hbounds := hsingle s x
    rw [show c.sheet.scopes.sense? s x = _ from hsense] at hbounds
    exact count_eq_zero.1 hbounds

/-- A constant that gets its value in a block of a later function, one that never gets a value, and the
parameter of the function. -/
theorem immutable_stored_once_later : ∃ p, (Program.ofFeed (.ofSource
        "let a: Int\nlet b: Int\nfunc f(_ n: Int) \x7b\n if n == 1 \x7b\n  a = n\n \x7d\n\x7d\n")).result = .ok p ∧
      (stored p.stream.code).count "a$0" = 1 ∧ (stored p.stream.code).count "b$0" = 0 ∧
      "n$11" ∉ stored p.stream.code := by
  refine exists_ok_of_any (fun p => (p.scopes.symbol? 0 "a").map Symbol.kind = some (.var false .int true) ∧
      (p.scopes.symbol? 0 "b").map Symbol.kind = some (.var false .int false) ∧
      (p.scopes.symbol? 11 "n").map Symbol.kind = some (.parameter 0 none .int))
    (by decide +kernel) fun p hok hfacts => ?_
  simp only [Option.map_eq_some_iff] at hfacts
  obtain ⟨⟨a, ha, hakind⟩, ⟨b, hb, hbkind⟩, n, hn, hnkind⟩ := hfacts
  obtain ⟨hconstants, hparameters⟩ := immutable_stored_once hok
  exact ⟨hconstants 0 "a" a _ _ ha hakind, hconstants 0 "b" b _ _ hb hbkind,
    hparameters 11 "n" n _ _ _ hn hnkind⟩

end OnePass
