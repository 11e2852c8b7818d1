import OnePass.Program
import OnePass.Proofs.Relocation
import OnePass.Proofs.Run

/-!
# Contexts with other places

The places of tokens go into symbols, calls and the log.  Here these get other places, and everything that
is looked up in scopes, or done to them, is seen to go through under such a move.

Main results:

* `SymbolTree.insert_relocate`, `SymbolTree.get?_relocate` — tables do not look at places;
* `ScopeTree.lookup?_relocate`, `ScopeTree.checkReturns_relocate` and others — nor does anything in scopes;
* `Context.start_relocate` — at the start there are no places.
-/

namespace OnePass

variable (f : Location → Location)

/-! ### Symbols -/

/-- The symbol with another place. -/
def Symbol.relocate (symbol : Symbol) : Symbol := { symbol with location := symbol.location.map f }

namespace Symbol

variable (symbol : Symbol)

@[simp] theorem relocate_name : (symbol.relocate f).name = symbol.name := rfl

@[simp] theorem relocate_kind : (symbol.relocate f).kind = symbol.kind := rfl

@[simp] theorem relocate_ty : (symbol.relocate f).ty = symbol.ty := rfl

@[simp] theorem relocate_isDefined : (symbol.relocate f).isDefined = symbol.isDefined := rfl

@[simp] theorem relocate_isFunction : (symbol.relocate f).isFunction = symbol.isFunction := rfl

@[simp] theorem relocate_isParameterAt (index : Nat) :
    (symbol.relocate f).isParameterAt index = symbol.isParameterAt index := rfl

theorem withTy_relocate (ty : Ty) : (symbol.relocate f).withTy ty = (symbol.withTy ty).relocate f := by
  unfold withTy
  cases hkind : symbol.kind <;> simp only [relocate_kind, hkind] <;> rfl

theorem withDefined_relocate (defined : Bool) :
    (symbol.relocate f).withDefined defined = (symbol.withDefined defined).relocate f := by
  unfold withDefined
  cases hkind : symbol.kind <;> simp only [relocate_kind, hkind] <;> rfl

end Symbol

/-! ### Tables -/

/-- The tree with other places. -/
def SymbolTree.relocate : SymbolTree → SymbolTree
  | .leaf => .leaf
  | .node left symbol height right => .node (relocate left) (symbol.relocate f) height (relocate right)

namespace SymbolTree

attribute [local simp] relocate

@[simp] theorem relocate_height (tree : SymbolTree) : (tree.relocate f).height = tree.height := by
  cases tree <;> rfl

theorem toList_relocate (tree : SymbolTree) :
    (tree.relocate f).toList = tree.toList.map (Symbol.relocate f) := by
  induction tree with
  | leaf => rfl
  | node left symbol height right ihl ihr => simp [toList, ihl, ihr]

theorem get?_relocate (name : String) (tree : SymbolTree) :
    (tree.relocate f).get? name = (tree.get? name).map (Symbol.relocate f) := by
  induction tree with
  | leaf => rfl
  | node left symbol height right ihl ihr =>
    simp only [relocate, get?, Symbol.relocate_name, ihl, ihr]
    by_cases heq : name = symbol.name
    · rw [if_pos heq, if_pos heq, Option.map_some]
    · rw [if_neg heq, if_neg heq]
      by_cases hlt : name < symbol.name
      · rw [if_pos hlt, if_pos hlt]
      · rw [if_neg hlt, if_neg hlt]

theorem modify_relocate (name : String) {change : Symbol → Symbol}
    (h : ∀ symbol, change (symbol.relocate f) = (change symbol).relocate f) (tree : SymbolTree) :
    (tree.relocate f).modify name change = (tree.modify name change).relocate f := by
  induction tree with
  | leaf => rfl
  | node left symbol height right ihl ihr =>
    simp only [relocate, modify, Symbol.relocate_name, h, ihl, ihr]
    split
    · rfl
    · split <;> rfl

@[simp] theorem join_relocate (left : SymbolTree) (symbol : Symbol) (right : SymbolTree) :
    join (left.relocate f) (symbol.relocate f) (right.relocate f) = (join left symbol right).relocate f := by
  simp [join]

@[simp] theorem rotateRight_relocate (tree : SymbolTree) :
    (tree.relocate f).rotateRight = tree.rotateRight.relocate f := by
  rcases tree with _ | ⟨_ | ⟨left, pivot, _, middle⟩, symbol, _, right⟩ <;> simp [rotateRight]

@[simp] theorem rotateLeft_relocate (tree : SymbolTree) :
    (tree.relocate f).rotateLeft = tree.rotateLeft.relocate f := by
  rcases tree with _ | ⟨left, symbol, _, _ | ⟨middle, pivot, _, right⟩⟩ <;> simp [rotateLeft]

@[simp] theorem rootName_relocate (test : String → Bool) (tree : SymbolTree) :
    (tree.relocate f).rootName test = tree.rootName test := by
  cases tree <;> rfl

theorem rebalance_relocate (name : String) (left : SymbolTree) (symbol : Symbol) (right : SymbolTree) :
    rebalance name (left.relocate f) (symbol.relocate f) (right.relocate f) =
      (rebalance name left symbol right).relocate f := by
  simp only [rebalance, relocate_height, rootName_relocate]
  split
  · split <;> simp
  · split
    · split <;> simp
    · simp

/-- **Inserting a symbol does not look at places.** -/
theorem insert_relocate (entry : Symbol) (tree : SymbolTree) :
    (tree.relocate f).insert (entry.relocate f) = (tree.insert entry).relocate f := by
  induction tree with
  | leaf => rfl
  | node left symbol height right ihl ihr =>
    simp only [relocate, insert, Symbol.relocate_name, ihl, ihr, rebalance_relocate]
    split <;> rfl

end SymbolTree

/-- The table with other places. -/
def SymbolTable.relocate (table : SymbolTable) : SymbolTable := { table with tree := table.tree.relocate f }

namespace SymbolTable

variable (table : SymbolTable)

@[simp] theorem get?_relocate (name : String) :
    (table.relocate f).get? name = (table.get? name).map (Symbol.relocate f) :=
  SymbolTree.get?_relocate f name table.tree

@[simp] theorem contains_relocate (name : String) : (table.relocate f).contains name = table.contains name := by
  rw [contains, contains, get?_relocate, Option.isSome_map]

theorem insert_relocate (symbol : Symbol) : (table.relocate f).insert (symbol.relocate f) =
      relocateResult f (SymbolTable.relocate f) (table.insert symbol) := by
  unfold insert
  rw [get?_relocate, Symbol.relocate_name]
  cases table.get? symbol.name with
  | some earlier => rfl
  | none => simp only [Option.map_none, relocateResult, relocate, SymbolTree.insert_relocate]

theorem modify_relocate (name : String) {change : Symbol → Symbol}
    (h : ∀ symbol, change (symbol.relocate f) = (change symbol).relocate f) :
    (table.relocate f).modify name change = (table.modify name change).relocate f := by
  simp only [modify, relocate, SymbolTree.modify_relocate f name h]

@[simp] theorem parameterAt?_relocate (index : Nat) :
    (table.relocate f).parameterAt? index = (table.parameterAt? index).map (Symbol.relocate f) := by
  unfold parameterAt? toList
  rw [relocate, SymbolTree.toList_relocate, List.find?_map]
  rfl

end SymbolTable

/-! ### Scopes -/

/-- The scope with other places. -/
def Scope.relocate (scope : Scope) : Scope := { scope with table := scope.table.relocate f }

theorem Scope.relocate_parent (scope : Scope) : (scope.relocate f).parent = scope.parent := rfl

/-- The scopes with other places. -/
def ScopeTree.relocate (tree : ScopeTree) : ScopeTree :=
  { tree with scopes := tree.scopes.map (Scope.relocate f) }

namespace ScopeTree

variable (tree : ScopeTree)

@[simp] theorem relocate_current : (tree.relocate f).current = tree.current := rfl

@[simp] theorem relocate_size : (tree.relocate f).size = tree.size := Array.size_map

@[simp] theorem scope_relocate (id : Nat) : (tree.relocate f).scope id = (tree.scope id).relocate f := by
  unfold scope
  simp only [relocate, Array.getD_eq_getD_getElem?, Array.getElem?_map]
  cases tree.scopes[id]? <;> rfl

theorem modify_relocate (id : Nat) {change : Scope → Scope}
    (h : ∀ scope, change (scope.relocate f) = (change scope).relocate f) :
    (tree.relocate f).modify id change = (tree.modify id change).relocate f := by
  simp only [modify, relocate, ScopeTree.mk.injEq, and_true]
  refine Array.ext (by simp) fun i hi hi' => ?_
  simp only [Array.getElem_modify, Array.getElem_map]
  split
  · rw [h]
  · rfl

theorem setTable_relocate (id : Nat) (table : SymbolTable) :
    (tree.relocate f).setTable id (table.relocate f) = (tree.setTable id table).relocate f := by
  simp only [setTable, modify, relocate, ScopeTree.mk.injEq, and_true]
  refine Array.ext (by simp) fun i hi hi' => ?_
  simp only [Array.getElem_modify, Array.getElem_map]
  split <;> rfl

theorem frameOf_relocate (parent : Nat) (kind : ScopeKind) :
    (tree.relocate f).frameOf parent kind = tree.frameOf parent kind := by
  cases kind <;> simp only [frameOf, scope_relocate] <;> rfl

theorem createChild_relocate (parent : Nat) (kind : ScopeKind) (name : String) :
    (tree.relocate f).createChild parent kind name =
      ((tree.createChild parent kind name).1.relocate f, (tree.createChild parent kind name).2) := by
  simp only [createChild, relocate_size, frameOf_relocate]
  refine Prod.ext ?_ rfl
  show _ = ScopeTree.relocate f (ScopeTree.modify _ _ _)
  refine Eq.trans ?_ (modify_relocate f _ parent fun _ => rfl)
  simp only [relocate, Array.map_push]
  rfl

theorem leave_relocate : (tree.relocate f).leave = relocateResult f (ScopeTree.relocate f) tree.leave := by
  simp only [leave, scope_relocate, relocate_current, Scope.relocate_parent]
  cases (tree.scope tree.current).parent <;> rfl

theorem nextConditionalName_relocate (kind : ScopeKind) : (tree.relocate f).nextConditionalName kind =
      ((tree.nextConditionalName kind).1.relocate f, (tree.nextConditionalName kind).2) := by
  simp only [nextConditionalName, scope_relocate, relocate_current]
  exact Prod.ext (modify_relocate f tree _ fun _ => rfl) rfl

/-! ### What is in sight -/

theorem climb_relocate (n id : Nat) : (tree.relocate f).climb n id = tree.climb n id := by
  induction n generalizing id with
  | zero => rfl
  | succ n ih =>
    simp only [climb, scope_relocate, ih]
    rfl

@[simp] theorem ancestors_relocate (id : Nat) : (tree.relocate f).ancestors id = tree.ancestors id :=
  climb_relocate f tree _ id

@[simp] theorem owner?_relocate (id : Nat) (name : String) :
    (tree.relocate f).owner? id name = tree.owner? id name := by
  simp only [owner?, ancestors_relocate, scope_relocate, Scope.relocate, SymbolTable.contains_relocate]

theorem lookup?_relocate (id : Nat) (name : String) :
    (tree.relocate f).lookup? id name = (tree.lookup? id name).map (Symbol.relocate f) := by
  simp only [lookup?, owner?_relocate, scope_relocate]
  cases tree.owner? id name with
  | none => rfl
  | some owner => exact SymbolTable.get?_relocate f _ name

theorem modifyVisible_relocate (id : Nat) (name : String) {change : Symbol → Symbol}
    (h : ∀ symbol, change (symbol.relocate f) = (change symbol).relocate f) :
    (tree.relocate f).modifyVisible id name change = (tree.modifyVisible id name change).relocate f := by
  simp only [modifyVisible, owner?_relocate]
  cases tree.owner? id name with
  | none => rfl
  | some owner =>
    refine modify_relocate f tree owner fun scope => ?_
    simp only [Scope.relocate, SymbolTable.modify_relocate f _ name h]

@[simp] theorem function?_relocate (name : String) : (tree.relocate f).function? name = tree.function? name := by
  simp only [function?, scope_relocate]
  rfl

@[simp] theorem functionResult?_relocate (name : String) :
    (tree.relocate f).functionResult? name = tree.functionResult? name := by
  simp only [functionResult?, scope_relocate, Scope.relocate, SymbolTable.get?_relocate]
  cases (tree.scope root).table.get? name with
  | none => rfl
  | some symbol =>
    cases hfunction : symbol.isFunction <;> simp [Option.filter, hfunction]

@[simp] theorem outermostWhile?_relocate (id : Nat) :
    (tree.relocate f).outermostWhile? id = tree.outermostWhile? id := by
  simp only [outermostWhile?, loops, ancestors_relocate, scope_relocate]
  rfl

@[simp] theorem enclosingFunction_relocate (id : Nat) :
    (tree.relocate f).enclosingFunction id = tree.enclosingFunction id := by
  simp only [enclosingFunction, ancestors_relocate, scope_relocate]
  rfl

theorem returnsWithin_relocate (n id : Nat) : (tree.relocate f).returnsWithin n id = tree.returnsWithin n id := by
  induction n generalizing id with
  | zero => rfl
  | succ n ih =>
    simp only [returnsWithin, scope_relocate, ih]
    rfl

/-- **The check of returns does not look at places.** -/
theorem checkReturns_relocate : (tree.relocate f).checkReturns = tree.checkReturns := by
  have hvalue : ∀ header, (tree.relocate f).returnsValue header = tree.returnsValue header := by
    intro header
    simp only [returnsValue, scope_relocate, Scope.relocate, SymbolTable.get?_relocate, Option.map_map]
    rfl
  have hbody : ∀ header, (tree.relocate f).bodyReturns header = tree.bodyReturns header := by
    intro header
    simp only [bodyReturns, scope_relocate]
    have hreturns : (tree.relocate f).returns = tree.returns :=
      funext fun id => by rw [returns, returns, relocate_size, returnsWithin_relocate]
    rw [hreturns]
    rfl
  simp only [checkReturns, scope_relocate, hvalue, hbody]
  rfl

end ScopeTree

/-! ### Calls and contexts -/

/-- The argument with another place. -/
def Argument.relocate (argument : Argument) : Argument :=
  { argument with location := argument.location.map f }

/-- The call with other places. -/
def CallSite.relocate (site : CallSite) : CallSite :=
  { site with
    arguments := site.arguments.map (Argument.relocate f)
    location := site.location.map f }

/-- The calls with other places. -/
def Calls.relocate (calls : Calls) : Calls := { recorded := calls.recorded.map (CallSite.relocate f) }

@[simp] theorem Calls.relocate_length (calls : Calls) : (calls.relocate f).length = calls.length :=
  List.length_map _

theorem Calls.toList_relocate (calls : Calls) :
    (calls.relocate f).toList = calls.toList.map (CallSite.relocate f) := by
  simp [toList, relocate]

/-- The record with another place. -/
def LogRecord.relocate : LogRecord → LogRecord
  | .tokenRead token => .tokenRead (token.relocate f)
  | record => record

/-- The context with other places. -/
def Context.relocate (context : Context) : Context :=
  { context with
    scopes := context.scopes.relocate f
    calls := context.calls.relocate f
    arguments := context.arguments.map (Argument.relocate f)
    log := context.log.map (LogRecord.relocate f) }

namespace Context

variable (context : Context)

@[simp] theorem relocate_scopes : (context.relocate f).scopes = context.scopes.relocate f := rfl

@[simp] theorem relocate_stream : (context.relocate f).stream = context.stream := rfl

@[simp] theorem relocate_calls : (context.relocate f).calls = context.calls.relocate f := rfl

@[simp] theorem relocate_values : (context.relocate f).values = context.values := rfl

@[simp] theorem relocate_blocks : (context.relocate f).blocks = context.blocks := rfl

@[simp] theorem relocate_arguments :
    (context.relocate f).arguments = context.arguments.map (Argument.relocate f) := rfl

end Context

/-! ### The start -/

theorem Builtin.parameterTable_relocate (builtin : Builtin) :
    builtin.parameterTable.relocate f = builtin.parameterTable := by
  have hfold : ∀ (symbols : List Symbol) (tree : SymbolTree), (∀ s ∈ symbols, s.relocate f = s) →
      (symbols.foldl (fun tree symbol => tree.insert symbol) tree).relocate f =
        symbols.foldl (fun tree symbol => tree.insert symbol) (tree.relocate f) := by
    intro symbols
    induction symbols with
    | nil => exact fun _ _ => rfl
    | cons symbol symbols ih =>
      intro tree hsymbols
      obtain ⟨hsymbol, hrest⟩ := List.forall_mem_cons.1 hsymbols
      rw [List.foldl_cons, List.foldl_cons, ih _ hrest, ← SymbolTree.insert_relocate, hsymbol]
  have hsymbols : ∀ s ∈ builtin.parameterSymbols, s.relocate f = s := by
    intro s hs
    obtain ⟨index, hindex, rfl⟩ := List.mem_mapIdx.1 hs
    rfl
  simp only [parameterTable, SymbolTable.relocate, hfold _ _ hsymbols]
  rfl

theorem ScopeTree.addHeader_relocate (tree : ScopeTree) (builtin : Builtin) :
    (tree.relocate f).addHeader builtin = (tree.addHeader builtin).relocate f := by
  simp only [addHeader, createChild_relocate]
  refine modify_relocate f _ _ fun scope => ?_
  simp only [Scope.relocate, Builtin.parameterTable_relocate]

theorem ScopeTree.register_relocate (builtins : List Builtin) (tree : ScopeTree) :
    (register builtins (tree.relocate f)).2 = (register builtins tree).2.relocate f := by
  induction builtins generalizing tree with
  | nil => rfl
  | cons builtin later ih =>
    have hinsert := SymbolTable.insert_relocate f (tree.scope root).table builtin.symbol
    simp only [register, scope_relocate, Scope.relocate]
    rw [show builtin.symbol = builtin.symbol.relocate f from rfl, hinsert,
      show builtin.symbol.relocate f = builtin.symbol from rfl]
    cases (tree.scope root).table.insert builtin.symbol with
    | error d => rfl
    | ok table =>
      simp only [relocateResult]
      rw [← ih, setTable_relocate, addHeader_relocate]

/-- **At the start there are no places.** -/
theorem Context.start_relocate : Context.start.relocate f = Context.start := by
  have hstart : ScopeTree.start.relocate f = ScopeTree.start := by
    simp only [ScopeTree.relocate, ScopeTree.start, List.map_toArray, List.map_cons, List.map_nil]
    rfl
  have hscopes : ScopeTree.withBuiltins.relocate f = ScopeTree.withBuiltins := by
    rw [ScopeTree.withBuiltins, ← ScopeTree.register_relocate, hstart]
  rw [Context.relocate]
  simp only [Context.start, hscopes]
  rfl

end OnePass
