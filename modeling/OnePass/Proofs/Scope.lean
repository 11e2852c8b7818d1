import OnePass.Scope
import OnePass.Proofs.SymbolTable
import Mathlib.Logic.Function.Basic

/-!
# Scope trees as functions of scope numbers

A scope tree is seen through two functions: the outline of each scope, which is everything but its
symbols, and the names that each scope declares.  Every operation on a tree updates these functions
at a few places.

Main results:

* `ScopeTree.outlines_createChild`, `ScopeTree.names_createChild` — a new scope;
* `ScopeTree.outlines_modifyVisible`, `ScopeTree.names_modifyVisible` — changing a symbol is seen in
  neither of the functions;
* `ancestorsBy_of_some`, `ancestorsBy_congr` — climbing, where parents have smaller numbers.
-/

namespace OnePass

/-- A scope without its symbols. -/
def Scope.outline (scope : Scope) : Scope := { scope with table := {} }

/-- A new scope below another. -/
def Scope.below (parent : Scope) (id : Nat) (kind : ScopeKind) (name : String) : Scope :=
  { kind, name, parent := some id
    frame := match kind with
      | .functionHeader | .functionBody => .local
      | _ => parent.frame }

namespace ScopeTree

variable {tree : ScopeTree} {id : Nat} {change : Scope → Scope} {name : String}

/-- The outlines of all scopes. -/
def outlines (tree : ScopeTree) (id : Nat) : Scope := (tree.scope id).outline

/-- The names that the scopes declare, each with its role. -/
def names (tree : ScopeTree) (id : Nat) : Set (String × Role) := (tree.scope id).table.names

/-- All tables can be searched. -/
def Ordered (tree : ScopeTree) : Prop := ∀ id, (tree.scope id).table.Ordered

/-! ### Changing a scope -/

@[simp] theorem size_modify (tree : ScopeTree) (id : Nat) (change : Scope → Scope) :
    (tree.modify id change).size = tree.size := by
  simp [modify, size]

theorem scope_modify_self (h : id < tree.size) (change : Scope → Scope) :
    (tree.modify id change).scope id = change (tree.scope id) := by
  have hid : id < tree.scopes.size := h
  simp [scope, modify, hid, Array.getElem_modify]

theorem scope_modify_of_ne {other : Nat} (h : other ≠ id) (change : Scope → Scope) :
    (tree.modify id change).scope other = tree.scope other := by
  simp [scope, modify, Array.getElem?_modify, h.symm]

theorem outlines_modify (h : id < tree.size) (change : Scope → Scope) : (tree.modify id change).outlines =
      Function.update tree.outlines id (change (tree.scope id)).outline := by
  funext other
  by_cases hne : other = id
  · subst hne
    rw [Function.update_self, outlines, scope_modify_self h]
  · rw [Function.update_of_ne hne, outlines, scope_modify_of_ne hne, outlines]

theorem names_modify (h : id < tree.size) (change : Scope → Scope) : (tree.modify id change).names =
      Function.update tree.names id (change (tree.scope id)).table.names := by
  funext other
  by_cases hne : other = id
  · subst hne
    rw [Function.update_self, names, scope_modify_self h]
  · rw [Function.update_of_ne hne, names, scope_modify_of_ne hne, names]

theorem Ordered.modify (h : tree.Ordered) (hchange : (change (tree.scope id)).table.Ordered) :
    (tree.modify id change).Ordered := by
  intro other
  by_cases hne : other = id
  · subst hne
    by_cases hlt : other < tree.size
    · rw [scope_modify_self hlt]
      exact hchange
    · have hsame : (tree.modify other change).scope other = tree.scope other := by
        have hsize : ¬ other < tree.scopes.size := hlt
        simp [scope, ScopeTree.modify, hsize]
      rw [hsame]
      exact h other
  · rw [scope_modify_of_ne hne]
    exact h other

theorem names_modify_of_table (h : id < tree.size)
    (hchange : (change (tree.scope id)).table = (tree.scope id).table) :
    (tree.modify id change).names = tree.names := by
  rw [names_modify h, hchange]
  exact Function.update_eq_self id tree.names

@[simp] theorem size_goTo (tree : ScopeTree) (id : Nat) : (tree.goTo id).size = tree.size := rfl

@[simp] theorem current_goTo (tree : ScopeTree) (id : Nat) : (tree.goTo id).current = id := rfl

@[simp] theorem scope_goTo (tree : ScopeTree) (id other : Nat) :
    (tree.goTo id).scope other = tree.scope other := rfl

/-! ### New scopes -/

theorem scope_of_le (h : tree.size ≤ id) : tree.scope id = default := by
  have hid : tree.scopes.size ≤ id := h
  simp [scope, hid]

theorem scope_push (tree : ScopeTree) (scope : Scope) (id : Nat) :
    ({ tree with scopes := tree.scopes.push scope } : ScopeTree).scope id =
      if id = tree.size then scope else tree.scope id := by
  simp only [ScopeTree.scope, Array.getD_eq_getD_getElem?, Array.getElem?_push, size]
  split <;> rfl

section createChild

variable {tree : ScopeTree} {parent : Nat}

@[simp] theorem size_createChild (kind : ScopeKind) (name : String) :
    (tree.createChild parent kind name).1.size = tree.size + 1 := by
  simp [createChild, size, modify]

theorem outlines_createChild (h : parent < tree.size) (kind : ScopeKind) (name : String) :
    (tree.createChild parent kind name).1.outlines = Function.update
        (Function.update tree.outlines tree.size ((tree.outlines parent).below parent kind name))
        parent
        { tree.outlines parent with children := (tree.outlines parent).children ++ [tree.size] } := by
  have hgrown : ∀ scope, parent < ({ tree with scopes := tree.scopes.push scope } : ScopeTree).size :=
    fun scope => by
      simp only [size, Array.size_push]
      exact Nat.lt_succ_of_lt h
  simp only [createChild]
  rw [outlines_modify (hgrown _), scope_push, if_neg (Nat.ne_of_lt h)]
  congr 1
  funext id
  rw [outlines, scope_push]
  by_cases hid : id = tree.size
  · subst hid
    rw [if_pos rfl, Function.update_self]
    cases kind <;> rfl
  · rw [if_neg hid, Function.update_of_ne hid, outlines]

theorem names_createChild (h : parent < tree.size) (kind : ScopeKind) (name : String) :
    (tree.createChild parent kind name).1.names = Function.update tree.names tree.size ∅ := by
  have hgrown : ∀ scope, parent < ({ tree with scopes := tree.scopes.push scope } : ScopeTree).size :=
    fun scope => by
      simp only [size, Array.size_push]
      exact Nat.lt_succ_of_lt h
  simp only [createChild]
  rw [names_modify_of_table (hgrown _) rfl]
  funext id
  rw [names, scope_push]
  by_cases hid : id = tree.size
  · subst hid
    rw [if_pos rfl, Function.update_self]
    exact SymbolTable.names_empty
  · rw [if_neg hid, Function.update_of_ne hid, names]

theorem Ordered.createChild (hordered : tree.Ordered) (kind : ScopeKind) (name : String) :
    (tree.createChild parent kind name).1.Ordered := by
  have hgrown : ∀ scope : Scope, scope.table = {} →
      ({ tree with scopes := tree.scopes.push scope } : ScopeTree).Ordered := by
    intro scope htable id
    rw [scope_push]
    split
    · rw [htable]
      exact SymbolTable.ordered_empty
    · exact hordered id
  exact (hgrown _ rfl).modify (hgrown _ rfl parent)

section nextConditionalName

variable (h : tree.current < tree.size) (kind : ScopeKind)

@[simp] theorem size_nextConditionalName : (tree.nextConditionalName kind).1.size = tree.size :=
  size_modify ..

include h

theorem names_numbered (name : String) :
    ((tree.nextConditionalName kind).1.createChild tree.current kind name).1.names =
      Function.update tree.names tree.size ∅ := by
  have hsize : (tree.nextConditionalName kind).1.size = tree.size := size_nextConditionalName kind
  have hcounted : (tree.nextConditionalName kind).1.names = tree.names :=
    names_modify_of_table h rfl
  rw [names_createChild (hsize ▸ h), hsize, hcounted]

theorem outlines_numbered (name : String) :
    ((tree.nextConditionalName kind).1.createChild tree.current kind name).1.outlines = Function.update
        (Function.update tree.outlines tree.size ((tree.outlines tree.current).below tree.current kind name))
        tree.current
        { tree.outlines tree.current with
          children := (tree.outlines tree.current).children ++ [tree.size]
          conditionals := (tree.outlines tree.current).conditionals + 1 } := by
  have hcounted : (tree.nextConditionalName kind).1.outlines = Function.update tree.outlines tree.current
        { tree.outlines tree.current with
          conditionals := (tree.outlines tree.current).conditionals + 1 } :=
    outlines_modify h _
  have hsize : (tree.nextConditionalName kind).1.size = tree.size := size_nextConditionalName kind
  rw [outlines_createChild (hsize ▸ h), hsize, hcounted]
  funext id
  by_cases hid : id = tree.current
  · subst hid
    rw [Function.update_self, Function.update_self, Function.update_self]
  · rw [Function.update_of_ne hid, Function.update_of_ne hid, Function.update_self]
    by_cases hid' : id = tree.size
    · subst hid'
      rw [Function.update_self, Function.update_self]
      rfl
    · rw [Function.update_of_ne hid', Function.update_of_ne hid', Function.update_of_ne hid]

end nextConditionalName

end createChild

/-! ### Changing symbols -/

section modifyVisible

variable {tree : ScopeTree} {change : Symbol → Symbol}

theorem size_modifyVisible (id : Nat) (name : String) :
    (tree.modifyVisible id name change).size = tree.size := by
  unfold modifyVisible
  split
  · exact size_modify ..
  · rfl

theorem current_modifyVisible (id : Nat) (name : String) :
    (tree.modifyVisible id name change).current = tree.current := by
  unfold modifyVisible
  split <;> rfl

theorem outlines_modifyVisible (id : Nat) (name : String) :
    (tree.modifyVisible id name change).outlines = tree.outlines := by
  unfold modifyVisible
  split
  · rename_i owner _
    funext other
    by_cases hne : other = owner
    · subst hne
      by_cases hlt : other < tree.size
      · rw [outlines, scope_modify_self hlt, outlines]
        rfl
      · have hle := Nat.le_of_not_lt hlt
        rw [outlines, scope_of_le (by simpa using hle), outlines, scope_of_le hle]
    · rw [outlines, scope_modify_of_ne hne, outlines]
  · rfl

theorem names_modifyVisible (hordered : tree.Ordered) (hname : ∀ s, (change s).name = s.name)

    (hrole : ∀ s, tree.lookup? id name = some s → (change s).role = s.role) :
    (tree.modifyVisible id name change).names = tree.names ∧ (tree.modifyVisible id name change).Ordered := by
  unfold modifyVisible
  split
  · rename_i owner howner
    obtain ⟨hordered', hnames⟩ := SymbolTable.names_modify (hordered owner) name hname fun s hs =>
      hrole s (by rw [lookup?, howner]; exact hs)
    refine ⟨?_, hordered.modify hordered'⟩
    funext other
    by_cases hne : other = owner
    · subst hne
      by_cases hlt : other < tree.size
      · rw [names, scope_modify_self hlt, names]
        exact hnames
      · have hle := Nat.le_of_not_lt hlt
        rw [names, scope_of_le (by simpa using hle), names, scope_of_le hle]
    · rw [names, scope_modify_of_ne hne, names]
  · exact ⟨rfl, hordered⟩

end modifyVisible

theorem header_of_function? {header : Nat} (h : tree.function? name = some header) :
    (tree.scope header).kind = .functionHeader ∧ (tree.scope header).name = name := by
  simpa using List.find?_some h

theorem functionResult?_eq_some_iff (hordered : tree.Ordered) {returns : Ty} :
    tree.functionResult? name = some returns ↔
      ∃ builtin, (name, ⟨.function builtin, returns⟩) ∈ tree.names root := by
  rw [functionResult?, Option.map_eq_some_iff]
  constructor
  · rintro ⟨symbol, hsymbol, rfl⟩
    obtain ⟨hget, hfunction⟩ := Option.filter_eq_some_iff.1 hsymbol
    have hmem := SymbolTable.mem_names_of_get? (hordered root) hget
    rcases symbol with ⟨_, _ | ⟨returns, builtin⟩ | _, _⟩
    · cases hfunction
    · exact ⟨builtin, hmem⟩
    · cases hfunction
  · rintro ⟨builtin, symbol, hmem, heq⟩
    have hget : (tree.scope root).table.get? name = some symbol :=
      (SymbolTable.get?_eq_some_iff (hordered root)).2 ⟨hmem, congrArg Prod.fst heq⟩
    have hrole : symbol.role = ⟨.function builtin, returns⟩ := congrArg Prod.snd heq
    rcases symbol with ⟨_, _ | _ | _, _⟩ <;> cases hrole
    exact ⟨_, Option.filter_eq_some_iff.2 ⟨hget, rfl⟩, rfl⟩

end ScopeTree

/-! ### Climbing -/

/-- A number and the numbers above it, at most `n` of them. -/
def climbBy (parent : Nat → Option Nat) : Nat → Nat → List Nat
  | 0, _ => []
  | n + 1, id =>
      id :: match parent id with
        | some above => climbBy parent n above
        | none => []

/-- A number and all numbers above it. -/
def ancestorsBy (parent : Nat → Option Nat) (id : Nat) : List Nat := climbBy parent (id + 1) id

/-- Parents have smaller numbers. -/
def Rooted (parent : Nat → Option Nat) : Prop := ∀ id above, parent id = some above → above < id

theorem ScopeTree.ancestors_eq (tree : ScopeTree) (id : Nat) :
    tree.ancestors id = ancestorsBy (fun id => (tree.outlines id).parent) id := by
  have hclimb : ∀ n id, tree.climb n id = climbBy (fun id => (tree.outlines id).parent) n id := by
    intro n
    induction n with
    | zero => exact fun _ => rfl
    | succ n ih =>
      intro id
      rw [ScopeTree.climb, climbBy]
      simp only [ih]
      rfl
  exact hclimb (id + 1) id

section ancestors

variable {parent : Nat → Option Nat}
variable {id : Nat}

theorem climbBy_succ (n id : Nat) : climbBy parent (n + 1) id =
    id :: match parent id with | some above => climbBy parent n above | none => [] := rfl

theorem climbBy_eq (h : Rooted parent) {n m : Nat} (hn : id < n) (hm : id < m) :
    climbBy parent n id = climbBy parent m id := by
  induction id using Nat.strong_induction_on generalizing n m with
  | _ id ih =>
    obtain ⟨n, rfl⟩ : ∃ k, n = k + 1 := ⟨n - 1, by omega⟩
    obtain ⟨m, rfl⟩ : ∃ k, m = k + 1 := ⟨m - 1, by omega⟩
    rw [climbBy_succ, climbBy_succ]
    cases habove : parent id with
    | none => rfl
    | some above =>
      have hlt := h id above habove
      exact congrArg (id :: ·) (ih above hlt (by omega) (by omega))

theorem ancestorsBy_of_none (hnone : parent id = none) : ancestorsBy parent id = [id] := by
  rw [ancestorsBy, climbBy_succ, hnone]

theorem ancestorsBy_of_some (h : Rooted parent) {above : Nat} (hsome : parent id = some above) :
    ancestorsBy parent id = id :: ancestorsBy parent above := by
  rw [ancestorsBy, climbBy_succ, hsome, ancestorsBy]
  have hlt := h id above hsome
  simp only
  rw [climbBy_eq h (by omega) (Nat.lt_succ_self above)]

theorem mem_ancestorsBy_self (id : Nat) : id ∈ ancestorsBy parent id := List.mem_cons_self

theorem le_of_mem_ancestorsBy (h : Rooted parent) {other : Nat} (hmem : other ∈ ancestorsBy parent id) :
    other ≤ id := by
  induction id using Nat.strong_induction_on with
  | _ id ih =>
    cases habove : parent id with
    | none =>
      rw [ancestorsBy_of_none habove, List.mem_singleton] at hmem
      exact Nat.le_of_eq hmem
    | some above =>
      rw [ancestorsBy_of_some h habove] at hmem
      have hlt := h id above habove
      rcases List.mem_cons.1 hmem with rfl | hmem
      · exact Nat.le_refl _
      · exact Nat.le_trans (ih above hlt hmem) (Nat.le_of_lt hlt)

theorem ancestorsBy_congr (h : Rooted parent) {other : Nat → Option Nat}
    (hsame : ∀ i ≤ id, other i = parent i) : ancestorsBy other id = ancestorsBy parent id := by
  have hclimb : ∀ n id, (∀ i ≤ id, other i = parent i) → climbBy other n id = climbBy parent n id := by
    intro n
    induction n with
    | zero => exact fun _ _ => rfl
    | succ n ih =>
      intro id hsame
      rw [climbBy_succ, climbBy_succ, hsame id (Nat.le_refl _)]
      cases habove : parent id with
      | none => rfl
      | some above =>
        have hlt := h id above habove
        simp only
        rw [ih above fun i hi => hsame i (by omega)]
  exact hclimb _ _ hsame

end ancestors

end OnePass
