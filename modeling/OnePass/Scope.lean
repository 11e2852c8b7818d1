import OnePass.Instruction
import OnePass.SymbolTable

/-!
# Scopes

Scopes form a tree. Each has its own symbols, counts the conditionals and parameters it has named, and
remembers whether it returns. Scopes are numbered in the order of their creation, the global scope being `0`,
and none is ever dropped; one scope is the current one.

* `Scope`, `ScopeTree` — a scope, and the tree;
* `ScopeTree.createChild`, `enter`, `goTo`, `leave` — building and walking the tree;
* `ScopeTree.ancestors` — a scope and everything around it, inside out;
* `ScopeTree.lookup?`, `outermostWhile?`, `enclosingFunction` — what is in sight from a scope.
-/

namespace OnePass

inductive ScopeKind where
  | global
  | functionHeader
  | functionBody
  | thenBranch
  | elseBranch
  | whileBody
deriving DecidableEq, Repr, Inhabited

def ScopeKind.text : ScopeKind → String
  | global => "Global"
  | functionHeader => "FunctionHeader"
  | functionBody => "FunctionBody"
  | thenBranch => "If"
  | elseBranch => "Else"
  | whileBody => "While"

structure Scope where
  kind : ScopeKind
  name : String
  parent : Option Nat
  children : List Nat := []
  table : SymbolTable := {}
  conditionals : Nat := 0
  parameters : Nat := 0
  hasReturn : Bool := false
  frame : Frame
  otherwise : Option Nat := none
deriving Repr, Inhabited

/-- All scopes, and which one is the current one. -/
structure ScopeTree where
  scopes : Array Scope
  current : Nat
deriving Repr, Inhabited

namespace ScopeTree

def root : Nat := 0

def start : ScopeTree :=
  { scopes := #[{ kind := .global, name := "$main", parent := none, frame := .global }], current := root }

def size (tree : ScopeTree) : Nat := tree.scopes.size

def scope (tree : ScopeTree) (id : Nat) : Scope := tree.scopes.getD id default

def modify (tree : ScopeTree) (id : Nat) (change : Scope → Scope) : ScopeTree :=
  { tree with scopes := tree.scopes.modify id change }

def setTable (tree : ScopeTree) (id : Nat) (table : SymbolTable) : ScopeTree :=
  tree.modify id fun scope => { scope with table }

/-! ### Building and walking the tree -/

def frameOf (tree : ScopeTree) (parent : Nat) : ScopeKind → Frame
  | .functionHeader | .functionBody => .local
  | _ => (tree.scope parent).frame

def createChild (tree : ScopeTree) (parent : Nat) (kind : ScopeKind) (name : String) : ScopeTree × Nat :=
  let id := tree.size
  let scope : Scope := { kind, name, parent := some parent, frame := tree.frameOf parent kind }
  let grown : ScopeTree := { tree with scopes := tree.scopes.push scope }
  (grown.modify parent fun scope => { scope with children := scope.children ++ [id] }, id)

def goTo (tree : ScopeTree) (id : Nat) : ScopeTree := { tree with current := id }

def enter (tree : ScopeTree) (kind : ScopeKind) (name : String) : ScopeTree × Nat :=
  let (tree, id) := tree.createChild tree.current kind name
  (tree.goTo id, id)

def leave (tree : ScopeTree) : Except Diagnostic ScopeTree :=
  match (tree.scope tree.current).parent with
  | some parent => .ok (tree.goTo parent)
  | none => .error { fault := .leavingGlobalScope }

def nextConditionalName (tree : ScopeTree) (kind : ScopeKind) : ScopeTree × String :=
  let scope := tree.scope tree.current
  let count := scope.conditionals + 1
  let tag := match kind with
    | .whileBody => "while"
    | _ => "if"
  (tree.modify tree.current fun scope => { scope with conditionals := scope.conditionals + 1 },
    s!"{scope.name}${tag}{count}")

/-! ### What is in sight -/

def climb (tree : ScopeTree) : Nat → Nat → List Nat
  | 0, _ => []
  | n + 1, id =>
      id :: match (tree.scope id).parent with
        | some parent => climb tree n parent
        | none => []

/-- A scope and all scopes around it, inside out. A scope has a larger number than the one around it, which
bounds the climb. -/
def ancestors (tree : ScopeTree) (id : Nat) : List Nat := tree.climb (id + 1) id

def owner? (tree : ScopeTree) (id : Nat) (name : String) : Option Nat :=
  (tree.ancestors id).find? fun id => (tree.scope id).table.contains name

def lookup? (tree : ScopeTree) (id : Nat) (name : String) : Option Symbol := do
  (tree.scope (← tree.owner? id name)).table.get? name

def modifyVisible (tree : ScopeTree) (id : Nat) (name : String) (change : Symbol → Symbol) : ScopeTree :=
  match tree.owner? id name with
  | some owner => tree.modify owner fun scope => { scope with table := scope.table.modify name change }
  | none => tree

def function? (tree : ScopeTree) (name : String) : Option Nat :=
  (tree.scope root).children.find? fun id =>
    (tree.scope id).kind == .functionHeader && (tree.scope id).name == name

def functionResult? (tree : ScopeTree) (name : String) : Option Ty :=
  (((tree.scope root).table.get? name).filter (·.isFunction)).map (·.ty)

def loops (tree : ScopeTree) (id : Nat) : List Nat :=
  (tree.ancestors id).filter fun id => (tree.scope id).kind == .whileBody

def enclosingWhile? (tree : ScopeTree) (id : Nat) : Option Nat := (tree.loops id).head?

def outermostWhile? (tree : ScopeTree) (id : Nat) : Option Nat := (tree.loops id).getLast?

def enclosingFunction (tree : ScopeTree) (id : Nat) : Except Diagnostic Nat :=
  match (tree.ancestors id).find? fun id => (tree.scope id).kind == .functionHeader with
  | some header => .ok header
  | none => .error { fault := .returnOutsideFunction }

end ScopeTree

end OnePass
