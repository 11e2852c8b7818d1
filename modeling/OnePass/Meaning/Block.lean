import OnePass.Meaning.Expression

/-!
# The meaning of conditionals, loops and functions

Each block has a scope of its own, and marks in the stream say where it begins and ends. A conditional on the
presence of a variable narrows the variable's type until the end of its first block.

* `Meaning.beginIf`, `ifCondition`, `ifLet`, `endThen`, `beginElse`, `endElse`, `endIf` — conditionals;
* `Meaning.beginWhile`, `whileCondition`, `endWhile` — loops;
* `Meaning.functionName`, `beginParameters`, `parameter`, `beginBody`, `endFunction` — functions;
* `Meaning.beginReturn`, `endReturn` — return statements.
-/

namespace OnePass.Meaning

/-! ### Open blocks -/

def openBlock (kind : ScopeKind) : Meaning Nat := do
  let id ← createNumbered kind
  modify fun context => { context with blocks := { scope := id } :: context.blocks }
  pure id

def innermost : Meaning OpenBlock := do
  match (← get).blocks with
  | block :: _ => pure block
  | [] => throw { fault := .missingBlock }

def closeBlock : Meaning Unit :=
  modify fun context => { context with blocks := context.blocks.tail }

def expectCondition (statement : Keyword) (place : Location) : Meaning Unit := do
  let value ← finish none
  unless value.ty = .bool do failAt place (.conditionType statement value.ty)

/-! ### Conditionals -/

def setTy (name : String) (ty : Ty) : Meaning Unit :=
  modifyScopes fun scopes => scopes.modifyVisible scopes.current name (·.withTy ty)

def beginIf : Meaning Unit := do
  let _ ← openBlock .thenBranch

def ifCondition (place : Location) : Meaning Unit := do
  expectCondition .ifWord place
  let block ← innermost
  mark .ifCondition block.scope
  modifyScopes (·.goTo block.scope)

def ifLet (name : String) (place : Location) : Meaning Unit := do
  let (symbol, test) ← reference .ifLetCondition name place
  unless symbol.isDefined do failAt place (.uninitialized name)
  unless symbol.ty.isOptional do failAt place (.ifLetType name symbol.ty)
  let block ← innermost
  let _ ← append { test with scope := block.scope }
  setTy name symbol.ty.unwrapped
  modify fun context =>
    { context with blocks := { block with narrowed := some (name, symbol.ty) } :: context.blocks.tail }
  modifyScopes (·.goTo block.scope)

def endThen : Meaning Unit := do
  leaveScope
  let block ← innermost
  if let some (name, ty) := block.narrowed then setTy name ty
  mark .elseMark block.scope

def beginElse : Meaning Unit := do
  let block ← innermost
  let id ← createScope (← here) .elseBranch ((← scope block.scope).name ++ "$else")
  modifyScopes fun scopes =>
    (scopes.modify block.scope fun scope => { scope with otherwise := some id }).goTo id

def endElse : Meaning Unit := leaveScope

def endIf : Meaning Unit := do
  mark .endIf (← innermost).scope
  closeBlock

/-! ### Loops -/

def beginWhile : Meaning Unit := do
  mark .whileLabel (← openBlock .whileBody)

def whileCondition (place : Location) : Meaning Unit := do
  expectCondition .whileWord place
  let block ← innermost
  mark .whileCondition block.scope
  modifyScopes (·.goTo block.scope)

def endWhile : Meaning Unit := do
  leaveScope
  mark .endWhile (← innermost).scope
  closeBlock

/-! ### Functions -/

def functionName (name : String) (place : Location) : Meaning Unit := do
  if (← scope ScopeTree.root).table.contains name then failAt place (.functionRedefined name)

def beginParameters (name : String) : Meaning Unit := do
  let _ ← enterScope .functionHeader name

def parameter (index : Nat) (label name : Option String) (ty : Ty) (place : Location) : Meaning Unit := do
  if let some shared := label then
    if name = some shared then failAt place (.sameLabelAndName shared)
  let key := name.getD s!"_${index}"
  insertSymbol (← here) { name := key, kind := .parameter index label ty, location := some place }

def popParameters (header : Nat) : Nat → Meaning Unit
  | 0 => pure ()
  | index + 1 => do
      match (← scope header).table.parameterAt? index with
      | none => throw { fault := .missingParameter index }
      | some symbol =>
          let _ ← append
            { ← instruction .paramPop header with payload := some (.name (storageName symbol.name header)) }
          popParameters header index

def beginBody (name : String) (place : Location) (parameters : Nat) (returns : Ty) : Meaning Unit := do
  let header ← here
  modifyScopes (·.modify header fun scope => { scope with parameters })
  insertSymbol ScopeTree.root { name, kind := .function returns false, location := some place }
  let _ ← append { ← instruction .functionBegin header with payload := some (.name name) }
  popParameters header parameters
  report (.functionDefined name parameters)
  let _ ← enterScope .functionBody name

def endFunction (name : String) : Meaning Unit := do
  leaveScope
  let header ← here
  leaveScope
  let _ ← append { ← instruction .functionEnd header with payload := some (.name name) }

/-! ### Returns -/

def returnContext (place : Location) : Meaning (String × Ty) := do
  let current ← here
  let header ← match (← get).scopes.enclosingFunction current with
    | .ok header => pure header
    | .error diagnostic => throw (diagnostic.at? place)
  if (← scope current).hasReturn then failAt place .repeatedReturn
  let function := (← scope header).name
  match (← get).scopes.functionResult? function with
  | some returns => pure (function, returns)
  | none => throw { fault := .missingFunctionSymbol function }

def beginReturn (hasValue : Bool) (place : Location) : Meaning Unit := do
  let (function, returns) ← returnContext place
  match returns, hasValue with
  | .void, true => failAt place (.valueFromVoid function)
  | .void, false => pure ()
  | _, false => failAt place (.missingValue function returns)
  | _, true => pure ()

def endReturn (hasValue : Bool) (place : Location) : Meaning Unit := do
  if hasValue then
    let (function, returns) ← returnContext place
    let value ← finish (some returns)
    unless returns.accepts value.ty do failAt place (.returnedType function returns value.ty)
  let _ ← emit .returnValue
  let current ← here
  modifyScopes (·.modify current fun scope => { scope with hasReturn := true })

end OnePass.Meaning
