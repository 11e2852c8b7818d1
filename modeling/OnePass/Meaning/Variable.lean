import OnePass.Meaning.Expression

/-!
# The meaning of declarations and assignments

A variable gets its storage where it is declared, but in front of the outermost loop around it, so that no
loop reserves it twice. Its symbol appears only after its initial value has been computed.

* `Meaning.reserve` — the storage of a new variable;
* `Meaning.bind` — the initial value and the symbol of a new variable;
* `Meaning.assigneeTy`, `Meaning.assign` — assignments.
-/

namespace OnePass.Meaning

/-! ### Declarations -/

def declareName (name : String) (place : Location) : Meaning Unit := do
  if (← scope (← here)).table.contains name then failAt place (.redeclared name)

def loopLabel (loop : Nat) : Meaning Nat := do
  let isLabel (entry : Entry) : Bool :=
    entry.instruction.kind == .whileLabel && entry.instruction.scope == loop
  match (← get).stream.findBackward? isLabel with
  | some label => pure label
  | none => throw { fault := .missingLoopLabel loop }

def reserve (name : String) : Meaning Unit := do
  let current ← here
  let target := storageName name current
  let define := { ← instruction .defineVariable current with payload := some (.name target) }
  match (← get).scopes.outermostWhile? current with
  | some loop =>
      let _ ← insertBefore (← loopLabel loop) define
      report (.hoisted target (← scope loop).name)
  | none =>
      let _ ← append define

def inferredTy (name : String) (place : Location) (value : Value) : Meaning Ty :=
  match value.ty with
  | .nil => failAt place (.inferFromNil name)
  | .bool => failAt place (.comparisonStored name)
  | .void => failAt place (.inferFromNothing name)
  | ty => pure ty

def storedTy (name : String) (place : Location) (declared : Option Ty) : Meaning Ty := do
  let value ← finish declared
  match declared with
  | some ty => if ty.accepts value.ty then pure ty else failAt place (.storedType ty name value.ty)
  | none => inferredTy name place value

def resultTy (callee name : String) (place : Location) : Meaning Ty := do
  match (← get).scopes.functionResult? callee with
  | none => failAt place (.inferFromUndeclared callee name)
  | some .void => failAt place (.inferFromVoid callee name)
  | some ty => pure ty

/-- The type of a new variable, and whether it has a value. An optional variable without an initial value is
absent; a constant waits for its value. -/
def initialTy (mutable : Bool) (name : String) (place : Location) (stated : Option Ty)
    (source : Option ValueSource) : Meaning (Ty × Bool) := do
  match source, stated with
  | some .expression, _ => return (← storedTy name place stated, true)
  | some (.call _), some ty => return (ty, true)
  | some (.call callee), none => return (← resultTy callee name place, true)
  | none, some ty =>
      if ty.isOptional && mutable then
        let _ ← append (← literal .nil)
        return (ty, true)
      else return (ty, false)
  | none, none => failAt place (.noTypeNoValue name)

def bind (mutable : Bool) (name : String) (place : Location) (stated : Option Ty)
    (source : Option ValueSource) : Meaning Unit := do
  let (ty, defined) ← initialTy mutable name place stated source
  let current ← here
  if defined then
    let _ ← append
      { ← instruction .popVariable current with payload := some (.name (storageName name current)) }
  insertSymbol current { name, kind := .var mutable ty defined, location := some place }

/-! ### Assignments -/

def assigneeTy (name : String) (place : Location) : Meaning Ty := do
  let scopes := (← get).scopes
  match (scopes.lookup? scopes.current name).map Symbol.kind with
  | none => failAt place (.unknownVariable name)
  | some (.var false _ true) => failAt place (.reassigned name)
  | some (.var _ ty _) => pure ty
  | some (.parameter ..) => failAt place (.parameterAssigned name)
  | some (.function ..) => failAt place (.notAVariable name)

def assign (name : String) (place : Location) (source : ValueSource) : Meaning Unit := do
  match source with
  | .expression =>
      let _ ← storedTy name place (some (← assigneeTy name place))
  | .call _ => pure ()
  let (_, pop) ← reference .popVariable name place
  let _ ← append pop
  modifyScopes fun scopes => scopes.modifyVisible scopes.current name (·.withDefined true)

end OnePass.Meaning
