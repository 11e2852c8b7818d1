import OnePass.Meaning.Context

/-!
# What can only be checked at the end

Once all functions are known, the recorded calls are checked against the signatures, in the order in which
they were recorded, and every function with a result has to return one on every path.

* `Meaning.checkCall`, `Meaning.checkCalls` — calls; literal integers become doubles where a parameter is one,
  and nothing is dropped after a call without a result;
* `ScopeTree.returns` — whether a scope returns on every path;
* `ScopeTree.checkReturns` — all functions return.
-/

namespace OnePass

namespace Meaning

/-! ### Calls -/

def removeScaffold (callId : Nat) : Meaning Unit := do
  let stream := (← get).stream
  let isScaffolded (entry : Entry) : Bool :=
    entry.instruction.kind == .call && entry.instruction.counter == callId &&
      ((stream.next? entry.id).bind stream.get?).any (·.kind == .discardResult)
  match stream.findBackward? isScaffolded with
  | none => throw { fault := .missingScaffold callId }
  | some call =>
      let (stream, _) ← orFail (stream.setCursor call).deleteAfter
      modify fun context => { context with stream }
      report (.scaffoldRemoved callId)

def checkArgument (site : CallSite) (header : Scope) (index : Nat) (argument : Argument) : Meaning Unit := do
  let place := argument.location.or site.location
  match (header.table.parameterAt? index).map Symbol.kind with
  | some (.parameter _ label ty) =>
      if argument.label ≠ label then
        throw ⟨.argumentLabel site.name (index + 1) (label.getD "_"), place⟩
      if ty.accepts argument.ty then pure ()
      else if argument.literal && argument.ty == .int && ty.unwrapped == .double then
        modify fun context =>
          { context with stream := context.stream.modify [argument.push] Instruction.toDouble }
      else throw ⟨.argumentType site.name (index + 1) ty argument.ty, place⟩
  | _ => throw { fault := .missingCalleeParameter site.name index }

def checkArguments (site : CallSite) (header : Scope) : Nat → List Argument → Meaning Unit
  | _, [] => pure ()
  | index, argument :: later => do
      checkArgument site header index argument
      checkArguments site header (index + 1) later

def checkResult (site : CallSite) (returns : Ty) : Meaning Unit := do
  match site.target with
  | some target =>
      unless target.accepts returns do throw ⟨.resultType site.name returns target, site.location⟩
  | none => if returns = .void ∧ site.scaffolded then removeScaffold site.callId

def checkCall (site : CallSite) : Meaning Unit := do
  let scopes := (← get).scopes
  match scopes.function? site.name with
  | none => throw ⟨.unknownFunction site.name, site.location⟩
  | some header =>
      match scopes.functionResult? site.name with
      | none => throw ⟨.notAFunction site.name, site.location⟩
      | some returns =>
          let header := scopes.scope header
          let variadic := Builtin.isVariadic site.name
          if !variadic && site.arguments.length != header.parameters then
            throw ⟨.argumentCount site.name header.parameters site.arguments.length, site.location⟩
          if let some argument := site.arguments.find? (!·.initialized) then
            throw ⟨.uninitializedArgument site.name, argument.location.or site.location⟩
          unless variadic do checkArguments site header 0 site.arguments
          checkResult site returns

def checkCalls : Meaning Unit := do
  let calls := (← get).calls
  calls.toList.forM checkCall
  report (.callsChecked calls.length)

end Meaning

namespace ScopeTree

/-! ### Returns -/

/-- Whether a scope returns on every path: directly, or in both branches of a conditional in it. The number
bounds the nesting. -/
def returnsWithin (tree : ScopeTree) : Nat → Nat → Bool
  | 0, _ => false
  | n + 1, id =>
      let scope := tree.scope id
      scope.hasReturn || scope.children.any fun child =>
        (tree.scope child).kind == .thenBranch &&
          (tree.scope child).otherwise.any fun branch =>
            returnsWithin tree n child && returnsWithin tree n branch

def returns (tree : ScopeTree) (id : Nat) : Bool := tree.returnsWithin tree.size id

def returnsValue (tree : ScopeTree) (header : Nat) : Bool :=
  (tree.scope header).kind == .functionHeader &&
    match ((tree.scope root).table.get? (tree.scope header).name).map Symbol.kind with
    | some (.function returns false) => returns != .void
    | _ => false

def bodyReturns (tree : ScopeTree) (header : Nat) : Bool :=
  ((tree.scope header).children.find? fun id => (tree.scope id).kind == .functionBody).any tree.returns

def checkReturns (tree : ScopeTree) : Except Diagnostic Unit :=
  match (tree.scope root).children.find? fun id => tree.returnsValue id && !tree.bodyReturns id with
  | some header => .error { fault := .pathWithoutReturn (tree.scope header).name }
  | none => .ok ()

end ScopeTree

end OnePass
