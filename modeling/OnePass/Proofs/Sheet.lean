import OnePass.Proofs.Draft
import OnePass.Proofs.Phrase

/-!
# Sheets

A sheet is what a program has become so far: its scopes with all their symbols, its code and its
calls.  Each phrase turns a sheet into another one.  The relations here say how, phrase by phrase and
in full: which checks have been passed, which instruction stands for which word, and how the tables
of the scopes change.  Only what is about numbers of instructions is left out.

Main definitions:

* `ScopeTree.Denotes` — what a name means in the current scope;
* `ScopeTree.Evaluates`, `ScopeTree.Passes` — the code of expressions and of arguments;
* `Sheet`, `Sheet.Reserves`, `Sheet.Declares`, `Sheet.Supplies`, `Sheet.Enters` — the parts of
  statements;
* `Adds`, `Sheet.Defines`, `Fills` — statements, functions and programs.
-/

namespace OnePass

open Meaning (storageName)

namespace ScopeTree

/-! ### Names and instructions -/

/-- The symbol of a name in a scope itself. -/
def symbol? (t : ScopeTree) (id : Nat) (name : String) : Option Symbol :=
  (t.scope id).table.get? name

/-- A name means a symbol in the current scope, which is not a function. -/
structure Denotes (t : ScopeTree) (name : String) (owner : Nat) (symbol : Symbol) : Prop where
  found : t.owner? t.current name = some owner
  held : t.symbol? owner name = some symbol
  value : symbol.isFunction = false

/-- An instruction of a scope that carries nothing. -/
def mark (t : ScopeTree) (kind : InstructionKind) (id : Nat) : Instruction :=
  ⟨kind, id, (t.scope id).frame, 0, none⟩

/-- An instruction of the current scope on the variable of a name that another scope owns. -/
def named (t : ScopeTree) (kind : InstructionKind) (name : String) (owner : Nat) : Instruction :=
  ⟨kind, t.current, (t.scope owner).frame, 0, some (.name (storageName name owner))⟩

/-- The push of a literal in the current scope. -/
structure Literal (t : ScopeTree) (i : Instruction) (payload : Payload) : Prop where
  kind : i.kind = .pushLiteral
  scope : i.scope = t.current
  holds : i.payload = some payload
  nameless : ∀ name, payload ≠ Payload.name name

/-! ### Expressions and arguments -/

/-- Code that leaves the value of an expression. -/
inductive Evaluates (t : ScopeTree) : Phrase.Expr → List Instruction → Prop where
  | literal {token : Token} {i : Instruction} {payload : Payload} (hterm : token.identifier? = none)
      (hi : t.Literal i payload) : Evaluates t (.operand token) [i]
  | «variable» {token : Token} {name : String} {owner : Nat} {symbol : Symbol}
      (hterm : token.identifier? = some name) (hmeans : t.Denotes name owner symbol)
      (hdefined : symbol.isDefined) : Evaluates t (.operand token) [t.named .pushVariable name owner]
  | binary {operator : Operator} {place : Location} {left right : Phrase.Expr}
      {l r : List Instruction} {i : Instruction} (hleft : Evaluates t left l) (hright : Evaluates t right r)
      (htakes : i.kind.takes = 2) (hscope : i.scope = t.current) :
      Evaluates t (.binary operator place left right) (l ++ (r ++ [i]))
  | unwrap {place : Location} {inner : Phrase.Expr} {l : List Instruction} {i : Instruction}
      (hinner : Evaluates t inner l) (hkind : i.kind = .unwrap) (hscope : i.scope = t.current) :
      Evaluates t (.unwrap place inner) (l ++ [i])
  | convert {e : Phrase.Expr} {l : List Instruction} {i : Instruction} (he : Evaluates t e l)
      (hkind : i.kind = .intToDouble) (hscope : i.scope = t.current) : Evaluates t e (l ++ [i])

/-- The push of an argument, and what is recorded of it. -/
inductive Hands (t : ScopeTree) : Phrase.Arg → Instruction → Argument → Prop where
  | literal {arg : Phrase.Arg} {i : Instruction} {payload : Payload} {argument : Argument}
      (hterm : arg.term.identifier? = none) (hi : t.Literal i payload) (hliteral : argument.literal)
      (hty : payload.HasTy argument.ty) : Hands t arg i argument
  | «variable» {arg : Phrase.Arg} {name : String} {owner : Nat} {symbol : Symbol} {argument : Argument}
      (hterm : arg.term.identifier? = some name) (hmeans : t.Denotes name owner symbol)
      (hliteral : argument.literal = false) (hty : argument.ty = symbol.ty)
      (hinitialized : argument.initialized = symbol.isDefined) :
      Hands t arg (t.named .pushVariable name owner) argument

/-- The code of arguments; each of those of a variadic function is written at once. -/
inductive Passes (t : ScopeTree) (variadic : Bool) :
    List Phrase.Arg → List Instruction → List Argument → Prop where
  | nil : Passes t variadic [] [] []
  | concat {args : List Phrase.Arg} {arg : Phrase.Arg} {code : List Instruction} {i : Instruction}
      {arguments : List Argument} {argument : Argument} (hbefore : Passes t variadic args code arguments)
      (hlast : Hands t arg i argument) :
      Passes t variadic (args ++ [arg])
        (code ++ (i :: if variadic then [t.mark .write t.current] else [])) (arguments ++ [argument])

/-! ### Blocks -/

/-- A scope for a conditional or a loop has been added below the current one. -/
def noted (t : ScopeTree) (kind : ScopeKind) : ScopeTree :=
  ((t.nextConditionalName kind).1.createChild t.current kind (t.nextConditionalName kind).2).1

/-- The second block of a conditional has begun. -/
def alternative (t : ScopeTree) (id : Nat) : ScopeTree :=
  ((t.createChild t.current .elseBranch ((t.scope id).name ++ "$else")).1.modify id
    fun scope => { scope with otherwise := some t.size }).goTo t.size

/-- The variable of a name has another type, if one is given. -/
def retyped (t : ScopeTree) : Option (String × Ty) → ScopeTree
  | some (name, ty) => t.modifyVisible t.current name (·.withTy ty)
  | none => t

end ScopeTree

/-! ### Sheets -/

/-- What a program has become so far. -/
@[ext] structure Sheet where
  scopes : ScopeTree
  code : List Instruction
  calls : Calls

def Context.sheet (c : Context) : Sheet := ⟨c.scopes, c.stream.code, c.calls⟩

namespace Sheet

/-- Adds code at the end. -/
def write (w : Sheet) (code : List Instruction) : Sheet := { w with code := w.code ++ code }

/-- Changes the scopes. -/
def onScopes (w : Sheet) (change : ScopeTree → ScopeTree) : Sheet :=
  { w with scopes := change w.scopes }

@[simp] theorem scopes_write (w : Sheet) (code : List Instruction) : (w.write code).scopes = w.scopes :=
  rfl

@[simp] theorem code_write (w : Sheet) (code : List Instruction) : (w.write code).code = w.code ++ code :=
  rfl

@[simp] theorem scopes_onScopes (w : Sheet) (change : ScopeTree → ScopeTree) :
    (w.onScopes change).scopes = change w.scopes := rfl

@[simp] theorem code_onScopes (w : Sheet) (change : ScopeTree → ScopeTree) :
    (w.onScopes change).code = w.code := rfl

/-- Adds a mark at the end. -/
def marked (w : Sheet) (kind : InstructionKind) (id : Nat) : Sheet := w.write [w.scopes.mark kind id]

/-- A scope gets a symbol. -/
def Declares (w : Sheet) (id : Nat) (symbol : Symbol) (w' : Sheet) : Prop :=
  ∃ table, (w.scopes.scope id).table.insert symbol = .ok table ∧ w' = w.onScopes (·.setTable id table)

/-- The storage of a new variable, in front of the outermost loop around. -/
inductive Reserves (w : Sheet) (name : String) : Sheet → Prop where
  | here (hloop : w.scopes.outermostWhile? w.scopes.current = none) :
      Reserves w name (w.write [w.scopes.named .defineVariable name w.scopes.current])
  | before {loop : Nat} {pre post : List Instruction} {label : Instruction}
      (hloop : w.scopes.outermostWhile? w.scopes.current = some loop)
      (hcode : w.code = pre ++ label :: post) (hkind : label.kind = .whileLabel)
      (hscope : label.scope = loop) (hlast : ∀ i ∈ post, ¬ i.Marks .whileLabel loop) :
      Reserves w name { w with
        code := pre ++ w.scopes.named .defineVariable name w.scopes.current :: label :: post }

/-- The instructions of a call whose arguments have been pushed. -/
def callCode (w : Sheet) (callee : String) (scaffolded : Bool) : List Instruction :=
  if Builtin.isVariadic callee then []
  else { w.scopes.mark .call w.scopes.current with
      counter := w.calls.nextId, payload := some (.name callee) } ::
    if scaffolded then [w.scopes.mark .discardResult w.scopes.current] else []

/-- A call and its record. -/
inductive Requests (w : Sheet) (callee : String) (args : List Phrase.Arg) (target : Option Ty) :
    Sheet → Prop where
  | intro {code : List Instruction} {site : CallSite}
      (hargs : w.scopes.Passes (Builtin.isVariadic callee) args code site.arguments)
      (hname : site.name = callee) (htarget : site.target = target) (hid : site.callId = w.calls.nextId)
      (hscaffolded : site.scaffolded = (target.isNone && !Builtin.isVariadic callee &&
        w.scopes.functionResult? callee != some .void)) :
      Requests w callee args target
        { w.write (code ++ w.callCode callee site.scaffolded) with calls := w.calls.record site }

/-- The value of a right-hand side for a variable of a type. -/
inductive Supplies (w : Sheet) (ty : Ty) : Phrase.RightSide → Sheet → Prop where
  | expression {value : Phrase.Expr} {code : List Instruction}
      (hvalue : w.scopes.Evaluates value code) : Supplies w ty (.expression value) (w.write code)
  | call {callee : String} {place : Location} {args : List Phrase.Arg} {w' : Sheet}
      (hcall : w.Requests callee args (some ty) w') : Supplies w ty (.call callee place args) w'

/-- The initial value of a new variable of a type, and whether there is one. -/
inductive Initializes (w : Sheet) (ty : Ty) : Bool → Option Phrase.RightSide → Bool → Sheet → Prop where
  | side {isMutable : Bool} {side : Phrase.RightSide} {w' : Sheet} (hside : w.Supplies ty side w') :
      Initializes w ty isMutable (some side) true w'
  | absent {i : Instruction} (hi : w.scopes.Literal i .nil) (hty : ty.isOptional) :
      Initializes w ty true none true (w.write [i])
  | waiting {isMutable : Bool} (hty : ¬ (ty.isOptional ∧ isMutable)) :
      Initializes w ty isMutable none false w

/-- A conditional up to its first block, and the variable whose type is narrowed there with the type
to go back to. -/
inductive Enters (w : Sheet) : Phrase.Condition → Option (String × Ty) → Sheet → Prop where
  | comparison {value : Phrase.Expr} {place : Location} {code : List Instruction}
      (hvalue : (w.scopes.noted .thenBranch).Evaluates value code) :
      Enters w (.comparison value place) none
        ((((w.onScopes (·.noted .thenBranch)).write code).marked .ifCondition w.scopes.size).onScopes
          (·.goTo w.scopes.size))
  | present {name : String} {place : Location} {owner : Nat} {symbol : Symbol}
      (hmeans : (w.scopes.noted .thenBranch).Denotes name owner symbol) (hdefined : symbol.isDefined)
      (hty : symbol.ty.isOptional) :
      Enters w (.present name place) (some (name, symbol.ty)) (((w.onScopes (·.noted .thenBranch)).write
          [{ (w.scopes.noted .thenBranch).named .ifLetCondition name owner with
            scope := w.scopes.size }]).onScopes
              fun t => (t.retyped (some (name, symbol.ty.unwrapped))).goTo w.scopes.size)

/-- The first block of a conditional has ended. -/
def halfway (w : Sheet) (id parent : Nat) (narrowed : Option (String × Ty)) : Sheet :=
  (w.onScopes fun t => (t.goTo parent).retyped narrowed).marked .elseMark id

/-- A loop up to its condition. -/
def looping (w : Sheet) : Sheet :=
  (w.onScopes (·.noted .whileBody)).marked .whileLabel w.scopes.size

/-- The code of a returned value for a type. -/
inductive Answers (t : ScopeTree) (returns : Ty) : Option Phrase.Expr → List Instruction → Prop where
  | nothing (hreturns : returns = .void) : Answers t returns none []
  | value {e : Phrase.Expr} {code : List Instruction} (hreturns : returns ≠ .void)
      (hvalue : t.Evaluates e code) : Answers t returns (some e) code

end Sheet

/-! ### Statements -/

/-- A statement turns a sheet into another one. -/
inductive Adds : Sheet → Phrase.Statement → Sheet → Prop where
  | skip {w : Sheet} : Adds w .skip w
  | seq {w w₁ w₂ : Sheet} {first second : Phrase.Statement} (hfirst : Adds w first w₁)
      (hsecond : Adds w₁ second w₂) : Adds w (.seq first second) w₂
  | declare {w w₁ w₂ w₃ : Sheet} {isMutable : Bool} {name : String} {place : Location}
      {stated : Option Ty} {init : Option Phrase.RightSide} {ty : Ty} {defined : Bool}
      (hty : stated = some ty ∨ stated = none ∧ init.isSome) (hreserve : w.Reserves name w₁)
      (hinit : w₁.Initializes ty isMutable init defined w₂)
      (hdeclare : (if defined then w₂.write [w₂.scopes.named .popVariable name w₂.scopes.current]
        else w₂).Declares w₂.scopes.current
          { name, kind := .var isMutable ty defined, location := some place } w₃) :
      Adds w (.declare isMutable name place stated init) w₃
  | assign {w w₁ : Sheet} {name : String} {place : Location} {value : Phrase.RightSide} {owner : Nat}
      {symbol : Symbol} {isMutable defined : Bool} {ty : Ty} (hmeans : w.scopes.Denotes name owner symbol)
      (hkind : symbol.kind = .var isMutable ty defined) (hfree : isMutable ∨ defined = false)
      (hvalue : w.Supplies ty value w₁) :
      Adds w (.assign name place value) ((w₁.write [w₁.scopes.named .popVariable name owner]).onScopes
          fun t => t.modifyVisible t.current name (·.withDefined true))
  | call {w w' : Sheet} {callee : String} {place : Location} {args : List Phrase.Arg}
      (hcall : w.Requests callee args none w') : Adds w (.call callee place args) w'
  | giveBack {w : Sheet} {place : Location} {value : Option Phrase.Expr} {code : List Instruction}
      {header : Nat} {returns : Ty}
      (hheader : w.scopes.enclosingFunction w.scopes.current = .ok header)
      (hreturns : w.scopes.functionResult? (w.scopes.scope header).name = some returns)
      (hvalue : Sheet.Answers w.scopes returns value code) :
      Adds w (.giveBack place value) (((w.write code).marked .returnValue w.scopes.current).onScopes
          fun t => t.modify t.current fun scope => { scope with hasReturn := true })
  | ifThen {w w₁ w₂ : Sheet} {condition : Phrase.Condition} {body : Phrase.Statement}
      {narrowed : Option (String × Ty)} (hcondition : w.Enters condition narrowed w₁)
      (hbody : Adds w₁ body w₂) :
      Adds w (.ifThen condition body)
        ((w₂.halfway w.scopes.size w.scopes.current narrowed).marked .endIf w.scopes.size)
  | ifElse {w w₁ w₂ w₃ : Sheet} {condition : Phrase.Condition} {body other : Phrase.Statement}
      {narrowed : Option (String × Ty)} (hcondition : w.Enters condition narrowed w₁)
      (hbody : Adds w₁ body w₂)
      (hother : Adds ((w₂.halfway w.scopes.size w.scopes.current narrowed).onScopes
        (·.alternative w.scopes.size)) other w₃) :
      Adds w (.ifElse condition body other)
        ((w₃.onScopes (·.goTo w.scopes.current)).marked .endIf w.scopes.size)
  | loop {w w₁ : Sheet} {condition : Phrase.Expr} {place : Location} {body : Phrase.Statement}
      {code : List Instruction} (hcondition : w.looping.scopes.Evaluates condition code)
      (hbody : Adds (((w.looping.write code).marked .whileCondition w.scopes.size).onScopes
        (·.goTo w.scopes.size)) body w₁) :
      Adds w (.loop condition place body)
        ((w₁.onScopes (·.goTo w.scopes.current)).marked .endWhile w.scopes.size)

/-! ### Functions and programs -/

namespace Sheet

/-- Parameters from an index on get their symbols. -/
inductive Takes : Sheet → Nat → List Phrase.Param → Sheet → Prop where
  | nil {w : Sheet} {index : Nat} : Takes w index [] w
  | cons {w w₁ w₂ : Sheet} {index : Nat} {param : Phrase.Param} {later : List Phrase.Param}
      (hfirst : w.Declares w.scopes.current
        { name := param.name.getD s!"_${index}", kind := .parameter index param.label param.ty
          location := some param.place } w₁)
      (hlater : Takes w₁ (index + 1) later w₂) : Takes w index (param :: later) w₂

/-- The instructions that take parameters off the stack, the last one first. -/
inductive Pops (t : ScopeTree) : Nat → List Instruction → Prop where
  | zero : Pops t 0 []
  | succ {index : Nat} {symbol : Symbol} {code : List Instruction}
      (hsymbol : (t.scope t.current).table.parameterAt? index = some symbol) (hbefore : Pops t index code) :
      Pops t (index + 1) (t.named .paramPop symbol.name t.current :: code)

/-- A function up to its body. -/
inductive Begins (w : Sheet) (function : Phrase.Function) : Sheet → Prop where
  | intro {w₁ w₂ : Sheet} {pops : List Instruction}
      (hfresh : (w.scopes.scope ScopeTree.root).table.contains function.name = false)
      (hparams : Takes (w.onScopes fun t => (t.enter .functionHeader function.name).1) 0 function.params w₁)
      (hsymbol : (w₁.onScopes fun t => t.modify w.scopes.size fun scope =>
        { scope with parameters := function.params.length }).Declares ScopeTree.root
          { name := function.name, kind := .function function.returns false
            location := some function.place } w₂)
      (hpops : Pops w₂.scopes function.params.length pops) :
      Begins w function ((w₂.write ({ w₂.scopes.mark .functionBegin w.scopes.size with
        payload := some (.name function.name) } :: pops)).onScopes
          fun t => (t.enter .functionBody function.name).1)

/-- The definition of a function turns a sheet into another one. -/
inductive Defines (w : Sheet) (function : Phrase.Function) : Sheet → Prop where
  | intro {w₁ w₂ : Sheet} (hbegin : w.Begins function w₁) (hbody : Adds w₁ function.body w₂) :
      Defines w function ((w₂.onScopes (·.goTo w.scopes.current)).write
        [{ w₂.scopes.mark .functionEnd w.scopes.size with payload := some (.name function.name) }])

end Sheet

/-- The items of a program turn a sheet into another one. -/
inductive Fills : Sheet → List Phrase.Item → Sheet → Prop where
  | nil {w : Sheet} : Fills w [] w
  | statement {w w₁ w₂ : Sheet} {content : Phrase.Statement} {later : List Phrase.Item}
      (hfirst : Adds w content w₁) (hlater : Fills w₁ later w₂) :
      Fills w (.statement content :: later) w₂
  | function {w w₁ w₂ : Sheet} {content : Phrase.Function} {later : List Phrase.Item}
      (hfirst : w.Defines content w₁) (hlater : Fills w₁ later w₂) :
      Fills w (.function content :: later) w₂

end OnePass
