import OnePass.Meaning.Context
import OnePass.Target.Render
import OnePass.Proofs.Flow
import OnePass.Proofs.Level
import OnePass.Proofs.Scope
import OnePass.Proofs.Stream

/-!
# Drafts

While a program is read, much of the context is only of passing interest: the numbers of
instructions, which variables have values, the values at hand and the log.  A draft is what is left
without them.  Statements turn drafts into drafts, and this module says in which ways.

Main definitions:

* `Draft`, `Context.draft` — the draft in a context;
* `Draft.Sees`, `Draft.Plain` — the variables in sight, and the instructions that may stand in
  straight code;
* `Draft.Plains` — the code of an expression: the values it leaves, and the variables it reads;
* `Draft.Passes`, `Draft.Calling` — the code of arguments, and of calls;
* `Step` — one piece of straight code;
* `Elaborates` — **complete statements**, with the definitions that go in front of the outermost
  loop around them and the flow of the code that they add.
-/

namespace OnePass

open List

/-- What has been written of a program. -/
@[ext]
structure Draft where
  /-- the number of scopes -/
  size : Nat
  current : Nat
  outlines : Nat → Scope
  names : Nat → Set (String × Role)
  code : List Instruction
  calls : Calls

/-- The draft in a context. -/
def Context.draft (context : Context) : Draft :=
  { size := context.scopes.size
    current := context.scopes.current
    outlines := context.scopes.outlines
    names := context.scopes.names
    code := context.stream.code
    calls := context.calls }

/-! ### Instructions of straight code -/

/-- The definition of a variable. -/
def Instruction.Defines (target : String) (instruction : Instruction) : Prop :=
  instruction.kind = .defineVariable ∧ instruction.name? = some target

/-- The call of a recorded call. -/
def Instruction.Invokes (site : CallSite) (instruction : Instruction) : Prop :=
  instruction.kind = .call ∧ instruction.name? = some site.name ∧ instruction.counter = site.callId

/-- Operations on the data stack, and output. -/
def InstructionKind.isOperation : InstructionKind → Bool
  | add | sub | mul | div | intDiv | concat | lt | gt | le | ge | eq | neq | intToDouble | unwrap
  | coalesce | write => true
  | _ => false

/-- A payload is that of a literal of a type. -/
def Payload.HasTy (payload : Payload) (ty : Ty) : Prop :=
  match payload with
  | .int _ => ty = .int
  | .double _ => ty = .double
  | .string _ => ty = .string
  | .nil => ty = .nil
  | .name _ => False

namespace Draft

/-- The current scope and the scopes around it, inside out. -/
def ancestors (draft : Draft) (id : Nat) : List Nat :=
  ancestorsBy (fun id => (draft.outlines id).parent) id

/-- The outermost loop around a scope. -/
def outermost? (draft : Draft) (id : Nat) : Option Nat :=
  ((draft.ancestors id).filter fun id => (draft.outlines id).kind == .whileBody).getLast?

/-- The header of the function around the current scope. -/
def function? (draft : Draft) : Option Nat :=
  (draft.ancestors draft.current).find? fun id => (draft.outlines id).kind == .functionHeader

/-- A name is the name of a function with a result. -/
def Results (draft : Draft) (name : String) (returns : Ty) : Prop :=
  ∃ builtin, (name, ⟨.function builtin, returns⟩) ∈ draft.names ScopeTree.root

/-- A name is the name of a variable of a scope in sight. -/
def Sees (draft : Draft) (name : String) (owner : Nat) : Prop :=
  owner ∈ draft.ancestors draft.current ∧
    ∃ role, (name, role) ∈ draft.names owner ∧ ∀ builtin, role.sort ≠ .function builtin

/-- The instructions of straight code: literals, variables in sight, and operations. -/
inductive Plain (draft : Draft) (instruction : Instruction) : Prop where
  | literal (hkind : instruction.kind = .pushLiteral)
      (hpayload : (instruction.payload.bind Target.literal?).isSome)
  | variable {name : String} {owner : Nat}
      (hkind : instruction.kind = .pushVariable ∨ instruction.kind = .popVariable)
      (hname : instruction.name? = some (Meaning.storageName name owner))
      (hsees : draft.Sees name owner)
  | operation (hkind : instruction.kind.isOperation)

/-- An instruction of an expression. -/
structure Computes (draft : Draft) (instruction : Instruction) : Prop where
  plain : draft.Plain instruction
  leaves : instruction.kind.leaves = 1

/-- Straight code that leaves a number of values. -/
structure Plains (draft : Draft) (code : List Instruction) (level : Nat) : Prop where
  computes : ∀ i ∈ code, draft.Computes i
  level : level? 0 code = some level

/-- The condition of a conditional with a scope, on a comparison or on a variable in sight. -/
def Conditions (draft : Draft) (scope : Nat) (instruction : Instruction) : Prop :=
  instruction.Marks .ifCondition scope ∨ instruction.Marks .ifLetCondition scope ∧ ∃ name owner,
      instruction.name? = some (Meaning.storageName name owner) ∧ draft.Sees name owner

/-! ### Calls -/

/-- The push of an argument: a literal of its type, or a variable in sight with its type. -/
inductive Pushes (draft : Draft) (argument : Argument) (push : Instruction) : Prop where
  | literal {payload : Payload} (hliteral : argument.literal) (hkind : push.kind = .pushLiteral)
      (hpayload : push.payload = some payload) (hty : payload.HasTy argument.ty)
  | variable {name : String} {owner : Nat} {role : Role} (hliteral : argument.literal = false)
      (hkind : push.kind = .pushVariable)
      (hname : push.name? = some (Meaning.storageName name owner))
      (howner : owner ∈ draft.ancestors draft.current) (hrole : (name, role) ∈ draft.names owner)
      (hsort : ∀ builtin, role.sort ≠ .function builtin) (hbase : role.base = argument.ty.unwrapped)

/-- The code of arguments, which are pushed, or written one by one. -/
inductive Passes (draft : Draft) (variadic : Bool) : List Argument → List Instruction → Prop where
  | nil : Passes draft variadic [] []
  | push {argument : Argument} {arguments : List Argument} {push : Instruction}
      {code : List Instruction} (hvariadic : variadic = false) (hpush : draft.Pushes argument push)
      (hrest : Passes draft variadic arguments code) :
      Passes draft variadic (argument :: arguments) (push :: code)
  | write {argument : Argument} {arguments : List Argument} {push write : Instruction}
      {code : List Instruction} (hvariadic : variadic) (hpush : draft.Pushes argument push)
      (hkind : write.kind = .write)
      (hrest : Passes draft variadic arguments code) :
      Passes draft variadic (argument :: arguments) (push :: write :: code)

/-- The code of a recorded call: its arguments and, unless they are written one by one, the call, maybe
with an instruction that drops the result. Nothing is dropped of a function without a result. -/
inductive Calling (draft : Draft) (site : CallSite) : List Instruction → Prop where
  | written {code : List Instruction} (hvariadic : Builtin.isVariadic site.name)
      (hkept : site.scaffolded = false) (hcode : draft.Passes true site.arguments code) :
      Calling draft site code
  | kept {pushes : List Instruction} {call : Instruction}
      (hvariadic : Builtin.isVariadic site.name = false) (hkept : site.scaffolded = false)
      (hpushes : draft.Passes false site.arguments pushes) (hcall : call.Invokes site)
      (hvoid : site.target = none → draft.Results site.name .void) :
      Calling draft site (pushes ++ [call])
  | dropped {pushes : List Instruction} {call drop : Instruction}
      (hvariadic : Builtin.isVariadic site.name = false) (hdropped : site.scaffolded)
      (htarget : site.target = none) (hpushes : draft.Passes false site.arguments pushes)
      (hcall : call.Invokes site) (hdrop : drop.kind = .discardResult) :
      Calling draft site (pushes ++ [call, drop])

/-- A value goes into a variable in sight. -/
structure Stores (draft : Draft) (pop : Instruction) : Prop where
  kind : pop.kind = .popVariable
  sees : ∃ name owner, pop.name? = some (Meaning.storageName name owner) ∧ draft.Sees name owner

/-- What becomes of the result of a call: a variable in sight gets it, if it has to fit one. -/
inductive Receives (draft : Draft) (site : CallSite) : List Instruction → Prop where
  | none (htarget : site.target = none) : Receives draft site []
  | store {pop : Instruction} (htarget : site.target.isSome) (hpop : draft.Stores pop) :
      Receives draft site [pop]

/-- A value is returned exactly if the function around has a result. -/
def Returns (draft : Draft) (level : Nat) : Prop :=
  ∃ header returns, draft.function? = some header ∧
    draft.Results (draft.outlines header).name returns ∧ level = if returns = .void then 0 else 1

/-! ### Writing -/

/-- Adds code at the end. -/
def write (draft : Draft) (code : List Instruction) : Draft :=
  { draft with code := draft.code ++ code }

theorem write_write (draft : Draft) (first second : List Instruction) :
    (draft.write first).write second = draft.write (first ++ second) := by
  simp [write]

/-- Declares a variable in the current scope. -/
def declare (draft : Draft) (name : String) (base : Ty) : Draft :=
  { draft with
    names := Function.update draft.names draft.current
      (insert (name, ⟨.variable, base⟩) (draft.names draft.current)) }

/-- Notes that the current scope returns. -/
def giveBack (draft : Draft) : Draft :=
  { draft with
    outlines := Function.update draft.outlines draft.current
      { draft.outlines draft.current with hasReturn := true } }

/-- The next conditional or loop below the current scope. -/
def numbered (draft : Draft) (kind : ScopeKind) : Scope :=
  let scope := draft.outlines draft.current
  let tag := match kind with
    | .whileBody => "while"
    | _ => "if"
  scope.below draft.current kind s!"{scope.name}${tag}{scope.conditionals + 1}"

/-- The current scope with one more conditional or loop below it. -/
def parenting (draft : Draft) : Scope :=
  let scope := draft.outlines draft.current
  { scope with children := scope.children ++ [draft.size], conditionals := scope.conditionals + 1 }

/-- A conditional or loop has been noted, and some code has been written up to its block. -/
def opened (draft : Draft) (kind : ScopeKind) (code : List Instruction) : Draft :=
  { draft with
    size := draft.size + 1
    current := draft.size
    outlines := Function.update (Function.update draft.outlines draft.size (draft.numbered kind))
      draft.current draft.parenting
    names := Function.update draft.names draft.size ∅
    code := draft.code ++ code }

/-- From the first block of a conditional to the second one. -/
def alternative (draft : Draft) (scope parent : Nat) (code : List Instruction) : Draft :=
  let created := Function.update
    (Function.update draft.outlines draft.size
      ((draft.outlines parent).below parent .elseBranch ((draft.outlines scope).name ++ "$else")))
    parent
    { draft.outlines parent with children := (draft.outlines parent).children ++ [draft.size] }
  { draft with
    size := draft.size + 1
    current := draft.size
    outlines := Function.update created scope { created scope with otherwise := some draft.size }
    names := Function.update draft.names draft.size ∅
    code := draft.code ++ code }

/-- A block has ended, and with it the conditional or loop. -/
def closed (draft : Draft) (parent : Nat) (code : List Instruction) : Draft :=
  { draft with current := parent, code := draft.code ++ code }

end Draft

/-! ### Statements -/

/-- One piece of straight code, with the definitions that go in front of the outermost loop. -/
inductive Step (d : Draft) : List Instruction → List Instruction → Draft → Prop where
  | skip : Step d [] [] d
  | store {value : List Instruction} {pop : Instruction} (hvalue : d.Plains value 1)
      (hpop : d.Stores pop) :
      Step d [] (value ++ [pop]) (d.write (value ++ [pop]))
  | call {site : CallSite} {code after : List Instruction} (hid : site.callId = d.calls.nextId)
      (hcode : d.Calling site code) (hafter : d.Receives site after) :
      Step d [] (code ++ after) { d.write (code ++ after) with calls := d.calls.record site }
  | giveBack {value : List Instruction} {i : Instruction} {level : Nat}
      (hvalue : d.Plains value level) (hreturns : d.Returns level) (hkind : i.kind = .returnValue) :
      Step d [] (value ++ [i]) (d.write (value ++ [i])).giveBack
  | declare {name : String} {base : Ty} {define : Instruction}
      (hloop : d.outermost? d.current = none)
      (hfresh : ∀ role, (name, role) ∉ d.names d.current)
      (hdefine : define.Defines (Meaning.storageName name d.current)) :
      Step d [] [define] ((d.write [define]).declare name base)
  | hoist {name : String} {base : Ty} {define label : Instruction} {pre post : List Instruction}
      {loop : Nat} (hloop : d.outermost? d.current = some loop)
      (hfresh : ∀ role, (name, role) ∉ d.names d.current)
      (hdefine : define.Defines (Meaning.storageName name d.current))
      (hcode : d.code = pre ++ label :: post) (hlabel : label.Marks .whileLabel loop)
      (hlast : ∀ i ∈ post, ¬ i.Marks .whileLabel loop) :
      Step d [define] [] ({ d with code := pre ++ define :: label :: post }.declare name base)

/-- Complete statements: the draft before them, the definitions that go in front of the outermost
loop, the flow of the code that is added, and the draft after them. -/
inductive Elaborates : Draft → List Instruction → Flow → Draft → Prop where
  | step {d d' : Draft} {H code : List Instruction} (hstep : Step d H code d') :
      Elaborates d H (.straight (deeds code)) d'
  | seq {d d₁ d₂ : Draft} {H H' : List Instruction} {T T' : Flow} (hfirst : Elaborates d H T d₁)
      (hsecond : Elaborates d₁ H' T' d₂) : Elaborates d (H ++ H') (.seq T T') d₂
  | ifThen {d d₁ : Draft} {head H : List Instruction} {test els fin : Instruction} {T : Flow}
      (hhead : d.Plains head test.kind.takes) (htest : d.Conditions d.size test)
      (hbody : Elaborates (d.opened .thenBranch (head ++ [test])) H T d₁)
      (hels : els.Marks .elseMark d.size) (hfin : fin.Marks .endIf d.size) :
      Elaborates d H (.branch d.size (deeds (head ++ [test])) T none (.straight []))
        (d₁.closed d.current [els, fin])
  | ifElse {d d₁ d₂ : Draft} {head H H' : List Instruction} {test els fin : Instruction} {T U : Flow}
      (hhead : d.Plains head test.kind.takes) (htest : d.Conditions d.size test)
      (hbody : Elaborates (d.opened .thenBranch (head ++ [test])) H T d₁)
      (hels : els.Marks .elseMark d.size)
      (hother : Elaborates (d₁.alternative d.size d.current [els]) H' U d₂)
      (hfin : fin.Marks .endIf d.size) :
      Elaborates d (H ++ H') (.branch d.size (deeds (head ++ [test])) T (some d₁.size) U)
        (d₂.closed d.current [fin])
  | loop {d d₁ : Draft} {head H : List Instruction} {label test fin : Instruction} {T : Flow}
      (hloop : d.outermost? d.current = none) (hhead : d.Plains head test.kind.takes)
      (hlabel : label.Marks .whileLabel d.size) (htest : test.Marks .whileCondition d.size)
      (hbody : Elaborates (d.opened .whileBody (label :: head ++ [test])) H T d₁)
      (hfin : fin.Marks .endWhile d.size) :
      Elaborates d [] (.seq (.straight (deeds H)) (.loop d.size (deeds (head ++ [test])) T))
        (d₁.closed d.current [fin])
  | nested {d d₁ : Draft} {head H : List Instruction} {label test fin : Instruction} {outer : Nat} {T : Flow}
      (hloop : d.outermost? d.current = some outer) (hhead : d.Plains head test.kind.takes)
      (hlabel : label.Marks .whileLabel d.size) (htest : test.Marks .whileCondition d.size)
      (hbody : Elaborates (d.opened .whileBody (label :: head ++ [test])) H T d₁)
      (hfin : fin.Marks .endWhile d.size) :
      Elaborates d H (.loop d.size (deeds (head ++ [test])) T) (d₁.closed d.current [fin])

/-! ### The instructions of calls -/

theorem Payload.HasTy.isSome {payload : Payload} {ty : Ty} (h : payload.HasTy ty) :
    (Target.literal? payload).isSome := by
  cases payload with
  | name => exact h.elim
  | _ => rfl

namespace Draft

variable {d : Draft}
variable {code : List Instruction} {site : CallSite}

theorem Pushes.plain {argument : Argument} {push : Instruction} (h : d.Pushes argument push) :
    d.Plain push := by
  cases h with
  | literal _ hkind hpayload hty => exact .literal hkind (by rw [hpayload]; exact hty.isSome)
  | «variable» _ hkind hname howner hrole hsort =>
    exact .variable (.inl hkind) hname ⟨howner, _, hrole, hsort⟩

theorem Passes.plain {variadic : Bool} {arguments : List Argument}
    (h : d.Passes variadic arguments code) : ∀ i ∈ code, d.Plain i := by
  induction h with
  | nil => exact forall_mem_nil _
  | push _ hpush _ ih => exact forall_mem_cons.2 ⟨hpush.plain, ih⟩
  | write _ hpush hkind _ ih =>
    refine forall_mem_cons.2 ⟨hpush.plain, forall_mem_cons.2 ⟨.operation ?_, ih⟩⟩
    rw [hkind]
    rfl

theorem Calling.of_mem (h : d.Calling site code) {i : Instruction} (hi : i ∈ code) :
    d.Plain i ∨ i.Invokes site ∨ i.kind = .discardResult := by
  cases h with
  | written _ _ hcode => exact .inl (hcode.plain i hi)
  | kept _ _ hpushes hcall =>
    rcases mem_append.1 hi with hi | hi
    · exact .inl (hpushes.plain i hi)
    · exact .inr (.inl (mem_singleton.1 hi ▸ hcall))
  | dropped _ _ _ hpushes hcall hdrop =>
    rcases mem_append.1 hi with hi | hi
    · exact .inl (hpushes.plain i hi)
    · rcases mem_cons.1 hi with rfl | hi
      · exact .inr (.inl hcall)
      · exact .inr (.inr (mem_singleton.1 hi ▸ hdrop))

theorem Stores.plain {pop : Instruction} (h : d.Stores pop) : d.Plain pop := by
  obtain ⟨name, owner, hname, hsees⟩ := h.sees
  exact .variable (.inr h.kind) hname hsees

theorem Receives.plain {after : List Instruction} (h : d.Receives site after) : ∀ i ∈ after, d.Plain i := by
  cases h with
  | none => exact forall_mem_nil _
  | store _ hpop => exact forall_mem_singleton.2 hpop.plain

theorem Calling.of_mem_append {after : List Instruction}
    (h : d.Calling site code) (hafter : d.Receives site after) {i : Instruction}
    (hi : i ∈ code ++ after) : d.Plain i ∨ i.Invokes site ∨ i.kind = .discardResult := by
  rcases mem_append.1 hi with hi | hi
  · exact h.of_mem hi
  · exact .inl (hafter.plain i hi)

end Draft

theorem Draft.plains_nil (d : Draft) : d.Plains [] 0 := ⟨forall_mem_nil _, rfl⟩

theorem Draft.Plains.plain {d : Draft} {code : List Instruction} {level : Nat}
    (h : d.Plains code level) : ∀ i ∈ code, d.Plain i := fun i hi => (h.computes i hi).plain

theorem Draft.Plains.store {d : Draft} {value : List Instruction} {pop : Instruction} {level : Nat}
    (h : d.Plains value level) (hpop : d.Stores pop) : ∀ i ∈ value ++ [pop], d.Plain i :=
  forall_mem_append.2 ⟨h.plain, forall_mem_singleton.2 hpop.plain⟩

theorem Elaborates.refl (d : Draft) : Elaborates d [] (.straight []) d := .step .skip

end OnePass
