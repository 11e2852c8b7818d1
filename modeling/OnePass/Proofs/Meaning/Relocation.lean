import OnePass.Proofs.Meaning.Places
import OnePass.Proofs.Parsing.Alike

/-!
# The meaning of a program with other places

Every action on contexts goes through in the same way when all places are moved: it has the same result, or
fails for the same reason, and the contexts differ in places only.

Main results:

* `Meaning.Follows.bind` — **following is composed like the actions**;
* `Meaning.follows_act` — the meaning of an event;
* `Meaning.follows_program` — **the meaning of a program does not depend on places**.
-/

namespace OnePass

namespace Meaning

/-! ### Following -/

/-- On a moved context, an action does what another one does on the context, with moved results. -/
def Follows {α β : Type} (f : Location → Location) (g : α → β) (p : Meaning α) (p' : Meaning β) : Prop :=
  ∀ c : Context, p'.run.run (c.relocate f) = (relocateResult f g (p.run.run c).1, (p.run.run c).2.relocate f)

section Logic

variable {f : Location → Location} {α β γ δ : Type} {g : α → β} {h : γ → δ}

theorem follows_pure (a : α) : Follows f g (pure a) (pure (g a)) := fun _ => rfl

theorem follows_throw (d : Diagnostic) :
    Follows f g (throw d : Meaning α) (throw (d.relocate f) : Meaning β) := fun _ => rfl

theorem follows_failAt (place : Location) (fault : Fault) :
    Follows f g (failAt place fault : Meaning α) (failAt (f place) fault : Meaning β) := fun _ => rfl

theorem follows_failAt_bind (place : Location) (fault : Fault) {k : α → Meaning γ} {k' : β → Meaning δ} :
    Follows f h (failAt place fault >>= k) (failAt (f place) fault >>= k') := fun _ => rfl

theorem follows_throw_bind (d : Diagnostic) {k : α → Meaning γ} {k' : β → Meaning δ} :
    Follows f h (throw d >>= k) (throw (d.relocate f) >>= k') := fun _ => rfl

/-- **Following is composed like the actions.** -/
theorem Follows.bind {p : Meaning α} {p' : Meaning β} {k : α → Meaning γ} {k' : β → Meaning δ}
    (hp : Follows f g p p') (hk : ∀ a, Follows f h (k a) (k' (g a))) :
    Follows f h (p >>= k) (p' >>= k') := by
  intro c
  rw [run_bind, run_bind, hp c]
  rcases p.run.run c with ⟨d | a, next⟩
  · rfl
  · exact hk a next

theorem follows_get_bind {k : Context → Meaning γ} {k' : Context → Meaning δ}
    (hk : ∀ c, Follows f h (k c) (k' (c.relocate f))) : Follows f h (get >>= k) (get >>= k') :=
  fun c => hk c c

theorem follows_modify {change change' : Context → Context}
    (hchange : ∀ c, change' (c.relocate f) = (change c).relocate f) :
    Follows f id (modify change : Meaning PUnit) (modify change') := by
  intro c
  exact Prod.ext rfl (hchange c)

theorem follows_orFail {result : Except Diagnostic α} :
    Follows f g (orFail result) (orFail (relocateResult f g result)) := by
  cases result with
  | ok a => exact follows_pure a
  | error d => exact follows_throw d

theorem follows_orFail_of_eq {result : Except Diagnostic α} (hresult : relocateResult f id result = result) :
    Follows f id (orFail result) (orFail result) := by
  have hfollows : Follows f id (orFail result) (orFail (relocateResult f id result)) := follows_orFail
  rwa [hresult] at hfollows

theorem follows_ite {P P' : Prop} [Decidable P] [Decidable P'] {p q : Meaning α} {p' q' : Meaning β}
    (hiff : P' ↔ P) (hp : P → Follows f g p p') (hq : ¬P → Follows f g q q') :
    Follows f g (if P then p else q) (if P' then p' else q') := by
  by_cases hP : P
  · rw [if_pos hP, if_pos (hiff.2 hP)]
    exact hp hP
  · rw [if_neg hP, if_neg fun hP' => hP (hiff.1 hP')]
    exact hq hP

theorem follows_optional {P : Prop} [Decidable P] {p p' : Meaning α} {a : α} {k : α → Meaning γ}
    {k' : α → Meaning δ} (hp : Follows f id p p') (hk : ∀ a, Follows f h (k a) (k' a)) :
    Follows f h (if P then p >>= k else k a) (if P then p' >>= k' else k' a) :=
  follows_ite Iff.rfl (fun _ => hp.bind hk) fun _ => hk a

theorem follows_report {record record' : LogRecord} (hrecord : record' = record.relocate f) :
    Follows f id (report record) (report record') := by
  refine follows_modify fun c => ?_
  rw [hrecord]
  rfl

end Logic

variable {f : Location → Location}

/-! ### Contexts -/

theorem follows_here : Follows f id here here := fun _ => rfl

theorem follows_scope (id : Nat) : Follows f (Scope.relocate f) (scope id) (scope id) := by
  refine follows_get_bind fun c => ?_
  show Follows f _ (pure (c.scopes.scope id)) (pure ((c.scopes.relocate f).scope id))
  rw [ScopeTree.scope_relocate]
  exact follows_pure _

theorem follows_modifyScopes {change change' : ScopeTree → ScopeTree}
    (hchange : ∀ tree, change' (tree.relocate f) = (change tree).relocate f) :
    Follows f id (modifyScopes change) (modifyScopes change') := by
  refine follows_modify fun c => ?_
  simp only [Context.relocate, hchange]

theorem follows_setScopes (scopes : ScopeTree) :
    Follows f id (modify fun context => { context with scopes } : Meaning Unit)
      (modify fun context => { context with scopes := scopes.relocate f }) :=
  follows_modify fun _ => rfl

theorem follows_setStream (stream : Stream) :
    Follows f id (modify fun context => { context with stream } : Meaning Unit)
      (modify fun context => { context with stream }) :=
  follows_modify fun _ => rfl

theorem follows_createScope (parent : Nat) (kind : ScopeKind) (name : String) :
    Follows f id (createScope parent kind name) (createScope parent kind name) := by
  refine follows_get_bind fun c => ?_
  simp only [Context.relocate_scopes, ScopeTree.createChild_relocate]
  refine (follows_setScopes _).bind fun _ => ?_
  exact (follows_report rfl).bind fun _ => follows_pure _

theorem follows_goTo (S : Nat) : Follows f id (modifyScopes (·.goTo S)) (modifyScopes (·.goTo S)) :=
  follows_modifyScopes fun _ => rfl

theorem follows_enterScope (kind : ScopeKind) (name : String) :
    Follows f id (enterScope kind name) (enterScope kind name) := by
  refine follows_here.bind fun S => ?_
  refine (follows_createScope S kind name).bind fun T => ?_
  refine (follows_goTo T).bind fun _ => ?_
  exact (follows_report rfl).bind fun _ => follows_pure T

theorem follows_leaveScope : Follows f id leaveScope leaveScope := by
  refine follows_here.bind fun S => ?_
  refine (follows_scope S).bind fun left => ?_
  refine follows_get_bind fun c => ?_
  simp only [Context.relocate_scopes, ScopeTree.leave_relocate]
  refine follows_orFail.bind fun scopes => ?_
  exact (follows_report rfl).bind fun _ => follows_setScopes scopes

theorem follows_createNumbered (kind : ScopeKind) :
    Follows f id (createNumbered kind) (createNumbered kind) := by
  refine follows_here.bind fun S => ?_
  refine follows_get_bind fun c => ?_
  simp only [Context.relocate_scopes, ScopeTree.nextConditionalName_relocate]
  exact (follows_setScopes _).bind fun _ => follows_createScope _ _ _

theorem follows_insertSymbol (S : Nat) (symbol : Symbol) :
    Follows f id (insertSymbol S symbol) (insertSymbol S (symbol.relocate f)) := by
  refine (follows_scope S).bind fun scope => ?_
  simp only [Scope.relocate, SymbolTable.insert_relocate]
  refine follows_orFail.bind fun table => ?_
  exact follows_modifyScopes fun tree => ScopeTree.setTable_relocate f tree S table

theorem follows_instruction (kind : InstructionKind) (S : Nat) :
    Follows f id (instruction kind S) (instruction kind S) :=
  (follows_scope S).bind fun _ => follows_pure _

theorem follows_append (instruction : Instruction) :
    Follows f id (append instruction) (append instruction) := by
  refine follows_get_bind fun c => ?_
  exact (follows_setStream _).bind fun _ => follows_pure _

theorem follows_emit (kind : InstructionKind) : Follows f id (emit kind) (emit kind) := by
  refine follows_here.bind fun S => ?_
  exact (follows_instruction kind S).bind fun i => follows_append i

theorem follows_mark (kind : InstructionKind) (S : Nat) : Follows f id (mark kind S) (mark kind S) := by
  refine (follows_instruction kind S).bind fun i => ?_
  exact (follows_append i).bind fun _ => follows_pure _

theorem follows_literal (payload : Payload) : Follows f id (literal payload) (literal payload) := by
  refine follows_here.bind fun S => ?_
  exact (follows_instruction _ S).bind fun i => follows_pure _

theorem follows_insertBefore (i : Nat) (instruction : Instruction) :
    Follows f id (insertBefore i instruction) (insertBefore i instruction) := by
  refine follows_get_bind fun c => ?_
  refine (follows_orFail_of_eq ?_).bind fun result => ?_
  · unfold Stream.insertBefore
    split <;> rfl
  · exact (follows_setStream _).bind fun _ => follows_pure _

theorem follows_nextLabel : Follows f id nextLabel nextLabel := by
  refine follows_get_bind fun c => ?_
  refine (follows_modify ?_).bind fun _ => follows_pure _
  exact fun _ => rfl

theorem follows_reference (kind : InstructionKind) (name : String) (place : Location) :
    Follows f (Prod.map (Symbol.relocate f) id) (reference kind name place)
      (reference kind name (f place)) := by
  refine follows_get_bind fun c => ?_
  simp only [Context.relocate_scopes, ScopeTree.relocate_current, ScopeTree.owner?_relocate]
  cases c.scopes.owner? c.scopes.current name with
  | none => exact follows_failAt _ _
  | some owner =>
    simp only [ScopeTree.scope_relocate, Scope.relocate, SymbolTable.get?_relocate]
    cases (c.scopes.scope owner).table.get? name with
    | none => exact follows_failAt _ _
    | some symbol =>
      exact follows_ite Iff.rfl (fun _ => follows_failAt _ _) fun _ => follows_pure _

/-! ### Expressions -/

theorem follows_pushValue (value : Value) : Follows f id (pushValue value) (pushValue value) :=
  follows_modify fun _ => rfl

theorem follows_popValue : Follows f id popValue popValue := by
  refine follows_get_bind fun c => ?_
  simp only [Context.relocate_values]
  cases c.values with
  | nil => exact follows_throw _
  | cons value values =>
    refine (follows_modify ?_).bind fun _ => follows_pure _
    exact fun _ => rfl

theorem follows_promote (value : Value) : Follows f id (promote value) (promote value) := by
  refine (follows_modify ?_).bind fun _ => follows_pure _
  exact fun _ => rfl

theorem follows_unify (left right : Value) : Follows f id (unify left right) (unify left right) := by
  unfold unify
  split
  · split
    · exact (follows_promote left).bind fun _ => follows_pure _
    · refine follows_here.bind fun S => ?_
      refine (follows_instruction _ S).bind fun i => ?_
      refine (follows_insertBefore _ i).bind fun last => ?_
      exact (follows_report rfl).bind fun _ => follows_pure _
  · split
    · exact (follows_promote right).bind fun _ => follows_pure _
    · refine (follows_emit _).bind fun last => ?_
      exact (follows_report rfl).bind fun _ => follows_pure _
  · exact follows_pure _

theorem follows_arithmetic (operator : Operator) (left right : Value) (place : Location) :
    Follows f id (arithmetic operator left right place) (arithmetic operator left right (f place)) := by
  unfold arithmetic
  split
  · split
    · exact follows_failAt_bind _ _
    · exact (follows_emit _).bind fun _ => follows_pure _
  · split
    · refine (follows_unify left right).bind fun pair => ?_
      exact (follows_emit _).bind fun _ => follows_pure _
    · exact follows_failAt_bind _ _

theorem follows_truth (operator : Operator) (first : Nat) :
    Follows f id (truth operator first) (truth operator first) :=
  (follows_emit _).bind fun _ => follows_pure _

theorem follows_ordering (operator : Operator) (left right : Value) (place : Location) :
    Follows f id (ordering operator left right place) (ordering operator left right (f place)) := by
  unfold ordering
  split
  · exact follows_truth _ _
  · split
    · exact (follows_unify left right).bind fun pair => follows_truth _ _
    · exact follows_failAt _ _

theorem follows_equality (operator : Operator) (left right : Value) (place : Location) :
    Follows f id (equality operator left right place) (equality operator left right (f place)) := by
  unfold equality
  split
  · exact (follows_unify left right).bind fun _ => follows_truth _ _
  · split
    · exact (follows_promote right).bind fun _ => follows_truth _ _
    · split
      · exact (follows_promote left).bind fun _ => follows_truth _ _
      · split
        · exact follows_truth _ _
        · exact follows_failAt_bind _ _

theorem follows_coalesce (left right : Value) (place : Location) :
    Follows f id (coalesce left right place) (coalesce left right (f place)) := by
  unfold coalesce
  refine follows_ite Iff.rfl (fun _ => ?_) fun _ => follows_failAt_bind _ _
  generalize (if left.ty = .nil then right.ty.unwrapped else left.ty.unwrapped) = base
  -- from here on, with a right value that may have been promoted
  refine follows_optional (follows_promote right) fun right => ?_
  refine follows_ite Iff.rfl (fun _ => follows_failAt_bind _ _) fun _ => ?_
  refine follows_nextLabel.bind fun counter => ?_
  refine follows_here.bind fun S => ?_
  refine (follows_instruction _ S).bind fun i => ?_
  exact (follows_append _).bind fun last => follows_pure _

theorem follows_operand (token : Token) : Follows f id (operand token) (operand (token.relocate f)) := by
  unfold operand
  rw [Token.relocate_kind]
  split
  · rename_i name _
    refine (follows_reference _ name token.location).bind ?_
    rintro ⟨symbol, push⟩
    refine follows_ite Iff.rfl (fun _ => ?_) fun _ => follows_failAt_bind _ _
    exact (follows_append push).bind fun _ => follows_pushValue _
  · rename_i kind _
    refine (follows_literal _).bind fun i => ?_
    exact (follows_append i).bind fun _ => follows_pushValue _

theorem follows_binary (operator : Operator) (place : Location) :
    Follows f id (binary operator place) (binary operator (f place)) := by
  refine follows_popValue.bind fun right => ?_
  refine follows_popValue.bind fun left => ?_
  cases operator with
  | add | subtract | multiply | divide =>
    exact (follows_arithmetic _ left right place).bind fun value => follows_pushValue value
  | less | greater | lessEqual | greaterEqual =>
    exact (follows_ordering _ left right place).bind fun value => follows_pushValue value
  | equal | notEqual =>
    exact (follows_equality _ left right place).bind fun value => follows_pushValue value
  | coalesce => exact (follows_coalesce left right place).bind fun value => follows_pushValue value

theorem follows_unwrap (place : Location) : Follows f id (unwrap place) (unwrap (f place)) := by
  refine follows_popValue.bind fun value => ?_
  refine follows_ite Iff.rfl (fun _ => ?_) fun _ => follows_failAt_bind _ _
  refine follows_nextLabel.bind fun counter => ?_
  refine follows_here.bind fun S => ?_
  refine (follows_instruction _ S).bind fun i => ?_
  exact (follows_append _).bind fun last => follows_pushValue _

theorem follows_finish (wanted : Option Ty) : Follows f id (finish wanted) (finish wanted) := by
  refine follows_popValue.bind fun value => ?_
  refine follows_optional (follows_promote value) fun value => ?_
  exact (follows_report rfl).bind fun _ => follows_pure _

/-! ### Variables -/

theorem follows_declareName (name : String) (place : Location) :
    Follows f id (declareName name place) (declareName name (f place)) := by
  refine follows_here.bind fun S => ?_
  refine (follows_scope S).bind fun scope => ?_
  refine follows_ite ?_ (fun _ => follows_failAt _ _) fun _ => follows_pure _
  rw [Scope.relocate, SymbolTable.contains_relocate]

theorem follows_loopLabel (loop : Nat) : Follows f id (loopLabel loop) (loopLabel loop) := by
  refine follows_get_bind fun c => ?_
  simp only [Context.relocate_stream]
  split
  · exact follows_pure _
  · exact follows_throw _

theorem follows_reserve (name : String) : Follows f id (reserve name) (reserve name) := by
  refine follows_here.bind fun S => ?_
  refine (follows_instruction _ S).bind fun i => ?_
  refine follows_get_bind fun c => ?_
  simp only [Context.relocate_scopes, ScopeTree.outermostWhile?_relocate, id]
  cases c.scopes.outermostWhile? S with
  | none => exact (follows_append _).bind fun _ => follows_pure _
  | some loop =>
    refine (follows_loopLabel loop).bind fun label => ?_
    refine (follows_insertBefore label _).bind fun _ => ?_
    exact (follows_scope loop).bind fun _ => follows_report rfl

theorem follows_inferredTy (name : String) (place : Location) (value : Value) :
    Follows f id (inferredTy name place value) (inferredTy name (f place) value) := by
  unfold inferredTy
  split
  · exact follows_failAt _ _
  · exact follows_failAt _ _
  · exact follows_failAt _ _
  · exact follows_pure _

theorem follows_storedTy (name : String) (place : Location) (declared : Option Ty) :
    Follows f id (storedTy name place declared) (storedTy name (f place) declared) := by
  refine (follows_finish declared).bind fun value => ?_
  cases declared with
  | none => exact follows_inferredTy name place value
  | some ty => exact follows_ite Iff.rfl (fun _ => follows_pure _) fun _ => follows_failAt _ _

theorem follows_resultTy (callee name : String) (place : Location) :
    Follows f id (resultTy callee name place) (resultTy callee name (f place)) := by
  refine follows_get_bind fun c => ?_
  simp only [Context.relocate_scopes, ScopeTree.functionResult?_relocate]
  split
  · exact follows_failAt _ _
  · exact follows_failAt _ _
  · exact follows_pure _

theorem follows_initialTy (mutable : Bool) (name : String) (place : Location) (stated : Option Ty)
    (source : Option ValueSource) :
    Follows f id (initialTy mutable name place stated source)
      (initialTy mutable name (f place) stated source) := by
  unfold initialTy
  split
  · exact (follows_storedTy name place stated).bind fun _ => follows_pure _
  · exact follows_pure _
  · exact (follows_resultTy _ name place).bind fun _ => follows_pure _
  · refine follows_ite Iff.rfl (fun _ => ?_) fun _ => follows_pure _
    exact (follows_literal _).bind fun i => (follows_append i).bind fun _ => follows_pure _
  · exact follows_failAt _ _

theorem follows_bind (mutable : Bool) (name : String) (place : Location) (stated : Option Ty)
    (source : Option ValueSource) :
    Follows f id (bind mutable name place stated source) (bind mutable name (f place) stated source) := by
  refine (follows_initialTy mutable name place stated source).bind ?_
  rintro ⟨ty, defined⟩
  refine follows_here.bind fun S => ?_
  refine follows_ite Iff.rfl (fun _ => ?_) fun _ => follows_insertSymbol S _
  refine (follows_instruction _ S).bind fun i => ?_
  exact (follows_append _).bind fun _ => follows_insertSymbol S _

theorem follows_assigneeTy (name : String) (place : Location) :
    Follows f id (assigneeTy name place) (assigneeTy name (f place)) := by
  refine follows_get_bind fun c => ?_
  have hkind : ((c.relocate f).scopes.lookup? (c.relocate f).scopes.current name).map Symbol.kind =
      (c.scopes.lookup? c.scopes.current name).map Symbol.kind := by
    simp only [Context.relocate_scopes, ScopeTree.lookup?_relocate, Option.map_map]
    rfl
  simp only [hkind]
  split
  · exact follows_failAt _ _
  · exact follows_failAt _ _
  · exact follows_pure _
  · exact follows_failAt _ _
  · exact follows_failAt _ _

theorem follows_assign (name : String) (place : Location) (source : ValueSource) :
    Follows f id (assign name place source) (assign name (f place) source) := by
  have hrest : Follows f id
      (do let pair ← reference .popVariable name place
          let _ ← append pair.2
          modifyScopes fun scopes => scopes.modifyVisible scopes.current name (·.withDefined true))
      (do let pair ← reference .popVariable name (f place)
          let _ ← append pair.2
          modifyScopes fun scopes => scopes.modifyVisible scopes.current name (·.withDefined true)) := by
    refine (follows_reference _ name place).bind fun pair => ?_
    refine (follows_append _).bind fun _ => follows_modifyScopes fun tree => ?_
    exact ScopeTree.modifyVisible_relocate f tree _ name fun symbol => symbol.withDefined_relocate f true
  cases source with
  | call callee => exact hrest
  | expression =>
    refine (follows_assigneeTy name place).bind fun ty => ?_
    exact (follows_storedTy name place (some ty)).bind fun _ => hrest

/-! ### Calls -/

theorem follows_argument (callee : String) (label : Option String) (term : Token) (place : Location) :
    Follows f id (argument callee label term place) (argument callee label (term.relocate f) (f place)) := by
  have hpush : Follows f id (argumentPush term) (argumentPush (term.relocate f)) := by
    unfold argumentPush
    rw [Token.relocate_kind]
    split
    · exact (follows_reference _ _ term.location).bind fun pair => follows_pure _
    · exact (follows_literal _).bind fun i => follows_pure _
  refine hpush.bind ?_
  rintro ⟨ty, initialized, literal, instruction⟩
  refine (follows_append instruction).bind fun push => ?_
  exact follows_ite Iff.rfl (fun _ => (follows_emit _).bind fun _ => follows_modify fun _ => rfl)
    fun _ => follows_modify fun _ => rfl

theorem follows_receivedTy (callee : String) (receiver : Receiver) :
    Follows f id (receivedTy callee receiver) (receivedTy callee (receiver.relocate f)) := by
  cases receiver with
  | assigned name place => exact follows_assigneeTy name place
  | declared name place stated =>
    cases stated with
    | none => exact follows_resultTy callee name place
    | some ty => exact follows_pure _

theorem follows_receiveCall (callee : String) (receiver : Receiver) :
    Follows f id (receiveCall callee receiver) (receiveCall callee (receiver.relocate f)) :=
  (follows_receivedTy callee receiver).bind fun _ => follows_pure _

theorem follows_purposeOf (callee : String) (purpose : CallUse) :
    Follows f id (purposeOf callee purpose) (purposeOf callee (purpose.relocate f)) := by
  cases purpose with
  | received receiver => exact (follows_receivedTy callee receiver).bind fun _ => follows_pure _
  | dropped =>
    refine follows_get_bind fun c => ?_
    simp only [Context.relocate_scopes, ScopeTree.functionResult?_relocate]
    exact follows_pure _

theorem follows_callInstructions (callee : String) (callId : Nat) (scaffolded : Bool) :
    Follows f id (callInstructions callee callId scaffolded) (callInstructions callee callId scaffolded) := by
  refine follows_ite Iff.rfl (fun _ => follows_pure _) fun _ => ?_
  refine follows_here.bind fun S => ?_
  refine (follows_instruction _ S).bind fun i => ?_
  refine (follows_append _).bind fun _ => ?_
  exact follows_ite Iff.rfl (fun _ => (follows_emit _).bind fun _ => follows_pure _) fun _ => follows_pure _

theorem follows_call (callee : String) (place : Location) (purpose : CallUse) :
    Follows f id (call callee place purpose) (call callee (f place) (purpose.relocate f)) := by
  refine (follows_purposeOf callee purpose).bind ?_
  rintro ⟨target, scaffolded⟩
  refine follows_get_bind fun c => ?_
  have hid : (c.relocate f).calls.nextId = c.calls.nextId := by
    simp only [Context.relocate, Calls.nextId, Calls.relocate_length]
  simp only [hid]
  refine (follows_callInstructions callee _ scaffolded).bind fun _ => ?_
  refine (follows_report rfl).bind fun _ => follows_modify fun context => ?_
  simp only [Context.relocate, Calls.relocate, Calls.record, List.map_cons, List.map_nil, CallSite.relocate,
    List.map_reverse, Option.map_some, ScopeTree.relocate_current]

/-! ### Conditionals and loops -/

theorem follows_openBlock (kind : ScopeKind) : Follows f id (openBlock kind) (openBlock kind) := by
  refine (follows_createNumbered kind).bind fun S => ?_
  refine (follows_modify ?_).bind fun _ => follows_pure _
  exact fun _ => rfl

theorem follows_innermost : Follows f id innermost innermost := by
  refine follows_get_bind fun c => ?_
  simp only [Context.relocate_blocks]
  cases c.blocks with
  | nil => exact follows_throw _
  | cons block blocks => exact follows_pure _

theorem follows_closeBlock : Follows f id closeBlock closeBlock := follows_modify fun _ => rfl

theorem follows_expectCondition (statement : Keyword) (place : Location) :
    Follows f id (expectCondition statement place) (expectCondition statement (f place)) := by
  refine (follows_finish none).bind fun value => ?_
  exact follows_ite Iff.rfl (fun _ => follows_pure _) fun _ => follows_failAt _ _

theorem follows_setTy (name : String) (ty : Ty) : Follows f id (setTy name ty) (setTy name ty) := by
  refine follows_modifyScopes fun tree => ?_
  exact ScopeTree.modifyVisible_relocate f tree _ name fun symbol => symbol.withTy_relocate f ty

theorem follows_beginIf : Follows f id beginIf beginIf :=
  (follows_openBlock _).bind fun _ => follows_pure _

theorem follows_enterBlock (kind : InstructionKind) : Follows f id
      (do let block ← innermost; mark kind block.scope; modifyScopes (·.goTo block.scope) : Meaning Unit)
      (do let block ← innermost; mark kind block.scope; modifyScopes (·.goTo block.scope)) := by
  refine follows_innermost.bind fun block => ?_
  exact (follows_mark _ _).bind fun _ => follows_goTo _

theorem follows_ifCondition (place : Location) : Follows f id (ifCondition place) (ifCondition (f place)) :=
  (follows_expectCondition _ place).bind fun _ => follows_enterBlock _

theorem follows_whileCondition (place : Location) :
    Follows f id (whileCondition place) (whileCondition (f place)) :=
  (follows_expectCondition _ place).bind fun _ => follows_enterBlock _

theorem follows_ifLet (name : String) (place : Location) :
    Follows f id (ifLet name place) (ifLet name (f place)) := by
  refine (follows_reference _ name place).bind ?_
  rintro ⟨symbol, test⟩
  refine follows_ite Iff.rfl (fun _ => ?_) fun _ => follows_failAt_bind _ _
  refine follows_ite Iff.rfl (fun _ => ?_) fun _ => follows_failAt_bind _ _
  refine follows_innermost.bind fun block => ?_
  refine (follows_append _).bind fun _ => ?_
  refine (follows_setTy name _).bind fun _ => ?_
  refine (follows_modify ?_).bind fun _ => follows_goTo _
  exact fun _ => rfl

theorem follows_endThen : Follows f id endThen endThen := by
  refine follows_leaveScope.bind fun _ => ?_
  refine follows_innermost.bind fun block => ?_
  simp only [id]
  cases block.narrowed with
  | none => exact follows_mark _ _
  | some narrowed => exact (follows_setTy _ _).bind fun _ => follows_mark _ _

theorem follows_beginElse : Follows f id beginElse beginElse := by
  refine follows_innermost.bind fun block => ?_
  refine follows_here.bind fun S => ?_
  refine (follows_scope _).bind fun scope => ?_
  refine (follows_createScope _ _ _).bind fun T => follows_modifyScopes fun tree => ?_
  have hmodify : (tree.relocate f).modify block.scope (fun scope => { scope with otherwise := some T }) =
      (tree.modify block.scope fun scope => { scope with otherwise := some T }).relocate f :=
    ScopeTree.modify_relocate f tree block.scope fun _ => rfl
  exact congrArg (·.goTo T) hmodify

theorem follows_exitBlock (kind : InstructionKind) :
    Follows f id (do mark kind (← innermost).scope; closeBlock : Meaning Unit)
      (do mark kind (← innermost).scope; closeBlock) := by
  refine follows_innermost.bind fun block => ?_
  exact (follows_mark _ _).bind fun _ => follows_closeBlock

theorem follows_beginWhile : Follows f id beginWhile beginWhile :=
  (follows_openBlock _).bind fun _ => follows_mark _ _

theorem follows_endWhile : Follows f id endWhile endWhile :=
  follows_leaveScope.bind fun _ => follows_exitBlock _

/-! ### Functions -/

theorem follows_functionName (name : String) (place : Location) :
    Follows f id (functionName name place) (functionName name (f place)) := by
  refine (follows_scope _).bind fun scope => ?_
  refine follows_ite ?_ (fun _ => follows_failAt _ _) fun _ => follows_pure _
  rw [Scope.relocate, SymbolTable.contains_relocate]

theorem follows_beginParameters (name : String) :
    Follows f id (beginParameters name) (beginParameters name) :=
  (follows_enterScope _ _).bind fun _ => follows_pure _

theorem follows_parameter (index : Nat) (label name : Option String) (ty : Ty) (place : Location) :
    Follows f id (parameter index label name ty place) (parameter index label name ty (f place)) := by
  cases label with
  | none => exact follows_here.bind fun S => follows_insertSymbol S _
  | some shared =>
    refine follows_ite Iff.rfl (fun _ => follows_failAt_bind _ _) fun _ => ?_
    exact follows_here.bind fun S => follows_insertSymbol S _

theorem follows_popParameters (header count : Nat) :
    Follows f id (popParameters header count) (popParameters header count) := by
  induction count with
  | zero => exact follows_pure _
  | succ index ih =>
    refine (follows_scope header).bind fun scope => ?_
    simp only [Scope.relocate, SymbolTable.parameterAt?_relocate]
    cases scope.table.parameterAt? index with
    | none => exact follows_throw _
    | some symbol =>
      refine (follows_instruction _ header).bind fun i => ?_
      exact (follows_append _).bind fun _ => ih

theorem follows_beginBody (name : String) (place : Location) (parameters : Nat) (returns : Ty) :
    Follows f id (beginBody name place parameters returns) (beginBody name (f place) parameters returns) := by
  refine follows_here.bind fun header => ?_
  refine (follows_modifyScopes fun tree => ?_).bind fun _ => ?_
  · exact ScopeTree.modify_relocate f tree header fun _ => rfl
  refine (follows_insertSymbol ScopeTree.root _).bind fun _ => ?_
  refine (follows_instruction _ header).bind fun i => ?_
  refine (follows_append _).bind fun _ => ?_
  refine (follows_popParameters header parameters).bind fun _ => ?_
  refine (follows_report rfl).bind fun _ => ?_
  exact (follows_enterScope _ _).bind fun _ => follows_pure _

theorem follows_endFunction (name : String) : Follows f id (endFunction name) (endFunction name) := by
  refine follows_leaveScope.bind fun _ => ?_
  refine follows_here.bind fun header => ?_
  refine follows_leaveScope.bind fun _ => ?_
  refine (follows_instruction _ header).bind fun i => ?_
  exact (follows_append _).bind fun _ => follows_pure _

theorem follows_returnContext (place : Location) :
    Follows f id (returnContext place) (returnContext (f place)) := by
  refine follows_here.bind fun S => ?_
  refine follows_get_bind fun c => ?_
  simp only [Context.relocate_scopes, ScopeTree.enclosingFunction_relocate, id]
  unfold ScopeTree.enclosingFunction
  cases (c.scopes.ancestors S).find? fun T => (c.scopes.scope T).kind == .functionHeader with
  | none => exact follows_failAt_bind place .returnOutsideFunction
  | some header =>
    refine (follows_pure (g := id) header).bind fun header => ?_
    refine (follows_scope S).bind fun scope => ?_
    refine follows_ite Iff.rfl (fun _ => follows_failAt_bind _ _) fun _ => ?_
    refine (follows_scope header).bind fun scope => ?_
    refine follows_get_bind fun c => ?_
    simp only [Context.relocate_scopes, Scope.relocate, ScopeTree.functionResult?_relocate]
    cases c.scopes.functionResult? scope.name with
    | none => exact follows_throw _
    | some returns => exact follows_pure _

theorem follows_beginReturn (hasValue : Bool) (place : Location) :
    Follows f id (beginReturn hasValue place) (beginReturn hasValue (f place)) := by
  refine (follows_returnContext place).bind ?_
  rintro ⟨function, returns⟩
  simp only [id]
  split
  · exact follows_failAt _ _
  · exact follows_pure _
  · exact follows_failAt _ _
  · exact follows_pure _

theorem follows_endReturn (hasValue : Bool) (place : Location) :
    Follows f id (endReturn hasValue place) (endReturn hasValue (f place)) := by
  have hrest : Follows f id
      (do let _ ← emit .returnValue
          let current ← here
          modifyScopes (·.modify current fun scope => { scope with hasReturn := true }))
      (do let _ ← emit .returnValue
          let current ← here
          modifyScopes (·.modify current fun scope => { scope with hasReturn := true })) := by
    refine (follows_emit _).bind fun _ => ?_
    refine follows_here.bind fun S => follows_modifyScopes fun tree => ?_
    exact ScopeTree.modify_relocate f tree S fun _ => rfl
  refine follows_ite Iff.rfl (fun _ => ?_) fun _ => hrest
  refine (follows_returnContext place).bind ?_
  rintro ⟨function, returns⟩
  refine (follows_finish _).bind fun value => ?_
  exact follows_ite Iff.rfl (fun _ => hrest) fun _ => follows_failAt_bind _ _

/-! ### The checks at the end -/

theorem follows_removeScaffold (callId : Nat) :
    Follows f id (removeScaffold callId) (removeScaffold callId) := by
  refine follows_get_bind fun c => ?_
  simp only [Context.relocate_stream]
  split
  · exact follows_throw _
  · refine (follows_orFail_of_eq ?_).bind fun result => ?_
    · unfold Stream.deleteAfter
      split <;> rfl
    · exact (follows_setStream _).bind fun _ => follows_report rfl

theorem or_relocate (argument : Argument) (site : CallSite) :
    (argument.relocate f).location.or (site.relocate f).location =
      (argument.location.or site.location).map f := by
  rw [Argument.relocate, CallSite.relocate]
  cases argument.location <;> rfl

theorem follows_checkArgument (site : CallSite) (header : Scope) (index : Nat) (argument : Argument) :
    Follows f id (checkArgument site header index argument)
      (checkArgument (site.relocate f) (header.relocate f) index (argument.relocate f)) := by
  have hkind : ((header.relocate f).table.parameterAt? index).map Symbol.kind =
      (header.table.parameterAt? index).map Symbol.kind := by
    simp only [Scope.relocate, SymbolTable.parameterAt?_relocate, Option.map_map]
    rfl
  unfold checkArgument
  simp only [hkind, or_relocate]
  split
  · refine follows_ite Iff.rfl (fun _ => follows_throw_bind _) fun _ => ?_
    refine follows_ite Iff.rfl (fun _ => follows_pure _) fun _ => ?_
    refine follows_ite Iff.rfl (fun _ => follows_modify fun _ => rfl) fun _ => ?_
    exact follows_throw _
  · exact follows_throw _

theorem follows_checkArguments (site : CallSite) (header : Scope) (arguments : List Argument) (index : Nat) :
    Follows f id (checkArguments site header index arguments)
      (checkArguments (site.relocate f) (header.relocate f) index (arguments.map (Argument.relocate f))) := by
  induction arguments generalizing index with
  | nil => exact follows_pure _
  | cons argument later ih =>
    exact (follows_checkArgument site header index argument).bind fun _ => ih (index + 1)

theorem follows_checkResult (site : CallSite) (returns : Ty) :
    Follows f id (checkResult site returns) (checkResult (site.relocate f) returns) := by
  unfold checkResult
  have htarget : (site.relocate f).target = site.target := rfl
  rw [htarget]
  split
  · exact follows_ite Iff.rfl (fun _ => follows_pure _) fun _ => follows_throw _
  · exact follows_ite Iff.rfl (fun _ => follows_removeScaffold _) fun _ => follows_pure _

/-- **The check of a call does not look at places.** -/
theorem follows_checkCall (site : CallSite) :
    Follows f id (checkCall site) (checkCall (site.relocate f)) := by
  refine follows_get_bind fun c => ?_
  have hname : (site.relocate f).name = site.name := rfl
  have hlength : (site.relocate f).arguments.length = site.arguments.length := List.length_map _
  simp only [Context.relocate_scopes, ScopeTree.function?_relocate, ScopeTree.functionResult?_relocate,
    ScopeTree.scope_relocate, hname]
  cases c.scopes.function? site.name with
  | none => exact follows_throw _
  | some S =>
    simp only
    cases c.scopes.functionResult? site.name with
    | none => exact follows_throw _
    | some returns =>
      have hfind : (site.relocate f).arguments.find? (!·.initialized) =
          (site.arguments.find? (!·.initialized)).map (Argument.relocate f) := by
        rw [CallSite.relocate, List.find?_map]
        rfl
      refine follows_ite ?_ (fun _ => ?_) fun _ => ?_
      · rw [hlength]
        rfl
      · rw [hlength]
        exact follows_throw_bind _
      · rw [hfind]
        cases site.arguments.find? (!·.initialized) with
        | none =>
          refine follows_ite Iff.rfl (fun _ => follows_checkResult site returns) fun _ => ?_
          exact (follows_checkArguments site _ _ 0).bind fun _ => follows_checkResult site returns
        | some argument =>
          simp only [Option.map_some, or_relocate]
          exact follows_throw_bind _

theorem follows_forM {α : Type} {move : α → α} {p p' : α → Meaning Unit} (items : List α)
    (h : ∀ a ∈ items, Follows f id (p a) (p' (move a))) :
    Follows f id (items.forM p) ((items.map move).forM p') := by
  induction items with
  | nil => exact follows_pure _
  | cons item items ih =>
    obtain ⟨hitem, hitems⟩ := List.forall_mem_cons.1 h
    exact hitem.bind fun _ => ih hitems

theorem follows_checkCalls : Follows f id checkCalls checkCalls := by
  refine follows_get_bind fun c => ?_
  simp only [Context.relocate_calls, Calls.toList_relocate, Calls.relocate_length]
  exact (follows_forM _ fun site _ => follows_checkCall site).bind fun _ => follows_report rfl

/-! ### Programs -/

/-- **The meaning of an event does not depend on places.** -/
theorem follows_act (event : Event) : Follows f id (act event) (act (event.relocate f)) := by
  cases event with
  | read token => exact follows_report rfl
  | refused => exact follows_pure _
  | moved => exact follows_pure _
  | start =>
    let created (builtin : Builtin) : LogRecord := .scopeCreated builtin.name .functionHeader ScopeTree.root
    have hall : Follows f id (Builtin.all.forM fun builtin => report (created builtin))
        ((Builtin.all.map id).forM fun builtin => report (created builtin)) :=
      follows_forM Builtin.all fun _ _ => follows_report rfl
    rw [List.map_id] at hall
    exact hall.bind fun _ => follows_report rfl
  | operand token => exact follows_operand token
  | binary operator place => exact follows_binary operator place
  | unwrap place => exact follows_unwrap place
  | declareName name place => exact follows_declareName name place
  | reserve name => exact follows_reserve name
  | bind mutable name place stated source => exact follows_bind mutable name place stated source
  | assignee name place => exact (follows_assigneeTy name place).bind fun _ => follows_pure _
  | assign name place source => exact follows_assign name place source
  | receiveCall callee receiver => exact follows_receiveCall callee receiver
  | argument callee label term place => exact follows_argument callee label term place
  | call callee place purpose => exact follows_call callee place purpose
  | beginIf => exact follows_beginIf
  | ifCondition place => exact follows_ifCondition place
  | ifLet name place => exact follows_ifLet name place
  | endThen => exact follows_endThen
  | beginElse => exact follows_beginElse
  | endElse => exact follows_leaveScope
  | endIf => exact follows_exitBlock _
  | beginWhile => exact follows_beginWhile
  | whileCondition place => exact follows_whileCondition place
  | endWhile => exact follows_endWhile
  | functionName name place => exact follows_functionName name place
  | beginParameters name => exact follows_beginParameters name
  | parameter index label name ty place => exact follows_parameter index label name ty place
  | beginBody name place parameters returns => exact follows_beginBody name place parameters returns
  | endFunction name => exact follows_endFunction name
  | beginReturn hasValue place => exact follows_beginReturn hasValue place
  | endReturn hasValue place => exact follows_endReturn hasValue place

theorem follows_checked {transcript transcript' : Transcript}
    (h : Follows f id (read transcript) (read transcript')) :
    Follows f id (checked transcript) (checked transcript') := by
  refine h.bind fun _ => ?_
  refine follows_get_bind fun c => ?_
  simp only [Context.relocate_scopes, Context.relocate_stream, Context.relocate_calls,
    ScopeTree.relocate_size, Calls.relocate_length]
  exact (follows_report rfl).bind fun _ => follows_checkCalls

end Meaning

/-- The program with other places. -/
def Program.relocate (f : Location → Location) (program : Program) : Program :=
  { program with scopes := program.scopes.relocate f, calls := program.calls.relocate f }

namespace Meaning

/-- **The meaning of a program does not depend on places.** -/
theorem follows_program {f : Location → Location} {transcript transcript' : Transcript}
    (h : Follows f id (read transcript) (read transcript')) :
    Follows f (Program.relocate f) (program transcript) (program transcript') := by
  refine (follows_checked h).bind fun _ => ?_
  refine follows_get_bind fun c => ?_
  simp only [Context.relocate_scopes, ScopeTree.checkReturns_relocate]
  refine (follows_orFail_of_eq ?_).bind fun _ => follows_pure _
  unfold ScopeTree.checkReturns
  split <;> rfl

end Meaning

end OnePass
