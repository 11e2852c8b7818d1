import OnePass.Meaning.Expression
import OnePass.Proofs.Run
import OnePass.Proofs.Sheet

/-!
# Typed expressions

An expression can be compiled in two passes.  The first one types it from the operands up and turns it
into a formula, in which every operation and every conversion has its place; the second one writes the
operations of the formula in postfix order.

Main results:

* `Formula.code_toDouble` — the code of a promoted formula is the promoted code;
* `ScopeTree.external_of_typed` — an expression is refused for a reason that lies in the program, at a place of it;
* `ScopeTree.evaluates_of_typed` — the code of a typed expression is its code in the sense of sheets.
-/

namespace OnePass

variable {l r : Ty}

/-! ### Formulas -/

/-- How many labels an operation needs. -/
def InstructionKind.labels : InstructionKind → Nat
  | .unwrap | .coalesce => 1
  | _ => 0

/-- The operation that does the same on doubles. -/
def InstructionKind.onDoubles : InstructionKind → InstructionKind
  | .intDiv => .div
  | kind => kind

theorem InstructionKind.labels_onDoubles (kind : InstructionKind) : kind.onDoubles.labels = kind.labels := by
  cases kind <;> rfl

/-- An operation of the current scope, where some labels have been given out. -/
def ScopeTree.operation (t : ScopeTree) (kind : InstructionKind) (labels : Nat) : Instruction :=
  { t.mark kind t.current with counter := if kind.labels = 0 then 0 else labels + 1 }

theorem ScopeTree.promote_operation (t : ScopeTree) (kind : InstructionKind) (labels : Nat) :
    (t.operation kind labels).promote = t.operation kind.onDoubles labels := by
  cases kind <;> rfl

/-- What an expression pushes and what it does with it. -/
inductive Formula where
  | literal (payload : Payload)
  | read (name : String) (owner : Nat)
  | unary (kind : InstructionKind) (inner : Formula)
  | binary (kind : InstructionKind) (left right : Formula)

namespace Formula

/-- How many labels a formula needs. -/
def labels : Formula → Nat
  | literal _ | read _ _ => 0
  | unary kind inner => inner.labels + kind.labels
  | binary kind left right => left.labels + right.labels + kind.labels

/-- The code of a formula where some labels have been given out: operands before operations. -/
def code (t : ScopeTree) : Nat → Formula → List Instruction
  | _, literal payload => [{ t.mark .pushLiteral t.current with payload := some payload }]
  | _, read name owner => [t.named .pushVariable name owner]
  | n, unary kind inner => inner.code t n ++ [t.operation kind (n + inner.labels)]
  | n, binary kind left right =>
      left.code t n ++ (right.code t (n + left.labels) ++ [t.operation kind (n + left.labels + right.labels)])

/-- Whether a formula is made of literals and operators on them.  What `??` gives is not a literal. -/
def isLiteral : Formula → Bool
  | literal _ => true
  | binary kind left right => kind != .coalesce && (left.isLiteral && right.isLiteral)
  | _ => false

/-- A formula of literals on doubles: its literals and its divisions change. -/
def toDouble : Formula → Formula
  | literal (.int value) => literal (.double (.ofInt value))
  | binary kind left right => binary kind.onDoubles left.toDouble right.toDouble
  | formula => formula

theorem labels_toDouble (x : Formula) : x.toDouble.labels = x.labels := by
  induction x with
  | literal payload => cases payload <;> rfl
  | read | unary => rfl
  | binary kind left right ihl ihr =>
    rw [toDouble, labels, labels, ihl, ihr, InstructionKind.labels_onDoubles]

theorem code_toDouble (t : ScopeTree) (n : Nat) {x : Formula} (h : x.isLiteral) :
    x.toDouble.code t n = (x.code t n).map Instruction.promote := by
  induction x generalizing n with
  | literal payload => cases payload <;> rfl
  | read | unary => cases h
  | binary kind left right ihl ihr =>
    rw [isLiteral, Bool.and_eq_true, Bool.and_eq_true] at h
    rw [toDouble, code, code, ihl n h.2.1, ihr _ h.2.2, labels_toDouble, labels_toDouble, List.map_append,
      List.map_append, List.map_singleton, ScopeTree.promote_operation]

end Formula

/-! ### Typing -/

/-- Whether two types can be compared for equality as they are. -/
def Ty.equatable : Ty → Ty → Bool
  | .base a, .base b | .base a, .optional b | .optional a, .base b | .optional a, .optional b => a = b
  | .optional _, .nil | .nil, .optional _ | .nil, .nil => true
  | _, _ => false

/-- The type of `??`: the right operand decides whether the result can be absent. -/
def Ty.coalesced : Ty → Ty → Option Ty
  | .optional a, .base b => if a = b then some (.base b) else none
  | .optional a, .optional b => if a = b then some (.optional b) else none
  | .optional a, .nil => some (.optional a)
  | .nil, .base b => some (.base b)
  | .nil, .optional b => some (.optional b)
  | .nil, .nil => some .nil
  | _, _ => none

theorem Ty.comparable_eq_equatable (l r : Ty) : l.comparable r = l.equatable r := by
  rcases l with ⟨_ | _ | _⟩ | ⟨_ | _ | _⟩ | _ | _ | _ <;>
    rcases r with ⟨_ | _ | _⟩ | ⟨_ | _ | _⟩ | _ | _ | _ <;> rfl

theorem Ty.coalesced_eq (h : l.isOptional ∨ l = .nil) (r : Ty) {base : Ty}
    (hbase : base = if l = .nil then r.unwrapped else l.unwrapped) :
    l.coalesced r = if r ≠ .nil ∧ (r.unwrapped ≠ base ∨ !r.isStorable) then none
      else some (if r.isOptional || r == .nil then base.wrapped else base) := by
  subst hbase
  rcases l with _ | ⟨_ | _ | _⟩ | _ | _ | _
  all_goals first
    | (rcases r with ⟨_ | _ | _⟩ | ⟨_ | _ | _⟩ | _ | _ | _ <;> rfl)
    | (rcases h with h | h <;> cases h)

theorem Ty.unwrapped_of_equatable (h : l.equatable r) : l.unwrapped = r.unwrapped ∨ l = .nil ∨ r = .nil := by
  unfold Ty.equatable at h
  split at h
  all_goals simp_all [Ty.unwrapped]

theorem Ty.cases_of_coalesced {ty : Ty} (h : l.coalesced r = some ty) :
    (ty = r ∨ r = .nil ∧ ty = l) ∧ (l = .nil ∨ l.isOptional ∧ ty.unwrapped = l.unwrapped) := by
  unfold Ty.coalesced at h
  split at h
  iterate 2
    · obtain ⟨rfl, h⟩ := Option.ite_none_right_eq_some.1 h
      cases h
      exact ⟨.inl rfl, .inr ⟨rfl, rfl⟩⟩
  · cases h
    exact ⟨.inr ⟨rfl, rfl⟩, .inr ⟨rfl, rfl⟩⟩
  iterate 3
    · cases h
      exact ⟨.inl rfl, .inl rfl⟩
  · cases h

/-- A formula with the type of its value. -/
structure Typed where
  ty : Ty
  formula : Formula

namespace Typed

def isIntLiteral (x : Typed) : Bool := x.ty = .int && x.formula.isLiteral

theorem isIntLiteral_iff (x : Typed) : x.isIntLiteral ↔ x.ty = .int ∧ x.formula.isLiteral := by
  rw [isIntLiteral, Bool.and_eq_true, decide_eq_true_eq]

/-- A literal integer as a double. -/
def promoted (x : Typed) : Typed := ⟨.double, x.formula.toDouble⟩

/-- A number as a double: literals are rewritten, other integers are converted when the program runs. -/
def asDouble (x : Typed) : Typed :=
  if x.ty = .int then if x.formula.isLiteral then x.promoted else ⟨.double, .unary .intToDouble x.formula⟩
  else x

/-- An integer that is made of literals adapts to a type that doubles have. -/
def adapted (x : Typed) (wanted : Ty) : Typed :=
  if wanted.unwrapped = .double ∧ x.isIntLiteral then x.promoted else x

/-- Two numbers of one type. -/
def numbers (l r : Typed) : Option (Typed × Typed) :=
  match l.ty, r.ty with
  | .int, .int => some (l, r)
  | .int, .double | .double, .int | .double, .double => some (l.asDouble, r.asDouble)
  | _, _ => none

theorem isSome_numbers (l r : Typed) : (l.numbers r).isSome = (l.ty.isNumeric && r.ty.isNumeric) := by
  rcases l with ⟨⟨_ | _ | _⟩ | _ | _ | _ | _, l⟩ <;> rcases r with ⟨⟨_ | _ | _⟩ | _ | _ | _ | _, r⟩ <;> rfl

theorem asDouble_of_double {x : Typed} (h : x.ty = .double) : x.asDouble = x :=
  if_neg (by rw [h]; exact nofun)

theorem ty_asDouble {x : Typed} (h : x.ty = .double ∨ x.ty = .int) : x.asDouble.ty = .double := by
  unfold asDouble promoted
  split
  · split <;> rfl
  · exact h.resolve_right ‹_›

theorem ty_of_numbers {l r l' r' : Typed} (h : l.numbers r = some (l', r')) : l'.ty = r'.ty := by
  unfold numbers at h
  split at h <;> cases h <;> rename_i hl hr
  · exact hl.trans hr.symm
  · exact (ty_asDouble (.inr hl)).trans (ty_asDouble (.inl hr)).symm
  · exact (ty_asDouble (.inl hl)).trans (ty_asDouble (.inr hr)).symm
  · exact (ty_asDouble (.inl hl)).trans (ty_asDouble (.inl hr)).symm

theorem adapted_of_numbers {l r : Typed} (h : l.numbers r = none) :
    r.adapted l.ty = if l.ty = .optional .double ∧ r.isIntLiteral then r.promoted else r := by
  unfold adapted
  refine if_congr (and_congr_left fun hint => ⟨fun hty => ?_, fun hty => by rw [hty]; rfl⟩) rfl rfl
  have hr : r.ty = .int := (r.isIntLiteral_iff.1 hint).1
  cases hl : l.ty with
  | optional b =>
    rw [hl] at hty
    exact congrArg _ (Ty.base.inj hty)
  | base b =>
    rw [hl] at hty
    have hsome := isSome_numbers l r
    rw [h, hl, hr, show Ty.base b = .double from hty] at hsome
    cases hsome
  | bool | nil | void =>
    rw [hl] at hty
    cases hty

/-- The fault of operands that do not fit. -/
def mismatch (operator : Operator) (place : Location) (l r : Typed) : Diagnostic :=
  ⟨.operandTypes operator l.ty r.ty, some place⟩

def arithmetic (operator : Operator) (place : Location) (l r : Typed) : Except Diagnostic Typed :=
  if l.ty = .string ∧ r.ty = .string then
    if operator = .add then .ok ⟨.string, .binary .concat l.formula r.formula⟩
    else .error ⟨.stringArithmetic, some place⟩
  else
    match l.numbers r with
    | some (l, r) => .ok ⟨l.ty, .binary (Meaning.arithmeticKind operator l.ty) l.formula r.formula⟩
    | none => .error (mismatch operator place l r)

/-- The result of a comparison. -/
def comparison (operator : Operator) (l r : Typed) : Typed :=
  ⟨.bool, .binary (Meaning.comparisonKind operator) l.formula r.formula⟩

def ordering (operator : Operator) (place : Location) (l r : Typed) : Except Diagnostic Typed :=
  if l.ty = .string ∧ r.ty = .string then .ok (comparison operator l r)
  else
    match l.numbers r with
    | some (l, r) => .ok (comparison operator l r)
    | none => .error (mismatch operator place l r)

def equality (operator : Operator) (place : Location) (l r : Typed) : Except Diagnostic Typed :=
  match l.numbers r with
  | some (l, r) => .ok (comparison operator l r)
  | none =>
      if (l.adapted r.ty).ty.equatable (r.adapted l.ty).ty then
        .ok (comparison operator (l.adapted r.ty) (r.adapted l.ty))
      else .error (mismatch operator place l r)

def coalesce (place : Location) (l r : Typed) : Except Diagnostic Typed :=
  if l.ty.isOptional ∨ l.ty = .nil then
    match l.ty.coalesced (r.adapted l.ty).ty with
    | some ty => .ok ⟨ty, .binary .coalesce l.formula (r.adapted l.ty).formula⟩
    | none => .error (mismatch .coalesce place l r)
  else .error ⟨.coalesceLeft l.ty, some place⟩

def binary (operator : Operator) (place : Location) (l r : Typed) : Except Diagnostic Typed :=
  match operator with
  | .add | .subtract | .multiply | .divide => arithmetic operator place l r
  | .less | .greater | .lessEqual | .greaterEqual => ordering operator place l r
  | .equal | .notEqual => equality operator place l r
  | .coalesce => coalesce place l r

def unwrap (place : Location) (x : Typed) : Except Diagnostic Typed :=
  match x.ty with
  | .optional b => .ok ⟨.base b, .unary .unwrap x.formula⟩
  | ty => .error ⟨.unwrapOperand ty, some place⟩

end Typed

namespace ScopeTree

/-- The variable that a name stands for, and the scope that owns it. -/
def resolve (t : ScopeTree) (name : String) (place : Location) : Except Diagnostic (Symbol × Nat) :=
  match t.owner? t.current name with
  | none => .error ⟨.unknownVariable name, some place⟩
  | some owner =>
      match t.symbol? owner name with
      | none => .error ⟨.unknownVariable name, some place⟩
      | some symbol =>
          if symbol.isFunction then .error ⟨.unknownVariable name, some place⟩ else .ok (symbol, owner)

/-- A variable has to have a value. -/
def typedName (t : ScopeTree) (name : String) (place : Location) : Except Diagnostic Typed := do
  let (symbol, owner) ← t.resolve name place
  if symbol.isDefined then .ok ⟨symbol.ty, .read name owner⟩ else .error ⟨.uninitialized name, some place⟩

def typedOperand (t : ScopeTree) (token : Token) : Except Diagnostic Typed :=
  match token.identifier? with
  | some name => t.typedName name token.location
  | none => .ok ⟨(Meaning.literalOf token.kind).1, .literal (Meaning.literalOf token.kind).2⟩

/-- **The type and the formula of an expression.** -/
def typed (t : ScopeTree) : Phrase.Expr → Except Diagnostic Typed
  | .operand token => t.typedOperand token
  | .binary operator place left right => do
      let l ← t.typed left
      let r ← t.typed right
      Typed.binary operator place l r
  | .unwrap place inner => do
      let x ← t.typed inner
      x.unwrap place

/-- The type and the formula of an expression of which a type is wanted. -/
def typedFor (t : ScopeTree) (wanted : Option Ty) (e : Phrase.Expr) : Except Diagnostic Typed := do
  let x ← t.typed e
  return wanted.elim x x.adapted

/-! ### Faults -/

variable {t : ScopeTree} {d : Diagnostic}

theorem external_of_resolve {name : String} {place : Location} (h : t.resolve name place = .error d) :
    d.External := by
  unfold resolve at h
  repeat' split at h
  all_goals
    cases h
    try exact ⟨nofun, nofun⟩

theorem external_of_typedOperand {token : Token} (h : t.typedOperand token = .error d) : d.External := by
  unfold typedOperand at h
  split at h
  · rcases or_of_bind_error h with h | ⟨⟨symbol, owner⟩, -, h⟩
    · exact external_of_resolve h
    · dsimp only at h
      split at h <;> cases h
      exact ⟨nofun, nofun⟩
  · cases h

theorem external_of_binary {operator : Operator} {place : Location} {l r : Typed}
    (h : Typed.binary operator place l r = .error d) : d.External := by
  unfold Typed.binary Typed.arithmetic Typed.ordering Typed.equality Typed.coalesce at h
  repeat' split at h
  all_goals
    cases h
    try exact ⟨nofun, nofun⟩

theorem external_of_typed {e : Phrase.Expr} (h : t.typed e = .error d) : d.External := by
  induction e with
  | operand token => exact external_of_typedOperand h
  | binary operator place left right ihl ihr =>
    rcases or_of_bind_error h with hl | ⟨l, -, h⟩
    · exact ihl hl
    rcases or_of_bind_error h with hr | ⟨r, -, h⟩
    · exact ihr hr
    exact external_of_binary h
  | unwrap place inner ih =>
    rcases or_of_bind_error h with hx | ⟨x, -, h⟩
    · exact ih hx
    unfold Typed.unwrap at h
    split at h <;> cases h
    exact ⟨nofun, nofun⟩

end ScopeTree

/-! ### Sheets -/

theorem Meaning.arithmeticKind_takes (operator : Operator) (ty : Ty) :
    (arithmeticKind operator ty).takes = 2 ∧ arithmeticKind operator ty ≠ .coalesce := by
  unfold arithmeticKind
  split <;> first | decide | (split <;> decide)

theorem InstructionKind.labels_of_takes {kind : InstructionKind} (h : kind.takes = 2 ∧ kind ≠ .coalesce) :
    kind.labels = 0 := by
  cases kind <;> first | rfl | exact absurd rfl h.2 | cases h.1

theorem Meaning.literalOf_payload (kind : TokenKind) : (∀ name, (literalOf kind).2 ≠ .name name) ∧
    (literalOf kind).2.HasTy (literalOf kind).1 := by
  cases kind <;> exact ⟨nofun, rfl⟩

theorem ScopeTree.Evaluates.promote {t : ScopeTree} {e : Phrase.Expr} {code : List Instruction}
    (h : t.Evaluates e code) : t.Evaluates e (code.map Instruction.promote) := by
  have hpromote : ∀ i : Instruction, i.kind ≠ .pushLiteral → i.promote.kind.takes = i.kind.takes ∧
      i.promote.scope = i.scope := fun i hkind => by
    unfold Instruction.promote
    split
    · exact absurd ‹_› hkind
    · exact ⟨by simp [*, InstructionKind.takes], rfl⟩
    · exact ⟨rfl, rfl⟩
  induction h with
  | @literal token i payload hterm hi =>
    rw [List.map_singleton, Instruction.promote, hi.kind]
    show t.Evaluates _ [i.toDouble]
    unfold Instruction.toDouble
    split
    · exact .literal hterm ⟨hi.kind, hi.scope, rfl, nofun⟩
    · exact .literal hterm hi
  | «variable» hterm hmeans hdefined => exact .variable hterm hmeans hdefined
  | @binary _ _ _ _ _ _ i _ _ htakes hscope ihl ihr =>
    obtain ⟨htakes', hscope'⟩ := hpromote i fun hkind => by rw [hkind] at htakes; cases htakes
    rw [List.map_append, List.map_append]
    exact .binary ihl ihr (htakes'.trans htakes) (hscope'.trans hscope)
  | @unwrap _ _ _ i _ hkind hscope ih =>
    rw [List.map_append, List.map_singleton, Instruction.promote, hkind]
    exact .unwrap ih hkind hscope
  | @convert _ _ i _ hkind hscope ih =>
    rw [List.map_append, List.map_singleton, Instruction.promote, hkind]
    exact .convert ih hkind hscope

/-- A typed formula is one for an expression. -/
def Typed.Suits (t : ScopeTree) (e : Phrase.Expr) (x : Typed) : Prop := ∀ n, t.Evaluates e (x.formula.code t n)

namespace Typed.Suits

variable {t : ScopeTree} {e el er : Phrase.Expr} {x l r : Typed} {operator : Operator} {place : Location}

theorem promoted (h : x.Suits t e) (hliteral : x.formula.isLiteral) : x.promoted.Suits t e := by
  intro n
  rw [Typed.promoted, Formula.code_toDouble t n hliteral]
  exact (h n).promote

theorem adapted (h : x.Suits t e) (wanted : Ty) : (x.adapted wanted).Suits t e := by
  unfold Typed.adapted
  split
  · rename_i hint
    exact h.promoted (x.isIntLiteral_iff.1 hint.2).2
  · exact h

theorem asDouble (h : x.Suits t e) : x.asDouble.Suits t e := by
  unfold Typed.asDouble
  split
  · split
    · exact h.promoted ‹_›
    · exact fun n => .convert (h n) rfl rfl
  · exact h

theorem numbers {l' r' : Typed} (hl : l.Suits t el) (hr : r.Suits t er)
    (h : l.numbers r = some (l', r')) : l'.Suits t el ∧ r'.Suits t er := by
  unfold Typed.numbers at h
  split at h <;> cases h
  · exact ⟨hl, hr⟩
  all_goals exact ⟨hl.asDouble, hr.asDouble⟩

theorem operation {kind : InstructionKind} (hl : l.Suits t el) (hr : r.Suits t er) (hkind : kind.takes = 2)
    (ty : Ty) : Suits t (.binary operator place el er) ⟨ty, .binary kind l.formula r.formula⟩ :=
  fun n => .binary (hl n) (hr _) hkind rfl

theorem comparison (hl : l.Suits t el) (hr : r.Suits t er) :
    (comparison operator l r).Suits t (.binary operator place el er) :=
  hl.operation hr (by cases operator <;> decide) .bool

theorem binary (hl : l.Suits t el) (hr : r.Suits t er) (h : Typed.binary operator place l r = .ok x) :
    x.Suits t (.binary operator place el er) := by
  unfold Typed.binary at h
  split at h
  iterate 4
    · unfold arithmetic at h
      split at h
      · split at h <;> cases h
        exact hl.operation hr (by decide) _
      · split at h <;> cases h
        obtain ⟨hl, hr⟩ := hl.numbers hr ‹_›
        exact hl.operation hr (Meaning.arithmeticKind_takes ..).1 _
  iterate 4
    · unfold ordering at h
      split at h
      · cases h
        exact hl.comparison hr
      · split at h <;> cases h
        obtain ⟨hl, hr⟩ := hl.numbers hr ‹_›
        exact hl.comparison hr
  iterate 2
    · unfold equality at h
      split at h
      · cases h
        obtain ⟨hl, hr⟩ := hl.numbers hr ‹_›
        exact hl.comparison hr
      · split at h <;> cases h
        exact (hl.adapted _).comparison (hr.adapted _)
  · unfold coalesce at h
    split at h
    · split at h <;> cases h
      exact hl.operation (hr.adapted l.ty) rfl _
    · cases h

end Typed.Suits

theorem ScopeTree.denotes_of_resolve {t : ScopeTree} {name : String} {place : Location} {symbol : Symbol}
    {owner : Nat} (h : t.resolve name place = .ok (symbol, owner)) : t.Denotes name owner symbol := by
  unfold resolve at h
  repeat' split at h
  all_goals cases h
  exact ⟨‹_›, ‹_›, Bool.eq_false_iff.2 ‹_›⟩

theorem ScopeTree.suits_of_typed {t : ScopeTree} {e : Phrase.Expr} {x : Typed} (h : t.typed e = .ok x) :
    x.Suits t e := by
  induction e generalizing x with
  | operand token =>
    have hoperand : t.typedOperand token = .ok x := h
    unfold typedOperand at hoperand
    split at hoperand
    · rename_i name hterm
      obtain ⟨⟨symbol, owner⟩, hresolve, hx⟩ := exists_of_bind_ok hoperand
      dsimp only at hx
      split at hx <;> cases hx
      exact fun _ => .variable hterm (denotes_of_resolve hresolve) ‹_›
    · rename_i hterm
      cases hoperand
      exact fun _ => .literal hterm ⟨rfl, rfl, rfl, (Meaning.literalOf_payload token.kind).1⟩
  | binary operator place left right ihl ihr =>
    obtain ⟨l, hl, h⟩ := exists_of_bind_ok h
    obtain ⟨r, hr, h⟩ := exists_of_bind_ok h
    exact (ihl hl).binary (ihr hr) h
  | unwrap place inner ih =>
    obtain ⟨x, hx, h⟩ := exists_of_bind_ok h
    unfold Typed.unwrap at h
    split at h <;> cases h
    exact fun n => .unwrap (ih hx n) rfl rfl

end OnePass
