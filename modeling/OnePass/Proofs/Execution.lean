import OnePass.Proofs.Meaning.Account
import OnePass.Proofs.Parsing.Expression

/-!
# The execution of expressions

The code of an expression runs on a machine with a stack, which refuses operands of wrong types.  Its
arithmetic and its order of values are left open.

Main results:

* `ScopeTree.runs_of_typed` — the formula of a typed expression delivers a value of its type;
* `expression_type_safe` — **so does the code of an expression that has been read and evaluated**.
-/

namespace OnePass

open Meaning (arithmeticKind comparisonKind storageName)

/-! ### The machine -/

/-- What a stack holds when a program runs. -/
inductive Datum where
  | int (value : Int)
  | double (value : Double)
  | string (text : String)
  | bool (value : Bool)
  | nil
deriving DecidableEq, Repr

/-- The type that a datum is of by itself. -/
def Datum.ty : Datum → Ty
  | int _ => .int
  | double _ => .double
  | string _ => .string
  | bool _ => .bool
  | nil => .nil

/-- A datum has its own type and the optional form of it; the absent datum has all optional types. -/
def Datum.HasTy (v : Datum) (ty : Ty) : Prop := v.ty = ty.unwrapped ∨ v = .nil ∧ ty.isOptional

theorem Datum.eq_nil {v : Datum} (h : v.ty = .nil) : v = .nil := by
  cases v <;> first | rfl | cases h

namespace Datum.HasTy

variable {v : Datum}

theorem ty_eq {b : Base} (h : v.HasTy (.base b)) : v.ty = .base b :=
  h.resolve_right fun habsent => Bool.false_ne_true habsent.2

theorem exists_int (h : v.HasTy .int) : ∃ value, v = .int value := by
  have hty := h.ty_eq
  cases v <;> cases hty
  exact ⟨_, rfl⟩

theorem exists_double (h : v.HasTy .double) : ∃ value, v = .double value := by
  have hty := h.ty_eq
  cases v <;> cases hty
  exact ⟨_, rfl⟩

theorem exists_string (h : v.HasTy .string) : ∃ text, v = .string text := by
  have hty := h.ty_eq
  cases v <;> cases hty
  exact ⟨_, rfl⟩

end Datum.HasTy

/-- Why a run ends early. -/
inductive Halt where
  /-- an absent value has been unwrapped -/
  | absence
  | zeroDivision
  /-- an operand is missing or has a wrong type -/
  | stuck
deriving DecidableEq, Repr

/-- A machine: what its variables hold, and how it computes and compares. -/
structure Machine where
  store : Frame → String → Option Datum
  onInts : InstructionKind → Int → Int → Int
  onDoubles : InstructionKind → Double → Double → Double
  convert : Int → Double
  holds : InstructionKind → Datum → Datum → Bool

/-- The value that a literal pushes. -/
def Payload.datum? : Payload → Option Datum
  | .int value => some (.int value)
  | .double value => some (.double value)
  | .string text => some (.string text)
  | .nil => some .nil
  | .name _ => none

namespace Machine

variable (m : Machine)

/-- An operation on two values. -/
def operate (kind : InstructionKind) (left right : Datum) : Except Halt Datum :=
  match kind, left, right with
  | .add, .int a, .int b | .sub, .int a, .int b | .mul, .int a, .int b => .ok (.int (m.onInts kind a b))
  | .add, .double a, .double b | .sub, .double a, .double b | .mul, .double a, .double b =>
      .ok (.double (m.onDoubles kind a b))
  | .intDiv, .int a, .int b => if b = 0 then .error .zeroDivision else .ok (.int (m.onInts kind a b))
  | .div, .double a, .double b =>
      if b.significand = 0 then .error .zeroDivision else .ok (.double (m.onDoubles kind a b))
  | .concat, .string a, .string b => .ok (.string (a ++ b))
  | .lt, _, _ | .gt, _, _ | .le, _, _ | .ge, _, _ =>
      if left.ty = right.ty ∧ left ≠ .nil then .ok (.bool (m.holds kind left right)) else .error .stuck
  | .eq, _, _ | .neq, _, _ =>
      if left.ty = right.ty ∨ left = .nil ∨ right = .nil then .ok (.bool (m.holds kind left right))
      else .error .stuck
  | .coalesce, _, _ => .ok (if left = .nil then right else left)
  | _, _, _ => .error .stuck

/-- An operation on one value. -/
def transform (kind : InstructionKind) (value : Datum) : Except Halt Datum :=
  match kind, value with
  | .intToDouble, .int a => .ok (.double (m.convert a))
  | .unwrap, .nil => .error .absence
  | .unwrap, value => .ok value
  | _, _ => .error .stuck

/-- One instruction of an expression on a stack. -/
def step (i : Instruction) (stack : List Datum) : Except Halt (List Datum) :=
  match i.kind, stack with
  | .pushLiteral, stack =>
      match i.payload.bind Payload.datum? with
      | some v => .ok (v :: stack)
      | none => .error .stuck
  | .pushVariable, stack =>
      match i.name?.bind (m.store i.frame) with
      | some v => .ok (v :: stack)
      | none => .error .stuck
  | .intToDouble, v :: stack | .unwrap, v :: stack => (m.transform i.kind v).map (· :: stack)
  | kind, w :: v :: stack => (m.operate kind v w).map (· :: stack)
  | _, _ => .error .stuck

/-- Code on a stack. -/
def run (code : List Instruction) (stack : List Datum) : Except Halt (List Datum) :=
  code.foldlM (fun stack i => m.step i stack) stack

theorem run_append (first second : List Instruction) (stack : List Datum) :
    m.run (first ++ second) stack = m.run first stack >>= m.run second :=
  List.foldlM_append

theorem run_singleton (i : Instruction) (stack : List Datum) : m.run [i] stack = m.step i stack := by
  show (m.step i stack >>= pure) = _
  exact bind_pure _

/-- A computation gives a value of a type, or it ends for a reason that is not a wrong operand. -/
def Ends (ty : Ty) : Except Halt Datum → Prop
  | .ok v => v.HasTy ty
  | .error halt => halt ≠ .stuck

/-- Code puts a value of a type on the stack, or the program ends.  What it does is the same on every
stack, so nothing below is touched. -/
def Delivers (code : List Instruction) (ty : Ty) : Prop :=
  ∃ result, Ends ty result ∧ ∀ stack, m.run code stack = result.map (· :: stack)

/-- Every variable that can be seen and has a value holds one of its type. -/
def Stocks (t : ScopeTree) : Prop :=
  ∀ name owner symbol, t.Denotes name owner symbol → symbol.isDefined →
    ∃ v : Datum, m.store (t.scope owner).frame (storageName name owner) = some v ∧ v.HasTy symbol.ty

/-! ### Operations -/

variable {m} {v w : Datum} {operator : Operator} {l r ty : Ty}

theorem ends_int (hv : v.HasTy .int) (hw : w.HasTy .int) :
    Ends .int (m.operate (arithmeticKind operator .int) v w) := by
  obtain ⟨p, rfl⟩ := hv.exists_int
  obtain ⟨q, rfl⟩ := hw.exists_int
  cases operator with
  | add | subtract | multiply => exact .inl rfl
  | _ =>
    show Ends .int (if q = 0 then _ else _)
    split
    · exact Halt.noConfusion
    · exact .inl rfl

theorem ends_double (hv : v.HasTy .double) (hw : w.HasTy .double) :
    Ends .double (m.operate (arithmeticKind operator .double) v w) := by
  obtain ⟨p, rfl⟩ := hv.exists_double
  obtain ⟨q, rfl⟩ := hw.exists_double
  cases operator with
  | add | subtract | multiply => exact .inl rfl
  | _ =>
    show Ends .double (if q.significand = 0 then _ else _)
    split
    · exact Halt.noConfusion
    · exact .inl rfl

theorem ends_concat (hv : v.HasTy .string) (hw : w.HasTy .string) : Ends .string (m.operate .concat v w) := by
  obtain ⟨p, rfl⟩ := hv.exists_string
  obtain ⟨q, rfl⟩ := hw.exists_string
  exact .inl rfl

theorem ends_comparison {b : Base} (hv : v.HasTy (.base b)) (hw : w.HasTy (.base b)) :
    Ends .bool (m.operate (comparisonKind operator) v w) := by
  have hty : v.ty = w.ty := hv.ty_eq.trans hw.ty_eq.symm
  have hnil : v ≠ .nil := by
    rintro rfl
    cases hv.ty_eq
  cases operator with
  | less | greater | lessEqual | greaterEqual =>
    show Ends .bool (if v.ty = w.ty ∧ v ≠ .nil then _ else _)
    rw [if_pos ⟨hty, hnil⟩]
    exact .inl rfl
  | _ =>
    show Ends .bool (if v.ty = w.ty ∨ v = .nil ∨ w = .nil then _ else _)
    rw [if_pos (.inl hty)]
    exact .inl rfl

theorem ends_equality (hequal : operator = .equal ∨ operator = .notEqual) (htypes : l.equatable r)
    (hv : v.HasTy l) (hw : w.HasTy r) : Ends .bool (m.operate (comparisonKind operator) v w) := by
  have hsame : v.ty = w.ty ∨ v = .nil ∨ w = .nil := by
    rcases hv with hv | ⟨hv, -⟩
    · rcases hw with hw | ⟨hw, -⟩
      · rw [hv, hw]
        rcases Ty.unwrapped_of_equatable htypes with hsame | rfl | rfl
        · exact .inl hsame
        · exact .inr (.inl (Datum.eq_nil hv))
        · exact .inr (.inr (Datum.eq_nil hw))
      · exact .inr (.inr hw)
    · exact .inr (.inl hv)
  rcases hequal with rfl | rfl
  all_goals
    show Ends .bool (if v.ty = w.ty ∨ v = .nil ∨ w = .nil then _ else _)
    rw [if_pos hsame]
    exact .inl rfl

theorem ends_coalesce (htypes : l.coalesced r = some ty) (hv : v.HasTy l) (hw : w.HasTy r) :
    Ends ty (m.operate .coalesce v w) := by
  show Datum.HasTy (if v = .nil then w else v) ty
  obtain ⟨hright, hleft⟩ := Ty.cases_of_coalesced htypes
  by_cases hnil : v = .nil
  · rw [if_pos hnil]
    rcases hright with rfl | ⟨rfl, rfl⟩
    · exact hw
    · have habsent : w = .nil := Datum.eq_nil (hw.resolve_right fun habsent => Bool.false_ne_true habsent.2)
      exact habsent.trans hnil.symm ▸ hv
  · rw [if_neg hnil]
    have hty : v.ty = l.unwrapped := hv.resolve_right fun habsent => hnil habsent.1
    rcases hleft with rfl | ⟨-, hbase⟩
    · exact absurd (Datum.eq_nil hty) hnil
    · exact .inl (hty.trans hbase.symm)

/-! ### Code -/

variable {code first second : List Instruction}

theorem Delivers.unary {kind : InstructionKind} {i : Instruction} (h : m.Delivers code l)
    (hi : ∀ v stack, m.step i (v :: stack) = (m.transform kind v).map (· :: stack))
    (hends : ∀ v : Datum, v.HasTy l → Ends ty (m.transform kind v)) : m.Delivers (code ++ [i]) ty := by
  obtain ⟨result, hresult, hrun⟩ := h
  refine ⟨result >>= m.transform kind, ?_, fun stack => ?_⟩
  · cases result with
    | ok v => exact hends v hresult
    | error halt => exact hresult
  · rw [run_append, hrun]
    cases result with
    | ok v => exact (m.run_singleton i _).trans (hi v stack)
    | error halt => rfl

theorem Delivers.binary {kind : InstructionKind} {i : Instruction} (hl : m.Delivers first l)
    (hr : m.Delivers second r)
    (hi : ∀ v w stack, m.step i (w :: v :: stack) = (m.operate kind v w).map (· :: stack))
    (hends : ∀ v w : Datum, v.HasTy l → w.HasTy r → Ends ty (m.operate kind v w)) :
    m.Delivers (first ++ (second ++ [i])) ty := by
  obtain ⟨left, hleft, hrunl⟩ := hl
  obtain ⟨right, hright, hrunr⟩ := hr
  refine ⟨do m.operate kind (← left) (← right), ?_, fun stack => ?_⟩
  · cases left with
    | error halt => exact hleft
    | ok v =>
      cases right with
      | error halt => exact hright
      | ok w => exact hends v w hleft hright
  · rw [run_append, hrunl]
    cases left with
    | error halt => rfl
    | ok v =>
      show m.run (second ++ [i]) (v :: stack) = _
      rw [run_append, hrunr]
      cases right with
      | error halt => rfl
      | ok w => exact (m.run_singleton i _).trans (hi v w stack)

end Machine

/-! ### Formulas -/

/-- The code of a formula delivers values of a type, whatever labels it uses. -/
def Formula.Yields (m : Machine) (t : ScopeTree) (x : Formula) (ty : Ty) : Prop :=
  ∀ n, m.Delivers (x.code t n) ty

namespace Formula.Yields

variable {m : Machine} {t : ScopeTree} {x xl xr : Formula} {l r ty : Ty}

theorem literal {payload : Payload} (hname : ∀ name, payload ≠ Payload.name name)
    (hty : payload.HasTy ty) : Yields m t (.literal payload) ty := by
  intro n
  obtain ⟨v, hv, hty⟩ : ∃ v, payload.datum? = some v ∧ v.HasTy ty := by
    cases payload with
    | int | double | string | nil =>
      cases hty
      exact ⟨_, rfl, .inl rfl⟩
    | name name => exact absurd rfl (hname name)
  refine ⟨.ok v, hty, fun stack => (m.run_singleton _ stack).trans ?_⟩
  show (match payload.datum? with | some v => _ | none => _) = _
  rw [hv]
  rfl

theorem literal_toDouble {payload : Payload} (hty : payload.HasTy .int) :
    Yields m t (Formula.literal payload).toDouble .double := by
  cases payload with
  | int value => exact literal nofun rfl
  | _ => cases hty

theorem read {name : String} {owner : Nat} {symbol : Symbol} (hstore : m.Stocks t)
    (hmeans : t.Denotes name owner symbol) (hdefined : symbol.isDefined) :
    Yields m t (.read name owner) symbol.ty := by
  intro n
  obtain ⟨v, hv, hty⟩ := hstore name owner symbol hmeans hdefined
  refine ⟨.ok v, hty, fun stack => (m.run_singleton _ stack).trans ?_⟩
  show (match m.store (t.scope owner).frame (storageName name owner) with | some v => _ | none => _) = _
  rw [hv]
  rfl

theorem convert (h : Yields m t x .int) : Yields m t (.unary .intToDouble x) .double := by
  intro n
  refine (h n).unary (fun v stack => rfl) fun v hv => ?_
  obtain ⟨value, rfl⟩ := hv.exists_int
  exact .inl rfl

theorem unwrap {b : Base} (h : Yields m t x (.optional b)) : Yields m t (.unary .unwrap x) (.base b) := by
  intro n
  refine (h n).unary (fun v stack => rfl) fun v hv => ?_
  rcases hv with hv | ⟨rfl, -⟩
  · cases v with
    | nil => cases hv
    | _ => exact .inl hv
  · exact Halt.noConfusion

theorem binary {kind : InstructionKind} (hl : Yields m t xl l) (hr : Yields m t xr r) (hkind : kind.takes = 2)
    (hends : ∀ v w : Datum, v.HasTy l → w.HasTy r → Machine.Ends ty (m.operate kind v w)) :
    Yields m t (.binary kind xl xr) ty := by
  intro n
  refine (hl n).binary (hr _) (fun v w stack => ?_) hends
  cases kind <;> first | rfl | cases hkind

end Formula.Yields

/-- A typed formula delivers values of its type, and as doubles if it is made of integer literals. -/
structure Typed.Runs (m : Machine) (t : ScopeTree) (x : Typed) : Prop where
  yields : x.formula.Yields m t x.ty
  promoted : x.isIntLiteral → x.formula.toDouble.Yields m t .double

namespace Typed.Runs

variable {m : Machine} {t : ScopeTree} {x l r : Typed} {operator : Operator} {place : Location}

theorem of_yields (h : x.formula.Yields m t x.ty) (hliteral : ¬x.isIntLiteral) : x.Runs m t :=
  ⟨h, fun hint => absurd hint hliteral⟩

theorem yields_of (h : x.Runs m t) {ty : Ty} (hty : x.ty = ty) : x.formula.Yields m t ty :=
  hty ▸ h.yields

theorem adapted (h : x.Runs m t) (wanted : Ty) : (x.adapted wanted).formula.Yields m t (x.adapted wanted).ty := by
  unfold Typed.adapted
  split
  · rename_i hint
    exact h.promoted hint.2
  · exact h.yields

theorem asDouble (h : x.Runs m t) (hty : x.ty = .int ∨ x.ty = .double) :
    x.asDouble.formula.Yields m t .double := by
  unfold Typed.asDouble
  split
  · rename_i hint
    split
    · rename_i hliteral
      exact h.promoted (x.isIntLiteral_iff.2 ⟨hint, hliteral⟩)
    · exact (h.yields_of hint).convert
  · exact h.yields_of (hty.resolve_left ‹_›)

theorem numbers {l' r' : Typed} (hl : l.Runs m t) (hr : r.Runs m t) (h : l.numbers r = some (l', r')) :
    (l = l' ∧ r = r' ∧ l.ty = .int ∧ r.ty = .int) ∨
      l'.ty = .double ∧ l'.formula.Yields m t .double ∧ r'.formula.Yields m t .double := by
  unfold Typed.numbers at h
  split at h <;> cases h <;> rename_i hlt hrt
  · exact .inl ⟨rfl, rfl, hlt, hrt⟩
  · exact .inr ⟨ty_asDouble (.inr hlt), hl.asDouble (.inl hlt), hr.asDouble (.inr hrt)⟩
  · exact .inr ⟨ty_asDouble (.inl hlt), hl.asDouble (.inr hlt), hr.asDouble (.inl hrt)⟩
  · exact .inr ⟨ty_asDouble (.inl hlt), hl.asDouble (.inr hlt), hr.asDouble (.inr hrt)⟩

theorem arithmetic (hl : l.Runs m t) (hr : r.Runs m t) (h : arithmetic operator place l r = .ok x) :
    x.Runs m t := by
  unfold Typed.arithmetic at h
  split at h
  · rename_i hstrings
    split at h <;> cases h
    exact of_yields ((hl.yields_of hstrings.1).binary (hr.yields_of hstrings.2) rfl
      fun _ _ => Machine.ends_concat) Bool.false_ne_true
  · split at h <;> cases h
    rename_i hnumbers
    have htakes := (Meaning.arithmeticKind_takes operator · |>.1)
    rcases hl.numbers hr hnumbers with ⟨rfl, rfl, hlt, hrt⟩ | ⟨hty, hl, hr⟩
    · rw [hlt]
      refine ⟨(hl.yields_of hlt).binary (hr.yields_of hrt) (htakes _) fun _ _ => Machine.ends_int, fun hint => ?_⟩
      obtain ⟨-, hleft, hright⟩ : _ ∧ l.formula.isLiteral ∧ r.formula.isLiteral := by
        simpa [Formula.isLiteral] using ((isIntLiteral_iff _).1 hint).2
      -- the divisions have been rewritten with the literals
      have hkind : (arithmeticKind operator .int).onDoubles = arithmeticKind operator .double := by
        cases operator <;> rfl
      rw [Formula.toDouble, hkind]
      exact (hl.promoted (l.isIntLiteral_iff.2 ⟨hlt, hleft⟩)).binary
        (hr.promoted (r.isIntLiteral_iff.2 ⟨hrt, hright⟩)) (htakes _) fun _ _ => Machine.ends_double
    · rw [hty]
      exact of_yields (hl.binary hr (htakes _) fun _ _ => Machine.ends_double) Bool.false_ne_true

theorem comparison {b : Base} (hl : l.formula.Yields m t (.base b)) (hr : r.formula.Yields m t (.base b)) :
    (comparison operator l r).Runs m t :=
  of_yields (hl.binary hr (by cases operator <;> rfl) fun _ _ => Machine.ends_comparison) Bool.false_ne_true

theorem comparison_numbers {l' r' : Typed} (hl : l.Runs m t) (hr : r.Runs m t)
    (h : l.numbers r = some (l', r')) : (Typed.comparison operator l' r').Runs m t := by
  rcases hl.numbers hr h with ⟨rfl, rfl, hlt, hrt⟩ | ⟨-, hl, hr⟩
  · exact comparison (hl.yields_of hlt) (hr.yields_of hrt)
  · exact comparison hl hr

theorem ordering (hl : l.Runs m t) (hr : r.Runs m t) (h : ordering operator place l r = .ok x) :
    x.Runs m t := by
  unfold Typed.ordering at h
  split at h
  · rename_i hstrings
    cases h
    exact comparison (hl.yields_of hstrings.1) (hr.yields_of hstrings.2)
  · split at h <;> cases h
    exact hl.comparison_numbers hr ‹_›

theorem equality (hequal : operator = .equal ∨ operator = .notEqual) (hl : l.Runs m t) (hr : r.Runs m t)
    (h : equality operator place l r = .ok x) : x.Runs m t := by
  unfold Typed.equality at h
  split at h
  · cases h
    exact hl.comparison_numbers hr ‹_›
  · split at h <;> cases h
    rename_i htypes
    refine of_yields ((hl.adapted r.ty).binary (hr.adapted l.ty) (by cases operator <;> rfl) ?_) Bool.false_ne_true
    exact fun _ _ => Machine.ends_equality hequal htypes

theorem coalesce (hl : l.Runs m t) (hr : r.Runs m t) (h : coalesce place l r = .ok x) : x.Runs m t := by
  unfold Typed.coalesce at h
  split at h
  · split at h <;> cases h
    rename_i ty htypes
    refine of_yields (hl.yields.binary (hr.adapted l.ty) rfl fun _ _ => Machine.ends_coalesce htypes) ?_
    simp [isIntLiteral, Formula.isLiteral]
  · cases h

theorem binary (hl : l.Runs m t) (hr : r.Runs m t) (h : binary operator place l r = .ok x) : x.Runs m t := by
  cases operator with
  | add | subtract | multiply | divide => exact hl.arithmetic hr h
  | less | greater | lessEqual | greaterEqual => exact hl.ordering hr h
  | equal => exact hl.equality (.inl rfl) hr h
  | notEqual => exact hl.equality (.inr rfl) hr h
  | coalesce => exact hl.coalesce hr h

end Typed.Runs

theorem ScopeTree.runs_of_typed {m : Machine} {t : ScopeTree} (hstore : m.Stocks t) {e : Phrase.Expr} {x : Typed}
    (h : t.typed e = .ok x) : x.Runs m t := by
  induction e generalizing x with
  | operand token =>
    have hoperand : t.typedOperand token = .ok x := h
    unfold typedOperand at hoperand
    split at hoperand
    · obtain ⟨⟨symbol, owner⟩, hresolve, hx⟩ := exists_of_bind_ok hoperand
      dsimp only at hx
      split at hx <;> cases hx
      refine Typed.Runs.of_yields (.read hstore (denotes_of_resolve hresolve) ‹_›) ?_
      simp [Typed.isIntLiteral, Formula.isLiteral]
    · cases hoperand
      obtain ⟨hname, hty⟩ := Meaning.literalOf_payload token.kind
      exact ⟨.literal hname hty, fun hint => .literal_toDouble (((Typed.isIntLiteral_iff _).1 hint).1 ▸ hty)⟩
  | binary operator place left right ihl ihr =>
    obtain ⟨l, hl, h⟩ := exists_of_bind_ok h
    obtain ⟨r, hr, h⟩ := exists_of_bind_ok h
    exact (ihl hl).binary (ihr hr) h
  | unwrap place inner ih =>
    obtain ⟨x, hx, h⟩ := exists_of_bind_ok h
    unfold Typed.unwrap at h
    split at h <;> cases h
    rename_i hty
    exact .of_yields (hty ▸ (ih hx).yields).unwrap (by simp [Typed.isIntLiteral, Formula.isLiteral])

/-- **The code of an expression is type safe.**  Wherever an expression has been read and evaluated, and
whatever the variables that it can see hold, as long as that has their types: on any stack the instructions
from the first one of its value to the last one never meet an operand of a wrong type, touch nothing that
lies below, and put one value on top, which has the type of the expression; or an absent value is unwrapped,
or something is divided by zero. -/
theorem expression_type_safe (m : Machine) {k k' : Cursor} {bound : Nat} {new : List Event} {c c' : Context}
    {wanted : Option Ty} {v : Value} (hread : (Parse.expression bound).run.run k = (.ok (), k'))
    (hnew : k'.events = new ++ k.events) (hsound : c.stream.Sound) (hstore : m.Stocks c.scopes)
    (hrun : (do new.reverse.forM Meaning.act; Meaning.finish wanted).run.run c = (.ok v, c')) :
    ∃ piece, c'.stream.toList = c.stream.toList ++ piece ∧
      c'.stream.range v.first v.last = piece.map (·.id) ∧ m.Delivers (piece.map (·.instruction)) v.ty := by
  obtain ⟨said, hsaid, e, -, he⟩ := (Parse.spells_expression bound).of_run k.within_all hread
  cases List.append_cancel_right (hsaid.symm.trans hnew)
  obtain ⟨x, htyped, -, hwritten⟩ := (Meaning.agrees_evaluation hsound e wanted he).of_run hrun
  obtain ⟨hty, piece, hpiece, hrange, hcode⟩ := hwritten.segment
  refine ⟨piece, hpiece, hrange, ?_⟩
  obtain ⟨y, hy, hx⟩ := exists_of_bind_ok htyped
  have hruns := ScopeTree.runs_of_typed hstore hy
  cases hx
  rw [hcode, hty]
  cases wanted with
  | none => exact hruns.yields _
  | some ty => exact hruns.adapted ty _

/-- Half of what an optional variable holds. -/
theorem expression_type_safe_half : let token (kind : TokenKind) : Token := ⟨kind, .start, false⟩
    let k : Cursor :=
      { current := token (.identifier "x")
        feed := ⟨[token (.mark .bang), token (.mark .slash), token (.intLiteral 2), token .eof].map .ok, .start⟩ }
    let x : Symbol := ⟨"x", .var true (.optional .int) true, none⟩
    let c : Context :=
      { Context.start with
        scopes := Context.start.scopes.modify ScopeTree.root fun scope =>
          { scope with table := (scope.table.insert x).toOption.getD scope.table } }
    let m : Machine := ⟨fun _ name => if name = "x$0" then some (.int 5) else none, fun _ a _ => a,
      fun _ a _ => a, .ofInt, fun _ _ _ => true⟩
    ∃ k' new c' v, (Parse.expression 4).run.run k = (.ok (), k') ∧ k'.events = new ++ k.events ∧
      c.stream.Sound ∧ m.Stocks c.scopes ∧
      (do new.reverse.forM Meaning.act; Meaning.finish none).run.run c = (.ok v, c') ∧ v.ty = .int ∧
      ∃ piece, c'.stream.toList = c.stream.toList ++ piece ∧
        c'.stream.range v.first v.last = piece.map (·.id) ∧ m.Delivers (piece.map (·.instruction)) v.ty := by
  intro token k x c m
  let k' := ((Parse.expression 4).run.run k).2
  have hread : ((Parse.expression 4).run.run k).1 = .ok () := by decide +kernel
  have hnew : k'.events = k'.events ++ k.events := (List.append_nil _).symm
  have hstocks : m.Stocks c.scopes := by
    rintro name owner symbol ⟨hfound, hheld, hvalue⟩ -
    have hancestors : c.scopes.ancestors c.scopes.current = [ScopeTree.root] := by decide +kernel
    have hall : ∀ symbol ∈ (c.scopes.scope ScopeTree.root).table.toList,
        symbol.isFunction = false → symbol = x := by decide +kernel
    have hordered : (c.scopes.scope ScopeTree.root).table.toList.Pairwise fun a b => a.name < b.name := by
      decide +kernel
    have howner : owner ∈ c.scopes.ancestors c.scopes.current := List.mem_of_find?_eq_some hfound
    rw [hancestors] at howner
    obtain rfl := List.mem_singleton.1 howner
    obtain ⟨hmem, rfl⟩ := (SymbolTable.get?_eq_some_iff hordered).1 hheld
    obtain rfl := hall symbol hmem hvalue
    exact ⟨.int 5, by decide +kernel, .inl rfl⟩
  have hvalue : ((do k'.events.reverse.forM Meaning.act; Meaning.finish none).run.run c).1.toOption.map Value.ty =
      some .int := by decide +kernel
  obtain ⟨v, hv, hty⟩ := exists_of_map_toOption hvalue
  have hsafe := expression_type_safe m (run_eq_of_fst hread) hnew Stream.start_sound hstocks (run_eq_of_fst hv)
  exact ⟨k', k'.events, _, v, run_eq_of_fst hread, hnew, Stream.start_sound, hstocks, run_eq_of_fst hv, hty, hsafe⟩

end OnePass
