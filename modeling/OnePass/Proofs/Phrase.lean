import OnePass.Grammar.Statement

/-!
# Phrases

A parser reports a program as a flat list of events.  This module gives the list its structure back:
the phrases of the language — expressions, right-hand sides, conditions, statements and
definitions — and for each phrase the events that report it.

Main results:

* `Phrase.exists_expr_events` — the events of a few expressions in a row can be continued to the
  events of one expression;
* `Phrase.Item.isSpoken_of_mem` — the events of phrases are about the program.
-/

namespace OnePass

open List

/-- Whether an event is about the program; the others only report how its tokens are read. -/
def Event.isSpoken : Event → Bool
  | .read _ | .refused _ | .moved _ | .start => false
  | _ => true

/-! ### Vocabularies -/

/-- What a source of tokens may contain: names and types, of which there are some, and faults of its
own. -/
structure Vocabulary where
  name : String → Prop
  ty : Ty → Prop
  fault : Diagnostic → Prop
  exists_name : ∃ text, name text
  exists_ty : ∃ type, ty type

/-- A token of the vocabulary. -/
def Token.Within (V : Vocabulary) (token : Token) : Prop :=
  (∀ name, token.kind = .identifier name → V.name name) ∧ ∀ ty, token.kind = .typeName ty → V.ty ty

theorem Token.Within.name {V : Vocabulary} {token : Token} {name : String} (h : token.Within V)
    (hname : token.identifier? = some name) : V.name name := by
  unfold Token.identifier? at hname
  split at hname
  · rename_i found hkind
    cases hname
    exact h.1 _ hkind
  · cases hname

namespace Phrase

/-! ### Expressions -/

/-- Expressions, without their parentheses. -/
inductive Expr where
  | operand (token : Token)
  | binary (operator : Operator) (place : Location) (left right : Expr)
  | unwrap (place : Location) (inner : Expr)

namespace Expr

/-- The events of an expression: operands before operators. -/
def events : Expr → List Event
  | operand token => [.operand token]
  | binary operator place left right => left.events ++ (right.events ++ [.binary operator place])
  | unwrap place inner => inner.events ++ [.unwrap place]

/-- The operands of an expression are terms of the vocabulary. -/
def Within (V : Vocabulary) : Expr → Prop
  | operand token => token.Within V ∧ token.kind.isTerm
  | binary _ _ left right => left.Within V ∧ right.Within V
  | unwrap _ inner => inner.Within V

end Expr

/-- A literal, which is an expression of every vocabulary. -/
def zero : Expr := .operand ⟨.intLiteral 0, .start, false⟩

theorem zero_within (V : Vocabulary) : zero.Within V := by
  refine ⟨⟨?_, ?_⟩, rfl⟩ <;> intro _ h <;> cases h

theorem exists_expr_events {V : Vocabulary} (exprs : List Expr) (h : ∀ e ∈ exprs, e.Within V) :
    ∃ rest e, Expr.Within V e ∧ exprs.flatMap Expr.events ++ rest = e.events := by
  induction exprs with
  | nil => exact ⟨_, zero, zero_within V, rfl⟩
  | cons first later ih =>
    -- the later ones become one expression, which is then the right operand
    obtain ⟨rest, right, hright, heq⟩ := ih fun e he => h e (mem_cons_of_mem _ he)
    refine ⟨rest ++ [.binary .add .start], .binary .add .start first right,
      ⟨h first mem_cons_self, hright⟩, ?_⟩
    rw [flatMap_cons, Expr.events, ← heq]
    simp only [append_assoc]

/-! ### Calls and right-hand sides -/

/-- An argument of a call. -/
structure Arg where
  label : Option String
  term : Token
  place : Location

namespace Arg

def event (callee : String) (arg : Arg) : Event := .argument callee arg.label arg.term arg.place

def Within (V : Vocabulary) (arg : Arg) : Prop := arg.term.Within V ∧ arg.term.kind.isTerm

end Arg

/-- Right-hand sides of declarations and assignments. -/
inductive RightSide where
  | expression (value : Expr)
  | call (callee : String) (place : Location) (args : List Arg)

namespace RightSide

def source : RightSide → ValueSource
  | expression _ => .expression
  | call callee _ _ => .call callee

def events (receiver : Receiver) : RightSide → List Event
  | expression value => value.events
  | call callee place args =>
      .receiveCall callee receiver ::
        (args.map (Arg.event callee) ++ [.call callee place (.received receiver)])

def Within (V : Vocabulary) : RightSide → Prop
  | expression value => value.Within V
  | call callee _ args => V.name callee ∧ ∀ arg ∈ args, arg.Within V

end RightSide

/-! ### Statements -/

/-- Conditions of conditionals. -/
inductive Condition where
  | comparison (value : Expr) (place : Location)
  | present (name : String) (place : Location)

namespace Condition

def events : Condition → List Event
  | comparison value place => value.events ++ [.ifCondition place]
  | present name place => [.ifLet name place]

def Within (V : Vocabulary) : Condition → Prop
  | comparison value _ => value.Within V
  | present name _ => V.name name

end Condition

/-- Statements and sequences of statements. -/
inductive Statement where
  | skip
  | seq (first second : Statement)
  | declare (mutable : Bool) (name : String) (place : Location) (stated : Option Ty)
      (init : Option RightSide)
  | assign (name : String) (place : Location) (value : RightSide)
  | call (callee : String) (place : Location) (args : List Arg)
  | giveBack (place : Location) (value : Option Expr)
  | ifThen (condition : Condition) (body : Statement)
  | ifElse (condition : Condition) (body other : Statement)
  | loop (condition : Expr) (place : Location) (body : Statement)

namespace Statement

/-- The events of a statement. -/
def events : Statement → List Event
  | skip => []
  | seq first second => first.events ++ second.events
  | declare mutable name place stated init =>
      .declareName name place :: .reserve name ::
        ((init.elim [] fun side => side.events (.declared name place stated)) ++
          [.bind mutable name place stated (init.map RightSide.source)])
  | assign name place value =>
      .assignee name place :: (value.events (.assigned name place) ++ [.assign name place value.source])
  | call callee place args => args.map (Arg.event callee) ++ [.call callee place .dropped]
  | giveBack place value =>
      .beginReturn value.isSome place :: (value.elim [] Expr.events ++ [.endReturn value.isSome place])
  | ifThen condition body =>
      .beginIf :: (condition.events ++ (body.events ++ [.endThen, .endIf]))
  | ifElse condition body other =>
      .beginIf :: (condition.events ++ (body.events ++
        (.endThen :: .beginElse :: (other.events ++ [.endElse, .endIf]))))
  | loop condition place body =>
      .beginWhile :: (condition.events ++ (.whileCondition place :: (body.events ++ [.endWhile])))

/-- The names, types and operands of a statement belong to the vocabulary. -/
def Within (V : Vocabulary) : Statement → Prop
  | skip => True
  | seq first second => first.Within V ∧ second.Within V
  | declare _ name _ stated init =>
      V.name name ∧ (∀ ty ∈ stated, V.ty ty) ∧ ∀ side ∈ init, side.Within V
  | assign name _ value => V.name name ∧ value.Within V
  | call callee _ args => V.name callee ∧ ∀ arg ∈ args, arg.Within V
  | giveBack _ value => ∀ e ∈ value, e.Within V
  | ifThen condition body => condition.Within V ∧ body.Within V
  | ifElse condition body other => condition.Within V ∧ body.Within V ∧ other.Within V
  | loop condition _ body => condition.Within V ∧ body.Within V

end Statement

/-! ### Definitions and programs -/

/-- A parameter of a function. -/
structure Param where
  label : Option String
  name : Option String
  ty : Ty
  place : Location

namespace Param

def event (index : Nat) (param : Param) : Event :=
  .parameter index param.label param.name param.ty param.place

/-- A parameter of the vocabulary. -/
def Within (V : Vocabulary) (param : Param) : Prop :=
  (∀ name ∈ param.name, V.name name) ∧ V.ty param.ty

/-- The events of parameters whose first one has an index. -/
def eventsFrom (start : Nat) : List Param → List Event
  | [] => []
  | param :: later => param.event start :: eventsFrom (start + 1) later

end Param

/-- The definition of a function. -/
structure Function where
  name : String
  place : Location
  params : List Param
  returns : Ty
  body : Statement

namespace Function

/-- What is reported about a function before its body. -/
def opening (function : Function) : List Event :=
  .functionName function.name function.place :: .beginParameters function.name ::
    (Param.eventsFrom 0 function.params ++
      [.beginBody function.name function.place function.params.length function.returns])

def events (function : Function) : List Event :=
  .functionName function.name function.place :: .beginParameters function.name ::
    (Param.eventsFrom 0 function.params ++
      (.beginBody function.name function.place function.params.length function.returns ::
        (function.body.events ++ [.endFunction function.name])))

theorem events_eq (function : Function) : function.events =
    function.opening ++ (function.body.events ++ [.endFunction function.name]) := by
  simp [events, opening]

def Within (V : Vocabulary) (function : Function) : Prop :=
  V.name function.name ∧ (∀ param ∈ function.params, param.Within V) ∧
    (function.returns = .void ∨ V.ty function.returns) ∧ function.body.Within V

end Function

/-- What a program consists of. -/
inductive Item where
  | statement (content : Statement)
  | function (content : Function)

namespace Item

def events : Item → List Event
  | statement content => content.events
  | function content => content.events

def Within (V : Vocabulary) : Item → Prop
  | statement content => content.Within V
  | function content => content.Within V

end Item

/-! ### Spoken events -/

theorem Expr.isSpoken_of_mem (e : Expr) : ∀ event ∈ e.events, event.isSpoken := by
  induction e with
  | operand token => simp [events, Event.isSpoken]
  | binary operator place left right ihl ihr =>
    simp only [events, forall_mem_append, forall_mem_singleton]
    exact ⟨ihl, ihr, rfl⟩
  | unwrap place inner ih =>
    simp only [events, forall_mem_append, forall_mem_singleton]
    exact ⟨ih, rfl⟩

theorem Arg.isSpoken_of_mem (callee : String) (args : List Arg) :
    ∀ event ∈ args.map (Arg.event callee), event.isSpoken := by
  simp [Arg.event, Event.isSpoken]

theorem RightSide.isSpoken_of_mem (side : RightSide) (receiver : Receiver) :
    ∀ event ∈ side.events receiver, event.isSpoken := by
  cases side with
  | expression value => exact value.isSpoken_of_mem
  | call callee place args =>
    simp only [events, forall_mem_cons, forall_mem_append]
    exact ⟨rfl, Arg.isSpoken_of_mem callee args, rfl, by simp⟩

theorem Condition.isSpoken_of_mem (condition : Condition) : ∀ event ∈ condition.events, event.isSpoken := by
  cases condition with
  | comparison value place =>
    simp only [events, forall_mem_append, forall_mem_singleton]
    exact ⟨value.isSpoken_of_mem, rfl⟩
  | present name place => simp [events, Event.isSpoken]

theorem Statement.isSpoken_of_mem (s : Statement) : ∀ event ∈ s.events, event.isSpoken := by
  induction s with
  | skip => simp [events]
  | seq first second ih ih' => exact forall_mem_append.2 ⟨ih, ih'⟩
  | declare isMutable name place stated init =>
    simp only [events, forall_mem_cons, forall_mem_append]
    refine ⟨rfl, rfl, ?_, rfl, by simp⟩
    cases init with
    | none => simp
    | some side => exact side.isSpoken_of_mem _
  | assign name place value =>
    simp only [events, forall_mem_cons, forall_mem_append]
    exact ⟨rfl, value.isSpoken_of_mem _, rfl, by simp⟩
  | call callee place args =>
    exact forall_mem_append.2 ⟨Arg.isSpoken_of_mem callee args, by simp [Event.isSpoken]⟩
  | giveBack place value =>
    simp only [events, forall_mem_cons, forall_mem_append]
    refine ⟨rfl, ?_, rfl, by simp⟩
    cases value with
    | none => simp
    | some e => exact e.isSpoken_of_mem
  | ifThen condition body ih =>
    simp only [events, forall_mem_cons, forall_mem_append]
    exact ⟨rfl, condition.isSpoken_of_mem, ih, rfl, rfl, by simp⟩
  | ifElse condition body other ih ih' =>
    simp only [events, forall_mem_cons, forall_mem_append]
    exact ⟨rfl, condition.isSpoken_of_mem, ih, rfl, rfl, ih', rfl, rfl, by simp⟩
  | loop condition place body ih =>
    simp only [events, forall_mem_cons, forall_mem_append]
    exact ⟨rfl, condition.isSpoken_of_mem, rfl, ih, rfl, by simp⟩

theorem Param.isSpoken_of_mem (params : List Param) (start : Nat) :
    ∀ event ∈ Param.eventsFrom start params, event.isSpoken := by
  induction params generalizing start with
  | nil => simp [eventsFrom]
  | cons param later ih => exact forall_mem_cons.2 ⟨rfl, ih (start + 1)⟩

theorem Item.isSpoken_of_mem (item : Item) : ∀ event ∈ item.events, event.isSpoken := by
  cases item with
  | statement content => exact content.isSpoken_of_mem
  | function content =>
    simp only [events, Function.events, forall_mem_cons, forall_mem_append]
    exact ⟨rfl, rfl, Param.isSpoken_of_mem _ 0, rfl, content.body.isSpoken_of_mem, rfl, by simp⟩

end Phrase

end OnePass
