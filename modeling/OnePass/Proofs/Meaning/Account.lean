import OnePass.Proofs.Meaning.Fit
import OnePass.Proofs.Meaning.Logic
import OnePass.Proofs.Typing

/-!
# The account of an expression

The events of an expression are acted on one by one, and conversions are put into code that has been
written before.  The outcome is that of two passes: the same fault at the same place, or the type and
the code of the typed expression.

Main results:

* `Meaning.agrees_binary`, `Meaning.agrees_unwrap` — operators do what their rules say;
* `Meaning.echoes_expr` — **the events of an expression write the code of its formula**;
* `Meaning.evaluation_two_pass` — **so does the whole evaluation, or it fails as the typing does**.
-/

namespace OnePass.Meaning

open List

/-! ### Pieces of code -/

/-- A piece of code is that of a typed formula, and a value refers to it; some labels have been given
out before. -/
structure Holds (t : ScopeTree) (labels : Nat) (x : Typed) (v : Value) (piece : List Entry) : Prop where
  ty : v.ty = x.ty
  origin : x.ty = .int → (v.origin = .literal ↔ x.formula.isLiteral)
  spans : Stream.Spans piece v.first v.last
  code : piece.map (·.instruction) = x.formula.code t labels

namespace Holds

variable {t : ScopeTree} {labels : Nat} {x l r : Typed} {v vl vr : Value} {piece left right : List Entry}
  {kind : InstructionKind} {ty : Ty} {origin : Origin}

theorem isIntLiteral (h : Holds t labels x v piece) : v.isIntLiteral = x.isIntLiteral := by
  rw [Bool.eq_iff_iff, Value.isIntLiteral, Typed.isIntLiteral, Bool.and_eq_true, Bool.and_eq_true,
    beq_iff_eq, beq_iff_eq, decide_eq_true_eq, h.ty]
  exact and_congr_right h.origin

theorem promoted (h : Holds t labels x v piece) (hliteral : x.formula.isLiteral) :
    Holds t labels x.promoted { v with ty := .double }
      (piece.map fun entry => ⟨entry.id, entry.instruction.promote⟩) where
  ty := rfl
  origin := nofun
  spans := ⟨by simpa using h.spans.first, by simpa using h.spans.last⟩
  code := by
    rw [Typed.promoted, Formula.code_toDouble t labels hliteral, ← h.code, map_map, map_map]
    rfl

theorem unary (h : Holds t labels x v piece) (horigin : ty = .int → origin ≠ .literal) (id : Nat) :
    Holds t labels ⟨ty, .unary kind x.formula⟩ ⟨ty, origin, v.first, id⟩
      (piece ++ [⟨id, t.operation kind (labels + x.formula.labels)⟩]) where
  ty := rfl
  origin hty := iff_of_false (horigin hty) Bool.false_ne_true
  spans := by
    refine ⟨?_, by simp⟩
    rw [List.head?_append, Option.map_or, h.spans.first, Option.some_or]
  code := by rw [map_append, h.code, map_singleton, Formula.code]

theorem binary (hl : Holds t labels l vl left) (hr : Holds t (labels + l.formula.labels) r vr right)
    (horigin : ty = .int → (origin = .literal ↔ (Formula.binary kind l.formula r.formula).isLiteral))
    (id : Nat) :
    Holds t labels ⟨ty, .binary kind l.formula r.formula⟩ ⟨ty, origin, vl.first, id⟩
      (left ++ right ++ [⟨id, t.operation kind (labels + l.formula.labels + r.formula.labels)⟩]) where
  ty := rfl
  origin := horigin
  spans := by
    refine ⟨?_, by simp⟩
    rw [append_assoc, List.head?_append, Option.map_or, hl.spans.first, Option.some_or]
  code := by
    rw [append_assoc, map_append, map_append, hl.code, hr.code, map_singleton,
      Formula.code]

end Holds

/-- Instructions have been appended one by one, and none has been put in between. -/
def Appends (before after : Stream) : Prop :=
  ∃ n, after.issued = before.issued + n ∧ after.ids = before.ids ++ List.range' before.issued n

section appends

variable {s s₁ s' : Stream}

theorem Appends.refl (s : Stream) : Appends s s := ⟨0, rfl, (append_nil _).symm⟩

theorem Appends.trans (h : Appends s s₁) (h' : Appends s₁ s') : Appends s s' := by
  obtain ⟨n, hn, hids⟩ := h
  obtain ⟨m, hm, hids'⟩ := h'
  refine ⟨n + m, by rw [hm, hn, Nat.add_assoc], ?_⟩
  rw [hids', hids, hn, append_assoc, List.range'_append_1]

theorem Appends.append (h : Appends s s') (hsound : s'.Sound) (i : Instruction) :
    Appends s (s'.append i).1 := by
  refine h.trans ⟨1, Stream.issued_append s' i, ?_⟩
  rw [Stream.ids, Stream.toList_append hsound, map_append]
  rfl

theorem Appends.modify (h : Appends s s') (ids : List Nat) (change : Instruction → Instruction) :
    Appends s (s'.modify ids change) := by
  refine h.trans ⟨0, Stream.issued_modify s' ids change, ?_⟩
  simp [Stream.ids, Stream.toList_modify]

end appends

/-- Nothing but the code, the values at hand and the labels may have changed. -/
structure Keeps (c c' : Context) : Prop where
  sound : c'.stream.Sound
  scopes : c'.scopes = c.scopes
  calls : c'.calls = c.calls
  arguments : c'.arguments = c.arguments
  blocks : c'.blocks = c.blocks

/-- Since a context the code of a value has been written. -/
structure Written (c c' : Context) (x : Typed) (v : Value) : Prop extends Keeps c c' where
  labels : c'.labels = c.labels + x.formula.labels
  appends : x.formula.isLiteral → Appends c.stream c'.stream
  piece : ∃ piece, c'.stream.toList = c.stream.toList ++ piece ∧ Holds c.scopes c.labels x v piece

/-- Since a context the code of two values has been written. -/
structure Paired (c c' : Context) (l r : Typed) (vl vr : Value) : Prop extends Keeps c c' where
  labels : c'.labels = c.labels + l.formula.labels + r.formula.labels
  appends : l.formula.isLiteral → r.formula.isLiteral → Appends c.stream c'.stream
  pieces : ∃ left right, c'.stream.toList = c.stream.toList ++ (left ++ right) ∧
    Holds c.scopes c.labels l vl left ∧ Holds c.scopes (c.labels + l.formula.labels) r vr right

section written

variable {c c' c₁ : Context} {x l r : Typed} {v vl vr : Value} {kind : InstructionKind} {ty : Ty}
  {origin : Origin}

theorem Written.congr (h : Written c c' x v) {values : List Value} {log : List LogRecord} :
    Written c { c' with values, log } x v :=
  { h with }

theorem Written.of_log {log : List LogRecord} (h : Written { c with log } c' x v) : Written c c' x v :=
  { h with }

theorem Paired.congr (h : Paired c c' l r vl vr) {values : List Value} {log : List LogRecord} :
    Paired c { c' with values, log } l r vl vr :=
  { h with }

theorem Written.segment (h : Written c c' x v) : v.ty = x.ty ∧ ∃ piece,
    c'.stream.toList = c.stream.toList ++ piece ∧ c'.stream.range v.first v.last = piece.map (·.id) ∧
      piece.map (·.instruction) = x.formula.code c.scopes c.labels := by
  obtain ⟨piece, hpiece, hholds⟩ := h.piece
  refine ⟨hholds.ty, piece, hpiece, ?_, hholds.code⟩
  exact Stream.range_eq h.sound (hpiece.trans (congrArg _ (append_nil piece).symm)) hholds.spans

theorem Written.pair (hl : Written c c₁ l vl) (hr : Written c₁ c' r vr) : Paired c c' l r vl vr := by
  obtain ⟨left, hleft, hl'⟩ := hl.piece
  obtain ⟨right, hright, hr'⟩ := hr.piece
  rw [hl.scopes, hl.labels] at hr'
  refine ⟨⟨hr.sound, hr.scopes.trans hl.scopes, hr.calls.trans hl.calls, hr.arguments.trans hl.arguments,
    hr.blocks.trans hl.blocks⟩, ?_, fun h h' => (hl.appends h).trans (hr.appends h'), left, right, ?_, hl', hr'⟩
  · rw [hr.labels, hl.labels]
  · rw [hright, hleft, append_assoc]

/-- The context behind an operation of the current scope. -/
def operated (c : Context) (kind : InstructionKind) : Context :=
  { c with
    stream := (c.stream.append (c.scopes.operation kind c.labels)).1
    labels := c.labels + kind.labels }

theorem run_emit (h : kind.labels = 0) :
    (emit kind).run.run c = (.ok c.stream.issued, operated c kind) := by
  rw [operated, ScopeTree.operation, if_pos h, h]
  rfl

theorem Keeps.operated (h : Keeps c c') (kind : InstructionKind) : Keeps c (operated c' kind) :=
  { h with sound := h.sound.append _ }

theorem Keeps.toList_operated (h : Keeps c c') {n : Nat} (hlabels : c'.labels = n) {piece : List Entry}
    (hpiece : c'.stream.toList = c.stream.toList ++ piece) :
    (Meaning.operated c' kind).stream.toList =
      c.stream.toList ++ (piece ++ [⟨c'.stream.issued, c.scopes.operation kind n⟩]) := by
  rw [Meaning.operated, Stream.toList_append h.sound, hpiece, append_assoc, h.scopes, hlabels]

theorem Written.operated (h : Written c c' x v) (kind : InstructionKind)
    (horigin : ty = .int → origin ≠ .literal) :
    Written c (operated c' kind) ⟨ty, .unary kind x.formula⟩ ⟨ty, origin, v.first, c'.stream.issued⟩ := by
  obtain ⟨piece, hpiece, hholds⟩ := h.piece
  refine ⟨h.toKeeps.operated kind, ?_, nofun, _, h.toList_operated h.labels hpiece,
    hholds.unary horigin _⟩
  exact (congrArg (· + kind.labels) h.labels).trans (Nat.add_assoc ..)

theorem Paired.operated (h : Paired c c' l r vl vr) (kind : InstructionKind)
    (horigin : ty = .int →
      (origin = .literal ↔ (Formula.binary kind l.formula r.formula).isLiteral)) :
    Written c (operated c' kind) ⟨ty, .binary kind l.formula r.formula⟩
      ⟨ty, origin, vl.first, c'.stream.issued⟩ := by
  obtain ⟨left, right, hpieces, hl, hr⟩ := h.pieces
  refine ⟨h.toKeeps.operated kind, ?_, fun hliteral => ?_, _, h.toList_operated h.labels hpieces,
    hl.binary hr horigin _⟩
  · refine (congrArg (· + kind.labels) h.labels).trans ?_
    simp only [Formula.labels, Nat.add_assoc]
  · rw [Formula.isLiteral, Bool.and_eq_true, Bool.and_eq_true] at hliteral
    exact (h.appends hliteral.2.1 hliteral.2.2).append h.sound _

/-! ### Conversions -/

/-- The context behind the promotion of a value. -/
def rewritten (c : Context) (v : Value) : Context :=
  { c with stream := c.stream.modify (c.stream.range v.first v.last) Instruction.promote }

theorem run_promote : (promote v).run.run c = (.ok { v with ty := .double }, rewritten c v) := rfl

theorem Written.promoted (h : Written c c' x v) (hliteral : x.formula.isLiteral) :
    Written c (rewritten c' v) x.promoted { v with ty := .double } := by
  obtain ⟨piece, hpiece, hholds⟩ := h.piece
  refine ⟨{ h.toKeeps with sound := h.sound.modify _ _ }, ?_, fun _ => (h.appends hliteral).modify _ _, _,
    ?_, hholds.promoted hliteral⟩
  · rw [Typed.promoted, Formula.labels_toDouble]
    exact h.labels
  · rw [← append_nil piece] at hpiece
    have hlist := Stream.toList_modify_range h.sound hpiece hholds.spans Instruction.promote
    rwa [append_nil] at hlist

theorem Paired.promotedLeft (h : Paired c c' l r vl vr) (hliteral : l.formula.isLiteral) :
    Paired c (rewritten c' vl) l.promoted r { vl with ty := .double } vr := by
  obtain ⟨left, right, hpieces, hl, hr⟩ := h.pieces
  have hlabels : l.promoted.formula.labels = l.formula.labels := Formula.labels_toDouble _
  refine ⟨{ h.toKeeps with sound := h.sound.modify _ _ }, ?_,
    fun _ h' => (h.appends hliteral h').modify _ _, _, right,
    Stream.toList_modify_range h.sound hpieces hl.spans _, hl.promoted hliteral, ?_⟩
  · rw [hlabels]
    exact h.labels
  · rwa [hlabels]

theorem Paired.promotedRight (h : Paired c c' l r vl vr) (hliteral : r.formula.isLiteral) :
    Paired c (rewritten c' vr) l r.promoted vl { vr with ty := .double } := by
  obtain ⟨left, right, hpieces, hl, hr⟩ := h.pieces
  refine ⟨{ h.toKeeps with sound := h.sound.modify _ _ }, ?_,
    fun h' _ => (h.appends h' hliteral).modify _ _, left, _, ?_, hl, hr.promoted hliteral⟩
  · rw [Typed.promoted, Formula.labels_toDouble]
    exact h.labels
  · rw [← append_nil right, ← append_assoc] at hpieces
    have hlist := Stream.toList_modify_range h.sound hpieces hr.spans Instruction.promote
    rwa [append_nil, append_assoc] at hlist

theorem run_insertBefore {id new : Nat} {i : Instruction} {stream : Stream}
    (h : (c.stream.setCursor id).insertBefore i = .ok (stream, new)) :
    (insertBefore id i).run.run c = (.ok new, { c with stream }) := by
  refine (run_get_bind c _).trans ((run_bind ..).trans ?_)
  rw [h]
  rfl

theorem Paired.convertLeft (h : Paired c c' l r vl vr) :
    ∃ stream, (insertBefore vr.first (c'.scopes.mark .intToDouble c'.scopes.current)).run.run c' =
        (.ok c'.stream.issued, { c' with stream }) ∧
      Paired c { c' with stream } ⟨.double, .unary .intToDouble l.formula⟩ r
        ⟨.double, vl.origin, vl.first, c'.stream.issued⟩ vr := by
  obtain ⟨left, right, hpieces, hl, hr⟩ := h.pieces
  obtain ⟨entry, hentry, hid⟩ := Option.map_eq_some_iff.1 hr.spans.first
  obtain ⟨rest, rfl⟩ := List.head?_eq_some_iff.1 hentry
  have hne : left ≠ [] := by
    rintro rfl
    cases hl.spans.first
  obtain ⟨stream, hok, hlist, hsound⟩ := Stream.insertBefore_split h.sound
    (hpieces.trans (append_assoc ..).symm) (append_ne_nil_of_right_ne_nil _ hne)
    (c'.scopes.mark .intToDouble c'.scopes.current)
  refine ⟨stream, ?_, { h.toKeeps with sound := hsound }, h.labels, nofun, _, _, ?_,
    hl.unary (by nofun) c'.stream.issued, hr⟩
  · rw [← hid]
    exact run_insertBefore hok
  · rw [hlist, h.scopes]
    simp
    rfl

theorem Paired.convertRight (h : Paired c c' l r vl vr) {log : List LogRecord} :
    Paired c { Meaning.operated c' .intToDouble with log } l ⟨.double, .unary .intToDouble r.formula⟩ vl
      ⟨.double, vr.origin, vr.first, c'.stream.issued⟩ := by
  obtain ⟨left, right, hpieces, hl, hr⟩ := h.pieces
  refine ⟨{ h.toKeeps.operated .intToDouble with }, h.labels, nofun, left, _, ?_, hl,
    hr.unary (by nofun) _⟩
  exact (h.toList_operated h.labels hpieces).trans (by rw [append_assoc])

theorem agrees_unify (h : Paired c c' l r vl vr) {l' r' : Typed} (hn : l.numbers r = some (l', r')) :
    Agrees (unify vl vr) c' (.ok (l', r')) fun x pair c'' =>
      Paired c c'' x.1 x.2 pair.1 pair.2 ∧ c''.values = c'.values ∧ pair.1.first = vl.first := by
  obtain ⟨_, _, -, hl, hr⟩ := h.pieces
  unfold unify
  rw [hl.ty, hr.ty]
  unfold Typed.numbers at hn
  split at hn <;> cases hn <;> rename_i hlty hrty <;> rw [hlty, hrty]
  · exact agrees_pure ⟨h, rfl, rfl⟩
  · rw [Typed.asDouble_of_double hrty, Typed.asDouble, if_pos hlty]
    by_cases hliteral : l.formula.isLiteral = true
    · rw [if_pos hliteral, if_pos ((hl.origin hlty).2 hliteral)]
      exact agrees_bind run_promote (agrees_pure ⟨h.promotedLeft hliteral, rfl, rfl⟩)
    · rw [if_neg hliteral, if_neg fun horigin => hliteral ((hl.origin hlty).1 horigin)]
      obtain ⟨stream, hrun, hpaired⟩ := h.convertLeft
      refine agrees_bind rfl (agrees_bind rfl (agrees_bind hrun (agrees_bind rfl ?_)))
      exact agrees_pure ⟨hpaired.congr, rfl, rfl⟩
  · rw [Typed.asDouble_of_double hlty, Typed.asDouble, if_pos hrty]
    by_cases hliteral : r.formula.isLiteral = true
    · rw [if_pos hliteral, if_pos ((hr.origin hrty).2 hliteral)]
      exact agrees_bind run_promote (agrees_pure ⟨h.promotedRight hliteral, rfl, rfl⟩)
    · rw [if_neg hliteral, if_neg fun horigin => hliteral ((hr.origin hrty).1 horigin)]
      exact agrees_bind (run_emit rfl) (agrees_bind rfl (agrees_pure ⟨h.convertRight, rfl, rfl⟩))
  · rw [Typed.asDouble_of_double hlty, Typed.asDouble_of_double hrty]
    exact agrees_pure ⟨h, rfl, rfl⟩

/-! ### Operators -/

variable {operator : Operator} {place : Location}

/-- An operator leaves one value, written since a context, and the other values at hand. -/
def Leaves (c c' : Context) (x : Typed) (v : Value) (c'' : Context) : Prop :=
  Written c c'' x v ∧ c''.values = c'.values

theorem combine_eq_literal_iff (l r : Origin) : l.combine r = .literal ↔ l = .literal ∧ r = .literal := by
  cases l <;> cases r <;> decide

theorem agrees_arithmetic (h : Paired c c' l r vl vr) :
    Agrees (arithmetic operator vl vr place) c' (Typed.arithmetic operator place l r) (Leaves c c') := by
  obtain ⟨_, _, -, hl, hr⟩ := h.pieces
  unfold arithmetic Typed.arithmetic
  rw [hl.ty, hr.ty]
  by_cases hstring : l.ty = .string ∧ r.ty = .string
  · rw [if_pos hstring, if_pos hstring]
    by_cases hadd : operator = .add
    · rw [if_neg (not_not_intro hadd), if_pos hadd]
      exact agrees_bind (run_emit rfl) (agrees_pure ⟨h.operated .concat (by nofun), rfl⟩)
    · rw [if_pos hadd, if_neg hadd]
      exact agrees_failAt_bind
  · rw [if_neg hstring, if_neg hstring, ← Typed.isSome_numbers]
    cases hn : l.numbers r with
    | none => exact agrees_failAt_bind
    | some pair =>
      obtain ⟨l', r'⟩ := pair
      refine (agrees_unify h hn).next ?_
      rintro ⟨vl', vr'⟩ c'' ⟨hpaired, hvalues, -⟩
      obtain ⟨_, _, -, hl', hr'⟩ := hpaired.pieces
      refine agrees_bind (run_emit (InstructionKind.labels_of_takes (arithmeticKind_takes ..))) (agrees_pure ⟨?_, hvalues⟩)
      rw [hl'.ty]
      refine hpaired.operated _ fun hint => (combine_eq_literal_iff ..).trans ?_
      rw [Formula.isLiteral, bne_iff_ne.2 (arithmeticKind_takes operator _).2, Bool.true_and, Bool.and_eq_true]
      exact and_congr (hl'.origin hint) (hr'.origin ((Typed.ty_of_numbers hn).symm.trans hint))

theorem agrees_truth (h : Paired c c' l r vl vr) {first : Nat} (hfirst : first = vl.first) :
    Agrees (truth operator first) c' (.ok (Typed.comparison operator l r)) (Leaves c c') := by
  subst hfirst
  refine agrees_bind (run_emit (by cases operator <;> rfl)) (agrees_pure ⟨?_, rfl⟩)
  exact h.operated _ (by nofun)

theorem agrees_ordering (h : Paired c c' l r vl vr) :
    Agrees (ordering operator vl vr place) c' (Typed.ordering operator place l r) (Leaves c c') := by
  obtain ⟨_, _, -, hl, hr⟩ := h.pieces
  unfold ordering Typed.ordering
  rw [hl.ty, hr.ty]
  by_cases hstring : l.ty = .string ∧ r.ty = .string
  · rw [if_pos hstring, if_pos hstring]
    exact agrees_truth h rfl
  · rw [if_neg hstring, if_neg hstring, ← Typed.isSome_numbers]
    cases hn : l.numbers r with
    | none => exact agrees_failAt
    | some pair =>
      refine (agrees_unify h hn).next ?_
      rintro ⟨vl', vr'⟩ c'' ⟨hpaired, hvalues, -⟩
      exact (agrees_truth hpaired rfl).mono fun x v c₃ hleaves => ⟨hleaves.1, hleaves.2.trans hvalues⟩

theorem agrees_equality (h : Paired c c' l r vl vr) :
    Agrees (equality operator vl vr place) c' (Typed.equality operator place l r) (Leaves c c') := by
  obtain ⟨_, _, -, hl, hr⟩ := h.pieces
  unfold equality Typed.equality
  rw [hl.isIntLiteral, hr.isIntLiteral, hl.ty, hr.ty, ← Typed.isSome_numbers,
    Ty.comparable_eq_equatable]
  cases hn : l.numbers r with
  | some pair =>
    refine (agrees_unify h hn).next ?_
    rintro ⟨vl', vr'⟩ c'' ⟨hpaired, hvalues, hfirst⟩
    exact (agrees_truth hpaired hfirst.symm).mono
      fun x v c₃ hleaves => ⟨hleaves.1, hleaves.2.trans hvalues⟩
  | none =>
    have hn' : r.numbers l = none := by
      rw [← Option.not_isSome_iff_eq_none, Typed.isSome_numbers, Bool.and_comm, ← Typed.isSome_numbers, hn]
      exact nofun
    rw [if_neg (by exact nofun), Typed.adapted_of_numbers hn, Typed.adapted_of_numbers hn']
    by_cases hright : l.ty = .optional .double ∧ r.isIntLiteral
    · -- an optional double is not an integer, so only one of the operands adapts
      have hleft : ¬ (r.ty = .optional .double ∧ l.isIntLiteral) := by
        rintro ⟨-, hint⟩
        rw [Typed.isIntLiteral, hright.1] at hint
        cases hint
      rw [if_pos hright, if_pos hright, if_neg hleft, hright.1]
      exact agrees_bind run_promote
        (agrees_truth (h.promotedRight (r.isIntLiteral_iff.1 hright.2).2) rfl)
    · rw [if_neg hright, if_neg hright]
      by_cases hleft : r.ty = .optional .double ∧ l.isIntLiteral
      · rw [if_pos hleft, if_pos hleft, hleft.1]
        exact agrees_bind run_promote
          (agrees_truth (h.promotedLeft (l.isIntLiteral_iff.1 hleft.2).2) rfl)
      · rw [if_neg hleft, if_neg hleft]
        by_cases hequatable : l.ty.equatable r.ty = true
        · rw [if_pos hequatable, if_pos hequatable]
          exact agrees_truth h rfl
        · rw [if_neg hequatable, if_neg hequatable]
          exact agrees_failAt_bind

theorem Paired.coalesced (h : Paired c c' l r vl vr) (ty : Ty) :
    Agrees (do
      let counter ← nextLabel
      let last ← append { ← instruction .coalesce (← here) with counter }
      return { ty, origin := .compound, first := vl.first, last }) c'
      (.ok ⟨ty, .binary .coalesce l.formula r.formula⟩) (Leaves c c') := by
  refine agrees_bind rfl (agrees_bind rfl (agrees_bind rfl (agrees_bind rfl (agrees_pure ⟨?_, rfl⟩))))
  exact h.operated .coalesce fun _ => iff_of_false nofun nofun

theorem agrees_coalesce (h : Paired c c' l r vl vr) :
    Agrees (coalesce vl vr place) c' (Typed.coalesce place l r) (Leaves c c') := by
  obtain ⟨_, _, -, hl, hr⟩ := h.pieces
  unfold coalesce Typed.coalesce
  rw [hr.isIntLiteral, hl.ty]
  by_cases hleft : l.ty.isOptional ∨ l.ty = .nil
  swap
  · rw [if_neg (by simpa using hleft), if_neg hleft]
    exact agrees_failAt_bind
  rw [if_pos (by simpa using hleft), if_pos hleft]
  dsimp only
  by_cases hpromote : l.ty.unwrapped = .double ∧ r.isIntLiteral
  · have hlty : l.ty = .optional .double := by
      rcases hleft with hoptional | hnil
      · cases hty : l.ty with
        | optional b =>
          rw [hty] at hpromote
          exact congrArg _ (Ty.base.inj hpromote.1)
        | base | bool | nil | void =>
          rw [hty] at hoptional
          cases hoptional
      · rw [hnil] at hpromote
        cases hpromote.1
    have hbase : (if l.ty = .nil then vr.ty.unwrapped else l.ty.unwrapped) = .double := by
      rw [hlty]
      rfl
    rw [Typed.adapted, if_pos hpromote, hbase, if_pos ⟨rfl, hpromote.2⟩, hlty]
    refine agrees_bind run_promote ?_
    exact (h.promotedRight (r.isIntLiteral_iff.1 hpromote.2).2).coalesced .double
  · have hkept : ¬ ((if l.ty = .nil then vr.ty.unwrapped else l.ty.unwrapped) = .double ∧
        r.isIntLiteral) := by
      rintro ⟨hbase, hint⟩
      split at hbase
      · rw [hr.ty, (r.isIntLiteral_iff.1 hint).1] at hbase
        cases hbase
      · exact hpromote ⟨hbase, hint⟩
    rw [Typed.adapted, if_neg hpromote, if_neg hkept, hr.ty, Ty.coalesced_eq hleft r.ty rfl]
    refine agrees_bind rfl ?_
    rw [hr.ty]
    by_cases htys : r.ty ≠ .nil ∧ (r.ty.unwrapped ≠
        (if l.ty = .nil then r.ty.unwrapped else l.ty.unwrapped) ∨ !r.ty.isStorable)
    · rw [if_pos htys, if_pos htys]
      exact agrees_failAt_bind
    · rw [if_neg htys, if_neg htys]
      exact h.coalesced _

/-! ### Events -/

theorem agrees_reference {name : String} :
    Agrees (reference kind name place) c (c.scopes.resolve name place) fun x result c' =>
      c' = c ∧ result = (x.1, c.scopes.named kind name x.2) := by
  refine agrees_bind rfl ?_
  unfold ScopeTree.resolve ScopeTree.symbol?
  dsimp only
  cases c.scopes.owner? c.scopes.current name with
  | none => exact agrees_failAt
  | some owner =>
    dsimp only
    cases (c.scopes.scope owner).table.get? name with
    | none => exact agrees_failAt
    | some symbol => exact agrees_ite (fun _ => agrees_failAt) fun _ => agrees_pure ⟨rfl, rfl⟩

theorem meets_reference {strict : Bool} {name : String} :
    Meets strict (reference kind name place) c fun result c' => c' = c ∧ ∃ owner,
      c.scopes.Denotes name owner result.1 ∧ result.2 = c.scopes.named kind name owner := by
  refine (agrees_reference.meets fun _ => ScopeTree.external_of_resolve).mono ?_
  rintro _ _ ⟨⟨symbol, owner⟩, hresolve, hc', rfl⟩
  exact ⟨hc', owner, ScopeTree.denotes_of_resolve hresolve, rfl⟩

theorem written_push (h : c.stream.Sound) {i : Instruction} (hlabels : x.formula.labels = 0)
    (hcode : x.formula.code c.scopes c.labels = [i]) (horigin : origin = .literal ↔ x.formula.isLiteral)
    {values : List Value} :
    Written c { c with stream := (c.stream.append i).1, values } x
      ⟨x.ty, origin, c.stream.issued, c.stream.issued⟩ :=
  ⟨⟨h.append i, rfl, rfl, rfl, rfl⟩, (congrArg (c.labels + ·) hlabels).symm,
    fun _ => (Appends.refl c.stream).append h i, [⟨c.stream.issued, i⟩],
    Stream.toList_append h i, rfl, fun _ => horigin, ⟨rfl, rfl⟩, hcode.symm⟩

theorem agrees_operand (h : c.stream.Sound) (token : Token) :
    Agrees (operand token) c (c.scopes.typedOperand token) fun x _ c' =>
      ∃ v, c'.values = v :: c.values ∧ Written c c' x v := by
  unfold operand ScopeTree.typedOperand
  split
  · rename_i name hkind
    rw [Token.identifier?, hkind]
    refine agrees_reference.bind ?_
    rintro ⟨symbol, owner⟩ _ c ⟨rfl, rfl⟩
    refine agrees_ite (fun _ => ?_) fun _ => agrees_failAt_bind
    exact ⟨_, _, rfl, _, rfl, 
      written_push (x := ⟨symbol.ty, .read name owner⟩) h rfl rfl (by simp [Formula.isLiteral])⟩
  · rename_i hkind
    have hterm : token.identifier? = none := by
      unfold Token.identifier?
      split
      · rename_i name hname
        exact absurd hname (hkind name)
      · rfl
    rw [hterm]
    exact ⟨_, _, rfl, _, rfl, written_push h rfl rfl (iff_of_true rfl rfl)⟩

theorem run_popValue {values : List Value} (h : c.values = v :: values) :
    popValue.run.run c = (.ok v, { c with values }) := by
  refine (run_get_bind c _).trans ?_
  rw [h]
  rfl

theorem agrees_binary {values : List Value} (h : Paired c c' l r vl vr)
    (hvalues : c'.values = vr :: vl :: values) :
    Agrees (binary operator place) c' (Typed.binary operator place l r) fun x _ c'' =>
      ∃ v, c''.values = v :: values ∧ Written c c'' x v := by
  have hstart : Paired c { c' with values } l r vl vr := h.congr
  -- every operator leaves a value, which is then pushed
  have hpush : ∀ {m : Meaning Value} {result}, Agrees m { c' with values } result
      (Leaves c { c' with values }) →
      Agrees (m >>= pushValue) { c' with values } result fun x _ c'' =>
        ∃ v, c''.values = v :: values ∧ Written c c'' x v := by
    intro m result hm
    rw [← bind_pure result]
    refine hm.bind ?_
    rintro x v c'' ⟨hwritten, hkept⟩
    exact ⟨_, _, rfl, v, congrArg (v :: ·) hkept, hwritten.congr⟩
  refine agrees_bind (run_popValue hvalues) (agrees_bind (run_popValue rfl) ?_)
  cases operator with
  | add | subtract | multiply | divide => exact hpush (agrees_arithmetic hstart)
  | less | greater | lessEqual | greaterEqual => exact hpush (agrees_ordering hstart)
  | equal | notEqual => exact hpush (agrees_equality hstart)
  | coalesce => exact hpush (agrees_coalesce hstart)

theorem agrees_unwrap {values : List Value} (h : Written c c' x v) (hvalues : c'.values = v :: values) :
    Agrees (unwrap place) c' (x.unwrap place) fun y _ c'' =>
      ∃ w, c''.values = w :: values ∧ Written c c'' y w := by
  obtain ⟨_, -, hx⟩ := h.piece
  refine agrees_bind (run_popValue hvalues) ?_
  rw [hx.ty]
  unfold Typed.unwrap
  cases x.ty with
  | optional b =>
    refine ⟨_, _, rfl, _, rfl, Written.congr (h.operated .unwrap (by nofun))⟩
  | base | bool | nil | void => exact agrees_failAt_bind

/-- The events of an expression write the code of its formula, or fail as its typing does. -/
theorem echoes_expr (e : Phrase.Expr) (h : c.stream.Sound) :
    Echoes e.events c (c.scopes.typed e) fun x c' =>
      ∃ v, c'.values = v :: c.values ∧ Written c c' x v := by
  induction e generalizing c with
  | operand token =>
    refine echoes_singleton fun log => (agrees_operand (c := { c with log }) h token).mono ?_
    rintro x _ c' ⟨v, hvalues, hwritten⟩ log'
    exact ⟨v, hvalues, hwritten.of_log.congr⟩
  | binary operator place left right ihl ihr =>
    refine echoes_append ((ihl h).mono ?_)
    rintro l c₁ ⟨vl, hvl, hl⟩
    rw [← hl.scopes]
    refine echoes_append ((ihr hl.sound).mono ?_)
    rintro r c₂ ⟨vr, hvr, hr⟩
    refine echoes_singleton fun log => ?_
    have hpaired : Paired c { c₂ with log } l r vl vr := (hl.pair hr).congr
    refine (agrees_binary hpaired (hvr.trans (congrArg (vr :: ·) hvl))).mono ?_
    rintro x _ c₃ ⟨v, hv, hwritten⟩ log'
    exact ⟨v, hv, hwritten.congr⟩
  | unwrap place inner ih =>
    refine echoes_append ((ih h).mono ?_)
    rintro x c₁ ⟨v, hv, hx⟩
    refine echoes_singleton fun log => ?_
    have hwritten : Written c { c₁ with log } x v := hx.congr
    refine (agrees_unwrap hwritten hv).mono ?_
    rintro y _ c₂ ⟨w, hw, hwritten⟩ log'
    exact ⟨w, hw, hwritten.congr⟩

/-- The value of a whole expression is taken, and it adapts to the type that is wanted. -/
theorem agrees_finish {wanted : Option Ty} {values : List Value} (h : Written c c' x v)
    (hvalues : c'.values = v :: values) :
    Agrees (finish wanted) c' (.ok (wanted.elim x x.adapted)) fun y w c'' =>
      c''.values = values ∧ Written c c'' y w := by
  obtain ⟨_, -, hx⟩ := h.piece
  refine agrees_bind (run_popValue hvalues) ?_
  rw [hx.isIntLiteral]
  have hstart : Written c { c' with values } x v := h.congr
  cases wanted with
  | none => exact ⟨_, _, rfl, rfl, hstart.congr⟩
  | some ty =>
    rw [Option.any_some, Option.elim_some, Typed.adapted]
    by_cases hpromote : ty.unwrapped = .double ∧ x.isIntLiteral
    · rw [if_pos (by simpa using hpromote), if_pos hpromote]
      refine agrees_bind run_promote ⟨_, _, rfl, rfl, Written.congr (hstart.promoted ?_)⟩
      exact (x.isIntLiteral_iff.1 hpromote.2).2
    · rw [if_neg (by simpa using hpromote), if_neg hpromote]
      exact ⟨_, _, rfl, rfl, hstart.congr⟩

theorem agrees_evaluation (h : c.stream.Sound) (e : Phrase.Expr) (wanted : Option Ty) {events : List Event}
    (hevents : events.filter Event.isSpoken = e.events) :
    Agrees (do events.forM act; finish wanted) c (c.scopes.typedFor wanted e) fun x v c' =>
      c'.values = c.values ∧ Written c c' x v := by
  refine (echoes_expr e h events hevents).bind ?_
  rintro x _ c₁ ⟨v, hvalues, hwritten⟩
  exact agrees_finish hwritten hvalues

/-- **The evaluation of an expression has the outcome of two passes.**  Whatever is read among its events
and whatever type is wanted of it: it fails as the typing does, at the same place; or its value has the
type of the typed expression, everything before the expression is as it was, and the instructions from
the first one of the value to the last one are the code of the formula. -/
theorem evaluation_two_pass (h : c.stream.Sound) (e : Phrase.Expr) (wanted : Option Ty)
    {events : List Event} (hevents : events.filter Event.isSpoken = e.events) :
    Agrees (do events.forM act; finish wanted) c (c.scopes.typedFor wanted e) fun x v c' =>
      v.ty = x.ty ∧ ∃ piece, c'.stream.toList = c.stream.toList ++ piece ∧
        c'.stream.range v.first v.last = piece.map (·.id) ∧
        piece.map (·.instruction) = x.formula.code c.scopes c.labels ∧
        c'.labels = c.labels + x.formula.labels ∧ c'.values = c.values ∧ c'.scopes = c.scopes := by
  refine (agrees_evaluation h e wanted hevents).mono ?_
  rintro x v c' ⟨hvalues, hwritten⟩
  obtain ⟨hty, piece, hpiece, hrange, hcode⟩ := hwritten.segment
  exact ⟨hty, piece, hpiece, hrange, hcode, hwritten.labels, hvalues, hwritten.scopes⟩

/-- Beside a double, the quotient of two literal integers is rewritten to one of doubles. -/
theorem evaluation_two_pass_quotient :
    let token (kind : TokenKind) : Token := ⟨kind, .start, false⟩
    let quotient : Phrase.Expr := .binary .divide .start (.operand (token (.intLiteral 1)))
      (.operand (token (.intLiteral 2)))
    let e : Phrase.Expr := .binary .add .start quotient (.operand (token (.doubleLiteral (.ofInt 3))))
    Context.start.stream.Sound ∧ e.events.filter Event.isSpoken = e.events ∧
      ∃ v c', (do e.events.forM act; finish none).run.run .start = (.ok v, c') ∧ v.ty = .double ∧
        ∃ piece, c'.stream.toList = Context.start.stream.toList ++ piece ∧
          c'.stream.range v.first v.last = piece.map (·.id) ∧
          piece.map (·.instruction.kind) = [.pushLiteral, .pushLiteral, .div, .pushLiteral, .add] := by
  intro token quotient e
  have hspoken : e.events.filter Event.isSpoken = e.events := rfl
  have hsound : Context.start.stream.Sound := Stream.start_sound
  obtain ⟨v, c', hrun, hty, piece, hpiece, hrange, hcode, -⟩ := evaluation_two_pass hsound e none hspoken
  refine ⟨hsound, hspoken, v, c', hrun, hty, piece, hpiece, hrange, ?_⟩
  have hkinds := congrArg (List.map Instruction.kind) hcode
  rwa [map_map] at hkinds

/-! ### Between statements -/

/-- Since a context between two statements the code of an expression has been written. -/
structure Spelling (start c : Context) (e : Phrase.Expr) (v : Value) : Prop where
  base : Rests start
  written : ∃ x : Typed, x.Suits start.scopes e ∧ Written start c x v

namespace Spelling

variable {start c : Context} {e : Phrase.Expr} {v : Value} (h : Spelling start c e v)

include h

theorem log (log : List LogRecord) : Spelling start { c with log } e v := by
  obtain ⟨x, hsuits, hwritten⟩ := h.written
  exact ⟨h.base, x, hsuits, hwritten.congr⟩

theorem keeps : Keeps start c := by
  obtain ⟨x, -, hwritten⟩ := h.written
  exact hwritten.toKeeps

theorem rests : Rests c := by
  obtain ⟨x, -, hwritten⟩ := h.written
  obtain ⟨piece, hpiece, -⟩ := hwritten.piece
  exact h.base.grow hwritten.sound hwritten.calls (hwritten.arguments.trans h.base.arguments) hpiece

theorem code : ∃ code, start.scopes.Evaluates e code ∧ c.sheet = start.sheet.write code := by
  obtain ⟨x, hsuits, hwritten⟩ := h.written
  obtain ⟨piece, hpiece, hholds⟩ := hwritten.piece
  refine ⟨_, hsuits start.labels, Sheet.ext hwritten.scopes ?_ hwritten.calls⟩
  show c.stream.toList.map _ = _
  rw [hpiece, map_append, hholds.code]
  rfl

end Spelling

theorem tells_expr {strict : Bool} (e : Phrase.Expr) (h : Rests c) :
    Tells strict e.events c fun c' => ∃ v, c'.values = v :: c.values ∧ Spelling c c' e v := by
  intro events hevents
  refine ((echoes_expr e h.sound events hevents).meets fun _ => ScopeTree.external_of_typed).mono ?_
  rintro _ c' ⟨x, htyped, v, hvalues, hwritten⟩
  exact ⟨v, hvalues, h, x, ScopeTree.suits_of_typed htyped, hwritten⟩

theorem meets_finish {strict : Bool} {wanted : Option Ty} {values : List Value} {e : Phrase.Expr}
    (h : Spelling c c' e v) (hvalues : c'.values = v :: values) :
    Meets strict (finish wanted) c' fun w c'' => c''.values = values ∧ Spelling c c'' e w := by
  obtain ⟨x, hsuits, hwritten⟩ := h.written
  refine ((agrees_finish hwritten hvalues).meets fun _ h => by cases h).mono ?_
  rintro w c'' ⟨y, hy, hvalues', hw⟩
  cases hy
  refine ⟨hvalues', h.base, _, ?_, hw⟩
  cases wanted with
  | none => exact hsuits
  | some ty => exact hsuits.adapted ty

end written

end OnePass.Meaning
