import Mathlib.Data.List.Forall2
import OnePass.Proofs.Parsing.Expression
import OnePass.Proofs.Parsing.Lockstep

/-!
# Feeds that answer alike are parsed alike

Every parser of the language goes through two feeds in lockstep, if they answer alike up to the places of
tokens.  Two things have to be seen for each of them: that it asks for a token only before the end of the
input, and that the bounds of its loops are never reached.

Main results:

* `Parse.lockstep_expression`, `Parse.lockstep_statements` — expressions and sequences of statements;
* `parse_alike` — **feeds that answer alike have transcripts alike**, and the discipline of asking is kept.
-/

namespace OnePass

open List

variable {feed : Feed}

/-! ### Stacks of expressions -/

section Stacks

variable (f : Location → Location)

/-- What waits on the stack, with another place. -/
def Pending.relocate : Pending → Pending
  | .operand token => .operand (token.relocate f)
  | .binary left operator place => .binary left operator (f place)
  | .unwrap left place => .unwrap left (f place)
  | .opened => .opened
  | .closed inner => .closed inner

/-- The stack with other places. -/
def Shelf.relocate (shelf : Shelf) : Shelf :=
  { shelf with pending := shelf.pending.map (Pending.relocate f) }

@[simp] theorem Pending.terminal_relocate (pending : Pending) :
    (pending.relocate f).terminal = pending.terminal := by
  cases pending <;> rfl

theorem Pending.complete_relocate (value : Bool) (pending : Pending) : (pending.relocate f).complete value =
      (pending.complete value).map (List.map (Event.relocate f)) := by
  cases pending with
  | operand => rfl
  | opened => rfl
  | binary left operator place =>
    simp only [Pending.relocate, Pending.complete]
    split <;> rfl
  | unwrap left place =>
    simp only [Pending.relocate, Pending.complete]
    split <;> rfl
  | closed inner =>
    simp only [Pending.relocate, Pending.complete]
    split <;> rfl

/-- What a token comes to, with other places. -/
def Move.relocate : Move → Move
  | .taken shelf => .taken (shelf.relocate f)
  | move => move

namespace Shelf

variable (shelf : Shelf)

@[simp] theorem relocate_value : (shelf.relocate f).value = shelf.value := rfl

theorem relocate_pending : (shelf.relocate f).pending = shelf.pending.map (Pending.relocate f) := rfl

@[simp] theorem relocate_isEmpty : (shelf.relocate f).pending.isEmpty = shelf.pending.isEmpty :=
  isEmpty_map

@[simp] theorem relocate_top : (shelf.relocate f).top = shelf.top := by
  unfold Shelf.top
  rw [relocate_pending]
  cases shelf.pending with
  | nil => rfl
  | cons top rest => exact Pending.terminal_relocate f top

@[simp] theorem relocate_next (token : Token) :
    (shelf.relocate f).next (token.relocate f) = shelf.next token := rfl

theorem relocate_push (token : Token) (terminal : Terminal) :
    (shelf.push token terminal).relocate f = (shelf.relocate f).push (token.relocate f) terminal := by
  cases terminal <;> rfl

theorem relocate_close : shelf.close.relocate f = (shelf.relocate f).close := by
  rw [Shelf.close, Shelf.close, Shelf.relocate, Shelf.relocate, map_cons, map_tail]
  rfl

theorem settle_relocate (next : Terminal) (pending : List Pending) (value : Bool) :
    settle next (pending.map (Pending.relocate f)) value =
      (settle next pending value).map (List.map (Event.relocate f)) (Option.map (Shelf.relocate f)) := by
  induction pending generalizing value with
  | nil => rfl
  | cons top rest ih =>
    rw [map_cons, settle, settle, Pending.terminal_relocate, Pending.complete_relocate]
    split
    · cases top.complete value with
      | none => rfl
      | some events =>
        show (settle next (rest.map (Pending.relocate f)) true).map _ _ = _
        rw [ih]
        simp [Prod.map]
    · rfl

theorem move_relocate (next : Terminal) (token : Token) : (shelf.relocate f).move next (token.relocate f) =
    (shelf.move next token).map (List.map (Event.relocate f)) (Move.relocate f) := by
  have hplace (shelf : Shelf) : (shelf.relocate f).place next (token.relocate f) =
      (shelf.place next token).relocate f := by
    rw [place, place, relocate_isEmpty, relocate_value, relocate_top, ← relocate_push, ← relocate_close]
    split
    · split <;> rfl
    · split <;> rfl
  obtain ⟨hevents, hsettle⟩ := Prod.ext_iff.1 (settle_relocate f next shelf.pending shelf.value)
  refine Prod.ext hevents ?_
  rw [move_eq, Prod.map_snd, move_eq, relocate_pending, relocate_value, hsettle, Prod.map_snd]
  cases (settle next shelf.pending shelf.value).2 with
  | none => rfl
  | some out => exact hplace out

end Shelf

end Stacks

namespace Parse

variable {S : Comparison} {feed : Feed} {m : Nat}
variable {bound bound' : Nat}

/-! ### Expressions -/

theorem lockstep_forM_emit {events events' : List Event} (hspoken : ∀ event ∈ events, event.isSpoken)
    (h : events.map (Event.relocate S.left) = events'.map (Event.relocate S.right)) :
    Lockstep S feed m (events.forM emit) (events'.forM emit) fun n _ _ => n = m := by
  induction events generalizing events' with
  | nil =>
    obtain rfl := map_eq_nil_iff.1 h.symm
    exact lockstep_pure _ _ rfl
  | cons event events ih =>
    cases events' with
    | nil => cases h
    | cons event' events' =>
      obtain ⟨hevent, hrest⟩ := List.cons.inj h
      refine lockstep_emit_bind (hspoken event mem_cons_self) hevent ?_
      exact ih (fun e he => hspoken e (mem_cons_of_mem _ he)) hrest

theorem lockstep_step {shelf shelf' : Shelf} {proceed proceed' : Shelf → Parse Unit}
    (h : shelf.relocate S.left = shelf'.relocate S.right)
    (hproceed : ∀ n later later', n + 1 = m → later.relocate S.left = later'.relocate S.right →
      Lockstep S feed n (proceed later) (proceed' later') fun n' _ _ => n' ≤ n) :
    Lockstep S feed m (step shelf proceed) (step shelf' proceed') fun n _ _ => n ≤ m := by
  refine lockstep_current_bind fun token token' htoken heof => ?_
  have hnext : shelf'.next token' = shelf.next token := by
    rw [← Shelf.relocate_next S.right, ← h, ← htoken.relocate, Shelf.relocate_next]
  have houtcome := Shelf.move_relocate S.left shelf (shelf.next token) token
  rw [h, htoken.relocate, Shelf.move_relocate] at houtcome
  obtain ⟨hevents, hmove⟩ := Prod.ext_iff.1 houtcome
  simp only [hnext]
  refine (lockstep_forM_emit isSpoken_of_settle hevents.symm).bind ?_
  rintro n _ _ rfl
  rw [Prod.map_snd, Prod.map_snd] at hmove
  cases htaken : (shelf.move (shelf.next token) token).2 with
  | ended =>
    cases htaken' : (shelf'.move (shelf.next token) token').2 <;> rw [htaken, htaken'] at hmove <;>
      cases hmove
    exact lockstep_pure _ _ (Nat.le_refl _)
  | stuck fault =>
    cases htaken' : (shelf'.move (shelf.next token) token').2 <;> rw [htaken, htaken'] at hmove <;>
      cases hmove
    exact lockstep_failHere _
  | taken later =>
    cases htaken' : (shelf'.move (shelf.next token) token').2 with
    | ended => rw [htaken, htaken'] at hmove; cases hmove
    | stuck fault => rw [htaken, htaken'] at hmove; cases hmove
    | taken later' =>
      rw [htaken, htaken'] at hmove
      -- only the end of an expression stands at the end of the input
      have hn : 0 < n := by
        refine Nat.pos_of_ne_zero fun hzero => ?_
        have hstop : shelf.next token = .stop := by
          simp [Shelf.next, heof.2 hzero, Terminal.ofKind, TokenKind.isTerm]
        obtain ⟨out, -, ⟨hshift, -⟩ | ⟨hmatching, -⟩⟩ := Shelf.settle_of_taken htaken
        · exact Terminal.relation_ne_shift (.inr hstop) hshift
        · cases hstop.symm.trans (Terminal.eq_rightParen_of_matching hmatching)
      refine lockstep_advance_bind hn fun _ _ _ => ?_
      refine (hproceed _ _ _ (by omega) (Move.taken.inj hmove).symm).mono fun _ _ _ hle => ?_
      omega

theorem lockstep_expressionFrom {shelf shelf' : Shelf} (hbound : m ≤ bound)
    (hbound' : m ≤ bound') (h : shelf.relocate S.left = shelf'.relocate S.right) :
    Lockstep S feed m (expressionFrom bound shelf) (expressionFrom bound' shelf') fun n _ _ => n ≤ m := by
  induction bound generalizing bound' m shelf shelf' with
  | zero => cases bound' <;> exact lockstep_step h fun n _ _ hn => absurd hn (by omega)
  | succ bound ih =>
    cases bound' with
    | zero => exact lockstep_step h fun n _ _ hn => absurd hn (by omega)
    | succ bound' => exact lockstep_step h fun n _ _ hn hlater => ih (by omega) (by omega) hlater

theorem lockstep_expression (hbound : m ≤ bound) (hbound' : m ≤ bound') :
    Lockstep S feed m (expression bound) (expression bound') fun n _ _ => n ≤ m :=
  lockstep_expressionFrom hbound hbound' rfl

/-! ### Calls and right-hand sides -/

theorem pos_of_identifier? {token : Token} {name : String} (hname : token.identifier? = some name)
    (heof : token.kind = .eof ↔ m = 0) : 0 < m := by
  refine Nat.pos_of_ne_zero fun hzero => ?_
  rw [Token.identifier?, heof.2 hzero] at hname
  cases hname

theorem lockstep_callAhead? : Lockstep S feed m callAhead? callAhead? fun n a b => n = m ∧ a = b := by
  refine lockstep_current_bind fun token token' htoken heof => ?_
  rw [← htoken.identifier?]
  cases hname : token.identifier? with
  | none => exact lockstep_pure _ _ ⟨rfl, rfl⟩
  | some name =>
    refine (lockstep_peek (pos_of_identifier? hname heof)).bind ?_
    rintro n next next' ⟨rfl, hnext, -⟩
    rw [hnext.kind]
    split <;> exact lockstep_pure _ _ ⟨rfl, rfl⟩

theorem lockstep_argumentLabel :
    Lockstep S feed m argumentLabel argumentLabel fun n a b => n ≤ m ∧ a = b := by
  refine lockstep_current_bind fun token token' htoken heof => ?_
  rw [← htoken.identifier?]
  cases hname : token.identifier? with
  | none => exact lockstep_pure _ _ ⟨Nat.le_refl _, rfl⟩
  | some name =>
    refine (lockstep_peek (pos_of_identifier? hname heof)).bind ?_
    rintro n next next' ⟨rfl, hnext, hfurther⟩
    rw [← hnext.kind]
    split
    · -- the colon stands before the end of the input
      rename_i hcolon
      have hn : 1 < n := hfurther (by rw [eq_of_beq hcolon]; nofun)
      refine lockstep_advance_bind (by omega) fun _ _ _ => ?_
      refine lockstep_advance_bind (by omega) fun _ _ _ => lockstep_pure _ _ ⟨by omega, rfl⟩
    · exact lockstep_pure _ _ ⟨Nat.le_refl _, rfl⟩

theorem lockstep_argument (callee : String) :
    Lockstep S feed m (argument callee) (argument callee) fun n _ _ => n < m := by
  refine lockstep_current_bind fun token token' htoken _ => ?_
  refine lockstep_argumentLabel.bind ?_
  rintro n label _ ⟨hn, rfl⟩
  refine lockstep_current_bind fun term term' hterm heof => ?_
  rw [← hterm.kind]
  cases hkind : term.kind.isTerm with
  | false => exact lockstep_failHere _
  | true =>
    have hpos : 0 < n := by
      refine Nat.pos_of_ne_zero fun hzero => ?_
      rw [heof.2 hzero] at hkind
      cases hkind
    refine lockstep_advance_bind hpos fun term term' hterm => ?_
    refine (lockstep_emit rfl ?_).mono fun _ _ _ h => ?_
    · rw [Event.relocate, Event.relocate, hterm.relocate, htoken.location]
    · omega

theorem lockstep_call {purpose purpose' : CallUse} (hbound : m ≤ bound)
    (hbound' : m ≤ bound') (hpurpose : purpose.relocate S.left = purpose'.relocate S.right) :
    Lockstep S feed m (call bound purpose) (call bound' purpose') fun n _ _ => n < m := by
  refine (lockstep_identifier _).bind ?_
  rintro n ⟨callee, place⟩ ⟨_, place'⟩ ⟨hn, rfl, hplace⟩
  refine (lockstep_expect _).bind fun n' _ _ hn' => ?_
  refine (lockstep_parenthesized (by omega) (by omega) fun _ _ _ => lockstep_argument callee).bind ?_
  rintro n'' _ _ ⟨hn'', -⟩
  refine (lockstep_emit rfl ?_).mono fun _ _ _ h => ?_
  · rw [Event.relocate, Event.relocate, hpurpose, hplace]
  · omega

theorem lockstep_rightHandSide {receiver receiver' : Receiver} (hbound : m ≤ bound)
    (hbound' : m ≤ bound') (hreceiver : receiver.relocate S.left = receiver'.relocate S.right) :
    Lockstep S feed m (rightHandSide bound receiver) (rightHandSide bound' receiver')
      fun n a b => n ≤ m ∧ a = b := by
  refine lockstep_callAhead?.bind ?_
  rintro n callee _ ⟨rfl, rfl⟩
  cases callee with
  | some callee =>
    refine lockstep_emit_bind rfl (by rw [Event.relocate, Event.relocate, hreceiver]) ?_
    refine (lockstep_call hbound hbound' (by rw [CallUse.relocate, CallUse.relocate, hreceiver])).bind
      fun n' _ _ hn' => ?_
    exact lockstep_pure _ _ ⟨by omega, rfl⟩
  | none =>
    refine (lockstep_expression hbound hbound').bind fun n' _ _ hn' => ?_
    exact lockstep_pure _ _ ⟨hn', rfl⟩

theorem lockstep_optional {α β β' : Type} {kind : TokenKind} {p p' : Parse α} {absent : α} {g : α → Parse β}
    {g' : α → Parse β'} {B : Nat → β → β' → Prop} (hkind : kind ≠ .eof)
    (hp : ∀ n, n < m → Lockstep S feed n p p' fun n' a b => n' ≤ n ∧ a = b)
    (hg : ∀ n a, n ≤ m → Lockstep S feed n (g a) (g' a) B) :
    Lockstep S feed m (accept kind >>= fun found => if found then p >>= g else pure absent >>= g)
      (accept kind >>= fun found => if found then p' >>= g' else pure absent >>= g') B := by
  refine (lockstep_accept hkind).bind ?_
  rintro n found _ ⟨rfl, hn, hfound⟩
  cases found with
  | true =>
    refine (hp n (hfound rfl)).bind ?_
    rintro n' a _ ⟨hn', rfl⟩
    exact hg n' a (by omega)
  | false =>
    have habsent : Lockstep S feed n (pure absent) (pure absent) fun n' a b => n' = n ∧ a = b :=
      lockstep_pure _ _ ⟨rfl, rfl⟩
    refine habsent.bind ?_
    rintro _ a _ ⟨rfl, rfl⟩
    exact hg _ a hn

/-! ### Statements without blocks -/

section Simple

variable {bound bound' : Nat} (hbound : m ≤ bound) (hbound' : m ≤ bound')

include hbound hbound'

theorem lockstep_declaration (hm : 0 < m) :
    Lockstep S feed m (declaration bound) (declaration bound') fun n _ _ => n < m := by
  refine lockstep_advance_bind hm fun keyword keyword' hkeyword => ?_
  refine (lockstep_identifier _).bind ?_
  rintro n ⟨name, place⟩ ⟨name', place'⟩ ⟨hn, hname, hplace⟩
  obtain rfl : name = name' := hname
  refine lockstep_emit_bind rfl (by rw [Event.relocate, Event.relocate, hplace]) ?_
  refine lockstep_optional (by simp) (fun n' _ => ?_) fun n' stated hn' => ?_
  · refine lockstep_typeName.map ?_
    rintro _ ty _ ⟨hless, rfl⟩
    exact ⟨Nat.le_of_lt hless, rfl⟩
  refine lockstep_emit_bind rfl rfl ?_
  refine lockstep_optional (by simp) (fun n'' _ => ?_) fun n'' source hn'' => ?_
  · refine (lockstep_rightHandSide (by omega) (by omega) ?_).map ?_
    · rw [Receiver.relocate, Receiver.relocate, hplace]
    · rintro _ source _ ⟨hle, rfl⟩
      exact ⟨hle, rfl⟩
  refine (lockstep_emit rfl ?_).mono fun _ _ _ h => ?_
  · rw [Event.relocate, Event.relocate, hplace, hkeyword.kind]
  · omega

theorem lockstep_assignment :
    Lockstep S feed m (assignment bound) (assignment bound') fun n _ _ => n < m := by
  refine (lockstep_identifier _).bind ?_
  rintro n ⟨name, place⟩ ⟨name', place'⟩ ⟨hn, hname, hplace⟩
  obtain rfl : name = name' := hname
  refine (lockstep_expect _).bind fun n₁ _ _ hn₁ => ?_
  refine lockstep_emit_bind rfl (by rw [Event.relocate, Event.relocate, hplace]) ?_
  refine (lockstep_rightHandSide (by omega) (by omega) ?_).bind ?_
  · rw [Receiver.relocate, Receiver.relocate, hplace]
  rintro n₂ source _ ⟨hn₂, rfl⟩
  refine (lockstep_emit rfl ?_).mono fun _ _ _ h => ?_
  · rw [Event.relocate, Event.relocate, hplace]
  · omega

theorem lockstep_named (hm : 0 < m) : Lockstep S feed m (named bound) (named bound') fun n _ _ => n < m := by
  refine (lockstep_peek hm).bind ?_
  rintro n next next' ⟨rfl, hnext, -⟩
  rw [← hnext.kind]
  split
  · exact lockstep_assignment hbound hbound'
  · exact lockstep_call hbound hbound' rfl
  · exact lockstep_throw (S.here hnext.location)

theorem lockstep_returning (hm : 0 < m) :
    Lockstep S feed m (returning bound) (returning bound') fun n _ _ => n < m := by
  refine lockstep_advance_bind hm fun keyword keyword' hkeyword => ?_
  have hplace := hkeyword.location
  refine lockstep_current_bind fun token token' htoken _ => ?_
  rw [← htoken.kind, ← htoken.afterBreak]
  generalize (!(token.kind == .mark .rightBrace || token.kind == .eof || token.afterBreak)) = hasValue
  refine lockstep_emit_bind rfl (by rw [Event.relocate, Event.relocate, hplace]) ?_
  have hend : ∀ n, n < m → Lockstep S feed n (emit (.endReturn hasValue keyword.location))
      (emit (.endReturn hasValue keyword'.location)) fun n _ _ => n < m := by
    intro n hn
    refine (lockstep_emit rfl ?_).mono fun _ _ _ h => ?_
    · rw [Event.relocate, Event.relocate, hplace]
    · omega
  cases hasValue with
  | true => exact (lockstep_expression (by omega) (by omega)).bind fun n _ _ hn => hend n (by omega)
  | false => exact hend _ (by omega)

/-! ### Statements with blocks -/

theorem lockstep_condition : Lockstep S feed m (condition bound) (condition bound') fun n _ _ => n ≤ m := by
  refine (lockstep_accept (by simp)).bind ?_
  rintro n narrows _ ⟨rfl, hn, -⟩
  cases narrows with
  | true =>
    refine (lockstep_identifier _).bind ?_
    rintro n₁ ⟨name, place⟩ ⟨name', place'⟩ ⟨hn₁, hname, hplace⟩
    obtain rfl : name = name' := hname
    refine (lockstep_emit rfl ?_).mono fun _ _ _ h => ?_
    · rw [Event.relocate, Event.relocate, hplace]
    · omega
  | false =>
    refine lockstep_current_bind fun token token' htoken _ => ?_
    refine (lockstep_expression (by omega) (by omega)).bind fun n₁ _ _ hn₁ => ?_
    refine (lockstep_emit rfl ?_).mono fun _ _ _ h => ?_
    · rw [Event.relocate, Event.relocate, htoken.location]
    · omega

theorem lockstep_thenOpening (hm : 0 < m) :
    Lockstep S feed m (thenOpening bound) (thenOpening bound') fun n _ _ => n < m := by
  refine lockstep_advance_bind hm fun _ _ _ => ?_
  refine lockstep_emit_bind rfl rfl ?_
  refine (lockstep_condition (by omega) (by omega)).bind fun n _ _ hn => ?_
  exact (lockstep_expect _).mono fun _ _ _ h => by omega

theorem lockstep_loopOpening (hm : 0 < m) :
    Lockstep S feed m (loopOpening bound) (loopOpening bound') fun n _ _ => n < m := by
  refine lockstep_advance_bind hm fun _ _ _ => ?_
  refine lockstep_emit_bind rfl rfl ?_
  refine lockstep_current_bind fun token token' htoken _ => ?_
  refine (lockstep_expression (by omega) (by omega)).bind fun n _ _ hn => ?_
  refine lockstep_emit_bind rfl ?_ ?_
  · rw [Event.relocate, Event.relocate, htoken.location]
  · exact (lockstep_expect _).mono fun _ _ _ h => by omega

end Simple

theorem lockstep_elseOpening : Lockstep S feed m elseOpening elseOpening fun n a b => n < m ∧ a = b := by
  refine (lockstep_expect _).bind fun n _ _ hn => ?_
  refine lockstep_emit_bind rfl rfl ?_
  refine (lockstep_accept (by simp)).bind ?_
  rintro n₁ found _ ⟨rfl, hn₁, -⟩
  cases found with
  | true =>
    refine lockstep_emit_bind rfl rfl ?_
    exact (lockstep_expect _).bind fun n₂ _ _ hn₂ => lockstep_pure _ _ ⟨by omega, rfl⟩
  | false => exact lockstep_pure _ _ ⟨by omega, rfl⟩

theorem lockstep_parameterName (role : String) :
    Lockstep S feed m (parameterName role) (parameterName role) fun n a b => n < m ∧ a = b := by
  refine (lockstep_accept (by simp)).bind ?_
  rintro n found _ ⟨rfl, hn, hfound⟩
  cases found with
  | true => exact lockstep_pure _ _ ⟨hfound rfl, rfl⟩
  | false =>
    refine (lockstep_identifier _).bind ?_
    rintro n₁ ⟨name, place⟩ ⟨name', place'⟩ ⟨hn₁, hname, -⟩
    exact lockstep_pure _ _ ⟨by omega, congrArg some hname⟩

theorem lockstep_parameter (index : Nat) :
    Lockstep S feed m (parameter index) (parameter index) fun n _ _ => n < m := by
  refine lockstep_current_bind fun token token' htoken _ => ?_
  refine (lockstep_parameterName _).bind ?_
  rintro n₁ label _ ⟨hn₁, rfl⟩
  refine (lockstep_parameterName _).bind ?_
  rintro n₂ name _ ⟨hn₂, rfl⟩
  refine (lockstep_expect _).bind fun n₃ _ _ hn₃ => ?_
  refine lockstep_typeName.bind ?_
  rintro n₄ ty _ ⟨hn₄, rfl⟩
  refine (lockstep_emit rfl ?_).mono fun _ _ _ h => ?_
  · rw [Event.relocate, Event.relocate, htoken.location]
  · omega

theorem lockstep_functionOpening (hbound : m ≤ bound) (hbound' : m ≤ bound') (hm : 0 < m) :
    Lockstep S feed m (functionOpening bound) (functionOpening bound') fun n a b => n < m ∧ a = b := by
  refine lockstep_advance_bind hm fun _ _ _ => ?_
  refine (lockstep_identifier _).bind ?_
  rintro n₁ ⟨name, place⟩ ⟨name', place'⟩ ⟨hn₁, hname, hplace⟩
  obtain rfl : name = name' := hname
  refine lockstep_emit_bind rfl (by rw [Event.relocate, Event.relocate, hplace]) ?_
  refine (lockstep_expect _).bind fun n₂ _ _ hn₂ => ?_
  refine lockstep_emit_bind rfl rfl ?_
  refine (lockstep_parenthesized (by omega) (by omega) fun index _ _ => lockstep_parameter index).bind ?_
  rintro n₃ parameters _ ⟨hn₃, rfl⟩
  refine lockstep_optional (by simp) (fun n' _ => ?_) fun n₄ returns hn₄ => ?_
  · exact lockstep_typeName.mono fun _ _ _ h => ⟨Nat.le_of_lt h.1, h.2⟩
  refine lockstep_emit_bind rfl (by rw [Event.relocate, Event.relocate, hplace]) ?_
  exact (lockstep_expect _).bind fun n₅ _ _ hn₅ => lockstep_pure _ _ ⟨by omega, rfl⟩

section Blocks

variable {bound bound' : Nat} {body body' : Parse Unit} (hbound : m ≤ bound) (hbound' : m ≤ bound')
  (hbody : ∀ n, n < m → Lockstep S feed n body body' fun n' _ _ => n' ≤ n) (hm : 0 < m)

include hbound hbound' hbody hm

theorem lockstep_conditional :
    Lockstep S feed m (conditional bound body) (conditional bound' body') fun n _ _ => n < m := by
  refine (lockstep_thenOpening hbound hbound' hm).bind fun n₁ _ _ hn₁ => ?_
  refine (hbody n₁ hn₁).bind fun n₂ _ _ hn₂ => ?_
  refine lockstep_elseOpening.bind ?_
  rintro n₃ found _ ⟨hn₃, rfl⟩
  cases found with
  | true =>
    refine (hbody n₃ (by omega)).bind fun n₄ _ _ hn₄ => ?_
    refine (lockstep_expect _).bind fun n₅ _ _ hn₅ => ?_
    refine lockstep_emit_bind rfl rfl ?_
    exact (lockstep_emit rfl rfl).mono fun _ _ _ h => by omega
  | false => exact (lockstep_emit rfl rfl).mono fun _ _ _ h => by omega

theorem lockstep_loop : Lockstep S feed m (loop bound body) (loop bound' body') fun n _ _ => n < m := by
  refine (lockstep_loopOpening hbound hbound' hm).bind fun n₁ _ _ hn₁ => ?_
  refine (hbody n₁ hn₁).bind fun n₂ _ _ hn₂ => ?_
  refine (lockstep_expect _).bind fun n₃ _ _ hn₃ => ?_
  exact (lockstep_emit rfl rfl).mono fun _ _ _ h => by omega

theorem lockstep_function :
    Lockstep S feed m (function bound body) (function bound' body') fun n _ _ => n < m := by
  refine (lockstep_functionOpening hbound hbound' hm).bind ?_
  rintro n₁ name _ ⟨hn₁, rfl⟩
  refine (hbody n₁ hn₁).bind fun n₂ _ _ hn₂ => ?_
  refine (lockstep_expect _).bind fun n₃ _ _ hn₃ => ?_
  exact (lockstep_emit rfl rfl).mono fun _ _ _ h => by omega

end Blocks

/-! ### Sequences -/

theorem lockstep_statement {body body' : Parse Unit} (hbound : m ≤ bound) (hbound' : m ≤ bound')
    (hbody : ∀ n, n < m → Lockstep S feed n body body' fun n' _ _ => n' ≤ n) (topLevel : Bool) :
    Lockstep S feed m (statement bound topLevel body) (statement bound' topLevel body')
      fun n _ _ => n < m := by
  refine lockstep_current_bind fun token token' htoken heof => ?_
  rw [← htoken.kind]
  have hm : token.kind ≠ .eof → 0 < m := fun hkind => Nat.pos_of_ne_zero fun hzero => hkind (heof.2 hzero)
  split
  · rename_i hkind
    exact lockstep_declaration hbound hbound' (hm (by simp [hkind]))
  · rename_i hkind
    exact lockstep_declaration hbound hbound' (hm (by simp [hkind]))
  · rename_i hkind
    split
    · exact lockstep_function hbound hbound' hbody (hm (by simp [hkind]))
    · exact lockstep_failHere _
  · rename_i hkind
    exact lockstep_conditional hbound hbound' hbody (hm (by simp [hkind]))
  · rename_i hkind
    exact lockstep_loop hbound hbound' hbody (hm (by simp [hkind]))
  · rename_i hkind
    exact lockstep_returning hbound hbound' (hm (by simp [hkind]))
  · rename_i hkind
    exact lockstep_named hbound hbound' (hm (by simp [hkind]))
  · exact lockstep_failHere _

theorem lockstep_sequenceEnds :
    Lockstep S feed m sequenceEnds sequenceEnds fun n a b => n = m ∧ a = b ∧ (m = 0 → a = true) := by
  intro k k' hk
  have hkind := hk.current.kind
  have hends : sequenceEnds.run.run k' =
      (.ok (k.current.kind == .mark .rightBrace || k.current.kind == .eof), k') := by
    rw [hkind]
    rfl
  rw [hends]
  refine .ok ⟨rfl, rfl, fun hzero => ?_⟩ hk
  rw [hk.kind_eq_eof_iff.2 hzero]
  rfl

/-- **Sequences of statements**: the bounds do not matter once they exceed the number of tokens that are
left. -/
theorem lockstep_statements (hbound : m < bound) (hbound' : m < bound') (topLevel first : Bool) :
    Lockstep S feed m (statements bound topLevel first) (statements bound' topLevel first)
      fun n _ _ => n ≤ m := by
  induction bound generalizing bound' m topLevel first with
  | zero => omega
  | succ bound ih =>
    cases bound' with
    | zero => omega
    | succ bound' =>
      have hgo : Lockstep S feed m
          (do statement bound topLevel (statements bound false true)
              statements bound topLevel false)
          (do statement bound' topLevel (statements bound' false true)
              statements bound' topLevel false) fun n _ _ => n ≤ m := by
        refine (lockstep_statement (by omega) (by omega) (fun n hn => ?_) topLevel).bind fun n _ _ hn => ?_
        · exact ih (by omega) (by omega) false true
        · exact (ih (by omega) (by omega) topLevel false).mono fun _ _ _ h => by omega
      refine lockstep_sequenceEnds.bind ?_
      rintro n ends _ ⟨rfl, rfl, -⟩
      cases ends with
      | true => exact lockstep_pure _ _ (Nat.le_refl _)
      | false =>
        cases first with
        | true => exact hgo
        | false =>
          refine lockstep_current_bind fun token token' htoken _ => ?_
          rw [← htoken.afterBreak]
          cases token.afterBreak with
          | true => exact hgo
          | false => exact lockstep_failHere _

theorem lockstep_program (hbound : m < bound) (hbound' : m < bound') :
    Lockstep S feed m (program bound) (program bound') fun n _ _ => n = 0 := by
  refine (lockstep_statements hbound hbound' true true).bind fun n _ _ hn => ?_
  refine (lockstep_isAt .eof).bind ?_
  rintro n' ends _ ⟨rfl, rfl, hends⟩
  cases ends with
  | true => exact lockstep_pure _ _ ((hends rfl).1 rfl)
  | false => exact lockstep_failHere _

end Parse

/-! ### Transcripts -/

/-- The transcript with other places. -/
def Transcript.relocate (f : Location → Location) (transcript : Transcript) : Transcript :=
  { events := transcript.events.map (Event.relocate f)
    fault := transcript.fault.map (Diagnostic.relocate f) }

@[simp] theorem Transcript.relocate_id (transcript : Transcript) : transcript.relocate id = transcript := by
  have hevents : Event.relocate id = id := funext Event.relocate_id
  have hfault : Diagnostic.relocate id = id := funext Diagnostic.relocate_id
  rw [Transcript.relocate, hevents, hfault, map_id, Option.map_id, id]

/-- Two transcripts are alike. -/
structure Transcript.Alike (S : Comparison) (transcript transcript' : Transcript) : Prop where
  events : Forall₂ (Event.Alike S) transcript.events transcript'.events
  fault : Option.Rel S.fault transcript.fault transcript'.fault

theorem Transcript.Alike.relocate {f : Location → Location} {transcript transcript' : Transcript}
    (h : transcript.Alike (.upTo f) transcript') : transcript.relocate f = transcript'.relocate f := by
  have hevent : ∀ {event event' : Event}, event.Alike (.upTo f) event' → event.relocate f = event'.relocate f := by
    rintro _ _ (hd | hevent)
    · exact congrArg Event.refused hd
    · exact hevent
  have hevents : ∀ {events events' : List Event}, Forall₂ (Event.Alike (.upTo f)) events events' →
      events.map (Event.relocate f) = events'.map (Event.relocate f) := fun h => by
    induction h with
    | nil => rfl
    | cons hfirst _ ih => rw [map_cons, map_cons, hevent hfirst, ih]
  have hfault : ∀ {fault fault' : Option Diagnostic}, Option.Rel (Comparison.upTo f).fault fault fault' →
      fault.map (Diagnostic.relocate f) = fault'.map (Diagnostic.relocate f) := by
    rintro _ _ (hd | _)
    · exact congrArg some hd
    · rfl
  rw [Transcript.relocate, Transcript.relocate, hevents h.events, hfault h.fault]

namespace Feed

variable {S : Comparison} {n : Nat} {feed feed' : Feed}

theorem length_next_of_not_final (h : isFinal feed.next.1 = false) :
    feed.next.2.results.length + 1 = feed.results.length := by
  unfold Feed.next at h ⊢
  cases hresults : feed.results with
  | nil => rw [hresults] at h; cases h
  | cons result results => rfl

theorem Alike.le_length (h : Alike S n feed feed') : n ≤ feed.results.length ∧ n ≤ feed'.results.length := by
  induction h with
  | final => exact ⟨Nat.zero_le _, Nat.zero_le _⟩
  | @token n feed feed' hanswer hfinal _ ih =>
    have hlength := length_next_of_not_final hfinal
    have hlength' := length_next_of_not_final (hanswer.isFinal_eq.symm.trans hfinal)
    omega

theorem served_of_asked {events : List Event} (h : asked events = [feed.next.1])
    (hvisited : visited events <+: yielded events) : feed.Served events where
  answers := by
    rw [h]
    rfl
  inOrder := hvisited
  lookahead := by
    have hle : (yielded events).length ≤ (asked events).length := length_filterMap_le _ _
    rw [h, length_singleton] at hle
    omega
  last := by
    rw [h]
    simp

theorem serves_first (feed : Feed) : feed.Serves [.ofAnswer feed.next.1] := by
  have hnil : feed.Serves [] := by
    intro earlier hearlier
    obtain rfl := prefix_nil.1 hearlier
    exact ⟨rfl, prefix_refl _, Nat.zero_le _, by simp [asked]⟩
  refine hnil.concat (served_of_asked ?_ ?_)
  · simp [asked]
  · simp [visited]

end Feed

/-- Where a parser begins. -/
def Cursor.first (token : Token) (rest : Feed) : Cursor :=
  { current := token, feed := rest, events := [.start, .moved token, .read token] }

theorem Cursor.first_heeds {token : Token} (h : feed.next.1 = .ok token) :
    (Cursor.first token feed.next.2).Heeds feed := by
  have hread := feed.serves_first
  rw [h] at hread
  have hmoved : feed.Serves [.read token, .moved token] :=
    hread.concat (Feed.served_of_asked (by rw [h]; rfl) (prefix_refl [token]))
  have hserves : feed.Serves [.read token, .moved token, .start] :=
    hmoved.concat (Feed.served_of_asked (by rw [h]; rfl) (prefix_refl [token]))
  have hvisited : visited (first token feed.next.2).events.reverse ++
      (first token feed.next.2).ahead.toList = [token] := rfl
  refine ⟨hserves, rfl, (hserves _ (prefix_refl _)).answers, rfl, ⟨[], rfl⟩, ?_⟩
  rw [hvisited]
  simp

section alike

variable {S : Comparison} {n : Nat} {feed' : Feed} (h : feed.Alike S n feed')

include h

theorem Cursor.first_abreast {token token' : Token} (hnext : feed.next.1 = .ok token)
    (hnext' : feed'.next.1 = .ok token') :
    Abreast S feed n (Cursor.first token feed.next.2) (Cursor.first token' feed'.next.2) := by
  have hanswer := h.answer
  rw [hnext, hnext'] at hanswer
  obtain ⟨htoken⟩ := hanswer
  have hread := congrArg Event.read htoken.relocate
  have hmoved := congrArg Event.moved htoken.relocate
  refine ⟨htoken, rfl, ?_, .cons (.other rfl) (.cons (.other hmoved) (.cons (.other hread) .nil)),
    first_heeds hnext⟩
  cases h with
  | final _ hfinal =>
    rw [hnext] at hfinal
    exact .stop (by simpa [isFinal, first] using hfinal)
  | token _ hfinal hrest =>
    rw [hnext] at hfinal
    exact .more (by simpa [isFinal, first] using hfinal) hrest

/-- **Feeds that answer alike have transcripts alike**, and the discipline of asking is kept all the time;
a parser that does not fail has come to the end of the input. -/
theorem parse_alike : (parse feed).Alike S (parse feed') ∧ feed.Serves (parse feed).events ∧
      ((parse feed).fault = none → ∃ passed token, visited (parse feed).events = passed ++ [token] ∧
        token.kind = .eof ∧ yielded (parse feed).events = visited (parse feed).events) := by
  have hserves := feed.serves_first
  unfold parse
  rcases h.cases_answer with ⟨token, token', hnext, hnext', -⟩ | ⟨d, d', hnext, hnext', hd⟩
  · have hbounds := h.le_length
    have hrun := Parse.lockstep_program (Nat.lt_succ_of_le hbounds.1) (Nat.lt_succ_of_le hbounds.2) _ _
      (Cursor.first_abreast h hnext hnext')
    rw [← Prod.eta feed.next, ← Prod.eta feed'.next, hnext, hnext']
    unfold Cursor.first at hrun
    simp only
    generalize (Parse.program (feed.results.length + 1)).run.run _ = run at hrun ⊢
    generalize (Parse.program (feed'.results.length + 1)).run.run _ = run' at hrun ⊢
    cases hrun with
    | @ok _ _ _ k k' hzero hk =>
      refine ⟨⟨forall₂_reverse_iff.2 hk.events, .none⟩, hk.heeds.moments, fun _ => ?_⟩
      obtain ⟨passed, hpassed⟩ := hk.heeds.current
      have heof := hk.kind_eq_eof_iff.2 hzero
      refine ⟨passed, k.current, hpassed, heof, ?_⟩
      rw [hk.heeds.yielded_eq, hk.heeds.ahead_eq_none heof, Option.toList_none, append_nil]
    | error hd hevents hmoments => exact ⟨⟨forall₂_reverse_iff.2 hevents, .some hd⟩, hmoments, nofun⟩
  · rw [hnext] at hserves
    rw [← Prod.eta feed.next, ← Prod.eta feed'.next, hnext, hnext']
    exact ⟨⟨.cons (.refused hd) .nil, .some hd⟩, hserves, nofun⟩

end alike

end OnePass
