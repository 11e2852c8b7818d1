import OnePass.Proofs.Parsing.Language

/-!
# Expressions are reported as expression trees

An expression is read with a stack of pending terminals.  The events that have been reported so far
are those of a few complete expressions in a row; how many there are can be read off the stack, since
every pending terminal knows whether it holds a value.  When the stack is empty and a value stands on
top, there is exactly one.

Main results:

* `Parse.left_settle` — completing terminals keeps the count of the expressions;
* `Parse.spells_expression` — **an expression is reported as the events of an expression tree**.
-/

namespace OnePass

open List

namespace Pending

/-- Whether an operand is still to come after what waits on the stack. -/
def isOpen : Pending → Bool
  | .binary .. | .opened => true
  | _ => false

/-- Whether what waits on the stack holds a value: a left operand, or the content of parentheses. -/
def holds : Pending → Bool
  | .binary left _ _ => left
  | .unwrap left _ => left
  | .closed inner => inner
  | _ => false

theorem isOpen_of_shift {pending : Pending} {next : Terminal}
    (h : pending.terminal.relation next = .shift) : pending.isOpen := by
  cases pending <;> first | rfl | (cases next <;> cases h)

end Pending

namespace Terminal

attribute [local simp] relation

variable {top next : Terminal}

theorem relation_ne_reduce (h : next.startsOperand) : top.relation next ≠ .reduce := by
  cases next <;> first | (cases h; done) | (cases top <;> simp)

theorem relation_ne_shift (h : next = .rightParen ∨ next = .stop) : top.relation next ≠ .shift := by
  rcases h with rfl | rfl <;> cases top <;> simp

theorem eq_leftParen_of_matching (h : top.relation next = .matching) : top = .leftParen := by
  cases top <;> cases next <;> first | rfl | cases h | skip
  rw [relation, between] at h
  repeat' split at h
  all_goals cases h

theorem eq_rightParen_of_matching (h : top.relation next = .matching) : next = .rightParen := by
  rw [eq_leftParen_of_matching h] at h
  cases next <;> first | rfl | cases h

end Terminal

/-! ### What a token comes to -/

namespace Shelf

variable {shelf : Shelf} {next : Terminal} {token : Token}

theorem move_eq (shelf : Shelf) (next : Terminal) (token : Token) : (shelf.move next token).2 =
    (settle next shelf.pending shelf.value).2.elim (.stuck .malformedExpression) (·.place next token) := by
  rw [move]
  cases h : (settle next shelf.pending shelf.value).2 <;> simp [h]

theorem settle_of_ended (h : (shelf.move next token).2 = .ended) : next = .stop ∧
    ∃ out, (settle next shelf.pending shelf.value).2 = some out ∧ out.pending = [] ∧ out.value = true := by
  rw [move_eq] at h
  cases hsettle : (settle next shelf.pending shelf.value).2 with
  | none => rw [hsettle] at h; cases h
  | some out =>
    rw [hsettle, Option.elim_some, place] at h
    split at h
    · rename_i hend
      split at h
      · exact ⟨hend.2, out, rfl, List.isEmpty_iff.1 hend.1, ‹_›⟩
      · cases h
    · split at h <;> cases h

theorem settle_of_taken {later : Shelf} (h : (shelf.move next token).2 = .taken later) :
    ∃ out, (settle next shelf.pending shelf.value).2 = some out ∧
      (out.top.relation next = .shift ∧ later = out.push token next ∨
        out.top.relation next = .matching ∧ later = out.close) := by
  rw [move_eq] at h
  cases hsettle : (settle next shelf.pending shelf.value).2 with
  | none => rw [hsettle] at h; cases h
  | some out =>
    rw [hsettle, Option.elim_some, place] at h
    split at h
    · split at h <;> cases h
    · split at h
      · cases h
        exact ⟨out, rfl, .inl ⟨‹_›, rfl⟩⟩
      · cases h
        exact ⟨out, rfl, .inr ⟨‹_›, rfl⟩⟩
      · cases h

theorem kind_of_stuck {fault : TokenKind → Fault} (h : (shelf.move next token).2 = .stuck fault)
    (kind : TokenKind) : (fault kind).kind = .syntactic := by
  rw [move_eq] at h
  cases hsettle : (settle next shelf.pending shelf.value).2 with
  | none =>
    rw [hsettle] at h
    cases h
    rfl
  | some out =>
    rw [hsettle, Option.elim_some, place] at h
    split at h
    · split at h <;> cases h
      rfl
    · split at h <;> cases h
      rfl

end Shelf

namespace Parse

variable {V : Vocabulary}
variable {p : Pending} {value : Bool} {said : List Event} {count : Nat} {token : Token}
  {next : Terminal} {shelf : Shelf}

/-! ### Stacks and the expressions that they stand for -/

/-- How many values have been left by the events of a partial expression. -/
def depth (pending : List Pending) (value : Bool) : Nat :=
  pending.countP (·.holds) + value.toNat

/-- The stacks that can arise: below the topmost terminal, and below a value, operands are still to
come. -/
structure Stacked (V : Vocabulary) (pending : List Pending) (value : Bool) : Prop where
  below_value : value = true → ∀ p ∈ pending, p.isOpen
  below_top : ∀ p ∈ pending.tail, p.isOpen
  operand : ∀ token, .operand token ∈ pending → Phrase.Expr.Within V (.operand token)

theorem Stacked.tail {rest : List Pending} (h : Stacked V (p :: rest) value) (above : Bool) :
    Stacked V rest above where
  below_value _ := h.below_top
  below_top q hq := h.below_top q (mem_of_mem_tail hq)
  operand token hmem := h.operand token (mem_cons_of_mem _ hmem)

/-- The events said so far are those of as many expressions as a stack holds values.  The last one comes
first. -/
def Left (V : Vocabulary) (said : List Event) (count : Nat) : Prop :=
  ∃ exprs : List Phrase.Expr,
    (∀ e ∈ exprs, e.Within V) ∧ exprs.reverse.flatMap Phrase.Expr.events = said ∧ exprs.length = count

theorem left_nil : Left V [] 0 := ⟨[], by simp, rfl, rfl⟩

theorem Left.complete (h : Left V said count) :
    ∃ rest e, Phrase.Expr.Within V e ∧ said ++ rest = e.events := by
  obtain ⟨exprs, hwithin, rfl, -⟩ := h
  exact Phrase.exists_expr_events _ fun e he => hwithin e (mem_reverse.1 he)

theorem Left.single (h : Left V said 1) : ∃ e, Phrase.Expr.Within V e ∧ said = e.events := by
  obtain ⟨exprs, hwithin, rfl, hlength⟩ := h
  obtain ⟨e, rfl⟩ := length_eq_one_iff.1 hlength
  exact ⟨e, hwithin e mem_cons_self, by simp⟩

theorem Left.operand (h : Left V said count) (htoken : Phrase.Expr.Within V (.operand token)) :
    Left V (said ++ [.operand token]) (count + 1) := by
  obtain ⟨exprs, hwithin, rfl, rfl⟩ := h
  exact ⟨.operand token :: exprs, forall_mem_cons.2 ⟨htoken, hwithin⟩, by simp [Phrase.Expr.events], rfl⟩

theorem Left.unwrap (place : Location) (h : Left V said (count + 1)) :
    Left V (said ++ [.unwrap place]) (count + 1) := by
  obtain ⟨_ | ⟨e, exprs⟩, hwithin, rfl, hlength⟩ := h
  · cases hlength
  · exact ⟨.unwrap place e :: exprs, forall_mem_cons.2 (forall_mem_cons.1 hwithin :),
      by simp [Phrase.Expr.events], hlength⟩

theorem Left.binary (operator : Operator) (place : Location) (h : Left V said (count + 2)) :
    Left V (said ++ [.binary operator place]) (count + 1) := by
  obtain ⟨_ | ⟨right, _ | ⟨left, exprs⟩⟩, hwithin, rfl, hlength⟩ := h
  · cases hlength
  · cases hlength
  · simp only [forall_mem_cons] at hwithin
    obtain ⟨hright, hleft, hwithin⟩ := hwithin
    exact ⟨.binary operator place left right :: exprs, forall_mem_cons.2 ⟨⟨hleft, hright⟩, hwithin⟩,
      by simp [Phrase.Expr.events], Nat.succ.inj hlength⟩

/-! ### Completing what is on the stack -/

theorem depth_cons (p : Pending) (rest : List Pending) (value : Bool) :
    depth (p :: rest) value = p.holds.toNat + rest.countP (·.holds) + value.toNat := by
  rw [depth, countP_cons]
  cases p.holds <;> simp [Nat.add_comm]

theorem Left.completed {rest : List Pending} {events : List Event} (hstack : Stacked V (p :: rest) value)
    (h : Left V said (depth (p :: rest) value)) (hevents : p.complete value = some events) :
    Left V (said ++ events) (depth rest true) := by
  rw [depth_cons] at h
  -- above a complete operand there is no value
  have hvalue : p.isOpen = false → value = false := fun hopen => Bool.eq_false_iff.2 fun hvalue => by
    cases hopen.symm.trans (hstack.below_value hvalue p mem_cons_self)
  cases p with
  | opened => cases hevents
  | operand token =>
    cases hevents
    cases hvalue rfl
    exact Left.operand (by simpa [Pending.holds] using h) (hstack.operand token mem_cons_self)
  | binary left operator place =>
    obtain ⟨hboth, rfl⟩ := by simpa [Pending.complete] using hevents
    refine Left.binary operator place ?_
    rwa [Pending.holds, hboth.1, hboth.2, Nat.add_right_comm, Nat.add_comm _ (List.countP _ _)] at h
  | unwrap left place =>
    obtain ⟨rfl, rfl⟩ := by simpa [Pending.complete] using hevents
    cases hvalue rfl
    exact Left.unwrap place (by simpa [Pending.holds, Nat.add_comm] using h)
  | closed inner =>
    obtain ⟨rfl, rfl⟩ := by simpa [Pending.complete] using hevents
    cases hvalue rfl
    simpa [Pending.holds, depth, Nat.add_comm] using h

theorem isSpoken_of_complete {events : List Event} (h : p.complete value = some events) :
    ∀ event ∈ events, event.isSpoken := by
  cases p with
  | opened => cases h
  | operand token =>
    cases h
    exact forall_mem_singleton.2 rfl
  | binary | unwrap | closed =>
    obtain ⟨-, h⟩ := Option.ite_none_right_eq_some.1 h
    cases h
    simp [Event.isSpoken]

theorem isSpoken_of_settle : ∀ {pending : List Pending} {value : Bool},
    ∀ event ∈ (Shelf.settle next pending value).1, event.isSpoken := by
  intro pending
  induction pending with
  | nil => exact fun event h => by cases h
  | cons p rest ih =>
    intro value
    rw [Shelf.settle]
    split
    · split
      · exact forall_mem_append.2 ⟨isSpoken_of_complete ‹_›, ih⟩
      · exact fun event h => by cases h
    · exact fun event h => by cases h

theorem spells_forM_emit (events : List Event) (h : ∀ event ∈ events, event.isSpoken) :
    Spells V (events.forM emit) fun _ said => said = events := by
  induction events with
  | nil => exact spells_pure _ rfl
  | cons event later ih =>
    refine (spells_emit (h event mem_cons_self)).bind fun _ said hsaid => ?_
    subst hsaid
    refine (ih fun e he => h e (mem_cons_of_mem _ he)).mono ?_
    rintro _ _ rfl
    rfl

/-- **Completing terminals keeps the count.**  Where the next terminal starts an operand, nothing is
completed. -/
theorem left_settle (next : Terminal) : ∀ (pending : List Pending) (value : Bool) (before : List Event),
    Stacked V pending value → Left V before (depth pending value) →
      (∃ count, Left V (before ++ (Shelf.settle next pending value).1) count) ∧
      ∀ shelf, (Shelf.settle next pending value).2 = some shelf → Stacked V shelf.pending shelf.value ∧
          Left V (before ++ (Shelf.settle next pending value).1) (depth shelf.pending shelf.value) ∧
          (next.startsOperand → shelf.value = value) := by
  intro pending
  induction pending with
  | nil =>
    intro value before hstack hleft
    have hleft' : Left V (before ++ []) (depth [] value) := by rwa [append_nil]
    exact ⟨⟨_, hleft'⟩, fun shelf h => Option.some.inj h ▸ ⟨hstack, hleft', fun _ => rfl⟩⟩
  | cons p rest ih =>
    intro value before hstack hleft
    have hleft' : Left V (before ++ []) (depth (p :: rest) value) := by rwa [append_nil]
    rw [Shelf.settle]
    split
    · rename_i hreduce
      split
      · rename_i events hevents
        obtain ⟨hcount, hsettled⟩ :=
          ih true (before ++ events) (hstack.tail true) (hleft.completed hstack hevents)
        simp only [append_assoc] at hcount hsettled
        refine ⟨hcount, fun shelf h => ?_⟩
        obtain ⟨hstack', hdepth, -⟩ := hsettled shelf h
        exact ⟨hstack', hdepth, fun hstarts => absurd hreduce (Terminal.relation_ne_reduce hstarts)⟩
      · exact ⟨⟨_, hleft'⟩, fun shelf h => by cases h⟩
    · exact ⟨⟨_, hleft'⟩, fun shelf h => Option.some.inj h ▸ ⟨hstack, hleft', fun _ => rfl⟩⟩

/-! ### Reading on -/

theorem isTerm_of_next (h : shelf.next token = .operand) : token.kind.isTerm := by
  unfold Shelf.next at h
  simp only at h
  split at h
  · cases h
  · unfold Terminal.ofKind at h
    split at h
    · rename_i sign _
      cases sign <;> cases h
    · split at h
      · assumption
      · cases h

theorem stacked_push (hstack : Stacked V shelf.pending shelf.value)
    (hshift : shelf.top.relation next = .shift)
    (htoken : next = .operand → Phrase.Expr.Within V (.operand token))
    (hvalue : next.startsOperand → shelf.value = false) :
    Stacked V (shelf.push token next).pending (shelf.push token next).value ∧
      depth (shelf.push token next).pending (shelf.push token next).value =
        depth shelf.pending shelf.value := by
  have hopen : ∀ p ∈ shelf.pending, p.isOpen := by
    intro p hp
    cases hpending : shelf.pending with
    | nil => rw [hpending] at hp; cases hp
    | cons top rest =>
      rw [hpending] at hp
      rcases mem_cons.1 hp with rfl | hp
      · rw [Shelf.top, hpending] at hshift
        exact Pending.isOpen_of_shift hshift
      · exact hstack.below_top p (by rwa [hpending])
  have hnotOperand : ∀ t, Pending.operand t ∉ shelf.pending := fun t ht => by cases hopen _ ht
  have hkeep (p : Pending) (hp : ∀ t, p = .operand t → Phrase.Expr.Within V (.operand t)) :
      Stacked V (p :: shelf.pending) false := by
    refine ⟨fun h => (by cases h), hopen, ?_⟩
    intro t ht
    rcases mem_cons.1 ht with ht | ht
    · exact hp t ht.symm
    · exact absurd ht (hnotOperand t)
  have hsum (p : Pending) (hp : p.holds = shelf.value) :
      depth (p :: shelf.pending) false = depth shelf.pending shelf.value := by
    rw [depth_cons, depth, hp, Bool.toNat_false]
    omega
  cases next with
  | operator o => exact ⟨hkeep _ (fun t h => by cases h), hsum _ rfl⟩
  | unwrap => exact ⟨hkeep _ (fun t h => by cases h), hsum _ rfl⟩
  | operand =>
    refine ⟨hkeep _ fun t h => ?_, hsum _ (hvalue rfl).symm⟩
    cases h
    exact htoken rfl
  | leftParen => exact ⟨hkeep _ (fun t h => by cases h), hsum _ (hvalue rfl).symm⟩
  | rightParen => exact absurd hshift (Terminal.relation_ne_shift (Or.inl rfl))
  | stop => exact absurd hshift (Terminal.relation_ne_shift (Or.inr rfl))

theorem stacked_close (hstack : Stacked V shelf.pending shelf.value)
    (hmatch : shelf.top.relation next = .matching) :
    Stacked V shelf.close.pending shelf.close.value ∧
      depth shelf.close.pending shelf.close.value = depth shelf.pending shelf.value := by
  have htop := Terminal.eq_leftParen_of_matching hmatch
  cases hpending : shelf.pending with
  | nil => rw [Shelf.top, hpending] at htop; cases htop
  | cons p rest =>
    rw [Shelf.top, hpending] at htop
    have hp : p = .opened := by cases p <;> first | rfl | cases htop
    subst hp
    rw [hpending] at hstack
    have hclose : shelf.close.pending = .closed shelf.value :: rest := by
      rw [Shelf.close, hpending, tail_cons]
    rw [hclose]
    refine ⟨⟨fun h => (by cases h), hstack.below_top, ?_⟩, ?_⟩
    · intro t ht
      rcases mem_cons.1 ht with ht | ht
      · cases ht
      · exact hstack.operand t (mem_cons_of_mem _ ht)
    · rw [depth_cons, depth_cons]
      show shelf.value.toNat + _ + 0 = 0 + _ + shelf.value.toNat
      omega

/-- The words of the rest of an expression. -/
def Rest (V : Vocabulary) (before said : List Event) : Prop :=
  ∃ e, Phrase.Expr.Within V e ∧ before ++ said = e.events

theorem spells_step {proceed : Shelf → Parse Unit} {before : List Event} (hvalue : shelf.value = false)
    (hstack : Stacked V shelf.pending shelf.value)
    (hleft : Left V before (depth shelf.pending shelf.value))
    (hproceed : ∀ (later : Shelf) (said : List Event), later.value = false →
      Stacked V later.pending later.value → Left V said (depth later.pending later.value) →
      Spells V (proceed later) fun _ rest => Rest V said rest) :
    Spells V (step shelf proceed) fun _ said => Rest V before said := by
  refine spells_current.bind_silent fun token htoken => ?_
  obtain ⟨⟨count, hcount⟩, hsettled⟩ :=
    left_settle (shelf.next token) shelf.pending shelf.value before hstack hleft
  refine (spells_forM_emit _ isSpoken_of_settle).bind fun _ said hsaid => ?_
  cases hsaid
  cases hmove : (shelf.move (shelf.next token) token).2 with
  | ended =>
    obtain ⟨-, out, hout, hempty, hdone⟩ := Shelf.settle_of_ended hmove
    have hsingle := (hsettled out hout).2.1
    rw [hempty, hdone] at hsingle
    obtain ⟨e, hwithin, heq⟩ := hsingle.single
    exact spells_pure _ ⟨e, hwithin, by rwa [append_nil]⟩
  | taken later =>
    obtain ⟨out, hout, hlater⟩ := Shelf.settle_of_taken hmove
    obtain ⟨hstack', hleft', hstarts⟩ := hsettled out hout
    refine spells_advance.bind_silent fun _ _ => ?_
    have hnext : later.value = false ∧ Stacked V later.pending later.value ∧
        depth later.pending later.value = depth out.pending out.value := by
      rcases hlater with ⟨hshift, rfl⟩ | ⟨hmatch, rfl⟩
      · exact ⟨rfl, stacked_push hstack' hshift (fun h => ⟨htoken, isTerm_of_next h⟩)
          fun h => (hstarts h).trans hvalue⟩
      · exact ⟨rfl, stacked_close hstack' hmatch⟩
    refine (hproceed later _ hnext.1 hnext.2.1 (by rwa [hnext.2.2])).mono ?_
    rintro _ rest ⟨e, hwithin, heq⟩
    exact ⟨e, hwithin, by rwa [← append_assoc]⟩
  | stuck fault =>
    obtain ⟨rest, e, hwithin, heq⟩ := hcount.complete
    exact spells_failHere _ (Shelf.kind_of_stuck hmove) ⟨(), rest, e, hwithin, by rwa [← append_assoc]⟩

theorem spells_expressionFrom : ∀ (n : Nat) (shelf : Shelf) (before : List Event),
    shelf.value = false → Stacked V shelf.pending shelf.value →
      Left V before (depth shelf.pending shelf.value) →
      Spells V (expressionFrom n shelf) fun _ said => Rest V before said := by
  intro n
  induction n with
  | zero =>
    intro shelf before hvalue hstack hleft
    refine spells_step hvalue hstack hleft fun later said _ _ hlater => ?_
    obtain ⟨rest, e, hwithin, heq⟩ := hlater.complete
    exact spells_failHere _ (fun _ => rfl) ⟨(), rest, e, hwithin, heq⟩
  | succ n ih =>
    intro shelf before hvalue hstack hleft
    exact spells_step hvalue hstack hleft fun later said => ih later said

/-- **An expression is reported as the events of an expression tree.** -/
theorem spells_expression (bound : Nat) :
    Spells V (expression bound) fun _ said => ∃ e, Phrase.Expr.Within V e ∧ said = e.events := by
  have hempty : Stacked V [] false := ⟨by simp, by simp, by simp⟩
  exact spells_expressionFrom bound {} [] rfl hempty left_nil

end Parse

end OnePass
