import OnePass.Proofs.Parsing.Expression

/-!
# Programs are reported as phrases

Statement by statement, what a parser reports is the list of events of a phrase.

Main results:

* `Parse.spells_statement`, `Parse.spells_statements` — a statement and a sequence in a block are
  reported as the events of a statement;
* `Parse.spells_program` — the top level is reported as the events of items;
* `parse_spells` — **a program is reported as the events of its items**, and a program with a fault
  in its tokens or its syntax as the beginning of such events.
-/

namespace OnePass

namespace Parse

variable {V : Vocabulary}
variable {said : List Event}

/-- The events of a statement of the vocabulary. -/
def Stated (V : Vocabulary) (said : List Event) : Prop :=
  ∃ s : Phrase.Statement, s.Within V ∧ said = s.events

/-! ### Calls and right-hand sides -/

theorem spells_argumentLabel : Spells V argumentLabel fun _ said => True ∧ said = [] := by
  refine spells_current.bind_silent fun token _ => ?_
  split
  · exact spells_pure _ ⟨trivial, rfl⟩
  · refine spells_peek.bind_silent fun next _ => ?_
    split
    · refine spells_advance.bind_silent fun _ _ => ?_
      exact spells_advance.bind_silent fun _ _ => spells_pure _ ⟨trivial, rfl⟩
    · exact spells_pure _ ⟨trivial, rfl⟩

theorem spells_term {k : Token → Parse Unit} {M : Unit → List Event → Prop} (fault : TokenKind → Fault)
    (hkind : ∀ kind, (fault kind).kind = .syntactic) (hword : ∃ a said, M a said)
    (hk : ∀ term, term.Within V → term.kind.isTerm → Spells V (k term) M) :
    Spells V (do
      unless (← current).kind.isTerm do failHere fault
      let term ← advance
      k term) M := by
  intro cursor hcursor
  refine spellsAt_get_bind ?_
  by_cases hterm : cursor.current.kind.isTerm = true
  · have hadvance : SpellsAt V (advance >>= k) M cursor := by
      refine (spellsAt_advance hcursor).bind_silent fun term hcurrent => ?_
      subst hcurrent
      exact hk _ hcursor.current hterm
    simpa only [hterm, if_true, pure_bind] using hadvance
  · obtain ⟨a, said, hsaid⟩ := hword
    simp only [hterm]
    exact ⟨[], hcursor, rfl, .inl (external_of_syntactic (hkind _)), a, said, hsaid⟩

theorem spells_argument (callee : String) : Spells V (argument callee) fun _ said =>
    ∃ arg : Phrase.Arg, arg.Within V ∧ said = [arg.event callee] := by
  refine spells_current.bind_silent fun first _ => ?_
  refine spells_argumentLabel.bind_silent fun label _ => ?_
  refine spells_term _ (fun _ => rfl) ?_ fun term hterm hkind => ?_
  · refine ⟨(), _, ⟨none, ⟨.intLiteral 0, .start, false⟩, .start⟩, ⟨⟨?_, ?_⟩, rfl⟩, rfl⟩ <;>
      intro _ h <;> cases h
  · refine (spells_emit rfl).mono ?_
    rintro _ _ rfl
    exact ⟨⟨label, term, first.location⟩, ⟨hterm, hkind⟩, rfl⟩

theorem exists_args {callee : String} {start count : Nat}
    (h : Listed (fun _ said => ∃ arg : Phrase.Arg, arg.Within V ∧ said = [arg.event callee])
      start count said) :
    ∃ args : List Phrase.Arg, (∀ arg ∈ args, arg.Within V) ∧ said = args.map (Phrase.Arg.event callee) := by
  induction h with
  | done index => exact ⟨[], by simp, rfl⟩
  | more hfirst _ ih =>
    obtain ⟨arg, hwithin, rfl⟩ := hfirst
    obtain ⟨args, hargs, rfl⟩ := ih
    exact ⟨arg :: args, by simpa using ⟨hwithin, hargs⟩, rfl⟩

/-- The words of a call of a function. -/
def CallWord (V : Vocabulary) (purpose : CallUse) (callee : String) (said : List Event) : Prop :=
  ∃ (place : Location) (args : List Phrase.Arg), (∀ arg ∈ args, arg.Within V) ∧
    said = args.map (Phrase.Arg.event callee) ++ [.call callee place purpose]

theorem spells_call_rest (bound : Nat) (purpose : CallUse) (callee : String) (place : Location) :
    Spells V (do
      expect .leftParen
      let _ ← parenthesized bound fun _ => argument callee
      emit (.call callee place purpose)) fun _ said => CallWord V purpose callee said := by
  refine (spells_expect _).bind_silent fun _ _ => ?_
  refine (spells_parenthesized (fun _ => spells_argument callee) bound).bind fun _ said hsaid => ?_
  obtain ⟨args, hargs, rfl⟩ := exists_args hsaid
  refine (spells_emit rfl).mono ?_
  rintro _ _ rfl
  exact ⟨place, args, hargs, rfl⟩

theorem spells_call (bound : Nat) (purpose : CallUse) : Spells V (call bound purpose) fun _ said =>
    ∃ callee, V.name callee ∧ CallWord V purpose callee said := by
  refine (spells_identifier _).bind_silent fun ⟨callee, place⟩ hcallee => ?_
  exact (spells_call_rest bound purpose callee place).mono fun _ said h => ⟨callee, hcallee, h⟩

theorem spellsAt_call {cursor : Cursor} {callee : String} (hcursor : cursor.Within V)
    (hcurrent : cursor.current.identifier? = some callee) (bound : Nat) (purpose : CallUse) :
    SpellsAt V (call bound purpose) (fun _ said => CallWord V purpose callee said) cursor := by
  refine (spellsAt_identifier hcursor hcurrent _).bind_silent fun ⟨name, place⟩ hname => ?_
  cases hname
  exact spells_call_rest bound purpose _ place

theorem run_current_bind {α : Type} (cursor : Cursor) (f : Token → Parse α) :
    (current >>= f).run.run cursor = (f cursor.current).run.run cursor := rfl

theorem callAhead_run {cursor next : Cursor} {found : Option String}
    (h : callAhead?.run.run cursor = (.ok found, next)) :
    next.current = cursor.current ∧ ∀ callee ∈ found, cursor.current.identifier? = some callee := by
  unfold callAhead? at h
  rw [run_current_bind] at h
  cases hname : cursor.current.identifier? with
  | none =>
    rw [hname] at h
    cases h
    exact ⟨rfl, by simp⟩
  | some name =>
    rw [hname] at h
    simp only at h
    rw [run_bind] at h
    have hcurrent := peek_current cursor
    rcases hrun : peek.run.run cursor with ⟨d | token, after⟩
    · rw [hrun] at h
      cases h
    · rw [hrun] at h hcurrent
      simp only at h hcurrent
      split at h <;> cases h
      · exact ⟨hcurrent, by simp⟩
      · exact ⟨hcurrent, by simp⟩

theorem spells_callAhead : Spells V callAhead? fun found said => (∀ callee ∈ found, V.name callee) ∧ said = [] := by
  refine spells_current.bind_silent fun token htoken => ?_
  split
  · exact spells_pure _ ⟨by simp, rfl⟩
  · rename_i name hname
    refine spells_peek.bind_silent fun next _ => ?_
    split
    · exact spells_pure _ ⟨by simpa using htoken.name hname, rfl⟩
    · exact spells_pure _ ⟨by simp, rfl⟩

theorem spells_rightHandSide (bound : Nat) (receiver : Receiver) :
    Spells V (rightHandSide bound receiver) fun source said =>
      ∃ side : Phrase.RightSide, side.Within V ∧ source = side.source ∧ said = side.events receiver := by
  intro cursor hcursor
  have hzero := Phrase.zero_within V
  refine (spells_callAhead cursor hcursor).bind_run ?_ ?_
  · rintro found said ⟨-, rfl⟩
    exact ⟨_, _, .expression Phrase.zero, hzero, rfl, rfl⟩
  · rintro found said next hrun hnext ⟨hname, rfl⟩
    obtain ⟨hcurrent, hfound⟩ := callAhead_run hrun
    cases found with
    | none =>
      refine ((spells_expression bound).bind fun _ said hsaid => ?_) next hnext
      obtain ⟨e, hwithin, rfl⟩ := hsaid
      exact spells_pure _ ⟨.expression e, hwithin, rfl, by simp [Phrase.RightSide.events]⟩
    | some callee =>
      refine (spells_emit rfl next hnext).bind_run ?_ ?_
      · rintro _ _ rfl
        refine ⟨_, _, .call callee .start [], ⟨hname callee rfl, by simp⟩, rfl, rfl⟩
      · rintro _ _ after hemit hafter rfl
        have hsame : after.current = cursor.current := by
          cases hemit
          exact hcurrent
        refine (spellsAt_call hafter (hsame ▸ hfound callee rfl) bound _).bind ?_
        rintro _ _ ⟨place, args, hargs, rfl⟩
        exact spells_pure _ ⟨.call callee place args, ⟨hname callee rfl, hargs⟩, rfl,
          by simp [Phrase.RightSide.events]⟩

/-! ### Statements without blocks -/

theorem spells_declaration (bound : Nat) : Spells V (declaration bound) fun _ said => Stated V said := by
  refine spells_advance.bind_silent fun keyword _ => ?_
  refine (spells_identifier _).bind_silent fun ⟨name, place⟩ hname => ?_
  refine (spells_emit rfl).bind fun _ _ hsaid => ?_
  subst hsaid
  -- what follows the type, whether one is stated or not
  have hrest : ∀ stated : Option Ty, (∀ ty ∈ stated, V.ty ty) →
      Spells V (do
        emit (.reserve name)
        let source ← if ← accept (.mark .assign) then
            some <$> rightHandSide bound (.declared name place stated)
          else pure none
        emit (.bind (keyword.kind == .keyword .varWord) name place stated source))
        fun _ rest => Stated V (.declareName name place :: rest) := by
    intro stated hstated
    refine (spells_emit rfl).bind fun _ _ hsaid => ?_
    subst hsaid
    refine (spells_accept _).bind_silent fun found _ => ?_
    split
    · refine ((spells_rightHandSide bound _).bind (M := fun (source : Option ValueSource) said =>
        ∃ side : Phrase.RightSide, side.Within V ∧ source = some side.source ∧
          said = side.events (.declared name place stated)) ?_).bind ?_
      · rintro _ _ ⟨side, hside, rfl, rfl⟩
        exact spells_pure _ ⟨side, hside, rfl, by simp⟩
      · rintro _ _ ⟨side, hside, rfl, rfl⟩
        refine (spells_emit rfl).mono ?_
        rintro _ _ rfl
        exact ⟨.declare _ name place stated (some side), ⟨hname, hstated, by simpa using hside⟩, rfl⟩
    · refine (spells_pure (V := V) none (L := fun source said => source = none ∧ said = [])
        ⟨rfl, rfl⟩).bind ?_
      rintro _ _ ⟨rfl, rfl⟩
      refine (spells_emit rfl).mono ?_
      rintro _ _ rfl
      exact ⟨.declare _ name place stated none, ⟨hname, hstated, by simp⟩, rfl⟩
  refine (spells_accept _).bind_silent fun found _ => ?_
  split
  · refine (spells_typeName.bind (M := fun (stated : Option Ty) said =>
      (∀ ty ∈ stated, V.ty ty) ∧ said = []) ?_).bind_silent hrest
    rintro ty _ ⟨hty, rfl⟩
    exact spells_pure _ ⟨by simpa using hty, rfl⟩
  · exact (spells_pure _ ⟨by simp, rfl⟩).bind_silent hrest

theorem spells_assignment (bound : Nat) : Spells V (assignment bound) fun _ said => Stated V said := by
  refine (spells_identifier _).bind_silent fun ⟨name, place⟩ hname => ?_
  refine (spells_expect _).bind_silent fun _ _ => ?_
  refine (spells_emit rfl).bind fun _ _ hsaid => ?_
  subst hsaid
  refine (spells_rightHandSide bound _).bind ?_
  rintro _ _ ⟨side, hside, rfl, rfl⟩
  refine (spells_emit rfl).mono ?_
  rintro _ _ rfl
  exact ⟨.assign name place side, ⟨hname, hside⟩, rfl⟩

theorem spells_named (bound : Nat) : Spells V (named bound) fun _ said => Stated V said := by
  refine spells_peek.bind_silent fun next _ => ?_
  split
  · exact spells_assignment bound
  · refine (spells_call bound .dropped).mono ?_
    rintro _ _ ⟨callee, hcallee, place, args, hargs, rfl⟩
    exact ⟨.call callee place args, ⟨hcallee, hargs⟩, rfl⟩
  · exact spells_throw _ (external_of_syntactic rfl) ⟨(), _, .skip, trivial, rfl⟩

theorem spells_returning (bound : Nat) : Spells V (returning bound) fun _ said => Stated V said := by
  refine spells_advance.bind_silent fun keyword _ => ?_
  refine spells_current.bind_silent fun token _ => ?_
  refine (spells_emit rfl).bind fun _ _ hsaid => ?_
  subst hsaid
  split
  · rename_i hvalue
    refine (spells_expression bound).bind ?_
    rintro _ _ ⟨e, he, rfl⟩
    refine (spells_emit rfl).mono ?_
    rintro _ _ rfl
    refine ⟨.giveBack keyword.location (some e), by simpa [Phrase.Statement.Within] using he, ?_⟩
    simp [Phrase.Statement.events, hvalue]
  · rename_i hvalue
    refine (spells_emit rfl).mono ?_
    rintro _ _ rfl
    refine ⟨.giveBack keyword.location none, by simp [Phrase.Statement.Within], ?_⟩
    simp [Phrase.Statement.events, Bool.eq_false_iff.2 hvalue]

/-! ### Statements with blocks -/

theorem spells_condition (bound : Nat) : Spells V (condition bound) fun _ said =>
    ∃ c : Phrase.Condition, c.Within V ∧ said = c.events := by
  refine (spells_accept _).bind_silent fun found _ => ?_
  split
  · refine (spells_identifier _).bind_silent fun ⟨name, place⟩ hname => ?_
    refine (spells_emit rfl).mono ?_
    rintro _ _ rfl
    exact ⟨.present name place, hname, rfl⟩
  · refine spells_current.bind_silent fun token _ => ?_
    refine (spells_expression bound).bind ?_
    rintro _ _ ⟨e, he, rfl⟩
    refine (spells_emit rfl).mono ?_
    rintro _ _ rfl
    exact ⟨.comparison e token.location, he, rfl⟩

theorem spells_thenOpening (bound : Nat) : Spells V (thenOpening bound) fun _ said =>
    ∃ c : Phrase.Condition, c.Within V ∧ said = .beginIf :: c.events := by
  refine spells_advance.bind_silent fun _ _ => ?_
  refine (spells_emit rfl).bind fun _ _ hsaid => ?_
  subst hsaid
  refine (spells_condition bound).bind ?_
  rintro _ _ ⟨c, hc, rfl⟩
  refine (spells_expect _).mono ?_
  rintro _ _ ⟨-, rfl⟩
  exact ⟨c, hc, by simp⟩

theorem spells_elseOpening : Spells V elseOpening fun found said =>
    said = if found then [.endThen, .beginElse] else [.endThen] := by
  refine (spells_expect _).bind_silent fun _ _ => ?_
  refine (spells_emit rfl).bind fun _ _ hsaid => ?_
  subst hsaid
  refine (spells_accept _).bind_silent fun found _ => ?_
  split
  · refine (spells_emit rfl).bind fun _ _ hsaid => ?_
    subst hsaid
    exact (spells_expect _).bind_silent fun _ _ => spells_pure _ rfl
  · exact spells_pure _ rfl

theorem spells_loopOpening (bound : Nat) : Spells V (loopOpening bound) fun _ said =>
    ∃ (e : Phrase.Expr) (place : Location), e.Within V ∧
      said = .beginWhile :: (e.events ++ [.whileCondition place]) := by
  refine spells_advance.bind_silent fun _ _ => ?_
  refine (spells_emit rfl).bind fun _ _ hsaid => ?_
  subst hsaid
  refine spells_current.bind_silent fun token _ => ?_
  refine (spells_expression bound).bind ?_
  rintro _ _ ⟨e, he, rfl⟩
  refine (spells_emit rfl).bind fun _ _ hsaid => ?_
  subst hsaid
  refine (spells_expect _).mono ?_
  rintro _ _ ⟨-, rfl⟩
  exact ⟨e, token.location, he, by simp⟩

section Blocks

variable {body : Parse Unit} (hbody : Spells V body fun _ said => Stated V said)

include hbody

theorem spells_conditional (bound : Nat) : Spells V (conditional bound body) fun _ said => Stated V said := by
  refine (spells_thenOpening bound).bind ?_
  rintro _ _ ⟨c, hc, rfl⟩
  refine hbody.bind ?_
  rintro _ _ ⟨s, hs, rfl⟩
  refine spells_elseOpening.bind fun found _ hsaid => ?_
  subst hsaid
  split
  · refine hbody.bind ?_
    rintro _ _ ⟨other, hother, rfl⟩
    refine (spells_expect _).bind_silent fun _ _ => ?_
    refine (spells_emit rfl).bind fun _ _ hsaid => ?_
    subst hsaid
    refine (spells_emit rfl).mono ?_
    rintro _ _ rfl
    exact ⟨.ifElse c s other, ⟨hc, hs, hother⟩, by simp [Phrase.Statement.events, *]⟩
  · refine (spells_emit rfl).mono ?_
    rintro _ _ rfl
    exact ⟨.ifThen c s, ⟨hc, hs⟩, by simp [Phrase.Statement.events, *]⟩

theorem spells_loop (bound : Nat) : Spells V (loop bound body) fun _ said => Stated V said := by
  refine (spells_loopOpening bound).bind ?_
  rintro _ _ ⟨e, place, he, rfl⟩
  refine hbody.bind ?_
  rintro _ _ ⟨s, hs, rfl⟩
  refine (spells_expect _).bind_silent fun _ _ => ?_
  refine (spells_emit rfl).mono ?_
  rintro _ _ rfl
  exact ⟨.loop e place s, ⟨he, hs⟩, by simp [Phrase.Statement.events]⟩

end Blocks

/-! ### Functions -/

theorem spells_parameterName (role : String) : Spells V (parameterName role) fun found said =>
    (∀ name ∈ found, V.name name) ∧ said = [] := by
  refine (spells_accept _).bind_silent fun found _ => ?_
  split
  · exact spells_pure _ ⟨by simp, rfl⟩
  · refine (spells_identifier _).bind_silent fun ⟨name, _⟩ hname => ?_
    exact spells_pure _ ⟨by simpa using hname, rfl⟩

theorem spells_parameter (index : Nat) : Spells V (parameter index) fun _ said =>
    ∃ p : Phrase.Param, p.Within V ∧ said = [p.event index] := by
  refine spells_current.bind_silent fun token _ => ?_
  refine (spells_parameterName _).bind_silent fun label _ => ?_
  refine (spells_parameterName _).bind_silent fun name hname => ?_
  refine (spells_expect _).bind_silent fun _ _ => ?_
  refine spells_typeName.bind_silent fun ty hty => ?_
  refine (spells_emit rfl).mono ?_
  rintro _ _ rfl
  exact ⟨⟨label, name, ty, token.location⟩, ⟨hname, hty⟩, rfl⟩

theorem exists_params {start count : Nat}
    (h : Listed (fun index said => ∃ p : Phrase.Param, p.Within V ∧ said = [p.event index])
      start count said) :
    ∃ params : List Phrase.Param, (∀ p ∈ params, p.Within V) ∧ count = start + params.length ∧
      said = Phrase.Param.eventsFrom start params := by
  induction h with
  | done index => exact ⟨[], by simp, rfl, rfl⟩
  | more hfirst _ ih =>
    obtain ⟨p, hwithin, rfl⟩ := hfirst
    obtain ⟨params, hparams, hcount, rfl⟩ := ih
    refine ⟨p :: params, by simpa using ⟨hwithin, hparams⟩, ?_, rfl⟩
    rw [hcount, List.length_cons]
    omega

theorem spells_functionOpening (bound : Nat) : Spells V (functionOpening bound) fun name said =>
    ∃ f : Phrase.Function, f.name = name ∧ V.name name ∧ (∀ p ∈ f.params, p.Within V) ∧
      (f.returns = .void ∨ V.ty f.returns) ∧ said = f.opening := by
  refine spells_advance.bind_silent fun _ _ => ?_
  refine (spells_identifier _).bind_silent fun ⟨name, place⟩ hname => ?_
  refine (spells_emit rfl).bind fun _ _ hsaid => ?_
  subst hsaid
  refine (spells_expect _).bind_silent fun _ _ => ?_
  refine (spells_emit rfl).bind fun _ _ hsaid => ?_
  subst hsaid
  refine (spells_parenthesized spells_parameter bound).bind fun count _ hsaid => ?_
  obtain ⟨params, hparams, rfl, rfl⟩ := exists_params hsaid
  -- what follows the parameters, whatever the result
  have hrest : ∀ returns : Ty, (returns = .void ∨ V.ty returns) → Spells V (do
      emit (.beginBody name place (0 + params.length) returns)
      expect .leftBrace
      pure name) fun name' rest => ∃ f : Phrase.Function, f.name = name' ∧ V.name name' ∧
        (∀ p ∈ f.params, p.Within V) ∧ (f.returns = .void ∨ V.ty f.returns) ∧
          [.functionName name place] ++ ([.beginParameters name] ++
            (Phrase.Param.eventsFrom 0 params ++ rest)) = f.opening := by
    intro returns hreturns
    refine (spells_emit rfl).bind fun _ _ hsaid => ?_
    subst hsaid
    refine (spells_expect _).bind_silent fun _ _ => spells_pure _ ?_
    exact ⟨⟨name, place, params, returns, .skip⟩, rfl, hname, hparams, hreturns, by
      simp [Phrase.Function.opening]⟩
  refine (spells_accept _).bind_silent fun found _ => ?_
  split
  · exact spells_typeName.bind_silent fun ty hty => hrest ty (Or.inr hty)
  · refine (spells_pure (V := V) Ty.void (L := fun ty said => ty = .void ∧ said = [])
      ⟨rfl, rfl⟩).bind_silent fun ty hty => hrest ty (Or.inl hty)

theorem spells_function {body : Parse Unit} (hbody : Spells V body fun _ said => Stated V said)
    (bound : Nat) : Spells V (function bound body) fun _ said =>
      ∃ f : Phrase.Function, f.Within V ∧ said = f.events := by
  refine (spells_functionOpening bound).bind ?_
  rintro _ _ ⟨f, rfl, hname, hparams, hreturns, rfl⟩
  refine hbody.bind ?_
  rintro _ _ ⟨s, hs, rfl⟩
  refine (spells_expect _).bind_silent fun _ _ => ?_
  refine (spells_emit rfl).mono ?_
  rintro _ _ rfl
  refine ⟨{ f with body := s }, ⟨hname, hparams, hreturns, hs⟩, ?_⟩
  simp [Phrase.Function.events_eq, Phrase.Function.opening]

/-! ### Sequences -/

/-- The events of an item of the vocabulary. -/
def Itemized (V : Vocabulary) (said : List Event) : Prop :=
  ∃ items : List Phrase.Item, (∀ item ∈ items, item.Within V) ∧ said = items.flatMap Phrase.Item.events

theorem Stated.itemized (h : Stated V said) : Itemized V said := by
  obtain ⟨s, hs, rfl⟩ := h
  exact ⟨[.statement s], by simpa [Phrase.Item.Within] using hs, by simp [Phrase.Item.events]⟩

theorem Itemized.append {first second : List Event} (hfirst : Itemized V first)
    (hsecond : Itemized V second) : Itemized V (first ++ second) := by
  obtain ⟨items, hitems, rfl⟩ := hfirst
  obtain ⟨more, hmore, rfl⟩ := hsecond
  refine ⟨items ++ more, ?_, by simp⟩
  intro item hitem
  rcases List.mem_append.1 hitem with hitem | hitem
  · exact hitems item hitem
  · exact hmore item hitem

theorem Stated.append {first second : List Event} (hfirst : Stated V first)
    (hsecond : Stated V second) : Stated V (first ++ second) := by
  obtain ⟨s, hs, rfl⟩ := hfirst
  obtain ⟨t, ht, rfl⟩ := hsecond
  exact ⟨.seq s t, ⟨hs, ht⟩, rfl⟩

theorem spells_statement {body : Parse Unit} (hbody : Spells V body fun _ said => Stated V said)
    (bound : Nat) (topLevel : Bool) : Spells V (statement bound topLevel body) fun _ said =>
      if topLevel then Itemized V said else Stated V said := by
  have hplain : ∀ {p : Parse Unit}, (Spells V p fun _ said => Stated V said) →
      Spells V p fun _ said => if topLevel then Itemized V said else Stated V said := by
    intro p hp
    refine hp.mono fun _ said hsaid => ?_
    split
    · exact hsaid.itemized
    · exact hsaid
  have hword : ∃ (a : Unit) (said : List Event),
      if topLevel then Itemized V said else Stated V said := by
    refine ⟨(), [], ?_⟩
    split
    · exact ⟨[], by simp, rfl⟩
    · exact ⟨.skip, trivial, rfl⟩
  refine spells_current.bind_silent fun token _ => ?_
  split
  · exact hplain (spells_declaration bound)
  · exact hplain (spells_declaration bound)
  · split
    · rename_i htop
      refine (spells_function hbody bound).mono ?_
      rintro _ _ ⟨f, hf, rfl⟩
      exact ⟨[.function f], by simpa [Phrase.Item.Within] using hf, by simp [Phrase.Item.events]⟩
    · rename_i htop
      refine spells_failHere _ (fun _ => rfl) ?_
      obtain ⟨a, said, h⟩ := hword
      exact ⟨a, said, by rwa [if_neg htop] at h⟩
  · exact hplain (spells_conditional hbody bound)
  · exact hplain (spells_loop hbody bound)
  · exact hplain (spells_returning bound)
  · exact hplain (spells_named bound)
  · exact spells_failHere _ (fun _ => rfl) hword

theorem spells_sequenceEnds : Spells V sequenceEnds fun _ said => True ∧ said = [] := by
  refine (spells_isAt _).bind_silent fun _ _ => ?_
  exact (spells_isAt _).bind_silent fun _ _ => spells_pure _ ⟨trivial, rfl⟩

/-- **A sequence of statements is reported as such.**  The number bounds the nesting and the length
of the sequence alike. -/
theorem spells_statements : ∀ (n : Nat) (topLevel first : Bool),
    Spells V (statements n topLevel first) fun _ said =>
      if topLevel then Itemized V said else Stated V said := by
  intro n
  induction n with
  | zero =>
    intro topLevel first
    refine spells_pure _ ?_
    split
    · exact ⟨[], by simp, rfl⟩
    · exact ⟨.skip, trivial, rfl⟩
  | succ n ih =>
    intro topLevel first
    -- a statement and the rest of the sequence
    have hgo : Spells V (do
        statement n topLevel (statements n false true)
        statements n topLevel false) fun _ said =>
          if topLevel then Itemized V said else Stated V said := by
      refine (spells_statement (ih false true) n topLevel).bind fun _ said hsaid => ?_
      refine (ih topLevel false).mono fun _ rest hrest => ?_
      cases topLevel with
      | true => exact Itemized.append hsaid hrest
      | false => exact Stated.append hsaid hrest
    refine spells_sequenceEnds.bind_silent fun ends _ => ?_
    split
    · refine spells_pure _ ?_
      split
      · exact ⟨[], by simp, rfl⟩
      · exact ⟨.skip, trivial, rfl⟩
    · refine spells_current.bind_silent fun token _ => ?_
      split
      · exact hgo
      · refine (spells_failHere (L := fun _ said => True ∧ said = []) _ (fun _ => rfl)
          ⟨(), [], trivial, rfl⟩).bind_silent fun _ _ => hgo

theorem spells_program (bound : Nat) : Spells V (program bound) fun _ said => Itemized V said := by
  refine (spells_statements bound true true).bind fun _ said hsaid => ?_
  refine (spells_isAt _).bind_silent fun found _ => ?_
  split
  · exact spells_pure _ (by rwa [List.append_nil])
  · exact spells_failHere _ (fun _ => rfl) ⟨(), [], by rwa [List.append_nil]⟩

end Parse

/-! ### The events of a program -/

/-- **A program is reported as the events of its items.**  Where its tokens or its syntax have a
fault, what has been reported can be continued to such events. -/
theorem parse_spells {V : Vocabulary} {feed : Feed} (hfeed : feed.Within V) :
    ∃ items : List Phrase.Item, ∃ rest, (∀ item ∈ items, item.Within V) ∧
        (parse feed).events.filter Event.isSpoken ++ rest = items.flatMap Phrase.Item.events ∧
        ((parse feed).fault = none → rest = []) ∧
        ∀ d, (parse feed).fault = some d → d.External ∨ V.fault d := by
  obtain ⟨hnext, htoken, hfault⟩ := hfeed.next
  unfold parse
  split
  · rename_i d _ heq
    refine ⟨[], [], by simp, rfl, fun h => (by cases h), ?_⟩
    intro d' hd'
    cases hd'
    exact Or.inr (hfault d (by rw [heq]))
  · rename_i token later heq
    rw [heq] at hnext
    have hcursor : Cursor.Within V
        { current := token, feed := later, events := [.start, .moved token, .read token] } :=
      ⟨htoken token (by rw [heq]), by simp, hnext⟩
    obtain ⟨new, -, hevents, hresult⟩ :=
      Parse.spells_program (V := V) (feed.results.length + 1) _ hcursor
    have hsaid : spoken ((Parse.program (feed.results.length + 1)).run.run
        { current := token, feed := later, events := [.start, .moved token, .read token] }).2.events =
          spoken new := by
      rw [hevents, spoken_append]
      rfl
    change List.filter Event.isSpoken _ = _ at hsaid
    rcases hrun : (Parse.program (feed.results.length + 1)).run.run
        { current := token, feed := later, events := [.start, .moved token, .read token] } with ⟨d | u, cursor⟩
    · rw [hrun] at hresult hsaid
      obtain ⟨hd, -, rest, items, hitems, hword⟩ := hresult
      refine ⟨items, rest, hitems, ?_, fun h => (by simp [hrun] at h), ?_⟩
      · simp only [hrun]
        rw [hsaid, hword]
      · intro d' hd'
        simp only [hrun, Option.some.injEq] at hd'
        exact hd' ▸ hd
    · rw [hrun] at hresult hsaid
      obtain ⟨items, hitems, hword⟩ := hresult
      refine ⟨items, [], hitems, ?_, fun _ => rfl, ?_⟩
      · simp only [hrun]
        rw [hsaid, hword, List.append_nil]
      · intro d hd
        simp [hrun] at hd

end OnePass
