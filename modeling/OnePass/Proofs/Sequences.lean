import OnePass.Proofs.Restoration

/-!
# The sequences of a program

A parser comes to sequences of statements: the program itself, the blocks of conditionals and loops,
the bodies of functions, and the rest of each of them behind a statement.  Wherever it comes to one,
what has been read so far has left a tree of scopes and no loose ends, so that the next statement
restores the scopes.

Main results:

* `Parse.Comes.ready` — every sequence begins in such a context;
* `Parse.statement_restores` — **every statement restores the scopes**.
-/

namespace OnePass

namespace Parse

/-! ### Coming to a sequence -/

/-- A sequence goes on with a statement: it has not ended, and the statement is the first one or
stands on a new line. -/
structure Goes (first : Bool) (cursor : Cursor) : Prop where
  notBrace : cursor.current.kind ≠ .mark .rightBrace
  notEof : cursor.current.kind ≠ .eof
  broken : first ∨ cursor.current.afterBreak

/-- While a feed is parsed, the parser comes to a sequence of statements at a cursor. -/
inductive Comes (feed : Feed) : (bound : Nat) → (topLevel first : Bool) → Cursor → Prop where
  | program {token : Token} {rest : Feed} (h : feed.next = (.ok token, rest)) :
      Comes feed (feed.results.length + 1) true true
        { current := token, feed := rest, events := [.start, .moved token, .read token] }
  /-- behind a statement -/
  | rest {n : Nat} {topLevel first : Bool} {k k' : Cursor} (h : Comes feed (n + 1) topLevel first k)
      (hgoes : Goes first k)
      (hrun : (statement n topLevel (statements n false true)).run.run k = (.ok (), k')) :
      Comes feed n topLevel false k'
  | thenBlock {n : Nat} {topLevel first : Bool} {k k' : Cursor} (h : Comes feed (n + 1) topLevel first k)
      (hgoes : Goes first k) (hkind : k.current.kind = .keyword .ifWord)
      (hrun : (thenOpening n).run.run k = (.ok (), k')) : Comes feed n false true k'
  | elseBlock {n : Nat} {topLevel first : Bool} {k k' : Cursor} (h : Comes feed (n + 1) topLevel first k)
      (hgoes : Goes first k) (hkind : k.current.kind = .keyword .ifWord)
      (hrun : (do thenOpening n; statements n false true; elseOpening : Parse Bool).run.run k =
        (.ok true, k')) : Comes feed n false true k'
  | loopBlock {n : Nat} {topLevel first : Bool} {k k' : Cursor} (h : Comes feed (n + 1) topLevel first k)
      (hgoes : Goes first k) (hkind : k.current.kind = .keyword .whileWord)
      (hrun : (loopOpening n).run.run k = (.ok (), k')) : Comes feed n false true k'
  | functionBody {n : Nat} {first : Bool} {k k' : Cursor} {name : String}
      (h : Comes feed (n + 1) true first k) (hgoes : Goes first k)
      (hkind : k.current.kind = .keyword .funcWord)
      (hrun : (functionOpening n).run.run k = (.ok name, k')) : Comes feed n false true k'

end Parse

namespace Meaning

/-- A context in which a statement can begin; functions are defined in the global scope. -/
structure Poised (topLevel : Bool) (c : Context) : Prop where
  rests : Rests c
  formed : c.scopes.Formed
  global : topLevel → c.scopes.current = ScopeTree.root

variable {c : Context} {topLevel : Bool}

/-- A statement or the definition of a function restores the scopes and leaves a context in which the
next one can begin. -/
theorem tells_said {said : List Event} (h : Poised topLevel c)
    (hsaid : if topLevel then Parse.Itemized .all said else Parse.Stated .all said) :
    Tells false said c fun c' => Poised topLevel c' ∧ c.scopes.Restores c'.scopes := by
  cases topLevel with
  | true =>
    obtain ⟨items, -, rfl⟩ := hsaid
    refine (tells_items items h.rests (absurd · Bool.false_ne_true)).mono fun c' hturns => ?_
    have hglobal := h.global rfl
    have hfills := hturns.sheet
    refine ⟨⟨hturns.rests, Sheet.Reaches.formed (hfills.reaches hglobal) h.formed, ?_⟩,
      hfills.restores h.formed hglobal⟩
    exact fun _ => (hfills.keeps h.formed hglobal).2
  | false =>
    obtain ⟨s, -, rfl⟩ := hsaid
    refine (tells_statement s h.rests (absurd · Bool.false_ne_true)).mono fun c' hturns => ?_
    have hadds := hturns.sheet
    exact ⟨⟨hturns.rests, Sheet.Reaches.formed hadds.reaches h.formed, nofun⟩, hadds.restores h.formed⟩

end Meaning

namespace Parse

open Meaning

variable {feed : Feed} {n : Nat} {topLevel first : Bool} {k k' : Cursor}

theorem spells_body (n : Nat) : Spells .all (statements n false true) fun _ said => Stated .all said := by
  refine (spells_statements n false true).mono fun _ said hsaid => ?_
  simpa using hsaid

theorem spells_elseBlock (n : Nat) :
    Spells .all (do thenOpening n; statements n false true; elseOpening) fun found said =>
      ∃ (condition : Phrase.Condition) (body : Phrase.Statement), said =
        .beginIf :: (condition.events ++ (body.events ++
          .endThen :: if found then [.beginElse] else [])) := by
  refine (spells_thenOpening n).bind ?_
  rintro _ _ ⟨condition, -, rfl⟩
  refine (spells_body n).bind ?_
  rintro _ _ ⟨body, -, rfl⟩
  refine spells_elseOpening.mono ?_
  rintro found _ rfl
  exact ⟨condition, body, by cases found <;> simp⟩

theorem tells_run {α : Type} {p : Parse α} {L : α → List Event → Prop} {a : α} {inner : Bool}
    (hp : Spells .all p L) (hrun : p.run.run k = (.ok a, k'))
    (hbefore : Tells false (spoken k.events) .start (Poised topLevel))
    (hsaid : ∀ said, L a said → ∀ c, Poised topLevel c → Tells false said c (Poised inner)) :
    Tells false (spoken k'.events) .start (Poised inner) := by
  obtain ⟨new, hevents, hword⟩ := hp.of_run k.within_all hrun
  rw [hevents, spoken_append]
  exact tells_append (hbefore.mono fun c hc => hsaid _ hword c hc)

/-- **Every sequence begins in a context in which a statement can begin.** -/
theorem Comes.ready (h : Comes feed n topLevel first k) :
    Tells false (spoken k.events) .start (Poised topLevel) := by
  induction h with
  | program h =>
    refine tells_nil fun log => ?_
    exact ⟨rests_start.log log, ScopeTree.withBuiltins_formed, fun _ => ScopeTree.withBuiltins_current⟩
  | @rest n topLevel first k k' _ _ hrun ih =>
    refine tells_run (spells_statement (spells_body n) n topLevel) hrun ih fun said hsaid c hc => ?_
    exact (tells_said hc hsaid).mono fun _ => And.left
  | thenBlock _ _ _ hrun ih =>
    refine tells_run (spells_thenOpening _) hrun ih ?_
    rintro said ⟨condition, -, rfl⟩ c hc
    refine (tells_thenOpening condition hc.rests).mono ?_
    rintro c' ⟨narrowed, hwithin, -, hentered⟩
    exact ⟨hwithin.rests, Sheet.Reaches.formed hentered.reaches hc.formed, nofun⟩
  | elseBlock _ _ _ hrun ih =>
    refine tells_run (spells_elseBlock _) hrun ih ?_
    rintro said ⟨condition, body, rfl⟩ c hc
    refine tells_then condition (fun c hc => tells_statement body hc) hc.rests
      (absurd · Bool.false_ne_true) fun c₁ hc₁ => ?_
    refine tells_cons fun log => ?_
    obtain ⟨hrests, -, narrowed, w₁, w₂, hblocks, hentered, hadds, hsheet⟩ := hc₁.log log
    refine (meets_beginElse hrests hblocks).mono ?_
    rintro _ c₂ ⟨hwithin, -, hsheet₂⟩
    refine tells_nil fun log' => ⟨hwithin.rests.log log', ?_, nofun⟩
    have hreaches := (hentered.reaches.trans hadds.reaches).trans (hentered.switching hadds)
    rw [show (w₂.halfway c.sheet.scopes.size c.sheet.scopes.current narrowed) = c₁.sheet from hsheet.symm]
      at hreaches
    have hreached : c.sheet.Reaches c₂.sheet := hsheet₂ ▸ hreaches
    exact Sheet.Reaches.formed hreached hc.formed
  | loopBlock _ _ _ hrun ih =>
    refine tells_run (spells_loopOpening _) hrun ih ?_
    rintro said ⟨condition, place, -, rfl⟩ c hc
    refine (tells_loopOpening condition place hc.rests).mono ?_
    rintro c' ⟨hwithin, -, code, hcode, hsheet⟩
    have hreaches := c.sheet.reaches_loop hcode
    have hsheet' : c'.sheet = _ := hsheet
    exact ⟨hwithin.rests, Sheet.Reaches.formed (hsheet' ▸ hreaches) hc.formed, nofun⟩
  | functionBody _ _ _ hrun ih =>
    refine tells_run (spells_functionOpening _) hrun ih ?_
    rintro said ⟨f, -, -, -, -, rfl⟩ c hc
    refine (tells_functionOpening f hc.rests (absurd · Bool.false_ne_true)).mono fun c' hturns => ?_
    have hmove := Sheet.Moves.begin (hc.global rfl) hturns.sheet
    exact ⟨hturns.rests, (hmove.formed hc.formed).2, nofun⟩

/-- **Every statement restores the scopes.**  Wherever the parser comes to a statement while it reads a
feed, and however deep, a success leaves the current scope, restores all symbols, and declares in the
current scope and in new ones only. -/
theorem statement_restores {c c' : Context} (hcomes : Comes feed (n + 1) topLevel first k)
    (hbefore : (k.events.reverse.forM act).run.run .start = (.ok (), c))
    (hrun : (statement n topLevel (statements n false true)).run.run k = (.ok (), k'))
    (hafter : (k'.events.reverse.forM act).run.run .start = (.ok (), c')) :
    c.scopes.Restores c'.scopes := by
  have hready := (hcomes.ready _ rfl).of_run hbefore
  obtain ⟨new, hevents, hsaid⟩ := (spells_statement (spells_body n) n topLevel).of_run k.within_all hrun
  rw [hevents, List.reverse_append, List.forM_eq_forM, List.forM_append, run_bind, ← List.forM_eq_forM,
    hbefore] at hafter
  exact (Meets.of_run (tells_said hready hsaid new.reverse rfl) hafter).2

/-- A variable that is narrowed in a block, where another one of its name is declared and narrowed. -/
theorem statement_restores_shadowed : ∃ (n : Nat) (k k' : Cursor) (c c' : Context),
      Comes (.ofSource "var a: Int? = 1\nif let a \x7b\n var a: Int? = 2\n if let a \x7b\n  a = 3\n \x7d\n\x7d\n")
        (n + 1) true false k ∧
      (k.events.reverse.forM act).run.run .start = (.ok (), c) ∧
      (statement n true (statements n false true)).run.run k = (.ok (), k') ∧
      (k'.events.reverse.forM act).run.run .start = (.ok (), c') ∧
      c.scopes.Restores c'.scopes ∧
      (c.scopes.symbol? ScopeTree.root "a").map Symbol.ty = some (.optional .int) ∧
      (c'.scopes.symbol? ScopeTree.root "a").map Symbol.ty = some (.optional .int) := by
  let feed : Feed :=
    .ofSource "var a: Int? = 1\nif let a \x7b\n var a: Int? = 2\n if let a \x7b\n  a = 3\n \x7d\n\x7d\n"
  let token := (feed.next.1.toOption).getD default
  let start : Cursor :=
    { current := token, feed := feed.next.2, events := [.start, .moved token, .read token] }
  let k := ((statement 26 true (statements 26 false true)).run.run start).2
  let k' := ((statement 25 true (statements 25 false true)).run.run k).2
  let c := ((k.events.reverse.forM act).run.run .start).2
  let c' := ((k'.events.reverse.forM act).run.run .start).2
  have hlength : feed.results.length = 26 := by decide +kernel
  have hfeed : feed.next.1 = .ok token := by decide +kernel
  have hfirst : Comes feed 27 true true start := by
    have hprogram := Comes.program (run_eq_of_fst hfeed)
    rwa [hlength] at hprogram
  have hgoes : Goes true start := ⟨by decide +kernel, by decide +kernel, .inl rfl⟩
  have hrun : ((statement 26 true (statements 26 false true)).run.run start).1 = .ok () := by
    decide +kernel
  have hrun' : ((statement 25 true (statements 25 false true)).run.run k).1 = .ok () := by
    decide +kernel
  have hbefore : ((k.events.reverse.forM act).run.run .start).1 = .ok () := by decide +kernel
  have hafter : ((k'.events.reverse.forM act).run.run .start).1 = .ok () := by decide +kernel
  have hcomes : Comes feed 26 true false k := hfirst.rest hgoes (run_eq_of_fst hrun)
  have hrestores := statement_restores hcomes (run_eq_of_fst hbefore) (run_eq_of_fst hrun')
    (run_eq_of_fst hafter)
  exact ⟨25, k, k', c, c', hcomes, run_eq_of_fst hbefore, run_eq_of_fst hrun', run_eq_of_fst hafter,
    hrestores, by decide +kernel, by decide +kernel⟩

end Parse

end OnePass
