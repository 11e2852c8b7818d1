import OnePass.Proofs.Parsing.Asking
import OnePass.Proofs.Relocation

/-!
# Two runs of a parser

Two feeds that answer alike, up to the first final answer, lead a parser through runs in lockstep: the events
are alike, and so are the results.  What is alike is up to the comparison: places are moved by a function for
each run, and the faults of the feeds are related as one likes.  The runs are compared together with the
discipline of asking, for it is why the rest of a feed does not matter.  A number counts the tokens that are
left; it bounds what loops of a parser can do, so the bounds that parsers are given do not matter either, as
long as they are large enough.

Main results:

* `Parse.Lockstep.bind` — **lockstep is composed like the parsers**;
* `Parse.lockstep_peek`, `Parse.lockstep_advance` — asking for a token, before the end of the input;
* `Parse.lockstep_parenthesized` — lists between parentheses.
-/

namespace OnePass

/-! ### Comparisons -/

/-- How two runs are compared: their places are moved, each by a function of its own, and their faults are
related.  Faults for the same reason at places that come together are related. -/
structure Comparison where
  left : Location → Location
  right : Location → Location
  fault : Diagnostic → Diagnostic → Prop
  here : ∀ {reason : Fault} {place place' : Location}, left place = right place' →
    fault ⟨reason, some place⟩ ⟨reason, some place'⟩

/-- Everything counts but what a function does to places. -/
def Comparison.upTo (f : Location → Location) : Comparison where
  left := f
  right := f
  fault d d' := d.relocate f = d'.relocate f
  here h := by rw [Diagnostic.relocate, Diagnostic.relocate, Option.map_some, Option.map_some, h]

/-- Two tokens differ in places only, which come together. -/
structure Token.Alike (S : Comparison) (token token' : Token) : Prop where
  kind : token.kind = token'.kind
  afterBreak : token.afterBreak = token'.afterBreak
  location : S.left token.location = S.right token'.location

/-- Two answers of feeds are alike. -/
inductive AnswersAlike (S : Comparison) : Except Diagnostic Token → Except Diagnostic Token → Prop where
  | token {token token' : Token} (h : token.Alike S token') : AnswersAlike S (.ok token) (.ok token')
  | fault {d d' : Diagnostic} (h : S.fault d d') : AnswersAlike S (.error d) (.error d')

/-- Two events are alike. -/
inductive Event.Alike (S : Comparison) : Event → Event → Prop where
  | refused {d d' : Diagnostic} (h : S.fault d d') : Alike S (.refused d) (.refused d')
  | other {event event' : Event} (h : event.relocate S.left = event'.relocate S.right) : Alike S event event'

variable {S : Comparison} {f : Location → Location}

section Token

variable {token token' : Token} (h : token.Alike S token')

include h

theorem Token.Alike.relocate : token.relocate S.left = token'.relocate S.right := by
  obtain ⟨hkind, hafter, hlocation⟩ := h
  rw [Token.relocate, Token.relocate, hlocation, hkind, hafter]

theorem Token.Alike.identifier? : token.identifier? = token'.identifier? := by
  rw [Token.identifier?, Token.identifier?, h.kind]

end Token

theorem AnswersAlike.isFinal_eq {answer answer' : Except Diagnostic Token} (h : AnswersAlike S answer answer') :
    isFinal answer = isFinal answer' := by
  cases h with
  | token h => rw [isFinal, isFinal, h.kind]
  | fault => rfl

theorem answersAlike_of_relocate {answer answer' : Except Diagnostic Token}
    (h : relocateAnswer f answer = relocateAnswer f answer') : AnswersAlike (.upTo f) answer answer' := by
  cases answer <;> cases answer' <;>
    simp only [relocateAnswer, Except.error.injEq, Except.ok.injEq, reduceCtorEq] at h
  · exact .fault h
  · obtain ⟨hkind, hlocation, hafter⟩ := Token.mk.inj h
    exact .token ⟨hkind, hafter, hlocation⟩

/-! ### Feeds and cursors that go abreast -/

/-- Two feeds answer alike until the first final answer. The number counts the answers before it. -/
inductive Feed.Alike (S : Comparison) : Nat → Feed → Feed → Prop where
  | final {feed feed' : Feed} (h : AnswersAlike S feed.next.1 feed'.next.1)
      (hfinal : isFinal feed.next.1 = true) : Alike S 0 feed feed'
  | token {n : Nat} {feed feed' : Feed} (h : AnswersAlike S feed.next.1 feed'.next.1)
      (hfinal : isFinal feed.next.1 = false) (hrest : Alike S n feed.next.2 feed'.next.2) :
      Alike S (n + 1) feed feed'

namespace Feed.Alike

variable {n : Nat} {feed feed' : Feed}

theorem answer (h : Alike S n feed feed') : AnswersAlike S feed.next.1 feed'.next.1 := by
  cases h with
  | final h => exact h
  | token h => exact h

theorem cases_answer (h : Alike S n feed feed') :
    (∃ token token', feed.next.1 = .ok token ∧ feed'.next.1 = .ok token' ∧ token.Alike S token') ∨
    ∃ d d', feed.next.1 = .error d ∧ feed'.next.1 = .error d' ∧ S.fault d d' := by
  have hanswer := h.answer
  generalize feed.next.1 = answer at hanswer ⊢
  generalize feed'.next.1 = answer' at hanswer ⊢
  cases hanswer with
  | token htoken => exact .inl ⟨_, _, rfl, rfl, htoken⟩
  | fault hd => exact .inr ⟨_, _, rfl, rfl, hd⟩

theorem of_next {other other' : Feed} (h : Alike S n feed feed') (hnext : other.next = feed.next)
    (hnext' : other'.next = feed'.next) : Alike S n other other' := by
  cases h with
  | final h hfinal => exact .final (by rwa [hnext, hnext']) (by rwa [hnext])
  | token h hfinal hrest => exact .token (by rwa [hnext, hnext']) (by rwa [hnext]) (by rwa [hnext, hnext'])

end Feed.Alike

namespace Cursor

/-- What is left to come to, the token ahead first. -/
def rest (k : Cursor) : Feed :=
  match k.ahead with
  | none => k.feed
  | some token => { k.feed with results := .ok token :: k.feed.results }

theorem rest_of_none {k : Cursor} (h : k.ahead = none) : k.rest = k.feed := by
  rw [rest, h]

theorem next_rest {k : Cursor} {token : Token} (h : k.ahead = some token) :
    k.rest.next = (.ok token, k.feed) := by
  rw [rest, h]
  rfl

/-- How many tokens are left, with the current one, before the end of the input or a fault. -/
inductive Remains (S : Comparison) : Nat → Cursor → Cursor → Prop where
  | stop {k k' : Cursor} (h : k.current.kind = .eof) : Remains S 0 k k'
  | more {n : Nat} {k k' : Cursor} (h : k.current.kind ≠ .eof) (hrest : k.rest.Alike S n k'.rest) :
      Remains S (n + 1) k k'

/-- Two cursors stand at alike tokens after alike events, and the first one has kept the discipline of
asking. -/
structure Abreast (S : Comparison) (feed : Feed) (m : Nat) (k k' : Cursor) : Prop where
  current : k.current.Alike S k'.current
  ahead : k.ahead.isSome = k'.ahead.isSome
  remains : Remains S m k k'
  events : List.Forall₂ (Event.Alike S) k.events k'.events
  heeds : k.Heeds feed

namespace Abreast

variable {feed : Feed} {m : Nat} {k k' : Cursor}

theorem kind_eq_eof_iff (h : Abreast S feed m k k') : k.current.kind = .eof ↔ m = 0 := by
  cases h.remains with
  | stop heof => exact ⟨fun _ => rfl, fun _ => heof⟩
  | more hkind => exact ⟨fun heof => absurd heof hkind, fun hm => absurd hm (Nat.succ_ne_zero _)⟩

theorem kind_ne_eof (h : Abreast S feed m k k') (hm : 0 < m) : k.current.kind ≠ .eof :=
  fun heof => Nat.ne_of_gt hm (h.kind_eq_eof_iff.1 heof)

theorem emit (h : Abreast S feed m k k') {event event' : Event} (hspoken : event.isSpoken)
    (hevent : event.relocate S.left = event'.relocate S.right) :
    Abreast S feed m { k with events := event :: k.events } { k' with events := event' :: k'.events } where
  current := h.current
  ahead := h.ahead
  remains := by
    cases h.remains with
    | stop heof => exact .stop heof
    | more hkind hrest => exact .more hkind hrest
  events := .cons (.other hevent) h.events
  heeds := h.heeds.emit hspoken

theorem look {token token' : Token} (h : Abreast S feed m k k') (hm : 0 < m) (hahead : k.ahead = none)
    (hahead' : k'.ahead = none) (hnext : k.feed.next.1 = .ok token) (hnext' : k'.feed.next.1 = .ok token')
    (htoken : token.Alike S token') :
    Abreast S feed m { k with ahead := some token, feed := k.feed.next.2, events := .read token :: k.events }
      { k' with ahead := some token', feed := k'.feed.next.2, events := .read token' :: k'.events } := by
  constructor
  · exact h.current
  · rfl
  · cases h.remains with
    | stop heof => exact absurd heof (h.kind_ne_eof hm)
    | more hkind hrest =>
      rw [rest_of_none hahead, rest_of_none hahead'] at hrest
      refine .more hkind (hrest.of_next ?_ ?_)
      · rw [next_rest rfl, ← hnext]
      · rw [next_rest rfl, ← hnext']
  · exact .cons (.other (congrArg Event.read htoken.relocate)) h.events
  · exact h.heeds.look (h.kind_ne_eof hm) hahead hnext

theorem move {token token' : Token} (h : Abreast S feed m k k') (hm : 0 < m) (hahead : k.ahead = some token)
    (hahead' : k'.ahead = some token') : token.Alike S token' ∧
    Abreast S feed (m - 1) { k with current := token, ahead := none, events := .moved token :: k.events }
      { k' with current := token', ahead := none, events := .moved token' :: k'.events } := by
  cases h.remains with
  | stop => exact absurd hm (Nat.lt_irrefl 0)
  | @more n _ _ hkind hrest =>
    have hanswer := hrest.answer
    rw [next_rest hahead, next_rest hahead'] at hanswer
    obtain ⟨htoken⟩ := hanswer
    refine ⟨htoken, htoken, rfl, ?_, .cons (.other (congrArg Event.moved htoken.relocate)) h.events,
      h.heeds.move hahead⟩
    cases hrest with
    | final _ hfinal =>
      rw [next_rest hahead] at hfinal
      exact .stop (by simpa [isFinal] using hfinal)
    | token _ hfinal hrest =>
      rw [next_rest hahead] at hfinal hrest
      rw [next_rest hahead'] at hrest
      exact .more (by simpa [isFinal] using hfinal) hrest

end Abreast

end Cursor

namespace Parse

/-! ### Lockstep -/

/-- Two runs end alike: with results that are related by `A`, which also says how many tokens are left, at
cursors that go abreast; or with related faults, after alike events that keep the discipline of asking. -/
inductive EndsAlike {α β : Type} (S : Comparison) (feed : Feed) (A : Nat → α → β → Prop) :
    Except Diagnostic α × Cursor → Except Diagnostic β × Cursor → Prop where
  | ok {n : Nat} {a : α} {b : β} {k k' : Cursor} (h : A n a b) (hk : Cursor.Abreast S feed n k k') :
      EndsAlike S feed A (.ok a, k) (.ok b, k')
  | error {d d' : Diagnostic} {k k' : Cursor} (h : S.fault d d')
      (hevents : List.Forall₂ (Event.Alike S) k.events k'.events)
      (hserves : feed.Serves k.events.reverse) : EndsAlike S feed A (.error d, k) (.error d', k')

/-- Two parsers that are run from cursors abreast end alike. -/
def Lockstep {α β : Type} (S : Comparison) (feed : Feed) (m : Nat) (p : Parse α) (p' : Parse β)
    (A : Nat → α → β → Prop) : Prop :=
  ∀ k k', Cursor.Abreast S feed m k k' → EndsAlike S feed A (p.run.run k) (p'.run.run k')

section Logic

variable {feed : Feed} {m : Nat} {α α' β β' : Type}
variable {p : Parse α} {p' : Parse α'} {A : Nat → α → α' → Prop} {B : Nat → β → β' → Prop}

theorem Lockstep.mono {B : Nat → α → α' → Prop} (hp : Lockstep S feed m p p' A)
    (h : ∀ n a b, A n a b → B n a b) : Lockstep S feed m p p' B := by
  intro k k' hk
  have hrun := hp k k' hk
  generalize p.run.run k = run at hrun ⊢
  generalize p'.run.run k' = run' at hrun ⊢
  cases hrun with
  | ok ha hnext => exact .ok (h _ _ _ ha) hnext
  | error hd hevents hserves => exact .error hd hevents hserves

theorem lockstep_pure (a : α) (b : α') (h : A m a b) : Lockstep S feed m (pure a) (pure b) A :=
  fun _ _ hk => .ok h hk

/-- **Lockstep is composed like the parsers.** -/
theorem Lockstep.bind {g : α → Parse β} {g' : α' → Parse β'} (hp : Lockstep S feed m p p' A)
    (hg : ∀ n a b, A n a b → Lockstep S feed n (g a) (g' b) B) :
    Lockstep S feed m (p >>= g) (p' >>= g') B := by
  intro k k' hk
  have hrun := hp k k' hk
  rw [run_bind, run_bind]
  generalize p.run.run k = run at hrun ⊢
  generalize p'.run.run k' = run' at hrun ⊢
  cases hrun with
  | ok ha hnext => exact hg _ _ _ ha _ _ hnext
  | error hd hevents hserves => exact .error hd hevents hserves

theorem Lockstep.map {g : α → β} {g' : α' → β'} (hp : Lockstep S feed m p p' A)
    (hg : ∀ n a b, A n a b → B n (g a) (g' b)) : Lockstep S feed m (g <$> p) (g' <$> p') B := by
  rw [map_eq_pure_bind, map_eq_pure_bind]
  exact hp.bind fun n a b ha => lockstep_pure _ _ (hg n a b ha)

theorem lockstep_throw {d d' : Diagnostic} (h : S.fault d d') :
    Lockstep S feed m (throw d) (throw d') A :=
  fun _ _ hk => .error h hk.events hk.heeds.moments

theorem lockstep_emit {event event' : Event} (hspoken : event.isSpoken)
    (hevent : event.relocate S.left = event'.relocate S.right) :
    Lockstep S feed m (emit event) (emit event') fun n _ _ => n = m :=
  fun _ _ hk => .ok rfl (hk.emit hspoken hevent)

theorem lockstep_emit_bind {event event' : Event} {g : Unit → Parse β} {g' : Unit → Parse β'}
    (hspoken : event.isSpoken) (hevent : event.relocate S.left = event'.relocate S.right)
    (hg : Lockstep S feed m (g ()) (g' ()) B) :
    Lockstep S feed m (emit event >>= g) (emit event' >>= g') B := by
  refine (lockstep_emit hspoken hevent).bind fun n _ _ hn => ?_
  rw [hn]
  exact hg

end Logic

/-! ### Moving over tokens -/

section Moves

variable {feed : Feed} {m : Nat}

theorem lockstep_current : Lockstep S feed m current current fun n a b =>
      n = m ∧ a.Alike S b ∧ (a.kind = .eof ↔ m = 0) :=
  fun _ _ hk => .ok ⟨rfl, hk.current, hk.kind_eq_eof_iff⟩ hk

theorem lockstep_current_bind {β β' : Type} {g : Token → Parse β} {g' : Token → Parse β'}
    {B : Nat → β → β' → Prop}
    (hg : ∀ a b, a.Alike S b → (a.kind = .eof ↔ m = 0) → Lockstep S feed m (g a) (g' b) B) :
    Lockstep S feed m (current >>= g) (current >>= g') B := by
  refine lockstep_current.bind ?_
  rintro _ a b ⟨rfl, hab, heof⟩
  exact hg a b hab heof

theorem lockstep_isAt (kind : TokenKind) : Lockstep S feed m (isAt kind) (isAt kind) fun n a b =>
      n = m ∧ a = b ∧ (a = true → (kind = .eof ↔ m = 0)) := by
  intro k k' hk
  refine .ok ⟨rfl, ?_, fun hkind => ?_⟩ hk
  · rw [hk.current.kind]
  · rw [← eq_of_beq hkind]
    exact hk.kind_eq_eof_iff

theorem lockstep_failHere {α α' : Type} {A : Nat → α → α' → Prop} (fault : TokenKind → Fault) :
    Lockstep S feed m (failHere fault) (failHere fault) A := by
  refine lockstep_current_bind fun a b hab _ => ?_
  rw [hab.kind]
  exact lockstep_throw (S.here hab.location)

theorem peek_abreast {k k' : Cursor} (hk : Cursor.Abreast S feed m k k') (hm : 0 < m) :
    (∃ token token' next next', peek.run.run k = (.ok token, next) ∧ peek.run.run k' = (.ok token', next') ∧
      next.ahead = some token ∧ next'.ahead = some token' ∧ Cursor.Abreast S feed m next next') ∨
    ∃ d d' next next', peek.run.run k = (.error d, next) ∧ peek.run.run k' = (.error d', next') ∧
      S.fault d d' ∧ List.Forall₂ (Event.Alike S) next.events next'.events ∧
      feed.Serves next.events.reverse := by
  have hsome := hk.ahead
  cases hahead : k.ahead with
  | some token =>
    cases hahead' : k'.ahead with
    | none => rw [hahead, hahead'] at hsome; cases hsome
    | some token' =>
      exact .inl ⟨token, token', k, k', peek_of_ahead hahead, peek_of_ahead hahead', hahead, hahead', hk⟩
  | none =>
    cases hahead' : k'.ahead with
    | some token' => rw [hahead, hahead'] at hsome; cases hsome
    | none =>
      cases hk.remains with
      | stop => exact absurd hm (Nat.lt_irrefl 0)
      | more hkind hrest =>
        rw [Cursor.rest_of_none hahead, Cursor.rest_of_none hahead'] at hrest
        rcases hrest.cases_answer with ⟨token, token', hnext, hnext', htoken⟩ | ⟨d, d', hnext, hnext', hd⟩
        · exact .inl ⟨token, token', _, _, peek_of_ok hahead hnext, peek_of_ok hahead' hnext', rfl, rfl,
            hk.look hm hahead hahead' hnext hnext' htoken⟩
        · have hserves := hk.heeds.serves hkind hahead
          rw [hnext] at hserves
          refine .inr ⟨d, d', _, _, peek_of_error hahead hnext, peek_of_error hahead' hnext', hd,
            .cons (.refused hd) hk.events, ?_⟩
          rw [List.reverse_cons]
          exact hserves

/-- **Looking ahead, before the end of the input.** -/
theorem lockstep_peek (hm : 0 < m) : Lockstep S feed m peek peek fun n a b =>
      n = m ∧ a.Alike S b ∧ (a.kind ≠ .eof → 1 < m) := by
  intro k k' hk
  rcases peek_abreast hk hm with ⟨token, token', next, next', hrun, hrun', hahead, hahead', hnext⟩ |
    ⟨d, d', next, next', hrun, hrun', hd, hevents, hserves⟩
  · rw [hrun, hrun']
    refine .ok ⟨rfl, (hnext.move hm hahead hahead').1, fun hkind => ?_⟩ hnext
    -- a token that is not final is followed by another one
    cases hnext.remains with
    | stop => exact absurd hm (Nat.lt_irrefl 0)
    | more _ hrest =>
      cases hrest with
      | final _ hfinal =>
        rw [Cursor.next_rest hahead] at hfinal
        exact absurd (by simpa [isFinal] using hfinal) hkind
      | token => omega
  · rw [hrun, hrun']
    exact .error hd hevents hserves

/-- **Moving on, before the end of the input.** -/
theorem lockstep_advance (hm : 0 < m) :
    Lockstep S feed m advance advance fun n a b => m = n + 1 ∧ a.Alike S b := by
  intro k k' hk
  rw [advance_run k, advance_run k', run_bind, run_bind]
  rcases peek_abreast hk hm with ⟨token, token', next, next', hrun, hrun', hahead, hahead', hnext⟩ |
    ⟨d, d', next, next', hrun, hrun', hd, hevents, hserves⟩
  · rw [hrun, hrun']
    dsimp only
    rw [advance_of_ahead hahead, advance_of_ahead hahead']
    exact .ok ⟨by omega, hnext.current⟩ (hnext.move hm hahead hahead').2
  · rw [hrun, hrun']
    exact .error hd hevents hserves

theorem lockstep_advance_bind {β β' : Type} {g : Token → Parse β} {g' : Token → Parse β'}
    {B : Nat → β → β' → Prop} (hm : 0 < m)
    (hg : ∀ a b, a.Alike S b → Lockstep S feed (m - 1) (g a) (g' b) B) :
    Lockstep S feed m (advance >>= g) (advance >>= g') B := by
  refine (lockstep_advance hm).bind ?_
  rintro n a b ⟨rfl, hab⟩
  exact hg a b hab

theorem lockstep_accept {kind : TokenKind} (hkind : kind ≠ .eof) :
    Lockstep S feed m (accept kind) (accept kind) fun n a b =>
      a = b ∧ n ≤ m ∧ (a = true → n < m) := by
  refine (lockstep_isAt kind).bind ?_
  rintro n found _ ⟨rfl, rfl, hfound⟩
  cases found with
  | true =>
    have hm : 0 < n := Nat.pos_of_ne_zero fun hzero => hkind ((hfound rfl).2 hzero)
    refine lockstep_advance_bind hm fun _ _ _ => lockstep_pure _ _ ⟨rfl, ?_, fun _ => ?_⟩ <;> omega
  | false => exact lockstep_pure _ _ ⟨rfl, Nat.le_refl _, nofun⟩

theorem lockstep_expect (sign : Mark) : Lockstep S feed m (expect sign) (expect sign) fun n _ _ => n < m := by
  refine (lockstep_accept (by simp)).bind ?_
  rintro n found _ ⟨rfl, -, hfound⟩
  cases found with
  | true => exact lockstep_pure _ _ (hfound rfl)
  | false => exact lockstep_failHere _

theorem lockstep_identifier (role : String) :
    Lockstep S feed m (identifier role) (identifier role) fun n a b =>
      n < m ∧ a.1 = b.1 ∧ S.left a.2 = S.right b.2 := by
  refine lockstep_current_bind fun a b hab heof => ?_
  rw [← hab.identifier?]
  cases hname : a.identifier? with
  | none => exact lockstep_failHere _
  | some name =>
    have hm : 0 < m := by
      refine Nat.pos_of_ne_zero fun hzero => ?_
      rw [Token.identifier?, heof.2 hzero] at hname
      cases hname
    refine lockstep_advance_bind hm fun _ _ _ => lockstep_pure _ _ ⟨by omega, rfl, ?_⟩
    exact hab.location

theorem lockstep_typeName : Lockstep S feed m typeName typeName fun n a b => n < m ∧ a = b := by
  refine lockstep_current_bind fun a b hab heof => ?_
  rw [← hab.kind]
  cases hkind : a.kind with
  | typeName ty =>
    have hm : 0 < m := by
      refine Nat.pos_of_ne_zero fun hzero => ?_
      rw [heof.2 hzero] at hkind
      cases hkind
    exact lockstep_advance_bind hm fun _ _ _ => lockstep_pure _ _ ⟨by omega, rfl⟩
  | _ => exact lockstep_failHere _

/-! ### Lists between parentheses -/

theorem lockstep_commaSeparated {item item' : Nat → Parse Unit}
    (hitem : ∀ index n, n ≤ m → Lockstep S feed n (item index) (item' index) fun n' _ _ => n' < n) :
    ∀ bound bound' index n, n ≤ m → n ≤ bound → n ≤ bound' →
      Lockstep S feed n (commaSeparated item bound index) (commaSeparated item' bound' index)
        fun n' a b => n' < n ∧ a = b := by
  intro bound
  induction bound with
  | zero =>
    intro bound' index n hn hbound _
    -- an item takes a token, and none is left
    cases bound' with
    | zero => exact (hitem index n hn).bind fun n' _ _ hn' => absurd hn' (by omega)
    | succ bound' => exact (hitem index n hn).bind fun n' _ _ hn' => absurd hn' (by omega)
  | succ bound ih =>
    intro bound' index n hn hbound hbound'
    cases bound' with
    | zero => exact (hitem index n hn).bind fun n' _ _ hn' => absurd hn' (by omega)
    | succ bound' =>
      refine (hitem index n hn).bind fun n' _ _ hn' => ?_
      refine (lockstep_accept (by simp)).bind ?_
      rintro n'' found _ ⟨rfl, hle, hfound⟩
      cases found with
      | true =>
        have hlt := hfound rfl
        refine (ih bound' (index + 1) n'' (by omega) (by omega) (by omega)).mono ?_
        rintro _ a _ ⟨hless, rfl⟩
        exact ⟨by omega, rfl⟩
      | false => exact lockstep_pure _ _ ⟨by omega, rfl⟩

theorem lockstep_parenthesized {item item' : Nat → Parse Unit} {bound bound' : Nat} (hbound : m ≤ bound)
    (hbound' : m ≤ bound')
    (hitem : ∀ index n, n ≤ m → Lockstep S feed n (item index) (item' index) fun n' _ _ => n' < n) :
    Lockstep S feed m (parenthesized bound item) (parenthesized bound' item') fun n a b => n < m ∧ a = b := by
  have hend : ∀ (n count : Nat), n ≤ m →
      Lockstep S feed n (do expect .rightParen; pure count) (do expect .rightParen; pure count)
        fun n' a b => n' < m ∧ a = b := by
    intro n count hn
    exact (lockstep_expect _).bind fun n' _ _ hn' => lockstep_pure _ _ ⟨by omega, rfl⟩
  refine (lockstep_isAt _).bind ?_
  rintro n found _ ⟨rfl, rfl, -⟩
  cases found with
  | true =>
    have hnone : Lockstep S feed n (pure 0) (pure 0) fun n' a b => n' = n ∧ a = b :=
      lockstep_pure _ _ ⟨rfl, rfl⟩
    refine hnone.bind ?_
    rintro _ count _ ⟨rfl, rfl⟩
    exact hend _ count (Nat.le_refl _)
  | false =>
    refine (lockstep_commaSeparated hitem bound bound' 0 n (Nat.le_refl _) hbound hbound').bind ?_
    rintro n' count _ ⟨hless, rfl⟩
    exact hend n' count (by omega)

end Moves

end Parse

end OnePass
