import OnePass.Proofs.Phrase
import OnePass.Proofs.Run

/-!
# The languages of parsers

Every parser of the project spells a language of events: the events of a run that succeeds form a
word of the language, and those of a run that fails can be continued to a word.  Languages are
composed like the parsers, so that the language of a parser can be read off its text.

Main results:

* `Parse.SpellsAt.bind`, `Parse.Spells.bind` — **languages are composed like the parsers**;
* `Parse.spellsAt_advance`, `Parse.spells_identifier` and others — the parsers that move over tokens
  say nothing, and what they give belongs to the vocabulary;
* `Parse.spells_parenthesized` — a list between parentheses is spelled by its items.
-/

namespace OnePass

open List

/-! ### Reading within a vocabulary -/

/-- The answers of a feed belong to a vocabulary. -/
def Feed.Within (V : Vocabulary) (feed : Feed) : Prop :=
  (∀ token, .ok token ∈ feed.results → token.Within V) ∧
    ∀ diagnostic, .error diagnostic ∈ feed.results → V.fault diagnostic

/-- Everything that a cursor can still come to belongs to a vocabulary. -/
structure Cursor.Within (V : Vocabulary) (cursor : Cursor) : Prop where
  current : cursor.current.Within V
  ahead : ∀ token ∈ cursor.ahead, token.Within V
  feed : cursor.feed.Within V

/-- The vocabulary of everything. -/
def Vocabulary.all : Vocabulary where
  name := fun _ => True
  ty := fun _ => True
  fault := fun _ => True
  exists_name := ⟨"", trivial⟩
  exists_ty := ⟨.void, trivial⟩

theorem Token.within_all (token : Token) : token.Within .all :=
  ⟨fun _ _ => trivial, fun _ _ => trivial⟩

theorem Cursor.within_all (cursor : Cursor) : cursor.Within .all :=
  ⟨cursor.current.within_all, fun token _ => token.within_all,
    fun token _ => token.within_all, fun _ _ => trivial⟩

/-- The events about the program, in order, among events with the last one first. -/
def spoken (events : List Event) : List Event := events.reverse.filter Event.isSpoken

@[simp] theorem spoken_append (later earlier : List Event) :
    spoken (later ++ earlier) = spoken earlier ++ spoken later := by
  rw [spoken, reverse_append, filter_append, spoken, spoken]

theorem eof_within (V : Vocabulary) (place : Location) (afterBreak : Bool) :
    Token.Within V ⟨.eof, place, afterBreak⟩ := by
  constructor <;> intro _ h <;> cases h

theorem Feed.Within.next {V : Vocabulary} {feed : Feed} (h : feed.Within V) :
    feed.next.2.Within V ∧ (∀ token, feed.next.1 = .ok token → token.Within V) ∧
      ∀ diagnostic, feed.next.1 = .error diagnostic → V.fault diagnostic := by
  unfold Feed.next
  split
  · refine ⟨h, ?_, ?_⟩
    · intro token heq
      cases heq
      exact eof_within V _ _
    · intro diagnostic heq
      cases heq
  · rename_i result results heq
    refine ⟨⟨?_, ?_⟩, ?_, ?_⟩
    · intro token hmem
      exact h.1 token (heq ▸ mem_cons_of_mem _ hmem)
    · intro diagnostic hmem
      exact h.2 diagnostic (heq ▸ mem_cons_of_mem _ hmem)
    · intro token hok
      exact h.1 token (heq ▸ hok ▸ mem_cons_self)
    · intro diagnostic herror
      exact h.2 diagnostic (heq ▸ herror ▸ mem_cons_self)

namespace Parse

/-! ### Languages of parsers -/

/-- A parser spells a language `L` of results and events from a cursor on: a run that succeeds
reports a word of it, and a run that fails reports the beginning of a word.  It fails with an external
fault or with one of the vocabulary. -/
def SpellsAt {α : Type} (V : Vocabulary) (p : Parse α) (L : α → List Event → Prop)
    (cursor : Cursor) : Prop :=
  ∃ new, (p.run.run cursor).2.Within V ∧ (p.run.run cursor).2.events = new ++ cursor.events ∧
    match (p.run.run cursor).1 with
    | .ok a => L a (spoken new)
    | .error d => (d.External ∨ V.fault d) ∧ ∃ a rest, L a (spoken new ++ rest)

/-- A parser spells a language from every cursor on. -/
def Spells {α : Type} (V : Vocabulary) (p : Parse α) (L : α → List Event → Prop) : Prop :=
  ∀ cursor : Cursor, cursor.Within V → SpellsAt V p L cursor

section Logic

variable {V : Vocabulary} {α β : Type} {cursor : Cursor}
variable {p : Parse α} {L : α → List Event → Prop} {f : α → Parse β} {M : β → List Event → Prop}

theorem SpellsAt.mono {M : α → List Event → Prop} (hp : SpellsAt V p L cursor)
    (h : ∀ a said, L a said → M a said) : SpellsAt V p M cursor := by
  obtain ⟨new, hwithin, hevents, hresult⟩ := hp
  refine ⟨new, hwithin, hevents, ?_⟩
  cases hrun : (p.run.run cursor).1 with
  | ok a =>
    rw [hrun] at hresult
    exact h a _ hresult
  | error d =>
    rw [hrun] at hresult
    obtain ⟨hd, a, rest, hword⟩ := hresult
    exact ⟨hd, a, rest, h a _ hword⟩

theorem Spells.mono {M : α → List Event → Prop} (hp : Spells V p L) (h : ∀ a said, L a said → M a said) :
    Spells V p M :=
  fun cursor hcursor => (hp cursor hcursor).mono h

theorem SpellsAt.exists_word (hp : SpellsAt V p L cursor) : ∃ a said, L a said := by
  obtain ⟨new, -, -, hresult⟩ := hp
  cases hrun : (p.run.run cursor).1 with
  | ok a => exact ⟨a, spoken new, by rwa [hrun] at hresult⟩
  | error d =>
    rw [hrun] at hresult
    obtain ⟨-, a, rest, hword⟩ := hresult
    exact ⟨a, _, hword⟩

theorem Spells.of_run (hp : Spells V p L) {next : Cursor} {a : α} (hcursor : cursor.Within V)
    (hrun : p.run.run cursor = (.ok a, next)) :
    ∃ new, next.events = new ++ cursor.events ∧ L a (spoken new) := by
  obtain ⟨new, -, hevents, hresult⟩ := hp cursor hcursor
  rw [hrun] at hevents hresult
  exact ⟨new, hevents, hresult⟩

theorem spells_pure (a : α) (h : L a []) : Spells V (pure a) L := by
  intro cursor hcursor
  exact ⟨[], hcursor, rfl, h⟩

/-- **Languages are composed like the parsers.**  What the first parser has said goes in front of
what the second one says, which starts where the first one has stopped. -/
theorem SpellsAt.bind_run (hp : SpellsAt V p L cursor)
    (hword : ∀ a said, L a said → ∃ b rest, M b (said ++ rest))
    (hf : ∀ a said next, p.run.run cursor = (.ok a, next) → next.Within V → L a said →
      SpellsAt V (f a) (fun b rest => M b (said ++ rest)) next) : SpellsAt V (p >>= f) M cursor := by
  obtain ⟨new, hwithin, hevents, hresult⟩ := hp
  unfold SpellsAt
  rw [run_bind]
  rcases hrun : p.run.run cursor with ⟨d | a, next⟩
  · rw [hrun] at hwithin hevents hresult
    obtain ⟨hd, a, rest, hfirst⟩ := hresult
    refine ⟨new, hwithin, hevents, hd, ?_⟩
    -- the first parser's word can be continued by a word of the second one
    obtain ⟨b, later, hb⟩ := hword a _ hfirst
    exact ⟨b, rest ++ later, by rwa [← append_assoc]⟩
  · rw [hrun] at hwithin hevents hresult
    obtain ⟨more, hwithin', hevents', hresult'⟩ := hf a (spoken new) next hrun hwithin hresult
    refine ⟨more ++ new, hwithin', ?_, ?_⟩
    · rw [hevents', hevents, append_assoc]
    · rw [spoken_append]
      show match ((f a).run.run next).1 with
        | .ok b => M b (spoken new ++ spoken more)
        | .error d => (d.External ∨ V.fault d) ∧
            ∃ b rest, M b (spoken new ++ spoken more ++ rest)
      cases hrun' : ((f a).run.run next).1 with
      | ok b =>
        rw [hrun'] at hresult'
        exact hresult'
      | error d =>
        rw [hrun'] at hresult'
        obtain ⟨hd, b, rest, hlater⟩ := hresult'
        exact ⟨hd, b, rest, by rwa [append_assoc]⟩

theorem SpellsAt.bind (hp : SpellsAt V p L cursor)
    (hf : ∀ a said, L a said → Spells V (f a) fun b rest => M b (said ++ rest)) :
    SpellsAt V (p >>= f) M cursor := by
  have hstop : (p.run.run cursor).2.Within V := hp.elim fun _ h => h.1
  refine hp.bind_run ?_ ?_
  · intro a said hfirst
    exact (hf a said hfirst _ hstop).exists_word
  · intro a said next _ hnext hfirst
    exact hf a said hfirst next hnext

theorem Spells.bind (hp : Spells V p L)
    (hf : ∀ a said, L a said → Spells V (f a) fun b rest => M b (said ++ rest)) : Spells V (p >>= f) M :=
  fun cursor hcursor => (hp cursor hcursor).bind hf

theorem SpellsAt.bind_silent {A : α → Prop} (hp : SpellsAt V p (fun a said => A a ∧ said = []) cursor)
    (hf : ∀ a, A a → Spells V (f a) M) : SpellsAt V (p >>= f) M cursor :=
  hp.bind fun a _ ⟨ha, hsaid⟩ => by
    subst hsaid
    exact hf a ha

theorem Spells.bind_silent {A : α → Prop} (hp : Spells V p fun a said => A a ∧ said = [])
    (hf : ∀ a, A a → Spells V (f a) M) : Spells V (p >>= f) M :=
  fun cursor hcursor => (hp cursor hcursor).bind_silent hf

theorem spellsAt_get_bind {f : Cursor → Parse β} (h : SpellsAt V (f cursor) M cursor) :
    SpellsAt V (get >>= f) M cursor := by
  unfold SpellsAt
  rw [run_bind]
  exact h

end Logic

/-! ### Moving over tokens -/

section Moves

variable {V : Vocabulary}
variable {cursor : Cursor}

theorem spells_emit {event : Event} (h : event.isSpoken) :
    Spells V (emit event) fun _ said => said = [event] := by
  intro cursor hcursor
  refine ⟨[event], ⟨hcursor.current, hcursor.ahead, hcursor.feed⟩, rfl, ?_⟩
  exact filter_cons_of_pos h

theorem spells_emit_silent (event : Event) (h : event.isSpoken = false) :
    Spells V (emit event) fun _ said => True ∧ said = [] := by
  intro cursor hcursor
  refine ⟨[event], ⟨hcursor.current, hcursor.ahead, hcursor.feed⟩, rfl, trivial, ?_⟩
  exact filter_cons_of_neg (by simp [h])

theorem external_of_syntactic {fault : Fault} {place : Location} (h : fault.kind = .syntactic) :
    Diagnostic.External ⟨fault, some place⟩ :=
  ⟨fun hkind => FaultKind.noConfusion (h.symm.trans hkind), nofun⟩

theorem spells_throw {α : Type} {L : α → List Event → Prop} (d : Diagnostic)
    (hd : d.External) (h : ∃ a said, L a said) : Spells V (throw d : Parse α) L := by
  intro cursor hcursor
  obtain ⟨a, said, hword⟩ := h
  exact ⟨[], hcursor, rfl, .inl hd, a, said, hword⟩

theorem spells_failHere {α : Type} {L : α → List Event → Prop} (fault : TokenKind → Fault)
    (hkind : ∀ kind, (fault kind).kind = .syntactic) (h : ∃ a said, L a said) :
    Spells V (failHere fault) L := by
  intro cursor hcursor
  obtain ⟨a, said, hword⟩ := h
  exact ⟨[], hcursor, rfl, .inl (external_of_syntactic (hkind _)), a, said, hword⟩

theorem spellsAt_current (hcursor : cursor.Within V) :
    SpellsAt V current (fun token said => token = cursor.current ∧ said = []) cursor :=
  ⟨[], hcursor, rfl, rfl, rfl⟩

theorem spells_current : Spells V current fun token said => token.Within V ∧ said = [] := by
  intro cursor hcursor
  exact ⟨[], hcursor, rfl, hcursor.current, rfl⟩

theorem spells_isAt (kind : TokenKind) : Spells V (isAt kind) fun _ said => True ∧ said = [] := by
  intro cursor hcursor
  exact ⟨[], hcursor, rfl, trivial, rfl⟩

theorem spells_modify (change : Cursor → Cursor)
    (hwithin : ∀ cursor, cursor.Within V → (change cursor).Within V)
    (hevents : ∀ cursor, (change cursor).events = cursor.events) :
    Spells V (modify change : Parse PUnit) fun _ said => True ∧ said = [] := by
  intro cursor hcursor
  exact ⟨[], hwithin cursor hcursor, hevents cursor, trivial, rfl⟩

theorem fetch_ok {token : Token} (h : cursor.feed.next.1 = .ok token) : fetch.run.run cursor = (.ok token,
      { cursor with feed := cursor.feed.next.2, events := .read token :: cursor.events }) := by
  unfold fetch
  rw [run_get_bind, run_modify_bind, h]
  rfl

theorem fetch_error {d : Diagnostic} (h : cursor.feed.next.1 = .error d) : fetch.run.run cursor = (.error d,
      { cursor with feed := cursor.feed.next.2, events := .refused d :: cursor.events }) := by
  unfold fetch
  rw [run_get_bind, run_modify_bind, h]
  rfl

theorem spells_fetch : Spells V fetch fun token said => token.Within V ∧ said = [] := by
  intro cursor hcursor
  obtain ⟨hfeed, htoken, hfault⟩ := hcursor.feed.next
  have hnext : Cursor.Within V { cursor with feed := cursor.feed.next.2 } :=
    ⟨hcursor.current, hcursor.ahead, hfeed⟩
  unfold SpellsAt
  cases hresult : cursor.feed.next.1 with
  | ok token =>
    rw [fetch_ok hresult]
    obtain ⟨new, hwithin, hevents, -, hsaid⟩ :=
      spells_emit_silent (.read token) rfl _ hnext
    exact ⟨new, hwithin, hevents, htoken token hresult, hsaid⟩
  | error d =>
    rw [fetch_error hresult]
    obtain ⟨new, hwithin, hevents, -, hsaid⟩ :=
      spells_emit_silent (.refused d) rfl _ hnext
    exact ⟨new, hwithin, hevents, Or.inr (hfault d hresult), ⟨.eof, .start, false⟩, [],
      eof_within V _ _, by rw [hsaid]; rfl⟩

theorem spells_peek : Spells V peek fun token said => token.Within V ∧ said = [] := by
  intro cursor hcursor
  refine spellsAt_get_bind ?_
  cases hahead : cursor.ahead with
  | some token => exact spells_pure token ⟨hcursor.ahead token hahead, rfl⟩ cursor hcursor
  | none =>
    refine (spells_fetch cursor hcursor).bind_silent fun token htoken => ?_
    refine (spells_modify _ ?_ ?_).bind_silent fun _ _ => spells_pure token ⟨htoken, rfl⟩
    · intro cursor hcursor
      refine ⟨hcursor.current, ?_, hcursor.feed⟩
      intro t ht
      cases ht
      exact htoken
    · exact fun _ => rfl

theorem fetch_current (cursor : Cursor) : (fetch.run.run cursor).2.current = cursor.current := by
  cases hresult : cursor.feed.next.1 with
  | ok token => rw [fetch_ok hresult]
  | error d => rw [fetch_error hresult]

theorem peek_current (cursor : Cursor) : (peek.run.run cursor).2.current = cursor.current := by
  unfold peek
  rw [run_get_bind]
  cases cursor.ahead with
  | some token => rfl
  | none =>
    have hfetch := fetch_current cursor
    rw [run_bind]
    rcases hrun : fetch.run.run cursor with ⟨d | token, next⟩ <;> rw [hrun] at hfetch <;> exact hfetch

theorem spellsAt_advance (hcursor : cursor.Within V) :
    SpellsAt V advance (fun token said => token = cursor.current ∧ said = []) cursor := by
  refine spellsAt_get_bind ?_
  cases hahead : cursor.ahead with
  | some token =>
    have hmoved : Cursor.Within V { cursor with current := token, ahead := none } := by
      refine ⟨hcursor.ahead token hahead, ?_, hcursor.feed⟩
      intro t ht
      cases ht
    obtain ⟨new, hwithin, hevents, -, hsaid⟩ :=
      spells_emit_silent (.moved token) rfl _ hmoved
    exact ⟨new, hwithin, hevents, rfl, hsaid⟩
  | none =>
    refine (spells_fetch cursor hcursor).bind_silent fun token htoken => ?_
    refine (spells_modify _ ?_ ?_).bind_silent fun _ _ => ?_
    · intro cursor hcursor
      exact ⟨htoken, hcursor.ahead, hcursor.feed⟩
    · exact fun _ => rfl
    · exact (spells_emit_silent _ rfl).bind_silent fun _ _ => spells_pure _ ⟨rfl, rfl⟩

theorem spells_advance : Spells V advance fun token said => token.Within V ∧ said = [] := by
  intro cursor hcursor
  refine (spellsAt_advance hcursor).mono ?_
  rintro token said ⟨rfl, hsaid⟩
  exact ⟨hcursor.current, hsaid⟩

theorem spells_accept (kind : TokenKind) : Spells V (accept kind) fun _ said => True ∧ said = [] := by
  refine (spells_isAt kind).bind_silent fun found _ => ?_
  split
  · exact spells_advance.bind_silent fun _ _ => spells_pure true ⟨trivial, rfl⟩
  · exact spells_pure false ⟨trivial, rfl⟩

theorem spells_expect (sign : Mark) : Spells V (expect sign) fun _ said => True ∧ said = [] := by
  refine (spells_accept _).bind_silent fun found _ => ?_
  split
  · exact spells_pure _ ⟨trivial, rfl⟩
  · exact spells_failHere _ (fun _ => rfl) ⟨(), [], trivial, rfl⟩

theorem spellsAt_identifier {name : String} (hcursor : cursor.Within V)
    (hname : cursor.current.identifier? = some name) (role : String) :
    SpellsAt V (identifier role) (fun found said => found.1 = name ∧ said = []) cursor := by
  refine (spellsAt_current hcursor).bind_silent fun token htoken => ?_
  subst htoken
  rw [hname]
  exact spells_advance.bind_silent fun _ _ => spells_pure _ ⟨rfl, rfl⟩

theorem spells_identifier (role : String) :
    Spells V (identifier role) fun found said => V.name found.1 ∧ said = [] := by
  obtain ⟨someName, hsome⟩ := V.exists_name
  refine spells_current.bind_silent fun token htoken => ?_
  split
  · rename_i name heq
    exact spells_advance.bind_silent fun _ _ => spells_pure _ ⟨htoken.name heq, rfl⟩
  · exact spells_failHere _ (fun _ => rfl) ⟨(someName, .start), [], hsome, rfl⟩

theorem spells_typeName : Spells V typeName fun ty said => V.ty ty ∧ said = [] := by
  obtain ⟨someTy, hsome⟩ := V.exists_ty
  refine spells_current.bind_silent fun token htoken => ?_
  split
  · rename_i ty hkind
    exact spells_advance.bind_silent fun _ _ => spells_pure _ ⟨htoken.2 ty hkind, rfl⟩
  · exact spells_failHere _ (fun _ => rfl) ⟨someTy, [], hsome, rfl⟩

/-! ### Lists between parentheses -/

/-- The words of items from an index on, one after the other, and how many there are. -/
inductive Listed (item : Nat → List Event → Prop) : Nat → Nat → List Event → Prop where
  | done (index : Nat) : Listed item index index []
  | more {index count : Nat} {first later : List Event} :
      item index first → Listed item (index + 1) count later → Listed item index count (first ++ later)

theorem spells_commaSeparated {item : Nat → Parse Unit} {L : Nat → List Event → Prop}
    (hitem : ∀ index, Spells V (item index) fun _ said => L index said) :
    ∀ n index, Spells V (commaSeparated item n index) fun count said => Listed L index count said := by
  intro n
  induction n with
  | zero =>
    intro index
    refine (hitem index).bind fun _ said hsaid => spells_pure _ ?_
    exact .more hsaid (.done _)
  | succ n ih =>
    intro index
    refine (hitem index).bind fun _ said hsaid => ?_
    refine (spells_accept _).bind_silent fun found _ => ?_
    split
    · exact (ih (index + 1)).mono fun _ _ hlater => .more hsaid hlater
    · exact spells_pure _ (.more hsaid (.done _))

theorem spells_parenthesized {item : Nat → Parse Unit} {L : Nat → List Event → Prop}
    (hitem : ∀ index, Spells V (item index) fun _ said => L index said) (bound : Nat) :
    Spells V (parenthesized bound item) fun count said => Listed L 0 count said := by
  have hend : ∀ count said, Listed L 0 count said →
      Spells V (do expect .rightParen; pure count) fun count rest => Listed L 0 count (said ++ rest) := by
    intro count said hsaid
    refine (spells_expect _).bind_silent fun _ _ => spells_pure _ ?_
    rwa [append_nil]
  refine (spells_isAt _).bind_silent fun empty _ => ?_
  split
  · exact (spells_pure 0 (.done 0)).bind hend
  · exact (spells_commaSeparated hitem bound 0).bind hend

end Moves

end Parse

end OnePass
