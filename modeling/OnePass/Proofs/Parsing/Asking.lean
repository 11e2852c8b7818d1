import Mathlib.Data.List.Infix
import OnePass.Proofs.Parsing.Language

/-!
# How a parser asks for tokens

A parser asks its feed for one token after the other.  The events of a run tell which answers it has got and
which tokens have become current, so the discipline of asking is a property of the events.

Main results:

* `Cursor.Heeds.emit`, `Cursor.Heeds.look`, `Cursor.Heeds.move` — **every move of a parser keeps the
  discipline**;
* `Parse.advance_run` — to move on is to look ahead first.
-/

namespace OnePass

open List

/-! ### The answers of a feed -/

/-- An answer after which nothing is left to ask for: the end of the input, or a fault. -/
def isFinal : Except Diagnostic Token → Bool
  | .ok token => token.kind == .eof
  | .error _ => true

namespace Feed

/-- The first answers of a feed. -/
def answers : Feed → Nat → List (Except Diagnostic Token)
  | _, 0 => []
  | feed, n + 1 => feed.next.1 :: answers feed.next.2 n

/-- The feed after some calls. -/
def after : Feed → Nat → Feed
  | feed, 0 => feed
  | feed, n + 1 => after feed.next.2 n

theorem answers_succ (feed : Feed) (n : Nat) :
    feed.answers (n + 1) = feed.answers n ++ [(feed.after n).next.1] := by
  induction n generalizing feed with
  | zero => rfl
  | succ n ih =>
    rw [answers, ih]
    rfl

theorem after_succ (feed : Feed) (n : Nat) : feed.after (n + 1) = (feed.after n).next.2 := by
  induction n generalizing feed with
  | zero => rfl
  | succ n ih =>
    rw [after, ih]
    rfl

end Feed

/-! ### Events about reading -/

/-- The answer that an event reports. -/
def Event.asked? : Event → Option (Except Diagnostic Token)
  | .read token => some (.ok token)
  | .refused d => some (.error d)
  | _ => none

/-- The token that an event reports to be current. -/
def Event.visited? : Event → Option Token
  | .moved token => some token
  | _ => none

/-- The answers that have been asked for. -/
def asked (events : List Event) : List (Except Diagnostic Token) := events.filterMap Event.asked?

/-- The tokens among the answers. -/
def yielded (events : List Event) : List Token := (asked events).filterMap Except.toOption

/-- The tokens that have become current. -/
def visited (events : List Event) : List Token := events.filterMap Event.visited?

section append

variable (events later : List Event)

@[simp] theorem asked_append : asked (events ++ later) = asked events ++ asked later :=
  filterMap_append ..

@[simp] theorem visited_append : visited (events ++ later) = visited events ++ visited later :=
  filterMap_append ..

end append

/-- An event that reports an answer. -/
def Event.ofAnswer : Except Diagnostic Token → Event
  | .ok token => .read token
  | .error d => .refused d

@[simp] theorem Event.asked?_ofAnswer (answer : Except Diagnostic Token) :
    (Event.ofAnswer answer).asked? = some answer := by
  cases answer <;> rfl

@[simp] theorem Event.visited?_ofAnswer (answer : Except Diagnostic Token) :
    (Event.ofAnswer answer).visited? = none := by
  cases answer <;> rfl

theorem Event.silent_of_isSpoken {event : Event} (h : event.isSpoken) :
    event.asked? = none ∧ event.visited? = none := by
  cases event <;> first | exact ⟨rfl, rfl⟩ | cases h

/-! ### The discipline of asking -/

/-- **The discipline of asking**, after some events: the answers are those of the feed in order, the tokens
that have become current are the tokens of the feed in order, at most one more token has been asked for,
and after a final answer nothing has. -/
structure Feed.Served (feed : Feed) (events : List Event) : Prop where
  answers : asked events = feed.answers (asked events).length
  inOrder : visited events <+: yielded events
  lookahead : (yielded events).length ≤ (visited events).length + 1
  last : ∀ answer ∈ (asked events).dropLast, isFinal answer = false

/-- The discipline at every moment. -/
def Feed.Serves (feed : Feed) (events : List Event) : Prop :=
  ∀ earlier, earlier <+: events → feed.Served earlier

theorem Feed.Serves.concat {feed : Feed} {events : List Event} {event : Event} (h : feed.Serves events)
    (hevent : feed.Served (events ++ [event])) : feed.Serves (events ++ [event]) := by
  intro earlier hearlier
  rcases prefix_concat_iff.1 hearlier with rfl | hearlier
  · exact hevent
  · exact h earlier hearlier

/-- What the discipline amounts to for a cursor: the feed is what the answers have left of it, and the
answers are the tokens that have been current and the one ahead; the end of the input is the last. -/
structure Cursor.Heeds (feed : Feed) (k : Cursor) : Prop where
  moments : feed.Serves k.events.reverse
  rest : k.feed = feed.after (asked k.events.reverse).length
  answers : asked k.events.reverse = feed.answers (asked k.events.reverse).length
  tokens : asked k.events.reverse = (visited k.events.reverse ++ k.ahead.toList).map .ok
  current : ∃ passed, visited k.events.reverse = passed ++ [k.current]
  passed : ∀ token ∈ (visited k.events.reverse ++ k.ahead.toList).dropLast, token.kind ≠ .eof

namespace Cursor.Heeds

variable {feed : Feed} {k : Cursor}

theorem yielded_eq (h : k.Heeds feed) :
    yielded k.events.reverse = visited k.events.reverse ++ k.ahead.toList := by
  rw [yielded, h.tokens, filterMap_map]
  exact filterMap_some ..

theorem ahead_eq_none (h : k.Heeds feed) (heof : k.current.kind = .eof) : k.ahead = none := by
  obtain ⟨passed, hpassed⟩ := h.current
  cases hahead : k.ahead with
  | none => rfl
  | some token =>
    have hmem := h.passed k.current
    rw [hpassed, hahead, Option.toList_some, dropLast_concat] at hmem
    exact absurd heof (hmem (mem_append_right _ mem_cons_self))

theorem emit (h : k.Heeds feed) {event : Event} (hevent : event.isSpoken) :
    Cursor.Heeds feed { k with events := event :: k.events } := by
  obtain ⟨hasked, hvisited⟩ := Event.silent_of_isSpoken hevent
  have hasked' : asked (k.events.reverse ++ [event]) = asked k.events.reverse := by
    rw [asked_append, asked, asked, filterMap_cons_none hasked, filterMap_nil, append_nil]
  have hvisited' : visited (k.events.reverse ++ [event]) = visited k.events.reverse := by
    rw [visited_append, visited, visited, filterMap_cons_none hvisited, filterMap_nil,
      append_nil]
  have hserved := h.moments _ (prefix_refl _)
  have hmoments : feed.Serves (k.events.reverse ++ [event]) := by
    refine h.moments.concat ⟨?_, ?_, ?_, ?_⟩
    · rw [hasked']
      exact hserved.answers
    · rw [hvisited', yielded, hasked']
      exact hserved.inOrder
    · rw [hvisited', yielded, hasked']
      exact hserved.lookahead
    · rw [hasked']
      exact hserved.last
  constructor <;> simp only [reverse_cons]
  · exact hmoments
  · rw [hasked']
    exact h.rest
  · rw [hasked']
    exact h.answers
  · rw [hasked', hvisited']
    exact h.tokens
  · rw [hvisited']
    exact h.current
  · rw [hvisited']
    exact h.passed

section ask

variable (h : k.Heeds feed) (hcurrent : k.current.kind ≠ .eof) (hahead : k.ahead = none)

include h hcurrent hahead

theorem not_final : ∀ token ∈ visited k.events.reverse, token.kind ≠ .eof := by
  intro token hmem
  have hpassed := h.passed token
  obtain ⟨passed, hvisited⟩ := h.current
  rw [hvisited] at hmem hpassed
  rw [hahead, Option.toList_none, append_nil, dropLast_concat] at hpassed
  rcases mem_append.1 hmem with hmem | hmem
  · exact hpassed hmem
  · rwa [eq_of_mem_singleton hmem]

theorem served : feed.Served (k.events.reverse ++ [.ofAnswer k.feed.next.1]) := by
  have hasked : asked (k.events.reverse ++ [.ofAnswer k.feed.next.1]) =
      asked k.events.reverse ++ [k.feed.next.1] := by
    rw [asked_append]
    simp [asked]
  have hvisited : visited (k.events.reverse ++ [.ofAnswer k.feed.next.1]) = visited k.events.reverse := by
    rw [visited_append]
    simp [visited]
  have hyielded : yielded (k.events.reverse ++ [.ofAnswer k.feed.next.1]) =
      visited k.events.reverse ++ k.feed.next.1.toOption.toList := by
    rw [yielded, hasked, filterMap_append, ← yielded, h.yielded_eq, hahead]
    cases k.feed.next.1 <;> simp [Except.toOption]
  constructor
  · rw [hasked, length_append, length_singleton, Feed.answers_succ, ← h.answers, ← h.rest]
  · rw [hvisited, hyielded]
    exact prefix_append _ _
  · rw [hvisited, hyielded, length_append]
    cases k.feed.next.1 <;> simp [Except.toOption]
  · intro answer hmem
    rw [hasked, dropLast_concat, h.tokens, hahead, Option.toList_none, append_nil] at hmem
    obtain ⟨token, htoken, rfl⟩ := mem_map.1 hmem
    simpa [isFinal] using h.not_final hcurrent hahead token htoken

theorem serves : feed.Serves (k.events.reverse ++ [.ofAnswer k.feed.next.1]) :=
  h.moments.concat (h.served hcurrent hahead)

/-- **Looking ahead keeps the discipline.** -/
theorem look {token : Token} (hnext : k.feed.next.1 = .ok token) : Cursor.Heeds feed
      { k with ahead := some token, feed := k.feed.next.2, events := .read token :: k.events } := by
  have hasked : asked (k.events.reverse ++ [.read token]) = asked k.events.reverse ++ [.ok token] := by
    rw [asked_append]
    rfl
  have hvisited : visited (k.events.reverse ++ [.read token]) = visited k.events.reverse := by
    rw [visited_append]
    exact append_nil _
  have hserves := h.serves hcurrent hahead
  rw [hnext] at hserves
  constructor <;> simp only [reverse_cons]
  · exact hserves
  · rw [hasked, length_append, length_singleton, Feed.after_succ, ← h.rest]
  · exact (hserves _ (prefix_refl _)).answers
  · rw [hasked, hvisited, h.tokens, hahead]
    simp
  · rw [hvisited]
    exact h.current
  · rw [hvisited, Option.toList_some, dropLast_concat]
    exact h.not_final hcurrent hahead

end ask

/-- **Moving on keeps the discipline.** -/
theorem move (h : k.Heeds feed) {token : Token} (hahead : k.ahead = some token) :
    Cursor.Heeds feed { k with current := token, ahead := none, events := .moved token :: k.events } := by
  have hasked : asked (k.events.reverse ++ [.moved token]) = asked k.events.reverse := by
    rw [asked_append]
    exact append_nil _
  have hvisited : visited (k.events.reverse ++ [.moved token]) = visited k.events.reverse ++ [token] := by
    rw [visited_append]
    rfl
  have hyielded : yielded (k.events.reverse ++ [.moved token]) = visited k.events.reverse ++ [token] := by
    rw [yielded, hasked, ← yielded, h.yielded_eq, hahead]
    rfl
  have hserved := h.moments _ (prefix_refl _)
  have hmoments : feed.Serves (k.events.reverse ++ [.moved token]) := by
    refine h.moments.concat ⟨?_, ?_, ?_, ?_⟩
    · rw [hasked]
      exact h.answers
    · rw [hvisited, hyielded]
    · rw [hvisited, hyielded]
      exact Nat.le_succ _
    · rw [hasked]
      exact hserved.last
  constructor <;> simp only [reverse_cons]
  · exact hmoments
  · rw [hasked]
    exact h.rest
  · rw [hasked]
    exact h.answers
  · rw [hasked, hvisited, h.tokens, hahead]
    simp
  · exact ⟨_, hvisited⟩
  · have hpassed := h.passed
    rw [hahead] at hpassed
    rw [hvisited, Option.toList_none, append_nil]
    exact hpassed

end Cursor.Heeds

/-! ### Runs of the parsers that move -/

namespace Parse

variable {k : Cursor} {token : Token}

theorem peek_of_ahead (h : k.ahead = some token) : peek.run.run k = (.ok token, k) := by
  unfold peek
  rw [run_get_bind, h]
  rfl

theorem peek_of_ok (h : k.ahead = none) (hnext : k.feed.next.1 = .ok token) : peek.run.run k = (.ok token,
      { k with ahead := some token, feed := k.feed.next.2, events := .read token :: k.events }) := by
  unfold peek
  rw [run_get_bind, h, run_bind, fetch_ok hnext]
  rfl

theorem peek_of_error {d : Diagnostic} (h : k.ahead = none) (hnext : k.feed.next.1 = .error d) :
    peek.run.run k = (.error d, { k with feed := k.feed.next.2, events := .refused d :: k.events }) := by
  obtain ⟨current, ahead, feed, events⟩ := k
  obtain rfl : ahead = none := h
  unfold peek
  rw [run_get_bind]
  show (fetch >>= _).run.run _ = _
  rw [run_bind, fetch_error hnext]

theorem advance_of_ahead (h : k.ahead = some token) : advance.run.run k = (.ok k.current,
      { k with current := token, ahead := none, events := .moved token :: k.events }) := by
  unfold advance
  rw [run_get_bind, h]
  rfl

/-- **To move on is to look ahead first.** -/
theorem advance_run (k : Cursor) : advance.run.run k = (peek >>= fun _ => advance).run.run k := by
  rw [run_bind]
  cases hahead : k.ahead with
  | some token => rw [peek_of_ahead hahead]
  | none =>
    obtain ⟨current, ahead, feed, events⟩ := k
    obtain rfl : ahead = none := hahead
    cases hnext : feed.next.1 with
    | ok token =>
      rw [peek_of_ok rfl hnext, advance, run_get_bind]
      show (fetch >>= _).run.run _ = _
      rw [run_bind, fetch_ok hnext]
      rfl
    | error d =>
      rw [peek_of_error rfl hnext, advance, run_get_bind]
      show (fetch >>= _).run.run _ = _
      rw [run_bind, fetch_error hnext]

end Parse

end OnePass
