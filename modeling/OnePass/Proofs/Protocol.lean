import OnePass.Program
import OnePass.Proofs.Parsing.Alike

/-!
# Reading from a source of tokens

A parser asks its source for one token after the other, at most one ahead, and never again after the end of
the input or a fault.  So it does not matter what the source would answer then.

Main results:

* `Feed.exists_alike` — feeds with the same answers up to a final one are alike;
* `tokens_read_in_order` — **the protocol between a parser and its source**.
-/

namespace OnePass

namespace Feed

variable {f : Location → Location}

theorem exists_alike {n : Nat} {feed feed' : Feed}
    (h : (feed.answers n).map (relocateAnswer f) = (feed'.answers n).map (relocateAnswer f))
    (hfinal : ∃ answer ∈ feed.answers n, isFinal answer = true) : ∃ m, feed.Alike (.upTo f) m feed' := by
  induction n generalizing feed feed' with
  | zero =>
    obtain ⟨answer, hmem, -⟩ := hfinal
    cases hmem
  | succ n ih =>
    rw [answers, answers, List.map_cons, List.map_cons] at h
    obtain ⟨hanswer, hrest⟩ := List.cons.inj h
    cases hfirst : isFinal feed.next.1 with
    | true => exact ⟨0, .final (answersAlike_of_relocate hanswer) hfirst⟩
    | false =>
      obtain ⟨answer, hmem, hanswer'⟩ := hfinal
      rw [answers, List.mem_cons] at hmem
      rcases hmem with rfl | hmem
      · rw [hfirst] at hanswer'
        cases hanswer'
      · obtain ⟨m, hm⟩ := ih hrest ⟨answer, hmem, hanswer'⟩
        exact ⟨m + 1, .token (answersAlike_of_relocate hanswer) hfirst hm⟩

theorem exists_final (feed : Feed) :
    ∃ answer ∈ feed.answers (feed.results.length + 1), isFinal answer = true := by
  obtain ⟨results, stop⟩ := feed
  induction results with
  | nil => exact ⟨_, List.mem_cons_self, rfl⟩
  | cons result results ih =>
    obtain ⟨answer, hmem, hfinal⟩ := ih
    exact ⟨answer, List.mem_cons_of_mem _ hmem, hfinal⟩

end Feed

/-- **The protocol between a parser and its source.**  At every moment of a run, also if the run is cut short
by a fault in the meaning of the program, the answers that have been asked for are the first ones of the
source, the tokens that have become current are its tokens in order, at most one more token has been asked
for, and nothing has after the end of the input or a fault.  If nothing is wrong with the tokens, then all
of them have become current, the end of the input last.  What the source would answer after its first final
answer has no influence. -/
theorem tokens_read_in_order (feed : Feed) :
    (∀ earlier, earlier <+: (parse feed).events → feed.Served earlier) ∧
    ((parse feed).fault = none → ∃ passed token, visited (parse feed).events = passed ++ [token] ∧
      token.kind = .eof ∧ yielded (parse feed).events = visited (parse feed).events) ∧
    ∀ (other : Feed) (n : Nat), other.answers n = feed.answers n →
      (∃ answer ∈ feed.answers n, isFinal answer = true) →
      parse other = parse feed ∧ Program.ofFeed other = Program.ofFeed feed := by
  obtain ⟨n, hself⟩ := Feed.exists_alike (f := id) rfl feed.exists_final
  obtain ⟨-, hserves, hend⟩ := parse_alike hself
  refine ⟨hserves, hend, fun other n hanswers hfinal => ?_⟩
  obtain ⟨m, halike⟩ := Feed.exists_alike (f := id) (by rw [hanswers]) hfinal
  have hparse : parse other = parse feed := by
    have hrelocate := (parse_alike halike).1.relocate
    rw [Transcript.relocate_id, Transcript.relocate_id] at hrelocate
    exact hrelocate.symm
  exact ⟨hparse, by rw [Program.ofFeed, Program.ofFeed, hparse]⟩

/-- Two sources that answer differently after the end of the input. -/
theorem tokens_read_in_order_write : ∃ tokens : List Token, ∃ fault : Diagnostic,
      let feed : Feed := ⟨tokens.map .ok ++ [.error fault], .start⟩
      let other : Feed := ⟨tokens.map .ok ++ tokens.map .ok, .start⟩
      feed.Served (parse feed).events ∧ yielded (parse feed).events = tokens ∧
        visited (parse feed).events = tokens ∧ parse other = parse feed ∧
        Program.ofFeed other = Program.ofFeed feed := by
  let tokens : List Token := [⟨.identifier "write", .start, false⟩, ⟨.mark .leftParen, .start, false⟩,
    ⟨.intLiteral 1, .start, false⟩, ⟨.mark .rightParen, .start, false⟩, ⟨.eof, .start, true⟩]
  let fault : Diagnostic := ⟨.unclosedString, none⟩
  let feed : Feed := ⟨tokens.map .ok ++ [.error fault], .start⟩
  obtain ⟨hserved, -, hother⟩ := tokens_read_in_order feed
  have hfinal : ∃ answer ∈ feed.answers 5, isFinal answer = true :=
    ⟨.ok ⟨.eof, .start, true⟩, by simp [feed, tokens, Feed.answers, Feed.next], rfl⟩
  obtain ⟨hparse, hprogram⟩ := hother ⟨tokens.map .ok ++ tokens.map .ok, .start⟩ 5 rfl hfinal
  exact ⟨tokens, fault, hserved _ (List.prefix_refl _), by decide +kernel, by decide +kernel, hparse, hprogram⟩

end OnePass
