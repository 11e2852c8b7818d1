import OnePass.Proofs.Lexeme.Division

/-!
# Texts joined by a line break

A line break ends every lexeme that can end at all, and every comment up to the end of its line.  So reading
can be done line break by line break, wherever what stands in front of the break is complete: the tokens of
the first text stay as they are, and those of the second one stand some lines further down.

Main results:

* `Reader.next_break` — a token is not changed by what comes behind a line break;
* `Reader.tokens_feed_moved` — the same text further down;
* `tokenize_joined` — **texts are read one after the other**.
-/

namespace OnePass

/-! ### Further down -/

/-- A place some lines further down. -/
def Location.down (lines : Nat) (place : Location) : Location := ⟨place.line + lines, place.column⟩

theorem Location.down_step (lines : Nat) (place : Location) (c : Char) :
    (place.step c).down lines = (place.down lines).step c := by
  unfold step
  split
  · simp [down, Nat.add_right_comm]
  · rfl

theorem Location.down_after (lines : Nat) (place : Location) (text : List Char) :
    (place.after text).down lines = (place.down lines).after text := by
  induction text generalizing place with
  | nil => rfl
  | cons c text ih => rw [after_cons, after_cons, ih, down_step]

/-- The token behind a line break, if one is counted that was not seen before. -/
def Token.behind (broken : Bool) (token : Token) : Token :=
  { token with afterBreak := broken || token.afterBreak }

/-- Behind a line break, the first token knows it. -/
def behindBreak (broken : Bool) (tokens : List Token) : List Token := tokens.modifyHead (Token.behind broken)

@[simp] theorem behindBreak_false (tokens : List Token) : behindBreak false tokens = tokens := by
  cases tokens <;> rfl

/-! ### In front of a line break -/

theorem Trivia.Trailing.spacing_break {text : List Char} (h : Trailing text) : Spacing (text ++ ['\n']) := by
  cases h with
  | spacing h => exact h.append (.blank rfl .nil)
  | @comment gap text h htext =>
    have hline := h.append (Spacing.line htext .nil)
    simpa using hline

theorem Trivia.Starts.append_break {c : Char} {text : List Char} (h : Starts (c :: text)) (more : List Char) :
    Starts (c :: (text ++ '\n' :: more)) := by
  obtain ⟨_, _, heq, hblank, hslash⟩ := h
  obtain ⟨rfl, rfl⟩ := List.cons.inj heq
  refine ⟨_, _, rfl, hblank, fun hc => ?_⟩
  cases text with
  | nil => exact ⟨nofun, nofun⟩
  | cons => exact hslash hc

namespace Reader

open Scan

section breaks

variable {r : Reader} {c : Char} {text : List Char}

theorem endedBy_break {scan : Scan} {kind : TokenKind} (h : scan.outcome = .ok kind) (more : List Char) :
    scan.EndedBy (scan.rest ++ '\n' :: more) := by
  cases hrest : scan.rest with
  | nil => exact .parted h (.inl rfl)
  | cons d y =>
    refine .same hrest fun _ => ?_
    cases y with
    | nil => exact iff_of_false nofun nofun
    | cons => exact Iff.rfl

theorem lexeme_break {kind : TokenKind} (h : (lexeme (c :: text)).outcome = .ok kind) (more : List Char) :
    lexeme (c :: (text ++ '\n' :: more)) =
      { lexeme (c :: text) with rest := (lexeme (c :: text)).rest ++ '\n' :: more } := by
  obtain ⟨l, htext⟩ := lexeme_rest_suffix c text
  have hended := endedBy_break h more
  generalize hrest : (lexeme (c :: text)).rest = y at htext hended
  subst htext
  have hlocal := lexeme_local hrest hended fun _ => by
    cases y with
    | nil => exact .inl rfl
    | cons => exact .inr rfl
  rw [← hlocal, List.append_assoc]

theorem next_break {token : Token} (h : r.next.1 = .ok token) (hkind : token.kind ≠ .eof)
    (more : List Char) : (⟨r.place, r.rest ++ '\n' :: more⟩ : Reader).next =
      (.ok token, ⟨r.next.2.place, r.next.2.rest ++ '\n' :: more⟩) := by
  have hfinal : isFinal r.next.1 = false := by
    rw [h]
    simpa [isFinal] using hkind
  obtain ⟨gap, c, text, hrest, hgap, hstarts⟩ := exists_starts (.inr hfinal)
  have hnext := next_of_starts hgap hstarts hrest
  have hnext' := next_of_starts (r := ⟨r.place, r.rest ++ '\n' :: more⟩) hgap (hstarts.append_break more)
    (by rw [hrest, List.append_assoc]; rfl)
  rw [hnext, take] at h
  rw [hnext', hnext, take, take]
  cases houtcome : (lexeme (c :: text)).outcome with
  | error fault =>
    rw [houtcome] at h
    cases h
  | ok kind =>
    rw [houtcome] at h
    rw [lexeme_break houtcome, houtcome]
    exact Prod.ext h rfl

end breaks

/-! ### Feeds further down -/

section moved

variable {lines : Nat} {broken : Bool} {r r' : Reader}

theorem next_moved (h : (Trivia.skip r.place r.rest).Alike (fun place place' => place' = place.down lines)
      broken (Trivia.skip r'.place r'.rest)) :
    r'.next = (relocateResult (.down lines) (fun token => (token.relocate (.down lines)).behind broken) r.next.1,
      ⟨r.next.2.place.down lines, r.next.2.rest⟩) := by
  unfold next
  generalize Trivia.skip r.place r.rest = gap at h ⊢
  generalize Trivia.skip r'.place r'.rest = gap' at h ⊢
  cases h with
  | unclosed h h' =>
    subst h h'
    rfl
  | @lexeme place _ afterBreak text h =>
    subst h
    simp only [take, Location.down_after]
    cases (lexeme text).outcome <;> rfl

theorem tokens_feed_moved {n m : Nat}
    (h : (Trivia.skip r.place r.rest).Alike (fun place place' => place' = place.down lines) broken
      (Trivia.skip r'.place r'.rest)) (hn : r.rest.length < n) (hm : r.rest.length < m) :
    (r'.feed m).tokens = relocateResult (.down lines)
      (fun tokens => behindBreak broken (tokens.map (Token.relocate (.down lines)))) (r.feed n).tokens := by
  induction n generalizing r r' m broken with
  | zero => omega
  | succ n ih =>
    obtain ⟨m, rfl⟩ : ∃ k, m = k + 1 := ⟨m - 1, by omega⟩
    have hnext := next_moved h
    cases hanswer : r.next.1 with
    | error d =>
      rw [hanswer] at hnext
      rw [tokens_feed_error n hanswer, tokens_feed_error m (by rw [hnext]; rfl)]
      rfl
    | ok token =>
      rw [hanswer] at hnext
      have hmoved : r'.next.1 = .ok ((token.relocate (.down lines)).behind broken) := by
        rw [hnext]
        rfl
      by_cases hend : token.kind = .eof
      · rw [tokens_feed_end n hanswer hend, tokens_feed_end m hmoved hend]
        rfl
      · have hlt := next_rest_lt (r := r) (by rw [hanswer]; simpa [isFinal] using hend)
        have hskip : (Trivia.skip r.next.2.place r.next.2.rest).Alike
            (fun place place' => place' = place.down lines) false
            (Trivia.skip r'.next.2.place r'.next.2.rest) := by
          rw [hnext]
          exact Trivia.skip_alike (fun c h => by rw [h, Location.down_step]) false _ rfl
        rw [tokens_feed_token n hanswer hend, tokens_feed_token m hmoved hend,
          ih hskip (m := m) (by omega) (by omega)]
        cases (r.next.2.feed n).tokens with
        | error d => rfl
        | ok tokens =>
          simp only [relocateResult, behindBreak_false]
          rfl

theorem tokens_feed_break {n : Nat} {tokens : List Token} (more : List Char)
    (hplace : r.place.after (r.rest ++ ['\n']) = Location.start.down lines) (hn : r.rest.length < n)
    (h : (r.feed n).tokens = .ok tokens) :
    ∃ front stop, tokens = front ++ [stop] ∧ stop.kind = .eof ∧
      ∀ m k, r.rest.length + 1 + more.length < m → more.length < k →
        ((⟨r.place, r.rest ++ '\n' :: more⟩ : Reader).feed m).tokens = relocateResult (.down lines)
          (fun later => front ++ behindBreak true (later.map (Token.relocate (.down lines))))
          ((⟨.start, more⟩ : Reader).feed k).tokens := by
  induction n generalizing r tokens with
  | zero => omega
  | succ n ih =>
    cases hanswer : r.next.1 with
    | error d =>
      rw [tokens_feed_error n hanswer] at h
      cases h
    | ok token =>
      rcases next_cases hanswer with htrailing | ⟨gap, l, y, kind, hfinds⟩
      · -- the first text ends here, and what follows is read from the place behind the line break
        rw [tokens_feed_end n (by rw [next_trailing htrailing]) rfl] at h
        cases h
        refine ⟨[], _, rfl, rfl, fun m k hm hk => tokens_feed_moved ?_ hk
          (Nat.lt_of_le_of_lt (Nat.le_add_left _ _) hm)⟩
        have hskip : Trivia.skip r.place (r.rest ++ '\n' :: more) =
            Trivia.skipFrom .blanks (Location.start.down lines) true more := by
          rw [← hplace, Trivia.skip, List.append_cons, htrailing.spacing_break.skipFrom]
          simp
        rw [hskip]
        exact Trivia.skip_alike (fun c h => by rw [h, Location.down_step]) true more rfl
      · have hend := hfinds.ne_eof
        have hnext := hfinds.next
        have htoken : r.next.1 = .ok ⟨kind, r.place.after gap, gap.contains '\n'⟩ := by rw [hnext]
        have hlt := next_rest_lt (r := r) (by rw [htoken]; simpa [isFinal] using hend)
        rw [tokens_feed_token n htoken hend] at h
        obtain ⟨later, hlater, rfl⟩ := Escape.exists_of_map_eq_ok h
        obtain ⟨front, stop, rfl, hstop, hjoined⟩ := ih (r := r.next.2) (by
          rw [← hplace, hnext, hfinds.text_eq]
          simp [Location.after_append]) (by omega) hlater
        refine ⟨_ :: front, stop, rfl, hstop, fun m k hm hk => ?_⟩
        obtain ⟨m, rfl⟩ : ∃ j, m = j + 1 := ⟨m - 1, by omega⟩
        have hbreak := next_break htoken hend more
        rw [tokens_feed_token m (by rw [hbreak]) hend, hbreak, hjoined m k (by omega) hk]
        cases ((⟨.start, more⟩ : Reader).feed k).tokens <;> rfl

end moved

end Reader

/-! ### Source texts -/

/-- **Texts are read one after the other.**  If a text is read, then behind it and a line break another text
is read as it is alone: its tokens, or the fault in it, are the same ones some lines further down, and the
first token knows of the line break. -/
theorem tokenize_joined {source : String} {tokens : List Token} (h : tokenize source = .ok tokens)
    (more : String) :
    ∃ front stop, tokens = front ++ [stop] ∧ stop.kind = .eof ∧
      (∀ later, tokenize more = .ok later → tokenize (source ++ "\n" ++ more) = .ok (front ++ behindBreak true
          (later.map (Token.relocate (.down (1 + source.toList.count '\n')))))) ∧
      ∀ d, tokenize more = .error d →
        tokenize (source ++ "\n" ++ more) = .error (d.relocate (.down (1 + source.toList.count '\n'))) := by
  have hplace : Location.start.after (source.toList ++ ['\n']) =
      Location.start.down (1 + source.toList.count '\n') := by
    rw [Location.start_after]
    simp [Location.behind, Location.down, Location.start, Nat.add_comm]
  obtain ⟨front, stop, htokens, hstop, hjoined⟩ :=
    Reader.tokens_feed_break (r := .ofSource source) more.toList hplace (Nat.lt_succ_self _) h
  have htext : (source ++ "\n" ++ more).toList = source.toList ++ '\n' :: more.toList := by simp
  have hall : tokenize (source ++ "\n" ++ more) = relocateResult (.down (1 + source.toList.count '\n'))
      (fun later => front ++ behindBreak true
        (later.map (Token.relocate (.down (1 + source.toList.count '\n'))))) (tokenize more) := by
    have hlength : (Reader.ofSource source).rest.length + 1 + more.toList.length <
        (source.toList ++ '\n' :: more.toList).length + 1 := by
      simp [Reader.ofSource]
      omega
    rw [tokenize, Feed.ofSource, Reader.ofSource, htext]
    exact hjoined _ _ hlength (Nat.lt_succ_self _)
  refine ⟨front, stop, htokens, hstop, fun later hlater => ?_, fun d hd => ?_⟩
  · rw [hall, hlater]
    rfl
  · rw [hall, hd]
    rfl

/-- A comment at the end of the first text ends with it. -/
theorem tokenize_joined_comment :
    tokenize "x//y" = .ok [⟨.identifier "x", ⟨1, 1⟩, false⟩, ⟨.eof, ⟨1, 5⟩, false⟩] ∧
      tokenize ("x//y" ++ "\n" ++ "z") = .ok [⟨.identifier "x", ⟨1, 1⟩, false⟩,
        ⟨.identifier "z", ⟨2, 1⟩, true⟩, ⟨.eof, ⟨2, 2⟩, false⟩] := by
  have hfirst : tokenize "x//y" = .ok [⟨.identifier "x", ⟨1, 1⟩, false⟩, ⟨.eof, ⟨1, 5⟩, false⟩] := rfl
  obtain ⟨front, stop, htokens, -, hjoined, -⟩ := tokenize_joined hfirst "z"
  obtain ⟨rfl, -⟩ := List.append_inj' (show [_] ++ [_] = front ++ [stop] from htokens) rfl
  exact ⟨hfirst, hjoined _ rfl⟩

end OnePass
