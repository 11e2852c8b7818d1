import OnePass.Proofs.Lexeme.Exchange
import OnePass.Proofs.Lexeme.Spelling

/-!
# Source texts in pieces

A source text is a sequence of pieces, each a token with the spacing before it, and the spacing at its end.
Reading a text finds its pieces, and a text that is written in pieces is read back.

Main results:

* `tokenize_divides` — **every text that is read is divided into pieces, and reading comes to an end**;
* `tokenize_layout` — **a text that is written in pieces is read as their tokens**.
-/

namespace OnePass

open List

/-! ### Places -/

/-- The place behind a text: its line breaks and the characters behind the last one are counted. -/
def Location.behind (text : List Char) : Location :=
  ⟨1 + text.count '\n', 1 + (text.reverse.takeWhile (· != '\n')).length⟩

theorem Location.start_after (text : List Char) : Location.start.after text = .behind text := by
  induction text using List.reverseRecOn with
  | nil => rfl
  | append_singleton text c ih =>
    rw [after_append, ih, after_cons, after_nil, step]
    split
    · rename_i hc
      simp [behind, hc, Nat.add_assoc]
    · rename_i hc
      have hcount : [c].count '\n' = 0 := count_eq_zero.2 (by simpa [eq_comm] using hc)
      simp [behind, hc, hcount, Nat.add_assoc]

theorem Location.behind_after (text more : List Char) :
    (Location.behind text).after more = .behind (text ++ more) := by
  rw [← start_after, ← start_after, after_append]

/-! ### Single calls -/

namespace Reader

open Scan

section next

variable {r : Reader}

/-- The answer of a call that takes a lexeme. -/
def answer (place : Location) (afterBreak : Bool) : Except Fault TokenKind → Except Diagnostic Token
  | .ok kind => .ok ⟨kind, place, afterBreak⟩
  | .error fault => .error ⟨fault, some place⟩

theorem next_scanned {gap l y : List Char} {outcome : Except Fault TokenKind} (hgap : Trivia.Spacing gap)
    (hstarts : Trivia.Starts (l ++ y)) (hscan : lexeme (l ++ y) = ⟨l, outcome, y⟩) (hr : r.rest = gap ++ (l ++ y)) :
    r.next = (answer (r.place.after gap) (gap.contains '\n') outcome, ⟨r.place.after (gap ++ l), y⟩) := by
  have hskip : Trivia.skip r.place r.rest = .lexeme (r.place.after gap) (gap.contains '\n') (l ++ y) := by
    rw [hr, hgap.skip hstarts]
  rw [next_of_lexeme hskip, take, hscan, Location.after_append]
  cases outcome <;> rfl

/-- A text that begins with spacing and the lexeme of a token, which is not empty. -/
structure Finds (text gap l y : List Char) (kind : TokenKind) : Prop where
  text_eq : text = gap ++ (l ++ y)
  spacing : Trivia.Spacing gap
  starts : Trivia.Starts (l ++ y)
  scan : lexeme (l ++ y) = ⟨l, .ok kind, y⟩
  ne_nil : l ≠ []
  spells : Spells kind l ∨ SpellsBlock kind l ∧ Ends y

theorem Finds.next {gap l y : List Char} {kind : TokenKind} (h : Finds r.rest gap l y kind) :
    r.next = (.ok ⟨kind, r.place.after gap, gap.contains '\n'⟩, ⟨r.place.after (gap ++ l), y⟩) :=
  next_scanned h.spacing h.starts h.scan h.text_eq

theorem Finds.ne_eof {text gap l y : List Char} {kind : TokenKind} (h : Finds text gap l y kind) :
    kind ≠ .eof := by
  rintro rfl
  rcases h.spells with hspells | ⟨hspells, -⟩ <;> cases hspells

theorem finds_of_starts {gap text : List Char} {kind : TokenKind} (hgap : Trivia.Spacing gap)
    (hstarts : Trivia.Starts text) (houtcome : (lexeme text).outcome = .ok kind) :
    ∃ l y, text = l ++ y ∧ Finds (gap ++ text) gap l y kind := by
  have hstarts' := hstarts
  obtain ⟨c, rest, rfl, -⟩ := hstarts'
  obtain ⟨l, y, htext, hscan, hspells⟩ := exists_spells houtcome
  have hne : l ≠ [] := by
    rintro rfl
    have hle := (lexeme_rest_suffix c rest).length_le
    rw [hscan, ← nil_append y, ← htext, length_cons] at hle
    omega
  rw [htext] at hstarts hscan
  exact ⟨l, y, htext, by rw [htext], hgap, hstarts, hscan, hne, hspells⟩

theorem next_cases {token : Token} (h : r.next.1 = .ok token) :
    Trivia.Trailing r.rest ∨ ∃ gap l y kind, Finds r.rest gap l y kind := by
  generalize hrest : r.rest = rest
  cases Trivia.begins rest with
  | trailing htrailing => exact .inl htrailing
  | comment hgap hopen =>
    rw [next_unclosed hgap hopen hrest] at h
    cases h
  | @lexeme gap text hgap hstarts =>
    cases houtcome : (lexeme text).outcome with
    | error fault =>
      rw [next_of_starts hgap hstarts hrest, take, houtcome] at h
      cases h
    | ok kind =>
      obtain ⟨l, y, -, hfinds⟩ := finds_of_starts hgap hstarts houtcome
      exact .inr ⟨gap, l, y, kind, hfinds⟩

theorem rest_eq_nil_of_end (h : isEnd r.next.1 = true) : r.next.2.rest = [] := by
  cases hanswer : r.next.1 with
  | error d =>
    rw [hanswer] at h
    cases h
  | ok token =>
    rcases next_cases hanswer with htrailing | ⟨gap, l, y, kind, hfinds⟩
    · rw [next_trailing htrailing]
    · rw [hfinds.next] at h
      exact absurd (by simpa [isEnd] using h) hfinds.ne_eof

end next

/-! ### Runs of calls -/

/-- The reader behind a number of calls. -/
def behind (n : Nat) (r : Reader) : Reader := (fun r => r.next.2)^[n] r

theorem behind_succ (n : Nat) (r : Reader) : r.behind (n + 1) = (r.behind n).next.2 :=
  Function.iterate_succ_apply' (fun r : Reader => r.next.2) n r

theorem getElem?_steps {n k : Nat} (r : Reader) (hk : k < n) : (steps n r)[k]? = some (r.behind k).next.1 := by
  induction n generalizing k r with
  | zero => omega
  | succ n ih =>
    cases k with
    | zero => rfl
    | succ k => exact ih r.next.2 (by omega)

theorem behind_rest (n : Nat) (r : Reader) :
    (r.behind n).rest = [] ∨ (r.behind n).rest.length + n ≤ r.rest.length := by
  induction n with
  | zero => exact .inr (Nat.le_refl _)
  | succ n ih =>
    rw [behind_succ]
    cases hend : isEnd (r.behind n).next.1 with
    | true => exact .inl (rest_eq_nil_of_end hend)
    | false =>
      have hlt := next_rest_lt_of_not_end hend
      rcases ih with hnil | hle
      · rw [hnil, length_nil] at hlt
        omega
      · exact .inr (by omega)

theorem next_of_nil {r : Reader} (h : r.rest = []) : r.next = (.ok ⟨.eof, r.place, false⟩, r) := by
  obtain ⟨place, rest⟩ := r
  obtain rfl : rest = [] := h
  rfl

theorem behind_add_of_nil {r : Reader} {n : Nat} (h : (r.behind n).rest = []) (k : Nat) :
    r.behind (n + k) = r.behind n := by
  induction k with
  | zero => rfl
  | succ k ih => rw [← Nat.add_assoc, behind_succ, ih, next_of_nil h]

/-- **Reading comes to an end:** as many calls as there are characters lead to the end of the input, and
every later call stays there. -/
theorem exists_stop (r : Reader) :
    ∃ stop, ∀ k, r.rest.length ≤ k → (r.behind k).next.1 = .ok ⟨.eof, stop, false⟩ := by
  have hnil : (r.behind r.rest.length).rest = [] := by
    rcases behind_rest r.rest.length r with hnil | hle
    · exact hnil
    · exact length_eq_zero_iff.1 (by omega)
  refine ⟨(r.behind r.rest.length).place, fun k hk => ?_⟩
  obtain ⟨k, rfl⟩ := Nat.exists_eq_add_of_le hk
  rw [behind_add_of_nil hnil, next_of_nil hnil]

/-! ### Feeds -/

section feed

variable {r : Reader} {token : Token}

theorem tokens_feed_end (n : Nat) (h : r.next.1 = .ok token) (hend : token.kind = .eof) :
    (r.feed (n + 1)).tokens = .ok [token] := by
  rw [feed_succ, h, if_pos (by simp [isEnd, hend])]
  rfl

theorem tokens_feed_token (n : Nat) (h : r.next.1 = .ok token) (hend : token.kind ≠ .eof) :
    (r.feed (n + 1)).tokens = (token :: ·) <$> (r.next.2.feed n).tokens := by
  rw [feed_succ, h, if_neg (by simp [isEnd, hend])]
  rw [Feed.tokens, Feed.tokens, mapM_cons]
  rfl

theorem tokens_feed_error {d : Diagnostic} (n : Nat) (h : r.next.1 = .error d) :
    (r.feed (n + 1)).tokens = .error d := by
  rw [feed_succ, h, if_neg (by simp [isEnd])]
  rfl

end feed

end Reader

/-! ### Pieces -/

/-- A token in a source text: its spacing, the characters that spell it, and what it is. -/
structure Piece where
  gap : List Char
  lexeme : List Char
  kind : TokenKind

/-- The text that pieces and the spacing at its end make up. -/
def layout (pieces : List Piece) (last : List Char) : List Char :=
  pieces.flatMap (fun piece => piece.gap ++ piece.lexeme) ++ last

/-- The tokens of a text in pieces, behind a text that has been read: each stands where its characters begin,
and after a line break if its spacing has one. -/
def tokensFrom (before : List Char) : List Piece → List Char → List Token
  | [], last => [⟨.eof, .behind (before ++ last), last.contains '\n'⟩]
  | piece :: pieces, last =>
      ⟨piece.kind, .behind (before ++ piece.gap), piece.gap.contains '\n'⟩ ::
        tokensFrom (before ++ (piece.gap ++ piece.lexeme)) pieces last

section pieces

variable {r : Reader} {before last : List Char} {pieces : List Piece}

theorem layout_cons (piece : Piece) (pieces : List Piece) (last : List Char) :
    layout (piece :: pieces) last = piece.gap ++ (piece.lexeme ++ layout pieces last) := by
  simp [layout]

/-- Pieces that stand apart: the spacing of each but the first begins with a blank, and so does the spacing
at the end. -/
def Apart (pieces : List Piece) (last : List Char) : Prop :=
  (∀ piece ∈ pieces.tail, piece.gap ≠ [] ∧ Scan.Parted piece.gap) ∧ (pieces ≠ [] → Scan.Parted last)

theorem Apart.parted {piece : Piece} (h : Apart (piece :: pieces) last) : Scan.Parted (layout pieces last) := by
  cases pieces with
  | nil => exact h.2 (cons_ne_nil _ _)
  | cons next pieces =>
    obtain ⟨hne, hparted⟩ := h.1 next mem_cons_self
    obtain ⟨c, rest, hgap⟩ := exists_cons_of_ne_nil hne
    intro d hd
    rw [layout_cons, hgap] at hd
    exact hparted d (by rw [hgap]; exact hd)

theorem Apart.tail {piece : Piece} (h : Apart (piece :: pieces) last) : Apart pieces last :=
  ⟨fun next hnext => h.1 next (mem_of_mem_tail hnext), fun _ => h.2 (cons_ne_nil _ _)⟩

theorem tokens_feed_layout {n : Nat} (hspells : ∀ piece ∈ pieces, Scan.Spells piece.kind piece.lexeme)
    (hgaps : ∀ piece ∈ pieces, Trivia.Spacing piece.gap) (hlast : Trivia.Trailing last)
    (hapart : Apart pieces last) (hr : r.rest = layout pieces last) (hplace : r.place = .behind before)
    (hn : pieces.length < n) : (r.feed n).tokens = .ok (tokensFrom before pieces last) := by
  obtain ⟨n, rfl⟩ : ∃ k, n = k + 1 := ⟨n - 1, by omega⟩
  induction pieces generalizing r before n with
  | nil =>
    obtain rfl : r.rest = last := hr
    have hnext := Reader.next_trailing hlast
    rw [Reader.tokens_feed_end n (by rw [hnext]) rfl, hplace, Location.behind_after]
    rfl
  | cons piece pieces ih =>
    have hpiece := hspells piece mem_cons_self
    have hnext := Reader.next_scanned (hgaps piece mem_cons_self) (hpiece.starts hapart.parted)
      (hpiece.lexeme hapart.parted) (hr.trans (layout_cons piece pieces last))
    rw [Reader.answer] at hnext
    have hend : piece.kind ≠ .eof := by
      intro hkind
      rw [hkind] at hpiece
      cases hpiece
    rw [length_cons] at hn
    obtain ⟨n, rfl⟩ : ∃ k, n = k + 1 := ⟨n - 1, by omega⟩
    have hlater := ih (r := ⟨r.place.after (piece.gap ++ piece.lexeme), layout pieces last⟩)
      (fun p hp => hspells p (mem_cons_of_mem piece hp))
      (fun p hp => hgaps p (mem_cons_of_mem piece hp)) hapart.tail rfl
      (by rw [hplace, Location.behind_after]) n (by omega)
    rw [Reader.tokens_feed_token (n + 1) (by rw [hnext]) hend, hnext, hlater, hplace, Location.behind_after]
    rfl

theorem length_le_layout (hspells : ∀ piece ∈ pieces, Scan.Spells piece.kind piece.lexeme) :
    pieces.length ≤ (layout pieces last).length := by
  induction pieces with
  | nil => simp
  | cons piece pieces ih =>
    obtain ⟨c, rest, hlexeme, -⟩ := (hspells piece mem_cons_self).exists_cons
    have hle := ih fun p hp => hspells p (mem_cons_of_mem piece hp)
    rw [layout_cons, hlexeme]
    simp
    omega

theorem exists_pieces {n : Nat} {tokens : List Token} (hplace : r.place = .behind before)
    (hn : r.rest.length < n) (h : (r.feed n).tokens = .ok tokens) :
    ∃ pieces last, r.rest = layout pieces last ∧
      (∀ piece ∈ pieces, Trivia.Spacing piece.gap ∧ piece.lexeme ≠ [] ∧
        (Scan.Spells piece.kind piece.lexeme ∨ Scan.SpellsBlock piece.kind piece.lexeme)) ∧
      Trivia.Trailing last ∧ tokens = tokensFrom before pieces last := by
  induction n generalizing r before tokens with
  | zero => omega
  | succ n ih =>
    cases hanswer : r.next.1 with
    | error d =>
      rw [Reader.tokens_feed_error n hanswer] at h
      cases h
    | ok token =>
      rcases Reader.next_cases hanswer with htrailing | ⟨gap, l, y, kind, hfinds⟩
      · have hnext := Reader.next_trailing htrailing
        rw [Reader.tokens_feed_end n (by rw [hnext]) rfl, hplace, Location.behind_after] at h
        exact ⟨[], r.rest, rfl, nofun, htrailing, (Except.ok.inj h).symm⟩
      · have hnext := hfinds.next
        rw [Reader.tokens_feed_token n (by rw [hnext]) hfinds.ne_eof, hnext] at h
        obtain ⟨later, hlater, rfl⟩ := Escape.exists_of_map_eq_ok h
        have hlength : y.length < n := by
          have hpos := length_pos_iff.2 hfinds.ne_nil
          rw [hfinds.text_eq, length_append, length_append] at hn
          omega
        obtain ⟨pieces, last, hy, hpieces, hlast, rfl⟩ :=
          ih (r := ⟨r.place.after (gap ++ l), y⟩) (by rw [hplace, Location.behind_after]) hlength hlater
        refine ⟨⟨gap, l, kind⟩ :: pieces, last, ?_, ?_, hlast, ?_⟩
        · rw [layout_cons, hfinds.text_eq]
          exact congrArg (fun rest => gap ++ (l ++ rest)) hy
        · intro piece hpiece
          rcases mem_cons.1 hpiece with rfl | hpiece
          · exact ⟨hfinds.spacing, hfinds.ne_nil, hfinds.spells.imp_right And.left⟩
          · exact hpieces piece hpiece
        · rw [hplace, Location.behind_after]
          rfl

end pieces

/-! ### Source texts -/

/-- **Source texts are divided without loss, and reading them comes to an end.**  If a text is read, it is a
sequence of pieces, each of which has spacing, and characters that spell its token; the tokens stand at the
places found by counting, and after a line break if their spacing has one.  For any text at all, a call that
does not give the end of the input takes a character, so as many calls as there are characters lead to the
end, and all later calls find it at the same place. -/
theorem tokenize_divides (source : String) : (∀ tokens, tokenize source = .ok tokens →
      ∃ pieces last, source.toList = layout pieces last ∧
        (∀ piece ∈ pieces, Trivia.Spacing piece.gap ∧ piece.lexeme ≠ [] ∧
          (Scan.Spells piece.kind piece.lexeme ∨ Scan.SpellsBlock piece.kind piece.lexeme)) ∧
        Trivia.Trailing last ∧ tokens = tokensFrom [] pieces last) ∧
    (∀ reader : Reader, Reader.isEnd reader.next.1 = false →
      ∃ taken, taken ≠ [] ∧ reader.rest = taken ++ reader.next.2.rest) ∧
    ∃ stop, ∀ n k, source.length ≤ k → k < n →
      (Reader.steps n (.ofSource source))[k]? = some (.ok ⟨.eof, stop, false⟩) := by
  refine ⟨fun tokens htokens => exists_pieces rfl (Nat.lt_succ_self _) htokens, fun reader hend => ?_, ?_⟩
  · obtain ⟨taken, htaken⟩ := Reader.next_rest_suffix reader
    refine ⟨taken, ?_, htaken.symm⟩
    rintro rfl
    have hlt := Reader.next_rest_lt_of_not_end hend
    rw [← htaken, nil_append] at hlt
    omega
  · obtain ⟨stop, hstop⟩ := Reader.exists_stop (.ofSource source)
    refine ⟨stop, fun n k hk hn => ?_⟩
    rw [Reader.getElem?_steps _ hn, hstop k]
    rwa [Reader.ofSource, String.length_toList]

/-- A comment without the end of its line behind the last token. -/
theorem tokenize_divides_comment :
    tokenize "x\n-y//z" = .ok [⟨.identifier "x", ⟨1, 1⟩, false⟩, ⟨.mark .minus, ⟨2, 1⟩, true⟩,
        ⟨.identifier "y", ⟨2, 2⟩, false⟩, ⟨.eof, ⟨2, 6⟩, false⟩] ∧
      ∃ pieces last, "x\n-y//z".toList = layout pieces last ∧
        (∀ piece ∈ pieces, Trivia.Spacing piece.gap ∧ piece.lexeme ≠ [] ∧
          (Scan.Spells piece.kind piece.lexeme ∨ Scan.SpellsBlock piece.kind piece.lexeme)) ∧
        Trivia.Trailing last ∧
        [⟨.identifier "x", ⟨1, 1⟩, false⟩, ⟨.mark .minus, ⟨2, 1⟩, true⟩,
          ⟨.identifier "y", ⟨2, 2⟩, false⟩, ⟨.eof, ⟨2, 6⟩, false⟩] = tokensFrom [] pieces last :=
  ⟨rfl, (tokenize_divides "x\n-y//z").1 _ rfl⟩

/-- **Reading undoes writing.**  A text that is written in pieces which stand apart is read as their tokens,
followed by the end of the input. -/
theorem tokenize_layout {pieces : List Piece} {last : List Char}
    (hspells : ∀ piece ∈ pieces, Scan.Spells piece.kind piece.lexeme)
    (hgaps : ∀ piece ∈ pieces, Trivia.Spacing piece.gap) (hlast : Trivia.Trailing last)
    (hapart : Apart pieces last) :
    tokenize (String.ofList (layout pieces last)) = .ok (tokensFrom [] pieces last) := by
  have hrest : (Reader.ofSource (String.ofList (layout pieces last))).rest = layout pieces last :=
    String.toList_ofList
  have hlength : pieces.length ≤ (layout pieces last).length := length_le_layout hspells
  refine tokens_feed_layout hspells hgaps hlast hapart hrest rfl ?_
  rw [hrest]
  omega

/-- An optional type in front of the operator that begins like its mark, and a nested comment. -/
theorem tokenize_layout_optional :
    tokenize "Int? ?? /*/**/*/\n\"\\n\"" = .ok [⟨.typeName (.optional .int), ⟨1, 1⟩, false⟩,
      ⟨.mark .coalesce, ⟨1, 6⟩, false⟩, ⟨.stringLiteral "\n", ⟨2, 1⟩, true⟩, ⟨.eof, ⟨2, 5⟩, false⟩] := by
  have hcomment : Trivia.Spacing [' ', '/', '*', '/', '*', '*', '/', '*', '/', '\n'] :=
    .blank rfl (.block (.inward (.outward .last)) (.blank rfl .nil))
  have hparted : ∀ rest, Scan.Parted (' ' :: rest) := by
    intro rest c hc
    cases hc
    rfl
  have hescape : Scan.Spells (.stringLiteral "\n") ['"', '\\', 'n', '"'] := .string (.short (by decide) .nil)
  refine @tokenize_layout
    [⟨[], ['I', 'n', 't', '?'], .typeName (.optional .int)⟩, ⟨[' '], ['?', '?'], .mark .coalesce⟩,
      ⟨[' ', '/', '*', '/', '*', '*', '/', '*', '/', '\n'], ['"', '\\', 'n', '"'], .stringLiteral "\n"⟩]
    [] ?_ ?_ (.spacing .nil) ⟨?_, fun _ => nofun⟩
  · simp only [forall_mem_cons, not_mem_nil]
    exact ⟨.typeName (show (Ty.optional .int).isStorable = true from rfl), .mark .coalesce, hescape, nofun⟩
  · simp only [forall_mem_cons, not_mem_nil]
    exact ⟨.nil, .blank rfl .nil, hcomment, nofun⟩
  · simp only [tail_cons, forall_mem_cons, not_mem_nil]
    exact ⟨⟨nofun, hparted _⟩, ⟨nofun, hparted _⟩, nofun⟩

end OnePass
