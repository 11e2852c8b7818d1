import OnePass.Proofs.Lexeme.Literal
import OnePass.Proofs.Lexeme.Spacing
import OnePass.Proofs.Parsing.Lockstep

/-!
# Exchanging blanks and comments

Where a token ends in a source text, the blanks and comments that follow can be exchanged for others: the
reader gives the same tokens, up to their places.

Main results:

* `Reader.next_congr` — readers of the same text give the same answer;
* `Reader.next_spacing` — so do readers in front of spacing and the same text;
* `Reader.next_local` — and readers of a lexeme, if it ends in both texts;
* `Reader.Cuts.alike` — **spacing can be exchanged where a token ends**.
-/

namespace OnePass

open List

/-- All places are the same. -/
def Location.forget (_ : Location) : Location := .start

namespace Reader

open Scan

/-! ### One call -/

section next

variable {r r' : Reader} {place : Location} {afterBreak : Bool} {text : List Char}

theorem next_of_lexeme (h : Trivia.skip r.place r.rest = .lexeme place afterBreak text) :
    r.next = take place afterBreak text := by
  rw [next, h]

theorem next_trailing (h : Trivia.Trailing r.rest) :
    r.next = (.ok ⟨.eof, r.place.after r.rest, r.rest.contains '\n'⟩, ⟨r.place.after r.rest, []⟩) := by
  rw [next, Trivia.skip, h.skipFrom]
  rfl

theorem next_unclosed {gap : List Char} (hgap : Trivia.Spacing gap) (hopen : Trivia.Unclosed 0 text)
    (h : r.rest = gap ++ '/' :: '*' :: text) :
    r.next = (.error ⟨.unclosedComment, some (r.place.after gap)⟩, ⟨r.place.after r.rest, []⟩) := by
  rw [next, Trivia.skip, h, hopen.skip hgap]

theorem take_alike {place' : Location} {text' : List Char}
    (h : (lexeme text').outcome = (lexeme text).outcome) :
    relocateAnswer Location.forget (take place afterBreak text).1 =
      relocateAnswer Location.forget (take place' afterBreak text').1 := by
  rw [take, take, h]
  cases (lexeme text).outcome <;> rfl

theorem next_of_alike {R : Location → Location → Prop}
    (h : (Trivia.skip r.place r.rest).Alike R false (Trivia.skip r'.place r'.rest)) :
    relocateAnswer Location.forget r.next.1 = relocateAnswer Location.forget r'.next.1 ∧
      r.next.2.rest = r'.next.2.rest := by
  unfold next
  generalize Trivia.skip r.place r.rest = gap at h ⊢
  generalize Trivia.skip r'.place r'.rest = gap' at h ⊢
  cases h with
  | lexeme => exact ⟨take_alike rfl, rfl⟩
  | unclosed => exact ⟨rfl, rfl⟩

theorem next_congr (h : r.rest = r'.rest) :
    relocateAnswer Location.forget r.next.1 = relocateAnswer Location.forget r'.next.1 ∧
      r.next.2.rest = r'.next.2.rest := by
  refine next_of_alike (R := fun _ _ => True) ?_
  rw [h]
  exact Trivia.skip_alike (fun _ _ => trivial) false _ trivial

theorem next_spacing {gap gap' rest : List Char} (hgap : Trivia.Spacing gap) (hgap' : Trivia.Spacing gap')
    (hbreak : gap.contains '\n' = gap'.contains '\n') (h : r.rest = gap ++ rest)
    (h' : r'.rest = gap' ++ rest) :
    relocateAnswer Location.forget r.next.1 = relocateAnswer Location.forget r'.next.1 ∧
      r.next.2.rest = r'.next.2.rest := by
  refine next_of_alike (R := fun _ _ => True) ?_
  rw [h, h', Trivia.skip, Trivia.skip, hgap.skipFrom, hgap'.skipFrom, hbreak]
  exact Trivia.skipFrom_alike (fun _ _ => trivial) false rest trivial

theorem next_of_starts {gap : List Char} (hgap : Trivia.Spacing gap) (hstarts : Trivia.Starts text)
    (h : r.rest = gap ++ text) : r.next = take (r.place.after gap) (gap.contains '\n') text := by
  refine next_of_lexeme ?_
  rw [h, hgap.skip hstarts]

theorem exists_starts (h : r.next.2.rest ≠ [] ∨ isFinal r.next.1 = false) :
    ∃ gap c text, r.rest = gap ++ c :: text ∧ Trivia.Spacing gap ∧ Trivia.Starts (c :: text) := by
  generalize hrest : r.rest = rest
  cases Trivia.begins rest with
  | @lexeme gap text hgap hstarts =>
    have hstarts' := hstarts
    obtain ⟨c, text, rfl, -⟩ := hstarts'
    exact ⟨gap, c, text, rfl, hgap, hstarts⟩
  | trailing htrailing =>
    rw [next_trailing (hrest ▸ htrailing)] at h
    rcases h with h | h
    · exact absurd rfl h
    · cases h
  | comment hgap hopen =>
    rw [next_unclosed hgap hopen hrest] at h
    rcases h with h | h
    · exact absurd rfl h
    · cases h

theorem isEnd_of_not_final {answer : Except Diagnostic Token} (h : isFinal answer = false) :
    isEnd answer = false := by
  cases answer with
  | ok token => exact h
  | error d => rfl

theorem next_rest_lt_of_not_end (h : isEnd r.next.1 = false) : r.next.2.rest.length < r.rest.length := by
  generalize hrest : r.rest = rest
  cases Trivia.begins rest with
  | @lexeme gap text hgap hstarts =>
    have hstarts' := hstarts
    obtain ⟨c, text, rfl, -⟩ := hstarts'
    have hle := (lexeme_rest_suffix c text).length_le
    rw [next_of_starts hgap hstarts hrest, length_append, length_cons]
    show (lexeme (c :: text)).rest.length < _
    omega
  | trailing htrailing =>
    rw [next_trailing (hrest ▸ htrailing)] at h
    cases h
  | comment hgap hopen =>
    rw [next_unclosed hgap hopen hrest]
    exact length_pos_iff.2 (append_ne_nil_of_right_ne_nil _ (cons_ne_nil _ _))

theorem next_rest_lt (h : isFinal r.next.1 = false) : r.next.2.rest.length < r.rest.length :=
  next_rest_lt_of_not_end (isEnd_of_not_final h)

theorem next_rest_suffix (r : Reader) : r.next.2.rest <:+ r.rest := by
  by_cases hnil : r.next.2.rest = []
  · rw [hnil]
    exact nil_suffix
  · obtain ⟨gap, c, text, hrest, hgap, hstarts⟩ := exists_starts (.inl hnil)
    rw [next_of_starts hgap hstarts hrest, hrest]
    exact (lexeme_rest_suffix c text).trans ((suffix_cons c text).trans (suffix_append ..))

end next

/-! ### Spacing behind a token -/

end Reader

theorem Trivia.Spacing.parts {gap : List Char} (h : Spacing gap) (hne : gap ≠ []) :
    ∃ c rest, gap = c :: rest ∧ Scan.Parts c := by
  cases h with
  | nil => exact absurd rfl hne
  | blank hc => exact ⟨_, _, rfl, .inl hc⟩
  | line => exact ⟨_, _, rfl, .inr rfl⟩
  | block => exact ⟨_, _, rfl, .inr rfl⟩

/-- Spacing that can stand behind a text that ends with a token.  Behind a division sign it does not begin
with a comment, and behind a text block it begins with a line break. -/
structure Trivia.Behind (text gap : List Char) : Prop where
  spacing : Spacing gap
  ne_nil : gap ≠ []
  slash : ['/'] <:+ text → gap.head? ≠ some '/'
  quotes : Scan.tripleQuote <:+ text → gap.head? = some '\n'

theorem Trivia.Behind.of_suffix {text text' gap : List Char} (h : Behind text gap) (hsuffix : text' <:+ text) :
    Behind text' gap :=
  ⟨h.spacing, h.ne_nil, fun hslash => h.slash (hslash.trans hsuffix),
    fun hquotes => h.quotes (hquotes.trans hsuffix)⟩

namespace Reader

section exchange

variable {r r' : Reader} {t m gap y rest : List Char}

/-- **A call gives the same answer**, if the text behind the lexeme is exchanged for spacing that can stand
there; or if the text is exchanged further behind, where only the second one of two question marks could be
missed. -/
theorem next_local (hgap : Trivia.Behind t gap) (hr : r.rest = t ++ y) (hr' : r'.rest = t ++ (gap ++ rest))
    (hrest : r.next.2.rest = m ++ y)
    (h : m ≠ [] ∧ (m = ['?'] → y.head? ≠ some '?') ∨ m = [] ∧ isFinal r.next.1 = false) :
    relocateAnswer Location.forget r.next.1 = relocateAnswer Location.forget r'.next.1 ∧
      r'.next.2.rest = m ++ (gap ++ rest) := by
  have hsome : r.next.2.rest ≠ [] ∨ isFinal r.next.1 = false := by
    rcases h with ⟨hm, -⟩ | ⟨-, hfinal⟩
    · rw [hrest]
      exact .inl fun hnil => hm (append_eq_nil_iff.1 hnil).1
    · exact .inr hfinal
  obtain ⟨before, c, text, htext, hbefore, hstarts⟩ := exists_starts hsome
  have hnext := next_of_starts hbefore hstarts htext
  have hlexeme : (lexeme (c :: text)).rest = m ++ y := by
    rw [hnext] at hrest
    exact hrest
  have hsuffix := lexeme_rest_suffix c text
  rw [hlexeme] at hsuffix
  obtain ⟨l, rfl⟩ := hsuffix
  have ht : t = before ++ c :: (l ++ m) := by
    have happend : t ++ y = (before ++ c :: (l ++ m)) ++ y := by
      rw [← hr, htext]
      simp
    exact append_cancel_right happend
  obtain ⟨d, w, rfl, hparts⟩ := hgap.spacing.parts hgap.ne_nil
  have hstarts' : Trivia.Starts (c :: (l ++ (m ++ (d :: w ++ rest)))) := by
    obtain ⟨_, _, heq, hblank, hslash⟩ := hstarts
    obtain ⟨rfl, rfl⟩ := List.cons.inj heq
    refine ⟨_, _, rfl, hblank, fun hc => ?_⟩
    cases hlm : l ++ m with
    | nil =>
      obtain ⟨rfl, rfl⟩ := append_eq_nil_iff.1 hlm
      have hd : d ≠ '/' := fun hd => hgap.slash ⟨before, by rw [ht, hc]; rfl⟩ (congrArg some hd)
      have hd' := hparts.ne (d := '*') (by decide) (by decide) (by decide)
      exact ⟨fun heq => hd (Option.some.inj heq), fun heq => hd' (Option.some.inj heq)⟩
    | cons e v =>
      rw [← append_assoc, hlm] at hslash ⊢
      exact hslash hc
  have htext' : r'.rest = before ++ c :: (l ++ (m ++ (d :: w ++ rest))) := by
    rw [hr', ht]
    simp
  have hended : (lexeme (c :: (l ++ (m ++ y)))).EndedBy (m ++ (d :: w ++ rest)) := by
    rcases h with ⟨hm, hmark⟩ | ⟨rfl, hfinal⟩
    · obtain ⟨e, v, rfl⟩ := exists_cons_of_ne_nil hm
      refine .same hlexeme fun he => ?_
      cases v with
      | cons => exact Iff.rfl
      | nil =>
        have hd := hparts.ne (d := '?') (by decide) (by decide) (by decide)
        exact iff_of_false (hmark (by rw [he])) fun heq => hd (Option.some.inj heq)
    · obtain ⟨kind, hkind⟩ : ∃ kind, (lexeme (c :: (l ++ ([] ++ y)))).outcome = .ok kind := by
        rw [hnext, take] at hfinal
        cases houtcome : (lexeme (c :: (l ++ ([] ++ y)))).outcome with
        | ok kind => exact ⟨kind, rfl⟩
        | error fault =>
          rw [houtcome] at hfinal
          cases hfinal
      exact .parted hkind hparts
  have hlocal := lexeme_local hlexeme hended fun hquotes => by
    cases m with
    | cons => exact .inr rfl
    | nil =>
      refine .inl (hgap.quotes (hquotes.trans ?_))
      rw [ht, append_nil]
      exact suffix_append ..
  rw [hnext, next_of_starts hbefore hstarts' htext']
  exact ⟨take_alike (by rw [hlocal]), by rw [take, hlocal]⟩

/-! ### A run of calls -/

/-- One of the tokens that a reader is going to give ends in front of a text. -/
inductive Cuts (y : List Char) : Reader → Prop where
  | last {r : Reader} (htoken : isFinal r.next.1 = false) (hrest : r.next.2.rest = y) : Cuts y r
  | later {r : Reader} (h : Cuts y r.next.2) : Cuts y r

theorem Cuts.suffix (h : r.Cuts y) : y <:+ r.rest := by
  induction h with
  | last _ hrest =>
    rw [← hrest]
    exact next_rest_suffix _
  | later _ ih => exact ih.trans (next_rest_suffix _)

theorem Cuts.length_lt (h : r.Cuts y) : y.length < r.rest.length := by
  induction h with
  | last htoken hrest =>
    rw [← hrest]
    exact next_rest_lt htoken
  | later _ ih => exact Nat.lt_of_lt_of_le ih (next_rest_suffix _).length_le

theorem Cuts.not_question (h : r.Cuts y) (hr : r.rest = '?' :: y) : y.head? ≠ some '?' := by
  intro hhead
  obtain ⟨w, rfl⟩ := List.head?_eq_some_iff.1 hhead
  have hstarts : Trivia.Starts ('?' :: '?' :: w) := ⟨_, _, rfl, by decide, fun hc => absurd hc (by decide)⟩
  have hrest : r.next.2.rest = w := by
    rw [next_of_starts Trivia.Spacing.nil hstarts hr]
    rfl
  cases h with
  | last _ heq => exact absurd (congrArg List.length (hrest.symm.trans heq)) (by simp)
  | later h =>
    have hlt := h.length_lt
    rw [hrest, length_cons] at hlt
    omega

theorem feed_succ (r : Reader) (n : Nat) : r.feed (n + 1) =
      if isEnd r.next.1 then ⟨[r.next.1], r.next.2.place⟩
      else { r.next.2.feed n with results := r.next.1 :: (r.next.2.feed n).results } := rfl

theorem feed_next (r : Reader) (n : Nat) : (r.feed (n + 1)).next.1 = r.next.1 := by
  rw [feed_succ]
  split <;> rfl

theorem feed_after (n : Nat) (h : isFinal r.next.1 = false) : (r.feed (n + 1)).next.2 = r.next.2.feed n := by
  rw [feed_succ, isEnd_of_not_final h]
  rfl

/-- Readers have feeds that are alike, if the first answer is alike and the feeds after it are.  The bounds
on the number of calls are large enough throughout. -/
theorem alike_of_next {S : Comparison} (hn : r.rest.length < n) (hn' : r'.rest.length < n')
    (hanswer : AnswersAlike S r.next.1 r'.next.1)
    (hlater : ∀ k k', isFinal r.next.1 = false → r.next.2.rest.length < k →
      r'.next.2.rest.length < k' → ∃ i, (r.next.2.feed k).Alike S i (r'.next.2.feed k')) :
    ∃ i, (r.feed n).Alike S i (r'.feed n') := by
  obtain ⟨n, rfl⟩ := Nat.exists_eq_succ_of_ne_zero (Nat.ne_of_gt (Nat.zero_lt_of_lt hn))
  obtain ⟨n', rfl⟩ := Nat.exists_eq_succ_of_ne_zero (Nat.ne_of_gt (Nat.zero_lt_of_lt hn'))
  have hfinal_eq := hanswer.isFinal_eq
  rw [← feed_next r n, ← feed_next r' n'] at hanswer
  cases hfinal : isFinal r.next.1 with
  | true => exact ⟨0, .final hanswer (by rw [feed_next, hfinal])⟩
  | false =>
    rw [hfinal] at hfinal_eq
    have hlt := next_rest_lt hfinal
    have hlt' := next_rest_lt hfinal_eq.symm
    obtain ⟨i, hi⟩ := hlater n n' hfinal (by omega) (by omega)
    rw [← feed_after n hfinal, ← feed_after n' hfinal_eq.symm] at hi
    exact ⟨i + 1, .token hanswer (by rw [feed_next, hfinal]) hi⟩

theorem alike_of_rest (h : r.rest = r'.rest) (hn : r.rest.length < n) (hn' : r'.rest.length < n') :
    ∃ i, (r.feed n).Alike (.upTo Location.forget) i (r'.feed n') := by
  induction hlength : r.rest.length using Nat.strong_induction_on generalizing r r' n n' with
  | _ length ih =>
    obtain ⟨hanswer, hrest⟩ := next_congr h
    refine alike_of_next hn hn' (answersAlike_of_relocate hanswer) fun k k' hfinal hk hk' => ?_
    exact ih _ (hlength ▸ next_rest_lt hfinal) hrest hk hk' rfl

variable {gap' : List Char}
variable {n n' : Nat}

theorem alike_of_spacing (hgap : Trivia.Spacing gap) (hgap' : Trivia.Spacing gap')
    (hbreak : gap.contains '\n' = gap'.contains '\n') (hr : r.rest = gap ++ rest) (hr' : r'.rest = gap' ++ rest)
    (hn : r.rest.length < n) (hn' : r'.rest.length < n') :
    ∃ i, (r.feed n).Alike (.upTo Location.forget) i (r'.feed n') := by
  obtain ⟨hanswer, hrest⟩ := next_spacing hgap hgap' hbreak hr hr'
  exact alike_of_next hn hn' (answersAlike_of_relocate hanswer) fun k k' _ hk hk' => alike_of_rest hrest hk hk'

/-- **Spacing can be exchanged where a token ends.** -/
theorem Cuts.alike (h : r.Cuts (gap ++ rest)) (hgap : Trivia.Spacing gap)
    (hgap' : Trivia.Behind t gap') (hbreak : gap.contains '\n' = gap'.contains '\n')
    (hr : r.rest = t ++ (gap ++ rest)) (hr' : r'.rest = t ++ (gap' ++ rest)) (hn : r.rest.length < n)
    (hn' : r'.rest.length < n') : ∃ i, (r.feed n).Alike (.upTo Location.forget) i (r'.feed n') := by
  induction h generalizing r' t n n' with
  | last htoken hrest =>
    obtain ⟨hanswer, hrest'⟩ := next_local (m := []) hgap' hr hr' hrest (.inr ⟨rfl, htoken⟩)
    exact alike_of_next hn hn' (answersAlike_of_relocate hanswer) fun k k' _ hk hk' =>
      alike_of_spacing hgap hgap'.spacing hbreak hrest hrest' hk hk'
  | @later r h ih =>
    obtain ⟨m, hm⟩ := h.suffix
    have hne : m ≠ [] := by
      rintro rfl
      exact absurd h.length_lt (by rw [← hm]; exact Nat.lt_irrefl _)
    have hmark : m = ['?'] → (gap ++ rest).head? ≠ some '?' := by
      rintro rfl
      exact h.not_question hm.symm
    obtain ⟨hanswer, hrest'⟩ := next_local hgap' hr hr' hm.symm (.inl ⟨hne, hmark⟩)
    have hsuffix : m <:+ t := by
      have hrest := next_rest_suffix r
      rw [← hm, hr] at hrest
      exact suffix_append_self_iff.1 hrest
    exact alike_of_next hn hn' (answersAlike_of_relocate hanswer) fun k k' _ hk hk' =>
      ih (hgap'.of_suffix hsuffix) hm.symm hrest' hk hk'

end exchange

end Reader

end OnePass
