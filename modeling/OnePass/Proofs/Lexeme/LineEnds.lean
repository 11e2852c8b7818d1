import Mathlib.Data.List.Forall2
import OnePass.Proofs.Lexeme.Quotation

/-!
# Lines that end with a carriage return

Some editors write a carriage return in front of every line break.  Between lexemes, inside of comments and at
the end of the lines of a text block it is passed over.  Only the closing quotes of a text block have to stand
alone up to the line break, and there a carriage return is in the way.

Main results:

* `returned` — a text with a carriage return in front of every line break;
* `Reader.next_returned` — a call on such a text gives the same answer;
* `tokenize_returned` — **carriage returns change no token, if no text block has a line break behind it**;
* `tokenize_returned_block` — a text block with a line break behind it is not closed.
-/

namespace OnePass

open List

/-- A text with a carriage return in front of every line break. -/
def returned (text : List Char) : List Char := text.flatMap fun c => if c = '\n' then ['\r', '\n'] else [c]

section returned

variable {text l : List Char}

theorem returned_append (l text : List Char) : returned (l ++ text) = returned l ++ returned text :=
  flatMap_append

theorem returned_break (text : List Char) : returned ('\n' :: text) = '\r' :: '\n' :: returned text := rfl

theorem returned_cons {c : Char} (hc : c ≠ '\n') (text : List Char) :
    returned (c :: text) = c :: returned text := by
  rw [returned, flatMap_cons, if_neg hc]
  rfl

theorem returned_of_notMem (h : '\n' ∉ l) : returned l = l := by
  induction l with
  | nil => rfl
  | cons c l ih =>
    rw [mem_cons, not_or] at h
    rw [returned_cons (Ne.symm h.1), ih h.2]

/-- A line break begins a text that has been returned with a carriage return; all else stays. -/
theorem head?_returned (text : List Char) :
    (returned text).head? = if text.head? = some '\n' then some '\r' else text.head? := by
  cases text with
  | nil => rfl
  | cons c text =>
    by_cases hc : c = '\n'
    · rw [hc]
      rfl
    · have hne : (c :: text).head? ≠ some '\n' := fun heq => hc (Option.some.inj heq)
      rw [returned_cons hc, if_neg hne]
      rfl

theorem contains_returned (text : List Char) : (returned text).contains '\n' = text.contains '\n' := by
  induction text with
  | nil => rfl
  | cons c text ih =>
    by_cases hc : c = '\n'
    · rw [hc]
      rfl
    · rw [returned_cons hc, contains_cons, contains_cons, ih]

theorem Location.after_returned (place : Location) (text : List Char) :
    place.after (returned text) = place.after text := by
  induction text generalizing place with
  | nil => rfl
  | cons c text ih =>
    by_cases hc : c = '\n'
    · rw [hc, returned_break, after_cons, after_cons, after_cons, ih]
      rfl
    · rw [returned_cons hc, after_cons, after_cons, ih]

end returned

/-! ### Spacing -/

namespace Trivia

variable {text gap : List Char}

theorem Closes.returned {depth : Nat} (h : Closes depth text) : Closes depth (returned text) := by
  induction h with
  | last => exact .last
  | outward _ ih => exact .outward ih
  | inward _ ih => exact .inward ih
  | @other depth c text hopens hcloses _ ih =>
    have hhead : ∀ d, d ≠ '\r' → (OnePass.returned text).head? = some d → text.head? = some d := by
      intro d hd heq
      rw [head?_returned] at heq
      split at heq
      · exact absurd (Option.some.inj heq).symm hd
      · exact heq
    have hother : Closes depth (c :: OnePass.returned text) :=
      .other (fun h => hopens ⟨h.1, hhead _ (by decide) h.2⟩) (fun h => hcloses ⟨h.1, hhead _ (by decide) h.2⟩) ih
    by_cases hc : c = '\n'
    · rw [hc] at hother ⊢
      exact .other nofun nofun hother
    · rw [returned_cons hc]
      exact hother

theorem Spacing.returned (h : Spacing gap) : Spacing (returned gap) := by
  induction h with
  | nil => exact .nil
  | @blank c gap hblank _ ih =>
    by_cases hc : c = '\n'
    · rw [hc]
      exact .blank rfl (.blank rfl ih)
    · rw [returned_cons hc]
      exact .blank hblank ih
  | @line text gap htext _ ih =>
    have hline := @Spacing.line (text ++ ['\r']) _ (by simpa using htext) ih
    rw [append_assoc] at hline
    rwa [returned_cons (by decide), returned_cons (by decide), returned_append, returned_of_notMem htext]
  | block htext _ ih =>
    rw [returned_cons (by decide), returned_cons (by decide), returned_append]
    exact .block htext.returned ih

theorem Trailing.returned (h : Trailing text) : Trailing (returned text) := by
  cases h with
  | spacing h => exact .spacing h.returned
  | comment h htext =>
    rw [returned_append, returned_cons (by decide), returned_cons (by decide), returned_of_notMem htext]
    exact .comment h.returned htext

theorem Starts.returned (h : Starts text) : Starts (returned text) := by
  obtain ⟨c, rest, rfl, hblank, hslash⟩ := h
  have hc : c ≠ '\n' := by
    rintro rfl
    cases hblank
  refine ⟨c, OnePass.returned rest, returned_cons hc rest, hblank, fun heq => ?_⟩
  obtain ⟨hline, hblock⟩ := hslash heq
  rw [head?_returned]
  split
  · exact ⟨nofun, nofun⟩
  · exact ⟨hline, hblock⟩

end Trivia

/-! ### Lexemes -/

namespace Scan

variable {kind : TokenKind} {l y : List Char}

theorem Digits.notMem_break (h : Digits l) : '\n' ∉ l := fun hmem => by
  cases h.2 '\n' hmem

theorem Fraction.notMem_break {digits : List Char} (h : Fraction l digits) : '\n' ∉ l := by
  cases h with
  | absent => exact not_mem_nil
  | present h => simpa using h.notMem_break

theorem Power.notMem_break {sign digits : List Char} (h : Power l sign digits) : '\n' ∉ l := by
  cases h with
  | absent => exact not_mem_nil
  | present hletter hsign h =>
    have hdigits := h.notMem_break
    rcases hletter with rfl | rfl <;> rcases hsign with rfl | rfl | rfl <;> simpa using hdigits

theorem notMem_break_of_denotes {raw text : List Char} (h : Escape.Denotes Unquoted raw text) : '\n' ∉ raw := by
  induction h with
  | nil => exact not_mem_nil
  | plain hbare _ _ ih => exact fun hmem => (mem_cons.1 hmem).elim (fun heq => hbare.2 heq.symm) ih
  | short hc _ ih =>
    have hne := ne_break_of_short hc
    simp [hne.symm, ih]
  | codePoint hdigits _ _ _ _ ih =>
    have hdigit : '\n' ∉ _ := fun hmem => by cases hdigits '\n' hmem
    simp [hdigit, ih]

theorem Spells.notMem_break (h : Spells kind l) : '\n' ∉ l := by
  cases h with
  | reserved word => cases word <;> decide
  | @typeName ty hty =>
    cases ty with
    | base b | optional b => cases b <;> decide
    | bool | nil | void => cases hty
  | name hc hrest =>
    refine fun hmem => (mem_cons.1 hmem).elim (fun heq => ?_) fun hmem => by cases hrest '\n' hmem
    subst heq
    cases hc
  | integer h => exact h.notMem_break
  | double hwhole hpoint hpower =>
    simpa using ⟨hwhole.notMem_break, hpoint.notMem_break, hpower.notMem_break⟩
  | string h => simpa using notMem_break_of_denotes h
  | mark sign => cases sign <;> decide

theorem Spells.lexeme_returned (h : Spells kind l) (hscan : Reader.lexeme (l ++ y) = ⟨l, .ok kind, y⟩) :
    Reader.lexeme (l ++ returned y) = ⟨l, .ok kind, returned y⟩ := by
  cases y with
  | nil => exact hscan
  | cons c y =>
    by_cases hc : c = '\n'
    · refine h.lexeme fun d hd => ?_
      rw [hc, returned_break] at hd
      cases hd
      rfl
    · obtain ⟨d, rest, rfl, -⟩ := h.exists_cons
      have hmark : c = '?' → (y.head? = some '?' ↔ (returned y).head? = some '?') := by
        intro _
        rw [head?_returned]
        split
        · rename_i hhead
          simp [hhead]
        · exact Iff.rfl
      have hended : (Reader.lexeme (d :: (rest ++ c :: y))).EndedBy (c :: returned y) :=
        .same (by rw [← cons_append, hscan]) hmark
      have hlocal := Reader.lexeme_local (by rw [← cons_append, hscan]) hended fun _ => .inr rfl
      rw [returned_cons hc, cons_append, hlocal, ← cons_append, hscan]

theorem SpellsLine.returned {indentation line text : List Char} (h : SpellsLine indentation line text)
    (hindentation : ∀ c ∈ indentation, Text.isIndent c = true) :
    SpellsLine indentation (line ++ ['\r']) text := by
  cases h with
  | @content raw returns text h hraw hreturns =>
    rw [append_assoc, append_assoc]
    exact .content h hraw (by simpa [or_imp, forall_and] using hreturns)
  | blank hprefix hline =>
    refine .blank (fun hlonger => ?_) (by simpa [or_imp, forall_and] using ⟨hline, rfl⟩)
    rcases prefix_concat_iff.1 hlonger with heq | hshorter
    · cases hindentation '\r' (by simp [heq])
    · exact hprefix hshorter

theorem dropWhile_return_ne (line : List Char) : (line ++ ['\r']).dropWhile Text.isIndent ≠ tripleQuote := by
  intro heq
  have hsuffix := dropWhile_suffix Text.isIndent (l := line ++ ['\r'])
  rw [heq] at hsuffix
  have hlast := hsuffix.getLast (by decide)
  simp [tripleQuote] at hlast

theorem SpellsBlock.returned (h : SpellsBlock kind l) : SpellsBlock kind (returned l) := by
  cases h with
  | @lines opening indentation lines texts hopening hindentation hlines htexts =>
    have hbreak : ∀ {p : Char → Bool} {l : List Char}, (∀ c ∈ l, p c = true) → p '\n' = false → '\n' ∉ l :=
      fun hall hp hmem => Bool.false_ne_true (hp.symm.trans (hall _ hmem))
    have hcontent : ∀ {lines : List (List Char)}, (∀ line ∈ lines, '\n' ∉ line) →
        OnePass.returned (lines.flatMap (· ++ ['\n'])) = (lines.map (· ++ ['\r'])).flatMap (· ++ ['\n']) := by
      intro lines hall
      induction lines with
      | nil => rfl
      | cons line lines ih =>
        obtain ⟨hline, hall⟩ := forall_mem_cons.1 hall
        simp only [flatMap_cons, map_cons, returned_append, returned_of_notMem hline, ih hall]
        simp [OnePass.returned]
    have hblock := @SpellsBlock.lines (opening ++ ['\r']) indentation (lines.map (· ++ ['\r'])) texts
      (by simpa [or_imp, forall_and] using ⟨hopening, rfl⟩) hindentation
      (by simpa using fun line hline => ⟨(hlines line hline).1, dropWhile_return_ne line⟩)
      (forall₂_map_left_iff.2 (htexts.imp fun _ _ hline => hline.returned hindentation))
    rw [← hcontent fun line hline => (hlines line hline).1] at hblock
    have htext : OnePass.returned (tripleQuote ++ (opening ++ '\n' :: (lines.flatMap (· ++ ['\n']) ++
        (indentation ++ tripleQuote)))) = tripleQuote ++ (opening ++ ['\r'] ++ '\n' ::
          (OnePass.returned (lines.flatMap (· ++ ['\n'])) ++ (indentation ++ tripleQuote))) := by
      rw [returned_append, returned_append, returned_break, returned_append, returned_append,
        returned_of_notMem (hbreak hopening rfl), returned_of_notMem (hbreak hindentation rfl)]
      simp [returned_of_notMem, tripleQuote]
    rw [htext]
    exact hblock

end Scan

/-! ### Calls -/

namespace Reader

open Scan

/-- The next lexeme is a text block with a line break behind it. -/
def BreaksBlock (r : Reader) : Prop :=
  ∃ gap kind block rest, r.rest = gap ++ (block ++ '\n' :: rest) ∧ Trivia.Spacing gap ∧ SpellsBlock kind block

variable {r : Reader} {token : Token} {tokens : List Token}

theorem BreaksBlock.head?_next (h : r.BreaksBlock) : r.next.2.rest.head? = some '\n' := by
  obtain ⟨gap, kind, block, rest, hrest, hgap, hblock⟩ := h
  have hscan := hblock.lexeme (y := '\n' :: rest) fun c hc => (Option.some.inj hc).symm
  have hstarts : Trivia.Starts (block ++ '\n' :: rest) := by
    cases hblock
    exact Trivia.starts_quote _
  rw [next_scanned hgap hstarts hscan hrest]
  rfl

theorem next_returned (h : r.next.1 = .ok token) (hblock : ¬ r.BreaksBlock) :
    (⟨r.place, returned r.rest⟩ : Reader).next = (.ok token, ⟨r.next.2.place, returned r.next.2.rest⟩) := by
  rcases next_cases h with htrailing | ⟨gap, l, y, kind, hfinds⟩
  · have hnext := next_trailing htrailing
    rw [hnext] at h
    rw [next_trailing (r := ⟨r.place, returned r.rest⟩) htrailing.returned, hnext, ← Except.ok.inj h]
    simp only [Location.after_returned, contains_returned]
    rfl
  · have hnext := hfinds.next
    have hscan : lexeme (returned l ++ returned y) = ⟨returned l, .ok kind, returned y⟩ := by
      rcases hfinds.spells with hspells | ⟨hspells, hends⟩
      · rw [returned_of_notMem hspells.notMem_break]
        exact hspells.lexeme_returned hfinds.scan
      · cases y with
        | nil => exact hspells.returned.lexeme nofun
        | cons c y =>
          obtain rfl := hends c rfl
          exact absurd ⟨gap, kind, l, y, hfinds.text_eq, hfinds.spacing, hspells⟩ hblock
    have hstarts := hfinds.starts.returned
    rw [returned_append] at hstarts
    rw [hnext] at h
    rw [next_scanned (r := ⟨r.place, returned r.rest⟩) hfinds.spacing.returned hstarts hscan
      (by rw [← returned_append, ← returned_append, ← hfinds.text_eq]), hnext, ← Except.ok.inj h]
    simp only [answer, ← returned_append, Location.after_returned, contains_returned]

theorem tokens_feed_returned {n m : Nat} (h : (r.feed n).tokens = .ok tokens)
    (hblocks : ∀ k, ¬ (r.behind k).BreaksBlock) (hn : r.rest.length < n) (hm : r.rest.length < m) :
    ((⟨r.place, returned r.rest⟩ : Reader).feed m).tokens = .ok tokens := by
  induction n generalizing r tokens m with
  | zero => omega
  | succ n ih =>
    obtain ⟨m, rfl⟩ : ∃ k, m = k + 1 := ⟨m - 1, by omega⟩
    cases hanswer : r.next.1 with
    | error d =>
      rw [tokens_feed_error n hanswer] at h
      cases h
    | ok token =>
      have hnext := next_returned hanswer (hblocks 0)
      by_cases hend : token.kind = .eof
      · rw [tokens_feed_end n hanswer hend] at h
        rw [tokens_feed_end m (by rw [hnext]) hend, h]
      · have hlt := next_rest_lt (r := r) (by rw [hanswer]; simpa [isFinal] using hend)
        rw [tokens_feed_token n hanswer hend] at h
        obtain ⟨later, hlater, rfl⟩ := Escape.exists_of_map_eq_ok h
        have hih := ih (r := r.next.2) (m := m) hlater (fun k => hblocks (k + 1)) (by omega) (by omega)
        rw [tokens_feed_token m (by rw [hnext]) hend, hnext, hih]
        rfl

end Reader

theorem length_le_returned (text : List Char) : text.length ≤ (returned text).length := by
  induction text with
  | nil => exact Nat.le_refl _
  | cons c text ih =>
    by_cases hc : c = '\n'
    · rw [hc, returned_break]
      simp only [length_cons]
      omega
    · rw [returned_cons hc]
      simpa using ih

/-- **Carriage returns in front of line breaks change no token.**  If a text is read and no text block in it
has a line break behind its closing quotes, the text is read as the same tokens with a carriage return in front
of every line break: they are the same values at the same places, and after the same line breaks. -/
theorem tokenize_returned {source : String} {tokens : List Token} (h : tokenize source = .ok tokens)
    (hblocks : ∀ k, ¬ ((Reader.ofSource source).behind k).BreaksBlock) :
    tokenize (String.ofList (returned source.toList)) = .ok tokens := by
  have hrest : Reader.ofSource (String.ofList (returned source.toList)) =
      ⟨.start, returned source.toList⟩ := by rw [Reader.ofSource, String.toList_ofList]
  rw [tokenize, Feed.ofSource, hrest]
  exact Reader.tokens_feed_returned h hblocks (Nat.lt_succ_self _)
    (Nat.lt_succ_of_le (length_le_returned source.toList))

/-- A line break behind a blank, and a text block at the end of the text. -/
theorem tokenize_returned_last :
    tokenize (String.ofList (returned "x \n\"\"\"\ny\n\"\"\"".toList)) = .ok [⟨.identifier "x", ⟨1, 1⟩, false⟩,
      ⟨.stringLiteral "y", ⟨2, 1⟩, true⟩, ⟨.eof, ⟨4, 4⟩, false⟩] := by
  refine @tokenize_returned "x \n\"\"\"\ny\n\"\"\"" _ (by decide +kernel) fun k hblock => ?_
  have hhead := hblock.head?_next
  match k with
  | 0 => exact absurd hhead (by decide +kernel)
  | 1 => exact absurd hhead (by decide +kernel)
  | k + 2 =>
    have hnil : ((Reader.ofSource "x \n\"\"\"\ny\n\"\"\"").behind 2).rest = [] := by decide +kernel
    rw [Nat.add_comm, Reader.behind_add_of_nil hnil, Reader.next_of_nil hnil, hnil] at hhead
    cases hhead

/-- The closing quotes of a text block with a line break behind it do not stand alone any more. -/
theorem tokenize_returned_block :
    tokenize "\"\"\"\nx\n\"\"\"\n" =
        .ok [⟨.stringLiteral "x", ⟨1, 1⟩, false⟩, ⟨.eof, ⟨4, 1⟩, true⟩] ∧
      tokenize (String.ofList (returned "\"\"\"\nx\n\"\"\"\n".toList)) = .error ⟨.unclosedBlock, some ⟨1, 1⟩⟩ :=
  ⟨by decide +kernel, by decide +kernel⟩

end OnePass
