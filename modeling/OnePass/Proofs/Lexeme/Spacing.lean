import OnePass.Lexeme.Trivia

/-!
# Blanks and comments between lexemes

What separates lexemes is described without the reader: a sequence of blanks, of comments up to the end of
their line, and of block comments with their nesting.

Main results:

* `Trivia.Spacing.skipFrom` — **spacing is skipped, and of it only the line breaks are kept**;
* `Trivia.begins` — **every text begins in one of the three ways**;
* `Trivia.skipFrom_alike` — how a text is skipped does not depend on where it stands.
-/

namespace OnePass.Trivia

open List

variable {place place' : Location} {afterBreak : Bool} {text : List Char}

/-! ### Texts that separate lexemes -/

/-- A text from within a block comment inside of `depth` others, up to the end of the outermost one. -/
inductive Closes : Nat → List Char → Prop where
  | last : Closes 0 ['*', '/']
  | outward {depth : Nat} {text : List Char} (h : Closes depth text) :
      Closes (depth + 1) ('*' :: '/' :: text)
  | inward {depth : Nat} {text : List Char} (h : Closes (depth + 1) text) :
      Closes depth ('/' :: '*' :: text)
  | other {depth : Nat} {c : Char} {text : List Char} (hopens : ¬ (c = '/' ∧ text.head? = some '*'))
      (hcloses : ¬ (c = '*' ∧ text.head? = some '/')) (h : Closes depth text) : Closes depth (c :: text)

/-- Blanks and complete comments. -/
inductive Spacing : List Char → Prop where
  | nil : Spacing []
  | blank {c : Char} {gap : List Char} (hc : Text.isBlank c = true) (h : Spacing gap) : Spacing (c :: gap)
  | line {text gap : List Char} (htext : '\n' ∉ text) (h : Spacing gap) :
      Spacing ('/' :: '/' :: (text ++ '\n' :: gap))
  | block {text gap : List Char} (htext : Closes 0 text) (h : Spacing gap) :
      Spacing ('/' :: '*' :: (text ++ gap))

/-- A text that begins with a lexeme: neither with a blank nor with a comment. -/
def Starts (text : List Char) : Prop :=
  ∃ c rest, text = c :: rest ∧ Text.isBlank c = false ∧
    (c = '/' → rest.head? ≠ some '/' ∧ rest.head? ≠ some '*')

/-! ### Steps -/

section steps

attribute [local simp] skipFrom

variable {depth : Nat} {opened place : Location} {afterBreak : Bool} {c : Char} {rest : List Char}

theorem skipFrom_blank (hc : Text.isBlank c = true) : skipFrom .blanks place afterBreak (c :: rest) =
      skipFrom .blanks (place.step c) (afterBreak || c == '\n') rest := by
  have hslash : c ≠ '/' := by
    rintro rfl
    exact absurd hc (by decide)
  simp [skipFrom, hslash, hc]

theorem skipFrom_starts {text : List Char} (h : Starts text) :
    skipFrom .blanks place afterBreak text = .lexeme place afterBreak text := by
  obtain ⟨c, rest, rfl, hblank, hslash⟩ := h
  rw [skipFrom, if_neg (by simp [hblank])]
  · rintro r rfl rfl
    exact (hslash rfl).1 rfl
  · rintro r rfl rfl
    exact (hslash rfl).2 rfl

theorem skipFrom_line (hc : c ≠ '\n') : skipFrom .lineComment place afterBreak (c :: rest) =
      skipFrom .lineComment (place.step c) afterBreak rest := by
  rw [skipFrom, if_neg hc]

theorem skipFrom_block (hopens : ¬ (c = '/' ∧ rest.head? = some '*'))
    (hcloses : ¬ (c = '*' ∧ rest.head? = some '/')) :
    skipFrom (.blockComment depth opened) place afterBreak (c :: rest) =
      skipFrom (.blockComment depth opened) (place.step c) (afterBreak || c == '\n') rest := by
  have hopens' : ∀ r, c = '/' → rest ≠ '*' :: r := fun r hc hrest => hopens ⟨hc, by rw [hrest]; rfl⟩
  have hcloses' : ∀ r, c = '*' → rest ≠ '/' :: r := fun r hc hrest => hcloses ⟨hc, by rw [hrest]; rfl⟩
  rw [skipFrom]
  · exact hopens'
  · exact fun r _ => hcloses' r
  · exact fun _ r _ => hcloses' r

end steps

/-! ### Spacing is skipped -/

section forward

variable {depth : Nat} {opened place : Location} {afterBreak : Bool} {gap text : List Char}

theorem Closes.exists_cons (h : Closes depth text) : ∃ c rest, text = c :: rest := by
  cases h <;> exact ⟨_, _, rfl⟩

theorem or_contains_cons (flag : Bool) (c : Char) (text : List Char) :
    (flag || (c :: text).contains '\n') = (flag || c == '\n' || text.contains '\n') := by
  rw [contains_cons, Bool.beq_comm, Bool.or_assoc]

theorem Closes.skipFrom (h : Closes depth text) (rest : List Char) :
    skipFrom (.blockComment depth opened) place afterBreak (text ++ rest) =
      Trivia.skipFrom .blanks (place.after text) (afterBreak || text.contains '\n') rest := by
  induction h generalizing place afterBreak with
  | last => simp [Trivia.skipFrom]
  | outward h ih =>
    rw [cons_append, cons_append, Trivia.skipFrom, ih]
    simp
  | inward h ih =>
    rw [cons_append, cons_append, Trivia.skipFrom, ih]
    simp
  | other hopens hcloses h ih =>
    rename_i depth c text
    have hhead : (text ++ rest).head? = text.head? := by
      obtain ⟨d, r, rfl⟩ := h.exists_cons
      rfl
    rw [← hhead] at hopens hcloses
    rw [cons_append, skipFrom_block hopens hcloses, ih, Location.after_cons, or_contains_cons]

theorem skipFrom_lineComment (htext : '\n' ∉ text) (rest : List Char) :
    skipFrom .lineComment place afterBreak (text ++ '\n' :: rest) =
      skipFrom .blanks (place.after (text ++ ['\n'])) true rest := by
  induction text generalizing place with
  | nil => rw [nil_append, skipFrom, if_pos rfl]; rfl
  | cons c text ih =>
    have hc : c ≠ '\n' := fun hc => htext (by rw [hc]; exact mem_cons_self)
    rw [cons_append, skipFrom_line hc, ih fun hmem => htext (mem_cons_of_mem c hmem)]
    rfl

/-- **Spacing is skipped, and of it only the line breaks are kept.** -/
theorem Spacing.skipFrom (h : Spacing gap) (rest : List Char) :
    skipFrom .blanks place afterBreak (gap ++ rest) =
      Trivia.skipFrom .blanks (place.after gap) (afterBreak || gap.contains '\n') rest := by
  induction h generalizing place afterBreak with
  | nil => simp
  | blank hc h ih =>
    rw [cons_append, skipFrom_blank hc, ih, Location.after_cons, or_contains_cons]
  | line htext h ih =>
    rename_i text gap
    rw [cons_append, cons_append, Trivia.skipFrom, append_assoc, cons_append,
      skipFrom_lineComment htext, ih]
    simp [Location.after_append]
  | block htext h ih =>
    rw [cons_append, cons_append, Trivia.skipFrom, append_assoc, htext.skipFrom, ih]
    simp [Location.after_append, Bool.or_assoc]

end forward

/-! ### How texts begin -/

/-- Spacing up to the end of a text, where the last comment may lack the end of its line. -/
inductive Trailing : List Char → Prop where
  | spacing {gap : List Char} (h : Spacing gap) : Trailing gap
  | comment {gap text : List Char} (h : Spacing gap) (htext : '\n' ∉ text) :
      Trailing (gap ++ '/' :: '/' :: text)

/-- A text within nested comments that does not come to their end. -/
def Unclosed (depth : Nat) (text : List Char) : Prop :=
  ∀ inner rest, text = inner ++ rest → ¬ Closes depth inner

/-- How a text begins: with spacing and a lexeme, with spacing up to its end, or with spacing and a comment
that does not end. -/
inductive Begins : List Char → Prop where
  | lexeme {gap rest : List Char} (hgap : Spacing gap) (hstarts : Starts rest) : Begins (gap ++ rest)
  | trailing {text : List Char} (h : Trailing text) : Begins text
  | comment {gap text : List Char} (hgap : Spacing gap) (hopen : Unclosed 0 text) :
      Begins (gap ++ '/' :: '*' :: text)

section begins

variable {gap : List Char}

theorem Spacing.append {gap' : List Char} (h : Spacing gap) (h' : Spacing gap') : Spacing (gap ++ gap') := by
  induction h with
  | nil => exact h'
  | blank hc h ih => exact .blank hc ih
  | @line text gap htext h ih =>
    have hline := Spacing.line htext ih
    simpa using hline
  | @block text gap htext h ih =>
    have hblock := Spacing.block htext ih
    simpa using hblock

theorem Begins.behind (h : Begins text) (hgap : Spacing gap) : Begins (gap ++ text) := by
  cases h with
  | lexeme hgap' hstarts =>
    rw [← append_assoc]
    exact .lexeme (hgap.append hgap') hstarts
  | trailing h =>
    cases h with
    | spacing h => exact .trailing (.spacing (hgap.append h))
    | comment h htext =>
      rw [← append_assoc]
      exact .trailing (.comment (hgap.append h) htext)
  | comment hgap' hopen =>
    rw [← append_assoc]
    exact .comment (hgap.append hgap') hopen

/-- **Every text begins in one of the three ways.** -/
theorem begins (text : List Char) : Begins text := by
  match text with
  | [] => exact .trailing (.spacing .nil)
  | c :: rest =>
    by_cases hblank : Text.isBlank c = true
    · exact (begins rest).behind (.blank hblank .nil)
    · by_cases hslash : c = '/' ∧ (rest.head? = some '/' ∨ rest.head? = some '*')
      · obtain ⟨rfl, hhead⟩ := hslash
        rcases hhead with hhead | hhead
        · obtain ⟨rest, rfl⟩ := List.head?_eq_some_iff.1 hhead
          by_cases hbreak : '\n' ∈ rest
          · obtain ⟨line, later, rfl, hline⟩ := eq_append_cons_of_mem hbreak
            have hlater := (begins later).behind (.line hline .nil)
            simpa using hlater
          · exact .trailing (.comment .nil hbreak)
        · obtain ⟨rest, rfl⟩ := List.head?_eq_some_iff.1 hhead
          by_cases hcloses : ∃ inner later, rest = inner ++ later ∧ Closes 0 inner
          · obtain ⟨inner, later, rfl, hinner⟩ := hcloses
            have hlater := (begins later).behind (.block hinner .nil)
            simpa using hlater
          · exact .comment .nil fun inner later heq hinner => hcloses ⟨inner, later, heq, hinner⟩
      · refine .lexeme .nil ⟨c, rest, rfl, by simpa using hblank, fun hc => ?_⟩
        exact not_or.1 fun hhead => hslash ⟨hc, hhead⟩
termination_by text.length
decreasing_by all_goals simp_all +arith

/-! ### How they are skipped -/

theorem Spacing.skip (h : Spacing gap) (hstarts : Starts text) (place : Location) :
    skip place (gap ++ text) = .lexeme (place.after gap) (gap.contains '\n') text := by
  rw [Trivia.skip, h.skipFrom, skipFrom_starts hstarts, Bool.false_or]

theorem skipFrom_unended (htext : '\n' ∉ text) :
    skipFrom .lineComment place afterBreak text = .lexeme (place.after text) afterBreak [] := by
  induction text generalizing place with
  | nil => simp [skipFrom]
  | cons c text ih =>
    have hc : c ≠ '\n' := fun hc => htext (by rw [hc]; exact mem_cons_self)
    rw [skipFrom_line hc, ih fun hmem => htext (mem_cons_of_mem c hmem), Location.after_cons]

theorem Trailing.skipFrom (h : Trailing text) : Trivia.skipFrom .blanks place afterBreak text =
    .lexeme (place.after text) (afterBreak || text.contains '\n') [] := by
  cases h with
  | spacing h =>
    rw [← append_nil text, h.skipFrom, append_nil]
    simp [Trivia.skipFrom]
  | @comment gap text h htext =>
    rw [h.skipFrom, Trivia.skipFrom, skipFrom_unended htext]
    simp [Location.after_append, htext]

theorem Unclosed.skipFrom {depth : Nat} {opened : Location} (h : Unclosed depth text) :
    Trivia.skipFrom (.blockComment depth opened) place afterBreak text = .unclosed opened (place.after text) := by
  generalize hregion : Region.blockComment depth opened = region
  fun_induction Trivia.skipFrom region place afterBreak text generalizing depth with
  | case1 depth' opened' place afterBreak =>
    cases hregion
    rfl
  | case2 region place afterBreak hne => exact absurd hregion.symm (hne depth opened)
  | case9 depth' opened' place afterBreak text ih =>
    cases hregion
    exact ih (fun inner rest heq hinner => h ('/' :: '*' :: inner) rest (by rw [heq]; rfl) (.inward hinner)) rfl
  | case10 opened' place afterBreak text ih =>
    cases hregion
    exact absurd .last (h ['*', '/'] text rfl)
  | case11 depth' opened' place afterBreak text ih =>
    cases hregion
    exact ih (fun inner rest heq hinner => h ('*' :: '/' :: inner) rest (by rw [heq]; rfl) (.outward hinner)) rfl
  | case12 depth' opened' place afterBreak c text hopens hlast houtward ih =>
    cases hregion
    refine (ih (fun inner rest heq hinner => ?_) rfl).trans rfl
    obtain ⟨d, r, rfl⟩ := hinner.exists_cons
    refine h (c :: d :: r) rest (by rw [heq]; rfl) (.other ?_ ?_ hinner)
    · rintro ⟨hc, hhead⟩
      obtain rfl : d = '*' := Option.some.inj hhead
      exact hopens _ hc heq
    · rintro ⟨hc, hhead⟩
      obtain rfl : d = '/' := Option.some.inj hhead
      cases depth' with
      | zero => exact hlast _ rfl hc heq
      | succ depth => exact houtward depth _ rfl hc heq
  | _ => cases hregion

theorem Unclosed.skip (h : Unclosed 0 text) (hgap : Spacing gap) :
    Trivia.skipFrom .blanks place afterBreak (gap ++ '/' :: '*' :: text) =
      .unclosed (place.after gap) (place.after (gap ++ '/' :: '*' :: text)) := by
  rw [hgap.skipFrom, Trivia.skipFrom, h.skipFrom, ← Location.after_append, ← Location.after_append]
  rfl

end begins

/-! ### Where a text stands -/

/-- Two gaps that differ in places, and in whether a line break before them is counted. -/
inductive Gap.Alike (R : Location → Location → Prop) (broken : Bool) : Gap → Gap → Prop where
  | lexeme {place place' : Location} {afterBreak : Bool} {rest : List Char} (h : R place place') :
      Alike R broken (.lexeme place afterBreak rest) (.lexeme place' (broken || afterBreak) rest)
  | unclosed {opened opened' stop stop' : Location} (h : R opened opened') (h' : R stop stop') :
      Alike R broken (.unclosed opened stop) (.unclosed opened' stop')

section alike

variable {R : Location → Location → Prop}
  (hstep : ∀ {place place'} c, R place place' → R (place.step c) (place'.step c)) (broken : Bool)

include hstep

theorem skipFrom_alike (text : List Char) (hplace : R place place') :
    (skipFrom .blanks place afterBreak text).Alike R broken
      (skipFrom .blanks place' (broken || afterBreak) text) := by
  have hafter : ∀ text : List Char, R (place.after text) (place'.after text) := by
    intro text
    induction text generalizing place place' with
    | nil => exact hplace
    | cons c text ih => exact ih (hstep c hplace)
  cases begins text with
  | lexeme hgap hstarts =>
    rw [hgap.skipFrom, hgap.skipFrom, skipFrom_starts hstarts, skipFrom_starts hstarts, Bool.or_assoc]
    exact .lexeme (hafter _)
  | trailing h =>
    rw [h.skipFrom, h.skipFrom, Bool.or_assoc]
    exact .lexeme (hafter _)
  | comment hgap hopen =>
    rw [hopen.skip hgap, hopen.skip hgap]
    exact .unclosed (hafter _) (hafter _)

theorem skip_alike (text : List Char) (hplace : R place place') :
    (skip place text).Alike R broken (skipFrom .blanks place' broken text) := by
  have halike : (skip place text).Alike R broken (skipFrom .blanks place' (broken || false) text) :=
    skipFrom_alike hstep broken text hplace
  rwa [Bool.or_false] at halike

end alike

end OnePass.Trivia
