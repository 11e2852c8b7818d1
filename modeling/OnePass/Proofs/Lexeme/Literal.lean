import OnePass.Proofs.Lexeme.Locality

/-!
# Where string literals end

A literal on one line ends with its closing quote.  A text block ends with closing quotes that stand alone
on their line, so behind it the line has to end as well.

Main results:

* `Scan.rawLine_local`, `Scan.blockLines_local` — the text behind a literal can be exchanged;
* `Reader.lexeme_local` — **the text behind any lexeme can be exchanged for one that ends it as well**;
* `Reader.lexeme_rest_suffix` — every lexeme takes a character.
-/

namespace OnePass

open List

namespace Scan

variable {l y y' : List Char}

/-! ### Literals on one line -/

section line

attribute [local simp] rawLine

variable {c : Char}

theorem rawLine_stop (hc : c = '"' ∨ c = '\n') (rest : List Char) :
    rawLine (c :: rest) = ([], c :: rest) := by
  rcases hc with rfl | rfl <;> rfl

theorem rawLine_escape (hc : c ≠ '\n') (rest : List Char) :
    rawLine ('\\' :: c :: rest) = ('\\' :: c :: (rawLine rest).1, (rawLine rest).2) := by
  simp [hc]

theorem rawLine_other (hescape : c ≠ '\\') (hc : ¬ (c = '"' ∨ c = '\n')) (rest : List Char) :
    rawLine (c :: rest) = (c :: (rawLine rest).1, (rawLine rest).2) := by
  simp [hescape, hc]

theorem rawLine_append (text : List Char) : (rawLine text).1 ++ (rawLine text).2 = text := by
  fun_induction rawLine text <;> simp_all

theorem rawLine_rest_suffix (text : List Char) : (rawLine text).2 <:+ text :=
  ⟨_, rawLine_append text⟩

/-- What stands behind the closing quote can be exchanged; a text that is not closed ends at the end of its
line. -/
theorem rawLine_local (hsuffix : y <:+ (rawLine (l ++ y)).2)
    (hy : (rawLine (l ++ y)).2 = y → y'.head? = y.head?) :
    ∃ raw m, rawLine (l ++ y) = (raw, m ++ y) ∧ rawLine (l ++ y') = (raw, m ++ y') := by
  generalize htext : l ++ y = text at hsuffix hy ⊢
  fun_induction rawLine text generalizing l with
  | case1 =>
    obtain ⟨rfl, rfl⟩ := append_eq_nil_iff.1 htext
    obtain rfl : y' = [] := List.head?_eq_none_iff.1 (hy rfl)
    exact ⟨[], [], rfl, rfl⟩
  | case2 rest =>
    rcases append_eq_cons_iff.1 htext with ⟨rfl, rfl⟩ | ⟨l, rfl, htail⟩
    · exact absurd hsuffix.length_le (by simp)
    · rcases append_eq_cons_iff.1 htail.symm with ⟨rfl, rfl⟩ | ⟨l, rfl, rfl⟩
      · obtain ⟨r, rfl⟩ := List.head?_eq_some_iff.1 (hy rfl)
        exact ⟨['\\'], [], rfl, rfl⟩
      · exact ⟨['\\'], '\n' :: l, rfl, rfl⟩
  | case3 c rest hc raw left hrest ih =>
    have hleft : left <:+ rest := by
      have hrest_suffix := rawLine_rest_suffix rest
      rwa [hrest] at hrest_suffix
    rcases append_eq_cons_iff.1 htext with ⟨rfl, rfl⟩ | ⟨l, rfl, htail⟩
    · exact absurd (hsuffix.trans hleft).length_le (by simp only [length_cons]; omega)
    · rcases append_eq_cons_iff.1 htail.symm with ⟨rfl, rfl⟩ | ⟨l, rfl, rfl⟩
      · exact absurd (hsuffix.trans hleft).length_le (by simp)
      · obtain ⟨raw', m, hraw, hraw'⟩ := ih rfl (by rwa [hrest]) (by rwa [hrest])
        rw [hrest] at hraw
        obtain ⟨rfl, rfl⟩ := Prod.mk.inj hraw
        refine ⟨'\\' :: c :: raw, m, rfl, ?_⟩
        rw [cons_append, cons_append, rawLine_escape hc, hraw']
  | case4 c rest hplain hc =>
    rcases append_eq_cons_iff.1 htext with ⟨rfl, rfl⟩ | ⟨l, rfl, rfl⟩
    · obtain ⟨r, rfl⟩ := List.head?_eq_some_iff.1 (hy rfl)
      exact ⟨[], [], rfl, rawLine_stop hc r⟩
    · exact ⟨[], c :: l, rfl, rawLine_stop hc _⟩
  | case5 c rest hplain hc raw left hrest ih =>
    have hleft : left <:+ rest := by
      have hrest_suffix := rawLine_rest_suffix rest
      rwa [hrest] at hrest_suffix
    rcases append_eq_cons_iff.1 htext with ⟨rfl, rfl⟩ | ⟨l, rfl, rfl⟩
    · exact absurd (hsuffix.trans hleft).length_le (by simp)
    · obtain ⟨raw', m, hraw, hraw'⟩ := ih rfl (by rwa [hrest]) (by rwa [hrest])
      rw [hrest] at hraw
      obtain ⟨rfl, rfl⟩ := Prod.mk.inj hraw
      refine ⟨c :: raw, m, rfl, ?_⟩
      by_cases hescape : c = '\\'
      · -- a backslash at the end of the text
        have hnil : l ++ y = [] := by
          cases hly : l ++ y with
          | nil => rfl
          | cons d r => exact (hplain d r hescape hly).elim
        obtain ⟨rfl, rfl⟩ := append_eq_nil_iff.1 hnil
        obtain rfl : m = [] := by simpa using hleft
        obtain rfl : y' = [] := List.head?_eq_none_iff.1 (hy rfl)
        obtain rfl : raw = [] := (Prod.mk.inj hrest).1.symm
        rw [hescape]
        rfl
      · rw [cons_append, rawLine_other hescape hc, hraw']

theorem line_closed {text raw rest : List Char} (h : rawLine text = (raw, '"' :: rest)) :
    line text = ⟨'"' :: raw ++ ['"'], stringToken (Escape.decode raw), rest⟩ := by
  rw [line, h]
  rfl

theorem line_unclosed {text raw rest : List Char} (h : rawLine text = (raw, rest))
    (hrest : rest.head? ≠ some '"') : line text = ⟨'"' :: raw, .error .unclosedString, rest⟩ := by
  unfold line
  rw [h]
  split
  · rename_i heq
    obtain ⟨rfl, rfl⟩ := Prod.mk.inj heq
    exact absurd rfl hrest
  · rename_i heq
    obtain ⟨rfl, rfl⟩ := Prod.mk.inj heq
    rfl

theorem line_rest_suffix (text : List Char) : (line text).rest <:+ text := by
  have hsuffix := rawLine_rest_suffix text
  rcases hraw : rawLine text with ⟨raw, rest⟩
  rw [hraw] at hsuffix
  by_cases hquote : rest.head? = some '"'
  · obtain ⟨r, rfl⟩ := List.head?_eq_some_iff.1 hquote
    rw [line_closed hraw]
    exact (suffix_cons '"' r).trans hsuffix
  · rw [line_unclosed hraw hquote]
    exact hsuffix

theorem line_local (hrest : (line (l ++ y)).rest = y) (h : (line (l ++ y)).EndedBy y') :
    line (l ++ y') = { line (l ++ y) with rest := y' } := by
  rcases hraw : rawLine (l ++ y) with ⟨raw, rest⟩
  by_cases hquote : rest.head? = some '"'
  · obtain ⟨r, rfl⟩ := List.head?_eq_some_iff.1 hquote
    rw [line_closed hraw] at hrest ⊢
    obtain rfl : r = y := hrest
    obtain ⟨raw', m, hrest, hrest'⟩ : ∃ raw m, rawLine (l ++ r) = (raw, m ++ r) ∧
        rawLine (l ++ y') = (raw, m ++ y') := by
      refine rawLine_local ?_ ?_
      · rw [hraw]
        exact suffix_cons '"' r
      · rw [hraw]
        exact fun heq => absurd (congrArg List.length heq) (by simp)
    rw [hraw] at hrest
    obtain ⟨rfl, hm⟩ := Prod.mk.inj hrest
    obtain rfl : ['"'] = m := append_cancel_right (show ['"'] ++ r = m ++ r from hm)
    exact line_closed hrest'
  · rw [line_unclosed hraw hquote] at hrest h ⊢
    obtain rfl : rest = y := hrest
    obtain ⟨c, r, r', heq, rfl⟩ := h.of_error rfl
    obtain rfl : rest = c :: r := heq
    have hall : (rawLine (l ++ c :: r)).2 = c :: r := by rw [hraw]
    obtain ⟨raw', m, hrest, hrest'⟩ : ∃ raw m, rawLine (l ++ c :: r) = (raw, m ++ c :: r) ∧
        rawLine (l ++ c :: r') = (raw, m ++ c :: r') :=
      rawLine_local (by rw [hall]) fun _ => rfl
    rw [hraw] at hrest
    obtain ⟨rfl, hm⟩ := Prod.mk.inj hrest
    obtain rfl : m = [] := append_left_eq_self.1 hm.symm
    exact line_unclosed hrest' hquote

end line

/-! ### Text blocks -/

section block

variable {n : Nat} {lines : List (List Char)} {indentation : List Char}
variable {text : List Char}

theorem blockLines_closing (h : (text.takeWhile (· != '\n')).dropWhile Text.isIndent = tripleQuote) :
    blockLines (n + 1) text =
      some ([], (text.takeWhile (· != '\n')).takeWhile Text.isIndent, text.dropWhile (· != '\n')) := by
  simp only [blockLines, h, if_true]

theorem blockLines_content {rest : List Char} {c : Char}
    (h : (text.takeWhile (· != '\n')).dropWhile Text.isIndent ≠ tripleQuote)
    (hrest : text.dropWhile (· != '\n') = c :: rest) :
    blockLines (n + 1) text = (blockLines n rest).map fun (lines, indentation, rest) =>
        (text.takeWhile (· != '\n') :: lines, indentation, rest) := by
  simp only [blockLines, h, if_false, hrest]

theorem blockLines_cases (h : blockLines (n + 1) text = some (lines, indentation, y)) :
    ((text.takeWhile (· != '\n')).dropWhile Text.isIndent = tripleQuote ∧ lines = [] ∧
      indentation = (text.takeWhile (· != '\n')).takeWhile Text.isIndent ∧
      text.dropWhile (· != '\n') = y) ∨
    ∃ c rest later, (text.takeWhile (· != '\n')).dropWhile Text.isIndent ≠ tripleQuote ∧
      text.dropWhile (· != '\n') = c :: rest ∧ lines = text.takeWhile (· != '\n') :: later ∧
      blockLines n rest = some (later, indentation, y) := by
  by_cases hclosing : (text.takeWhile (· != '\n')).dropWhile Text.isIndent = tripleQuote
  · rw [blockLines_closing hclosing] at h
    obtain ⟨rfl, rfl, rfl⟩ : [] = lines ∧ _ = indentation ∧ _ = y := by simpa using h
    exact .inl ⟨hclosing, rfl, rfl, rfl⟩
  · cases hrest : text.dropWhile (· != '\n') with
    | nil =>
      simp only [blockLines, hclosing, if_false, hrest] at h
      cases h
    | cons c rest =>
      rw [blockLines_content hclosing hrest] at h
      obtain ⟨⟨later, _, _⟩, hlater, heq⟩ := Option.map_eq_some_iff.1 h
      cases heq
      exact .inr ⟨c, rest, later, hclosing, rfl, rfl, hlater⟩

theorem blockLines_rest (h : blockLines n text = some (lines, indentation, y)) :
    ∃ l, text = l ++ y ∧ tripleQuote <:+ l ∧ ∀ c, y.head? = some c → c = '\n' := by
  induction n generalizing text lines with
  | zero => cases h
  | succ n ih =>
    have hspan := takeWhile_append_dropWhile (p := (· != '\n')) (l := text)
    rcases blockLines_cases h with ⟨hclosing, -, -, hrest⟩ | ⟨c, rest, later, -, hrest, -, hlater⟩
    · rw [hrest] at hspan
      refine ⟨_, hspan.symm, ?_, fun c hc => ?_⟩
      · rw [← hclosing]
        exact dropWhile_suffix _
      · have hhead := any_head_dropWhile (· != '\n') text
        rw [hrest, hc] at hhead
        simpa using hhead
    · obtain ⟨l, rfl, hquotes, hhead⟩ := ih hlater
      rw [hrest] at hspan
      refine ⟨text.takeWhile (· != '\n') ++ c :: l, ?_, ?_, hhead⟩
      · rw [append_assoc]
        exact hspan.symm
      · exact hquotes.trans ((suffix_cons c l).trans (suffix_append ..))

theorem blockLines_more {m : Nat}
    (h : blockLines n text = some (lines, indentation, y)) (hm : text.length < m) :
    blockLines m text = some (lines, indentation, y) := by
  induction n generalizing m text lines with
  | zero => cases h
  | succ n ih =>
    obtain ⟨m, rfl⟩ := Nat.exists_eq_add_of_lt hm
    rcases blockLines_cases h with ⟨hclosing, rfl, rfl, rfl⟩ | ⟨c, rest, later, hcontent, hrest, rfl, hlater⟩
    · exact blockLines_closing hclosing
    · rw [blockLines_content hcontent hrest, ih hlater]
      · rfl
      · have hle := (dropWhile_suffix (· != '\n') (l := text)).length_le
        rw [hrest, length_cons] at hle
        omega

theorem blockLines_local (h : blockLines n (l ++ y) = some (lines, indentation, y))
    (hy : y'.head? = some '\n') : blockLines n (l ++ y') = some (lines, indentation, y') := by
  have hbreak : y.head?.any (· != '\n') = false → y'.head?.any (· != '\n') = false := by
    rw [hy]
    exact fun _ => rfl
  induction n generalizing l lines with
  | zero => cases h
  | succ n ih =>
    rcases blockLines_cases h with ⟨hclosing, rfl, rfl, hrest⟩ | ⟨c, rest, later, hcontent, hrest, rfl, hlater⟩
    · obtain ⟨m, hdrop, hdrop', htake⟩ := span_local (by rw [hrest]) hbreak
      obtain rfl : m = [] := append_left_eq_self.1 (hdrop.symm.trans hrest)
      rw [← htake] at hclosing
      rw [blockLines_closing hclosing, htake, hdrop']
      rfl
    · obtain ⟨l', rfl, -⟩ := blockLines_rest hlater
      have hsuffix : y <:+ (l ++ y).dropWhile (· != '\n') := by
        rw [hrest]
        exact (suffix_append l' y).trans (suffix_cons c _)
      obtain ⟨m, hdrop, hdrop', htake⟩ := span_local hsuffix hbreak
      obtain rfl : m = c :: l' := append_cancel_right (hdrop.symm.trans hrest)
      rw [← htake] at hcontent
      rw [cons_append] at hdrop'
      rw [blockLines_content hcontent hdrop', ih hlater, htake]
      rfl

theorem block_closed {body : List Char} (h : text.dropWhile isOpeningBlank = '\n' :: body)
    (hbody : blockLines (body.length + 1) body = some (lines, indentation, y)) :
    block text = ⟨tripleQuote ++ text.takeWhile isOpeningBlank ++ '\n' :: blockSource lines indentation,
      stringToken (blockText lines indentation), y⟩ := by
  unfold block
  rw [h]
  simp only [hbody]

theorem block_unclosed {body : List Char} (h : text.dropWhile isOpeningBlank = '\n' :: body)
    (hbody : blockLines (body.length + 1) body = none) :
    block text = ⟨tripleQuote ++ text.takeWhile isOpeningBlank ++ '\n' :: body, .error .unclosedBlock, []⟩ := by
  unfold block
  rw [h]
  simp only [hbody]

theorem block_unopened (h : (text.dropWhile isOpeningBlank).head? ≠ some '\n') :
    block text = ⟨tripleQuote ++ text.takeWhile isOpeningBlank, .error .textAfterOpening,
      text.dropWhile isOpeningBlank⟩ := by
  unfold block
  split
  · rename_i heq
    rw [heq] at h
    exact absurd rfl h
  · rfl

theorem block_rest_suffix (text : List Char) : (block text).rest <:+ text := by
  have hsuffix := dropWhile_suffix isOpeningBlank (l := text)
  by_cases hopening : (text.dropWhile isOpeningBlank).head? = some '\n'
  · obtain ⟨body, hbody⟩ := List.head?_eq_some_iff.1 hopening
    rw [hbody] at hsuffix
    cases hlines : blockLines (body.length + 1) body with
    | none =>
      rw [block_unclosed hbody hlines]
      exact nil_suffix
    | some result =>
      obtain ⟨lines, indentation, y⟩ := result
      obtain ⟨l, rfl, -⟩ := blockLines_rest hlines
      rw [block_closed hbody hlines]
      exact (suffix_append l y).trans ((suffix_cons _ _).trans hsuffix)
  · rw [block_unopened hopening]
    exact hsuffix

theorem block_local (hrest : (block (l ++ y)).rest = y) (h : (block (l ++ y)).EndedBy y')
    (hclosed : tripleQuote <:+ l → y'.head? = some '\n' ∨ y'.head? = y.head?) :
    block (l ++ y') = { block (l ++ y) with rest := y' } := by
  by_cases hopening : ((l ++ y).dropWhile isOpeningBlank).head? = some '\n'
  · obtain ⟨body, hbody⟩ := List.head?_eq_some_iff.1 hopening
    cases hlines : blockLines (body.length + 1) body with
    | none =>
      rw [block_unclosed hbody hlines] at h
      obtain ⟨c, r, r', heq, -⟩ := h.of_error rfl
      cases heq
    | some result =>
      obtain ⟨lines, indentation, r⟩ := result
      rw [block_closed hbody hlines] at hrest h ⊢
      obtain rfl : r = y := hrest
      obtain ⟨content, rfl, hquotes, hhead⟩ := blockLines_rest hlines
      have hcontent : content <:+ l := by
        have hdrop := dropWhile_suffix isOpeningBlank (l := l ++ r)
        rw [hbody, ← cons_append] at hdrop
        exact (suffix_cons '\n' content).trans (suffix_append_self_iff.1 hdrop)
      have hy : y'.head? = some '\n' := by
        rcases hclosed (hquotes.trans hcontent) with hy | hy
        · exact hy
        · obtain ⟨c, r', rfl⟩ := h.exists_cons
          obtain rfl := hhead c hy.symm
          rfl
      obtain ⟨m, hdrop, hdrop', htake⟩ := span_local
        (by rw [hbody]; exact (suffix_append content r).trans (suffix_cons _ _))
        fun _ => by rw [hy]; rfl
      obtain rfl : m = '\n' :: content := append_cancel_right (hdrop.symm.trans hbody)
      rw [← htake]
      exact block_closed hdrop' (blockLines_more (blockLines_local hlines hy) (Nat.lt_succ_self _))
  · rw [block_unopened hopening] at hrest h ⊢
    obtain ⟨c, r, r', heq, rfl⟩ := h.of_error rfl
    have hall : (l ++ y).dropWhile isOpeningBlank = y := hrest
    obtain rfl : y = c :: r := hall.symm.trans heq
    obtain ⟨m, hdrop, hdrop', htake⟩ : ∃ m, _ = m ++ c :: r ∧
        (l ++ c :: r').dropWhile isOpeningBlank = m ++ c :: r' ∧
        (l ++ c :: r').takeWhile isOpeningBlank = _ :=
      span_local (by rw [hall]) id
    obtain rfl : m = [] := append_left_eq_self.1 (hdrop.symm.trans hall)
    have hopening' : ((l ++ c :: r').dropWhile isOpeningBlank).head? ≠ some '\n' := by
      rw [hdrop']
      rw [hall] at hopening
      exact hopening
    rw [block_unopened hopening', hdrop', htake]
    rfl

end block

/-! ### All literals -/

theorem quotation_empty (h : y.head? ≠ some '"') :
    quotation ('"' :: y) = ⟨['"', '"'], .ok (.stringLiteral ""), y⟩ := by
  unfold quotation
  split
  · rename_i heq
    obtain rfl := (List.cons.inj heq).2
    exact absurd rfl h
  · rename_i heq
    obtain rfl := (List.cons.inj heq).2
    rfl
  · rename_i hempty
    exact absurd rfl (hempty y)

theorem quotation_line (h : y.head? ≠ some '"') : quotation y = line y := by
  unfold quotation
  split
  · exact absurd rfl h
  · exact absurd rfl h
  · rfl

theorem quotation_quote_rest (rest : List Char) : (quotation ('"' :: rest)).rest <:+ rest := by
  by_cases hquote : rest.head? = some '"'
  · obtain ⟨rest, rfl⟩ := List.head?_eq_some_iff.1 hquote
    exact (block_rest_suffix rest).trans (suffix_cons _ _)
  · rw [quotation_empty hquote]

theorem quotation_rest_suffix (text : List Char) : (quotation text).rest <:+ text := by
  by_cases hquote : text.head? = some '"'
  · obtain ⟨rest, rfl⟩ := List.head?_eq_some_iff.1 hquote
    exact (quotation_quote_rest rest).trans (suffix_cons _ _)
  · rw [quotation_line hquote]
    exact line_rest_suffix text

theorem quotation_local (hrest : (quotation (l ++ y)).rest = y) (h : (quotation (l ++ y)).EndedBy y')
    (hclosed : tripleQuote <:+ l → y'.head? = some '\n' ∨ y'.head? = y.head?) :
    quotation (l ++ y') = { quotation (l ++ y) with rest := y' } := by
  have hquote_iff : y.head? ≠ some '"' → y'.head? ≠ some '"' := fun hy =>
    h.head_ne (by decide) (by decide) (by decide) (by rw [hrest]; exact hy)
  by_cases hquote : (l ++ y).head? = some '"'
  · obtain ⟨rest, htext⟩ := List.head?_eq_some_iff.1 hquote
    have hsuffix := quotation_quote_rest rest
    rw [← htext, hrest] at hsuffix
    cases l with
    | nil =>
      obtain rfl : y = '"' :: rest := htext
      exact absurd hsuffix.length_le (by simp)
    | cons c l =>
      obtain ⟨rfl, rfl⟩ := List.cons.inj htext
      rw [cons_append] at hrest h ⊢
      rw [cons_append]
      by_cases hquote' : (l ++ y).head? = some '"'
      · obtain ⟨rest, htext'⟩ := List.head?_eq_some_iff.1 hquote'
        cases l with
        | nil =>
          obtain rfl : y = '"' :: rest := htext'
          have hblock := block_rest_suffix rest
          rw [nil_append] at hrest
          rw [show (block rest).rest = '"' :: rest from hrest] at hblock
          exact absurd hblock.length_le (by simp)
        | cons c l =>
          obtain ⟨rfl, rfl⟩ := List.cons.inj htext'
          refine block_local hrest h fun hquotes => hclosed ?_
          exact hquotes.trans ((suffix_cons _ _).trans (suffix_cons _ _))
      · rw [quotation_empty hquote'] at hrest ⊢
        obtain rfl : l = [] := append_left_eq_self.1 hrest
        exact quotation_empty (hquote_iff hquote')
  · have hquote' : (l ++ y').head? ≠ some '"' := by
      cases l with
      | nil => exact hquote_iff hquote
      | cons => exact hquote
    rw [quotation_line hquote] at hrest h ⊢
    rw [quotation_line hquote']
    exact line_local hrest h

end Scan

namespace Reader

open Scan

/-! ### All lexemes -/

section lexeme

attribute [local simp] lexeme

variable {c : Char}

theorem lexeme_word (hc : isLetter c = true) (rest : List Char) : lexeme (c :: rest) = word (c :: rest) := by
  have hquote : c ≠ '"' := by
    rintro rfl
    cases hc
  simp [hc]

theorem lexeme_number (hletter : isLetter c = false) (hc : isDigit c = true) (rest : List Char) :
    lexeme (c :: rest) = number (c :: rest) := by
  have hquote : c ≠ '"' := by
    rintro rfl
    cases hc
  simp [hletter, hc]

theorem lexeme_sign (hquote : c ≠ '"') (hletter : isLetter c = false) (hdigit : isDigit c = false)
    (rest : List Char) : lexeme (c :: rest) = sign (c :: rest) := by
  simp [hletter, hdigit]

theorem lexeme_rest_suffix (c : Char) (text : List Char) : (lexeme (c :: text)).rest <:+ text := by
  by_cases hquote : c = '"'
  · subst hquote
    exact quotation_rest_suffix text
  cases hletter : isLetter c with
  | true =>
    have hc : isWordChar c = true := by rw [isWordChar, hletter, Bool.true_or]
    have hsuffix := word_rest_suffix (c :: text)
    rw [dropWhile_cons_of_pos hc] at hsuffix
    rw [lexeme_word hletter]
    exact hsuffix.trans (dropWhile_suffix _)
  | false =>
    cases hdigit : isDigit c with
    | true =>
      have hsuffix := number_rest_suffix (c :: text)
      rw [dropWhile_cons_of_pos hdigit] at hsuffix
      rw [lexeme_number hletter hdigit]
      exact hsuffix.trans (dropWhile_suffix _)
    | false =>
      rw [lexeme_sign hquote hletter hdigit]
      exact sign_rest_suffix c text

/-- **A lexeme ends where the text behind it says so.**  The text behind it can be exchanged for one that
ends it as well; behind a text block its line has to end. -/
theorem lexeme_local {l y y' : List Char} (hrest : (lexeme (c :: (l ++ y))).rest = y)
    (h : (lexeme (c :: (l ++ y))).EndedBy y')
    (hclosed : tripleQuote <:+ c :: l → y'.head? = some '\n' ∨ y'.head? = y.head?) :
    lexeme (c :: (l ++ y')) = { lexeme (c :: (l ++ y)) with rest := y' } := by
  by_cases hquote : c = '"'
  · subst hquote
    exact quotation_local hrest h fun hquotes => hclosed (hquotes.trans (suffix_cons _ _))
  cases hletter : isLetter c with
  | true =>
    rw [lexeme_word hletter] at hrest h ⊢
    rw [lexeme_word hletter]
    exact word_local (l := c :: l) hrest h
  | false =>
    cases hdigit : isDigit c with
    | true =>
      rw [lexeme_number hletter hdigit] at hrest h ⊢
      rw [lexeme_number hletter hdigit]
      exact number_local (l := c :: l) hrest h
    | false =>
      rw [lexeme_sign hquote hletter hdigit] at hrest h ⊢
      rw [lexeme_sign hquote hletter hdigit]
      exact sign_local hrest h

end lexeme

end Reader

end OnePass
