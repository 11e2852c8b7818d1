import OnePass.Target.Render
import Mathlib.Data.List.Basic

/-!
# String literals in target code

A target line is divided at its blanks, and a number sign begins a comment.  So a string literal must have
neither of them, and it must be read back as the string that it is written for.

Main results:

* `Target.unescape_escapeText` — **a string is read back from its literal**;
* `Target.unit_of_suffix` — a backslash in a literal has three digits behind it;
* `Target.string_literal` — **a push of a string is one line with one operand, from which the string is read
  back**.
-/

namespace OnePass.Target

open List

/-! ### Three digits -/

theorem threeDigits_spec {n : Nat} (h : n < 1000) :
    (threeDigits n).length = 3 ∧ (∀ c ∈ threeDigits n, c.isDigit) ∧ Nat.ofDigitChars 10 (threeDigits n) 0 = n := by
  have hlength : (Nat.toDigits 10 n).length ≤ 3 :=
    (Nat.length_toDigits_le_iff (by decide) (by decide)).2 h
  refine ⟨?_, ?_, ?_⟩
  · rw [threeDigits, length_append, length_replicate]
    omega
  · intro c hc
    rcases mem_append.1 hc with hzero | hdigit
    · rw [eq_of_mem_replicate hzero]
      rfl
    · exact Nat.isDigit_of_mem_toDigits (by decide) (by decide) hdigit
  · rw [threeDigits, Nat.ofDigitChars_append, Nat.ofDigitChars_replicate_zero, Nat.mul_zero,
      Nat.ofDigitChars_toDigits (by decide) (by decide)]

theorem toNat_of_needsEscape {c : Char} (h : needsEscape c) : c.toNat < 1000 := by
  simp only [needsEscape, Bool.or_eq_true, decide_eq_true_eq, beq_iff_eq] at h
  rcases h with (hcode | rfl) | rfl
  · omega
  · decide
  · decide

/-! ### Reading back -/

/-- The string of a literal: a backslash and three digits are the character of that code, and no backslash
stands elsewhere. -/
def unescape : List Char → Option (List Char)
  | [] => some []
  | '\\' :: a :: b :: c :: rest =>
      if [a, b, c].all Char.isDigit then
        (unescape rest).map (Char.ofNat (Nat.ofDigitChars 10 [a, b, c] 0) :: ·)
      else none
  | c :: rest => if c = '\\' then none else (unescape rest).map (c :: ·)

theorem unescape_escapeChar (c : Char) (rest : List Char) :
    unescape (escapeChar c ++ rest) = (unescape rest).map (c :: ·) := by
  unfold escapeChar
  split
  · rename_i hc
    obtain ⟨hlength, hdigits, hvalue⟩ := threeDigits_spec (toNat_of_needsEscape hc)
    obtain ⟨x, y, z, hunit⟩ := length_eq_three.1 hlength
    rw [hunit] at hdigits hvalue ⊢
    rw [cons_append, cons_append, cons_append, cons_append, nil_append, unescape,
      if_pos (all_eq_true.2 hdigits), hvalue, Char.ofNat_toNat]
  · rename_i hc
    have hne : c ≠ '\\' := fun h => hc (by rw [h]; rfl)
    rw [singleton_append, unescape, if_neg hne]
    exact fun _ _ _ _ hc' => absurd hc' hne

theorem toList_escapeText (text : String) : (escapeText text).toList = text.toList.flatMap escapeChar :=
  String.toList_ofList

theorem unescape_escapeText (text : String) : unescape (escapeText text).toList = some text.toList := by
  rw [toList_escapeText]
  induction text.toList with
  | nil => rfl
  | cons c text ih => rw [flatMap_cons, unescape_escapeChar, ih, Option.map_some]

/-! ### The characters of literals -/

/-- The characters that divide target code into lines and words. -/
def isSeparator (c : Char) : Bool := c.toNat ≤ 32

theorem plain_of_isDigit {d : Char} (h : d.isDigit) : isSeparator d = false ∧ d ≠ '#' ∧ d ≠ '\\' := by
  obtain ⟨hcode, -⟩ : 48 ≤ d.toNat ∧ d.toNat ≤ 57 := Char.isDigit_iff_toNat.1 h
  refine ⟨decide_eq_false (by omega), ?_, ?_⟩
  · rintro rfl
    cases h
  · rintro rfl
    cases h

theorem plain_of_mem_escapeChar {c d : Char} (h : d ∈ escapeChar c) : isSeparator d = false ∧ d ≠ '#' := by
  unfold escapeChar at h
  split at h
  · rename_i hc
    rcases mem_cons.1 h with rfl | hd
    · decide
    · obtain ⟨hseparator, hsign, -⟩ := plain_of_isDigit ((threeDigits_spec (toNat_of_needsEscape hc)).2.1 d hd)
      exact ⟨hseparator, hsign⟩
  · rename_i hc
    rw [mem_singleton.1 h]
    simp only [needsEscape, Bool.or_eq_true, not_or, decide_eq_true_eq, beq_iff_eq] at hc
    exact ⟨decide_eq_false hc.1.1, hc.1.2⟩

theorem plain_of_mem_escapeText {text : String} {d : Char} (h : d ∈ (escapeText text).toList) :
    isSeparator d = false ∧ d ≠ '#' := by
  rw [toList_escapeText] at h
  obtain ⟨c, -, hd⟩ := mem_flatMap.1 h
  exact plain_of_mem_escapeChar hd

theorem suffix_of_not_mem {c : Char} {after first second : List Char} (hfirst : c ∉ first)
    (h : c :: after <:+ first ++ second) : c :: after <:+ second := by
  induction first with
  | nil => exact h
  | cons d first ih =>
    obtain ⟨hne, hfirst⟩ := not_or.1 (mem_cons.not.1 hfirst)
    rcases suffix_cons_iff.1 h with heq | h
    · exact absurd (List.cons.inj heq).1 hne
    · exact ih hfirst h

theorem unit_of_suffix {text : String} {after : List Char} (h : '\\' :: after <:+ (escapeText text).toList) :
    ∃ digits rest, after = digits ++ rest ∧ digits.length = 3 ∧ ∀ d ∈ digits, d.isDigit := by
  rw [toList_escapeText] at h
  revert h
  induction text.toList with
  | nil => exact fun h => absurd (suffix_nil.1 h) (cons_ne_nil _ _)
  | cons c text ih =>
    intro h
    rw [flatMap_cons, escapeChar] at h
    split at h
    · rename_i hc
      obtain ⟨hlength, hdigits, -⟩ := threeDigits_spec (toNat_of_needsEscape hc)
      rcases suffix_cons_iff.1 h with heq | h
      · exact ⟨threeDigits c.toNat, _, (List.cons.inj heq).2, hlength, hdigits⟩
      · exact ih (suffix_of_not_mem (fun hmem => (plain_of_isDigit (hdigits _ hmem)).2.2 rfl) h)
    · rename_i hc
      refine ih (suffix_of_not_mem (fun hmem => hc ?_) h)
      rw [← mem_singleton.1 hmem]
      rfl

/-! ### Pushes -/

theorem toList_push_string (text : String) : (Line.push (.string text)).text.toList =
    "PUSHS".toList ++ ' ' :: ("string@".toList ++ (escapeText text).toList) := by
  simp [Line.text, Operand.text, toString]

theorem not_isSeparator_operand (text : String) :
    ∀ c ∈ "string@".toList ++ (escapeText text).toList, isSeparator c = false := by
  exact forall_mem_append.2 ⟨by simp [isSeparator], fun c hc => (plain_of_mem_escapeText hc).1⟩

/-- A push of a string is one line of one operand, from which the string is read back: its literal is not
divided and begins no comment, every backslash in it is followed by the three digits of a code, and other
strings have other literals. -/
theorem string_literal (text : String) :
    (∀ c ∈ (escapeText text).toList, 32 < c.toNat ∧ c ≠ '#') ∧
    (∀ after, '\\' :: after <:+ (escapeText text).toList →
      ∃ digits rest, after = digits ++ rest ∧ digits.length = 3 ∧ ∀ d ∈ digits, d.isDigit) ∧
    unescape (escapeText text).toList = some text.toList ∧
    (∀ other, escapeText other = escapeText text → other = text) ∧
    ∀ settings scopes (i : Instruction), ∃ line,
      linesOf settings scopes { i with kind := .pushLiteral, payload := some (.string text) } = whole [line] ∧
      (textOf [line]).toList.splitOn '\n' = [line.text.toList, []] ∧
      line.text.toList.splitOnP isSeparator = ["PUSHS".toList, "string@".toList ++ (escapeText text).toList] := by
  have hoperand := not_isSeparator_operand text
  refine ⟨fun c hc => ?_, fun after => unit_of_suffix, unescape_escapeText text, fun other h => ?_,
    fun settings scopes i => ⟨.push (.string text), rfl, ?_, ?_⟩⟩
  · obtain ⟨hseparator, hsign⟩ := plain_of_mem_escapeText hc
    exact ⟨Nat.lt_of_not_le (of_decide_eq_false hseparator), hsign⟩
  · have hread := unescape_escapeText other
    rw [h, unescape_escapeText] at hread
    exact String.toList_injective (Option.some.inj hread).symm
  · have hline : ∀ c ∈ (Line.push (.string text)).text.toList, (c == '\n') = false := by
      rw [toList_push_string]
      refine forall_mem_append.2 ⟨by simp, forall_mem_cons.2 ⟨rfl, fun c hc => ?_⟩⟩
      refine Bool.eq_false_iff.2 fun hbreak => ?_
      have hc := hoperand c hc
      rw [eq_of_beq hbreak] at hc
      cases hc
    have htext : (textOf [.push (.string text)]).toList = (Line.push (.string text)).text.toList ++ ['\n'] := by
      simp [textOf]
    rw [htext, splitOn_eq_splitOnP, splitOnP_append_cons_of_forall_mem hline _ rfl, splitOnP_nil]
  · rw [toList_push_string, splitOnP_append_cons_of_forall_mem (by simp [isSeparator]) _ rfl,
      splitOnP_eq_singleton hoperand]

end OnePass.Target
