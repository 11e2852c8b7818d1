import Mathlib.Data.List.Infix
import Mathlib.Data.List.TakeWhile
import OnePass.Lexeme.Reader

/-!
# Where words, numbers and signs end

A lexeme ends where the text behind it says so, and it takes little to say: mostly the next character
decides, and blanks and the beginnings of comments all decide alike.

Main results:

* `Scan.word_local`, `Scan.number_local`, `Scan.sign_local` — **the text behind a lexeme can be exchanged
  for any that ends it as well**.
-/

namespace OnePass

open List

namespace Scan

variable {c : Char} {l y : List Char}

/-! ### Characters behind a lexeme -/

/-- A character that parts lexemes from one another: a blank or the first one of a comment. -/
def Parts (c : Char) : Prop := Text.isBlank c = true ∨ c = '/'

/-- A text that ends the lexeme of a scan as well as what is left behind it: it begins with the same
character; or the lexeme is a token, and the text begins with a character that parts lexemes.  Behind a
question mark the next one counts too. -/
inductive EndedBy (scan : Scan) : List Char → Prop where
  | same {c : Char} {y y' : List Char} (hrest : scan.rest = c :: y)
      (hmark : c = '?' → (y.head? = some '?' ↔ y'.head? = some '?')) : EndedBy scan (c :: y')
  | parted {kind : TokenKind} {c : Char} {y' : List Char} (houtcome : scan.outcome = .ok kind)
      (hc : Parts c) : EndedBy scan (c :: y')

theorem toNat_of_isBlank (h : Text.isBlank c = true) : c.toNat ≤ 32 ∨ 133 ≤ c.toNat := by
  simp only [Text.isBlank, Text.inRanges, Text.blankRanges, any_cons, any_nil, Bool.or_eq_true,
    Bool.and_eq_true, decide_eq_true_eq, Bool.or_false] at h
  omega

theorem Parts.toNat (h : Parts c) : c.toNat ≤ 32 ∨ c.toNat = 47 ∨ 133 ≤ c.toNat := by
  rcases h with hblank | rfl
  · have := toNat_of_isBlank hblank
    omega
  · exact .inr (.inl rfl)

theorem le_iff_toNat {a b : Char} : a ≤ b ↔ a.toNat ≤ b.toNat := by
  rw [Char.le_def, UInt32.le_iff_toNat_le]
  rfl

theorem toNat_of_isDigit (h : isDigit c = true) : 48 ≤ c.toNat ∧ c.toNat ≤ 57 := by
  simpa [isDigit, le_iff_toNat] using h

theorem toNat_of_isLetter (h : isLetter c = true) : 65 ≤ c.toNat ∧ c.toNat ≤ 122 := by
  simp only [isLetter, Bool.or_eq_true, Bool.and_eq_true, decide_eq_true_eq, le_iff_toNat, beq_iff_eq] at h
  rcases h with (h | h) | rfl
  · exact ⟨Nat.le_trans (by decide) h.1, h.2⟩
  · exact ⟨h.1, Nat.le_trans h.2 (by decide)⟩
  · decide

/-- Whether a character starts an exponent. -/
def isExponent (c : Char) : Bool := c == 'e' || c == 'E'

/-- Whether a character is the sign of an exponent. -/
def isExponentSign (c : Char) : Bool := c == '+' || c == '-'

namespace Parts

variable {c : Char} (h : Parts c)

include h

theorem not_isDigit : isDigit c = false := by
  refine Bool.eq_false_iff.2 fun hdigit => ?_
  have := toNat_of_isDigit hdigit
  have := h.toNat
  omega

theorem not_isLetter : isLetter c = false := by
  refine Bool.eq_false_iff.2 fun hletter => ?_
  have := toNat_of_isLetter hletter
  have := h.toNat
  omega

theorem not_isWordChar : isWordChar c = false := by
  rw [isWordChar, h.not_isLetter, h.not_isDigit]
  rfl

theorem ne {d : Char} (hd : 33 ≤ d.toNat) (hd' : d.toNat ≤ 126) (hslash : d.toNat ≠ 47) : c ≠ d := by
  rintro rfl
  have := h.toNat
  omega

theorem not_isExponentSign : isExponentSign c = false := by
  have hplus := h.ne (d := '+') (by decide) (by decide) (by decide)
  have hminus := h.ne (d := '-') (by decide) (by decide) (by decide)
  simp [isExponentSign, hplus, hminus]

theorem not_isExponent : isExponent c = false := by
  have hsmall := h.ne (d := 'e') (by decide) (by decide) (by decide)
  have hcapital := h.ne (d := 'E') (by decide) (by decide) (by decide)
  simp [isExponent, hsmall, hcapital]

end Parts

theorem optionalMark?_cons (c : Char) (y : List Char) :
    optionalMark? (c :: y) = if c = '?' ∧ y.head? ≠ some '?' then some y else none := by
  by_cases hc : c = '?'
  · subst hc
    cases y with
    | nil => rfl
    | cons d y =>
      by_cases hd : d = '?'
      · subst hd
        rfl
      · have hd' : ¬ some d = some '?' := fun heq => hd (Option.some.inj heq)
        rw [if_pos ⟨rfl, hd'⟩, optionalMark?]
        rintro rest heq
        exact hd (List.cons.inj heq).1
  · rw [if_neg fun hand => hc hand.1]
    unfold optionalMark?
    split
    · rename_i heq
      exact absurd (List.cons.inj heq).1 hc
    · rename_i heq
      exact absurd (List.cons.inj heq).1 hc
    · rfl

namespace EndedBy

variable {scan : Scan} {y' : List Char} (h : scan.EndedBy y')

include h

theorem any_head {p : Char → Bool} (hp : ∀ c, Parts c → p c = false)
    (hrest : scan.rest.head?.any p = false) : y'.head?.any p = false := by
  cases h with
  | same heq =>
    rw [heq] at hrest
    exact hrest
  | parted _ hc => exact hp _ hc

theorem head_ne {d : Char} (hd : 33 ≤ d.toNat) (hd' : d.toNat ≤ 126) (hslash : d.toNat ≠ 47)
    (hrest : scan.rest.head? ≠ some d) : y'.head? ≠ some d := by
  cases h with
  | same heq =>
    rw [heq] at hrest
    exact hrest
  | parted _ hc => exact fun heq => hc.ne hd hd' hslash (Option.some.inj heq)

theorem optionalMark?_eq_none (hrest : optionalMark? scan.rest = none) : optionalMark? y' = none := by
  cases h with
  | same heq hmark =>
    rename_i c y y'
    rw [heq, optionalMark?_cons] at hrest
    rw [optionalMark?_cons]
    by_cases hc : c = '?'
    · simpa [hc, hmark hc] using hrest
    · simp [hc]
  | parted _ hc =>
    have hmark := hc.ne (d := '?') (by decide) (by decide) (by decide)
    simp [optionalMark?_cons, hmark]

theorem exists_cons : ∃ c r, y' = c :: r := by
  cases h <;> exact ⟨_, _, rfl⟩

theorem of_error {fault : Fault} (hfault : scan.outcome = .error fault) :
    ∃ c r r', scan.rest = c :: r ∧ y' = c :: r' := by
  cases h with
  | same hrest => exact ⟨_, _, _, hrest, rfl⟩
  | parted houtcome =>
    rw [hfault] at houtcome
    cases houtcome

end EndedBy

/-! ### Words -/

section span

variable {p : Char → Bool} {l y : List Char}

theorem any_head_dropWhile (p : Char → Bool) (text : List Char) : (text.dropWhile p).head?.any p = false := by
  have hhead := List.head?_dropWhile_not p text
  cases hc : (text.dropWhile p).head? with
  | none => rfl
  | some c =>
    rw [hc] at hhead
    exact hhead

theorem span_of_head (hl : ∀ c ∈ l, p c = true) (hy : y.head?.any p = false) :
    (l ++ y).takeWhile p = l ∧ (l ++ y).dropWhile p = y := by
  have hy' : y.takeWhile p = [] ∧ y.dropWhile p = y := by
    cases y with
    | nil => exact ⟨rfl, rfl⟩
    | cons c y =>
      have hc : p c = false := hy
      exact ⟨takeWhile_cons_of_neg (by simp [hc]), dropWhile_cons_of_neg (by simp [hc])⟩
  rw [takeWhile_append_of_pos hl, dropWhile_append_of_pos hl, hy'.1, hy'.2, append_nil]
  exact ⟨rfl, rfl⟩

theorem exists_trimmed (c : Char) (l : List Char) : ∃ n,
    l = (l.reverse.dropWhile (· == c)).reverse ++ List.replicate n c ∧
      (l.reverse.dropWhile (· == c)).reverse.getLast? ≠ some c := by
  have hspan := takeWhile_append_dropWhile (p := (· == c)) (l := l.reverse)
  have hall : l.reverse.takeWhile (· == c) = List.replicate (l.reverse.takeWhile (· == c)).length c :=
    eq_replicate_iff.2 ⟨rfl, fun d hd => by simpa using mem_takeWhile_imp hd⟩
  refine ⟨(l.reverse.takeWhile (· == c)).length, ?_, ?_⟩
  · rw [← reverse_replicate, ← hall, ← reverse_append, hspan, reverse_reverse]
  · rw [List.getLast?_reverse]
    intro hlast
    have hhead := any_head_dropWhile (· == c) l.reverse
    rw [hlast] at hhead
    simp at hhead

theorem span_local {y' : List Char} (hsuffix : y <:+ (l ++ y).dropWhile p)
    (hy : y.head?.any p = false → y'.head?.any p = false) :
    ∃ m, (l ++ y).dropWhile p = m ++ y ∧ (l ++ y').dropWhile p = m ++ y' ∧
      (l ++ y').takeWhile p = (l ++ y).takeWhile p := by
  obtain ⟨m, hm⟩ := hsuffix
  have hspan := takeWhile_append_dropWhile (p := p) (l := l ++ y)
  have hhead := any_head_dropWhile p (l ++ y)
  have htaken : ∀ c ∈ (l ++ y).takeWhile p, p c = true := fun c => mem_takeWhile_imp
  rw [← hm] at hspan hhead
  generalize (l ++ y).takeWhile p = d at hspan htaken
  obtain rfl : d ++ m = l := append_cancel_right ((append_assoc ..).trans hspan)
  have hhead' : (m ++ y').head?.any p = false := by
    cases m with
    | nil => exact hy hhead
    | cons => exact hhead
  obtain ⟨htake, hdrop⟩ := span_of_head htaken hhead'
  rw [← append_assoc] at htake hdrop
  exact ⟨m, hm.symm, hdrop, htake⟩

end span

theorem word_plain (hl : ∀ c ∈ l, isWordChar c = true) (hy : y.head?.any isWordChar = false)
    (hmark : ∀ ty, TokenKind.ofWord (String.ofList l) = .typeName ty → optionalMark? y = none) :
    word (l ++ y) = ⟨l, .ok (TokenKind.ofWord (String.ofList l)), y⟩ := by
  obtain ⟨htake, hdrop⟩ := span_of_head hl hy
  unfold word
  simp only [htake, hdrop]
  split
  · rename_i ty rest hkind hsome
    rw [hmark ty hkind] at hsome
    cases hsome
  · rfl

theorem word_optional {ty : Ty} (hl : ∀ c ∈ l, isWordChar c = true)
    (hkind : TokenKind.ofWord (String.ofList l) = .typeName ty) (hy : y.head? ≠ some '?') :
    word (l ++ '?' :: y) = ⟨l ++ ['?'], .ok (.typeName ty.wrapped), y⟩ := by
  obtain ⟨htake, hdrop⟩ := span_of_head (y := '?' :: y) hl rfl
  have hmark : optionalMark? ('?' :: y) = some y := by rw [optionalMark?_cons, if_pos ⟨rfl, hy⟩]
  unfold word
  simp only [htake, hdrop, hkind, hmark]

theorem word_cases (text : List Char) :
    (∃ l y, text = l ++ y ∧ (∀ c ∈ l, isWordChar c = true) ∧ y.head?.any isWordChar = false ∧
      ∀ ty, TokenKind.ofWord (String.ofList l) = .typeName ty → optionalMark? y = none) ∨
    ∃ l y ty, text = l ++ '?' :: y ∧ (∀ c ∈ l, isWordChar c = true) ∧
      TokenKind.ofWord (String.ofList l) = .typeName ty ∧ y.head? ≠ some '?' := by
  have hspan := takeWhile_append_dropWhile (p := isWordChar) (l := text)
  have hhead := any_head_dropWhile isWordChar text
  have hword : ∀ c ∈ text.takeWhile isWordChar, isWordChar c = true := fun c => mem_takeWhile_imp
  generalize text.takeWhile isWordChar = l at hspan hword
  generalize text.dropWhile isWordChar = y at hspan hhead
  by_cases hplain : ∀ ty, TokenKind.ofWord (String.ofList l) = .typeName ty → optionalMark? y = none
  · exact .inl ⟨l, y, hspan.symm, hword, hhead, hplain⟩
  · simp only [not_forall] at hplain
    obtain ⟨ty, hkind, hsome⟩ := hplain
    cases y with
    | nil => exact absurd rfl hsome
    | cons c y =>
      rw [optionalMark?_cons] at hsome
      split at hsome
      · rename_i hmark
        obtain ⟨rfl, hsingle⟩ := hmark
        exact .inr ⟨l, y, ty, hspan.symm, hword, hkind, hsingle⟩
      · exact absurd rfl hsome

theorem word_rest_suffix (text : List Char) : (word text).rest <:+ text.dropWhile isWordChar := by
  rcases word_cases text with ⟨w, r, rfl, hw, hhead, hmark⟩ | ⟨w, r, ty, rfl, hw, hkind, hhead⟩
  · rw [word_plain hw hhead hmark, (span_of_head hw hhead).2]
  · rw [word_optional hw hkind hhead, (span_of_head (y := '?' :: r) hw rfl).2]
    exact suffix_cons '?' r

theorem word_local {y' : List Char} (hrest : (word (l ++ y)).rest = y)
    (h : (word (l ++ y)).EndedBy y') : word (l ++ y') = { word (l ++ y) with rest := y' } := by
  rcases word_cases (l ++ y) with ⟨w, r, htext, hw, hhead, hmark⟩ | ⟨w, r, ty, htext, hw, hkind, hhead⟩
  · have hword := word_plain hw hhead hmark
    rw [htext, hword] at hrest h
    obtain rfl : r = y := hrest
    obtain rfl : l = w := append_cancel_right htext
    rw [hword]
    exact word_plain hw (h.any_head (fun c hc => hc.not_isWordChar) hhead)
      fun ty hty => h.optionalMark?_eq_none (hmark ty hty)
  · have hword := word_optional hw hkind hhead
    rw [htext, hword] at hrest h
    obtain rfl : r = y := hrest
    have hl : l ++ r = (w ++ ['?']) ++ r := htext.trans (append_cons ..)
    obtain rfl : l = w ++ ['?'] := append_cancel_right hl
    rw [htext, hword, append_assoc]
    exact word_optional hw hkind (h.head_ne (by decide) (by decide) (by decide) hhead)

/-! ### Numbers -/

section number

variable {taken whole fraction l y y' : List Char} {plain : Except Fault TokenKind}
variable {text rest : List Char}

@[simp] theorem endNumber_rest (taken rest : List Char) (outcome : Except Fault TokenKind) :
    (endNumber taken rest outcome).rest = rest := by
  unfold endNumber
  repeat' split
  all_goals rfl

theorem endNumber_plain (h : y.head?.any isLetter = false) : endNumber taken y plain = ⟨taken, plain, y⟩ := by
  cases y with
  | nil => rfl
  | cons c y =>
    have hc : isLetter c = false := h
    simp [endNumber, hc]

theorem endNumber_local (h : (endNumber taken y plain).EndedBy y') :
    endNumber taken y' plain = { endNumber taken y plain with rest := y' } := by
  cases hy : y.head?.any isLetter with
  | false =>
    rw [endNumber_plain hy] at h ⊢
    exact endNumber_plain (h.any_head (fun c hc => hc.not_isLetter) hy)
  | true =>
    -- the fault is about the letter, so it has to stay
    obtain ⟨c, r, rfl⟩ := exists_cons_of_ne_nil (l := y) (by rintro rfl; cases hy)
    have hc : isLetter c = true := hy
    have hscan : ∀ rest, endNumber taken (c :: rest) plain = ⟨taken, .error (.letterAfterNumber c), c :: rest⟩ :=
      fun rest => by simp [endNumber, hc]
    rw [hscan] at h ⊢
    obtain ⟨d, _, _, hrest, rfl⟩ := h.of_error rfl
    obtain ⟨rfl, rfl⟩ := List.cons.inj hrest
    exact hscan _

theorem exponentSign_cons {c : Char} (hc : isExponentSign c = true) (rest : List Char) :
    exponentSign (c :: rest) = ([c], rest) := by
  rcases (by simpa [isExponentSign] using hc : c = '+' ∨ c = '-') with rfl | rfl <;> rfl

theorem exponentSign_of_head (h : y.head?.any isExponentSign = false) : exponentSign y = ([], y) := by
  unfold exponentSign
  split
  · cases h
  · cases h
  · rfl

theorem exponentSign_local (hsuffix : y <:+ (exponentSign (l ++ y)).2)
    (hy : y.head?.any isExponentSign = false → y'.head?.any isExponentSign = false) :
    ∃ sign m, exponentSign (l ++ y) = (sign, m ++ y) ∧ exponentSign (l ++ y') = (sign, m ++ y') := by
  cases l with
  | nil =>
    have hhead : y.head?.any isExponentSign = false := by
      cases y with
      | nil => rfl
      | cons c y =>
        refine Bool.eq_false_iff.2 fun hc => ?_
        rw [nil_append, exponentSign_cons hc] at hsuffix
        exact absurd hsuffix.length_le (by simp)
    exact ⟨[], [], exponentSign_of_head hhead, exponentSign_of_head (hy hhead)⟩
  | cons c l =>
    cases hc : isExponentSign c with
    | true => exact ⟨[c], l, exponentSign_cons hc _, exponentSign_cons hc _⟩
    | false => exact ⟨[], c :: l, exponentSign_of_head hc, exponentSign_of_head hc⟩

theorem exponent_of_sign {sign : List Char} (h : exponentSign text = (sign, rest)) :
    exponent taken whole fraction text = if (rest.takeWhile isDigit).isEmpty then
        ⟨taken ++ sign, .error .missingExponent, rest.dropWhile isDigit⟩
      else
        endNumber (taken ++ sign ++ rest.takeWhile isDigit) (rest.dropWhile isDigit)
          (.ok (.doubleLiteral (doubleValue whole fraction sign (rest.takeWhile isDigit)))) := by
  unfold exponent
  rw [h]

theorem exponent_rest (text : List Char) :
    (exponent taken whole fraction text).rest = (exponentSign text).2.dropWhile isDigit := by
  have hsign : exponentSign text = ((exponentSign text).1, (exponentSign text).2) := rfl
  rw [exponent_of_sign hsign]
  split
  · rfl
  · rw [endNumber_rest]

theorem exponent_local (hrest : (exponent taken whole fraction (l ++ y)).rest = y)
    (h : (exponent taken whole fraction (l ++ y)).EndedBy y') :
    exponent taken whole fraction (l ++ y') = { exponent taken whole fraction (l ++ y) with rest := y' } := by
  have hdigits := hrest
  rw [exponent_rest] at hdigits
  have hsuffix := dropWhile_suffix isDigit (l := (exponentSign (l ++ y)).2)
  rw [hdigits] at hsuffix
  have hy : ∀ {p : Char → Bool}, (∀ c, Parts c → p c = false) → y.head?.any p = false → y'.head?.any p = false :=
    fun hp hy => h.any_head hp (by rw [hrest]; exact hy)
  obtain ⟨sign, m, hsign, hsign'⟩ := exponentSign_local hsuffix (hy fun c hc => hc.not_isExponentSign)
  rw [hsign] at hdigits
  have hall : y <:+ (m ++ y).dropWhile isDigit := by
    rw [hdigits]
  obtain ⟨d, hdrop, hdrop', htake⟩ := span_local hall (hy fun c hc => hc.not_isDigit)
  obtain rfl : d = [] := by
    rw [hdigits] at hdrop
    exact append_left_eq_self.1 hdrop.symm
  rw [exponent_of_sign hsign] at h ⊢
  rw [exponent_of_sign hsign', htake, hdrop']
  rw [hdrop] at h ⊢
  split
  · rfl
  · rename_i hsome
    rw [if_neg hsome] at h
    exact endNumber_local h

theorem scaled_exponent {c : Char} (hc : isExponent c = true) (rest : List Char) :
    scaled taken whole fraction (c :: rest) plain = exponent (taken ++ [c]) whole fraction rest := by
  rcases (by simpa [isExponent] using hc : c = 'e' ∨ c = 'E') with rfl | rfl <;> rfl

theorem scaled_plain (h : y.head?.any isExponent = false) :
    scaled taken whole fraction y plain = endNumber taken y plain := by
  unfold scaled
  split
  · cases h
  · cases h
  · rfl

theorem exponent_rest_suffix (text : List Char) : (exponent taken whole fraction text).rest <:+ text := by
  rw [exponent_rest]
  refine (dropWhile_suffix _).trans ?_
  unfold exponentSign
  split
  · exact suffix_cons _ _
  · exact suffix_cons _ _
  · exact suffix_refl _

theorem scaled_rest_suffix (text : List Char) : (scaled taken whole fraction text plain).rest <:+ text := by
  cases hhead : text.head?.any isExponent with
  | false =>
    rw [scaled_plain hhead, endNumber_rest]
  | true =>
    obtain ⟨c, rest, rfl⟩ := exists_cons_of_ne_nil (l := text) (by rintro rfl; cases hhead)
    rw [scaled_exponent hhead]
    exact (exponent_rest_suffix rest).trans (suffix_cons c rest)

theorem scaled_local (hrest : (scaled taken whole fraction (l ++ y) plain).rest = y)
    (h : (scaled taken whole fraction (l ++ y) plain).EndedBy y') :
    scaled taken whole fraction (l ++ y') plain =
      { scaled taken whole fraction (l ++ y) plain with rest := y' } := by
  cases l with
  | nil =>
    rw [nil_append] at hrest h ⊢
    have hhead : y.head?.any isExponent = false := by
      cases y with
      | nil => rfl
      | cons c y =>
        refine Bool.eq_false_iff.2 fun hc => ?_
        have hsuffix : (scaled taken whole fraction (c :: y) plain).rest <:+ y := by
          rw [scaled_exponent hc]
          exact exponent_rest_suffix y
        rw [hrest] at hsuffix
        exact absurd hsuffix.length_le (by simp)
    have hhead' := h.any_head (fun c hc => hc.not_isExponent) (by rw [hrest]; exact hhead)
    rw [scaled_plain hhead] at h
    rw [nil_append, scaled_plain hhead, scaled_plain hhead']
    exact endNumber_local h
  | cons c l =>
    rw [cons_append] at hrest h ⊢
    cases hc : isExponent c with
    | true =>
      rw [scaled_exponent hc] at hrest h
      rw [cons_append, scaled_exponent hc, scaled_exponent hc]
      exact exponent_local hrest h
    | false =>
      have hhead : (c :: (l ++ y)).head?.any isExponent = false := hc
      rw [scaled_plain hhead, endNumber_rest] at hrest
      exact absurd (congrArg List.length hrest) (by simp; omega)

theorem number_point (h : text.dropWhile isDigit = '.' :: rest) : number text =
      if (rest.takeWhile isDigit).isEmpty then
        ⟨text.takeWhile isDigit ++ '.' :: rest.takeWhile isDigit, .error .missingFraction,
          rest.dropWhile isDigit⟩
      else
        scaled (text.takeWhile isDigit ++ '.' :: rest.takeWhile isDigit) (text.takeWhile isDigit)
          (rest.takeWhile isDigit) (rest.dropWhile isDigit)
          (.ok (.doubleLiteral (doubleValue (text.takeWhile isDigit) (rest.takeWhile isDigit) [] []))) := by
  unfold number
  rw [h]
  rfl

theorem number_whole (h : (text.dropWhile isDigit).head? ≠ some '.') : number text =
      scaled (text.takeWhile isDigit) (text.takeWhile isDigit) [] (text.dropWhile isDigit)
        (integer (text.takeWhile isDigit)) := by
  unfold number
  split
  · rename_i heq
    rw [heq] at h
    exact absurd rfl h
  · rfl

theorem number_point_rest_suffix (h : text.dropWhile isDigit = '.' :: rest) :
    (number text).rest <:+ rest.dropWhile isDigit := by
  rw [number_point h]
  split
  · exact suffix_refl _
  · exact scaled_rest_suffix _

theorem number_rest_suffix (text : List Char) : (number text).rest <:+ text.dropWhile isDigit := by
  by_cases hpoint : (text.dropWhile isDigit).head? = some '.'
  · obtain ⟨rest, hrest⟩ := List.head?_eq_some_iff.1 hpoint
    rw [hrest]
    exact ((number_point_rest_suffix hrest).trans (dropWhile_suffix _)).trans (suffix_cons _ _)
  · rw [number_whole hpoint]
    exact scaled_rest_suffix _

theorem number_local (hrest : (number (l ++ y)).rest = y) (h : (number (l ++ y)).EndedBy y') :
    number (l ++ y') = { number (l ++ y) with rest := y' } := by
  have hy : y.head?.any isDigit = false → y'.head?.any isDigit = false :=
    fun hy => h.any_head (fun c hc => hc.not_isDigit) (by rw [hrest]; exact hy)
  have hsuffix := number_rest_suffix (l ++ y)
  rw [hrest] at hsuffix
  obtain ⟨m, hdrop, hdrop', htake⟩ := span_local hsuffix hy
  by_cases hpoint : (m ++ y).head? = some '.'
  · cases m with
    | nil =>
      -- a point belongs to the number, so it is not behind it
      obtain ⟨rest, rfl⟩ := List.head?_eq_some_iff.1 hpoint
      have hshort := number_point_rest_suffix hdrop
      rw [hrest] at hshort
      exact absurd (hshort.trans (dropWhile_suffix _)).length_le (by simp)
    | cons c m =>
      obtain rfl : c = '.' := Option.some.inj hpoint
      rw [cons_append] at hdrop hdrop'
      have hsuffix := number_point_rest_suffix hdrop
      rw [hrest] at hsuffix
      obtain ⟨d, hfraction, hfraction', htake'⟩ := span_local hsuffix hy
      rw [number_point hdrop, hfraction] at hrest h
      rw [number_point hdrop, number_point hdrop', htake, htake', hfraction, hfraction']
      split
      · rename_i hempty
        rw [if_pos hempty] at hrest
        obtain rfl : d = [] := append_left_eq_self.1 hrest
        rfl
      · rename_i hsome
        rw [if_neg hsome] at hrest h
        exact scaled_local hrest h
  · have hpoint' : (m ++ y').head? ≠ some '.' := by
      cases m with
      | nil => exact h.head_ne (by decide) (by decide) (by decide) (by rw [hrest]; exact hpoint)
      | cons => exact hpoint
    rw [← hdrop] at hpoint
    rw [← hdrop'] at hpoint'
    rw [number_whole hpoint, hdrop] at hrest h
    rw [number_whole hpoint, number_whole hpoint', htake, hdrop, hdrop']
    exact scaled_local hrest h

end number

/-! ### Signs -/

/-- The sign of two characters, if they are one. -/
def pair? : Char → Char → Option Mark
  | '-', '>' => some .arrow
  | '=', '=' => some .equal
  | '!', '=' => some .notEqual
  | '<', '=' => some .lessEqual
  | '>', '=' => some .greaterEqual
  | '?', '?' => some .coalesce
  | _, _ => none

theorem sign_pair {d : Char} {mark : Mark} (h : pair? c d = some mark) (rest : List Char) :
    sign (c :: d :: rest) = ⟨[c, d], .ok (.mark mark), rest⟩ := by
  unfold pair? at h
  split at h <;> cases h <;> rfl

theorem sign_single {rest : List Char} (h : rest.head?.bind (pair? c) = none) :
    sign (c :: rest) = ⟨[c], (sign [c]).outcome, rest⟩ := by
  conv_lhs => unfold sign
  split <;> rename_i heq <;> cases heq
  -- a sign of one character, a sign of two, and a character that begins none
  all_goals first | rfl | cases h | simp [sign, *]

theorem sign_rest_suffix (c : Char) (text : List Char) : (sign (c :: text)).rest <:+ text := by
  cases hpair : text.head?.bind (pair? c) with
  | none =>
    rw [sign_single hpair]
  | some mark =>
    obtain ⟨d, hhead, hmark⟩ := Option.bind_eq_some_iff.1 hpair
    obtain ⟨rest, rfl⟩ := List.head?_eq_some_iff.1 hhead
    rw [sign_pair hmark]
    exact suffix_cons d rest

theorem Parts.pair?_eq_none {d : Char} (h : Parts d) : pair? c d = none := by
  have hequal := h.ne (d := '=') (by decide) (by decide) (by decide)
  have hgreater := h.ne (d := '>') (by decide) (by decide) (by decide)
  have hmark := h.ne (d := '?') (by decide) (by decide) (by decide)
  unfold pair?
  split <;> first | rfl | contradiction

theorem sign_local {y' : List Char} (hrest : (sign (c :: (l ++ y))).rest = y)
    (h : (sign (c :: (l ++ y))).EndedBy y') :
    sign (c :: (l ++ y')) = { sign (c :: (l ++ y)) with rest := y' } := by
  cases hpair : (l ++ y).head?.bind (pair? c) with
  | none =>
    rw [sign_single hpair] at hrest h ⊢
    obtain rfl : l = [] := append_left_eq_self.1 hrest
    refine sign_single ?_
    cases h with
    | same heq =>
      obtain rfl : _ = y := heq.symm
      exact hpair
    | parted _ hc => exact hc.pair?_eq_none
  | some mark =>
    cases l with
    | nil =>
      obtain ⟨d, hhead, hmark⟩ := Option.bind_eq_some_iff.1 hpair
      obtain ⟨r, rfl⟩ := List.head?_eq_some_iff.1 hhead
      rw [nil_append, sign_pair hmark] at hrest
      exact absurd (congrArg List.length hrest) (by simp)
    | cons d l =>
      have hmark : pair? c d = some mark := hpair
      rw [cons_append, sign_pair hmark] at hrest
      obtain rfl : l = [] := append_left_eq_self.1 hrest
      rw [cons_append, cons_append, sign_pair hmark, sign_pair hmark]
      rfl

end Scan

end OnePass
