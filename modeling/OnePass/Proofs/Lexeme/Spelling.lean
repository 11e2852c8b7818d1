import OnePass.Proofs.Lexeme.Literal
import OnePass.Proofs.Lexeme.Spacing

/-!
# The spellings of tokens

The lexical grammar, described without the reader: which texts spell a token of which kind.

Main results:

* `Escape.decode_eq_ok_iff` — escapes are resolved exactly as they denote;
* `Scan.Spells.lexeme` — **a spelling that is followed by a blank, or by nothing, is read as its token**;
* `Scan.exists_spells` — **every token that is read is spelled by the characters that it takes**.
-/

namespace OnePass

open List

/-! ### Escapes -/

namespace Escape

variable {text : List Char}

/-- What the letters and signs of short escapes mean. -/
def shortEscapes : List (Char × Char) :=
  [('n', '\n'), ('t', '\t'), ('r', '\r'), ('"', '"'), ('\\', '\\')]

/-- A raw text and the text that it denotes; `bare` are the characters that may stand for themselves. -/
inductive Denotes (bare : Char → Prop) : List Char → List Char → Prop where
  | nil : Denotes bare [] []
  | plain {c : Char} {raw text : List Char} (hbare : bare c) (hc : c ≠ '\\') (h : Denotes bare raw text) :
      Denotes bare (c :: raw) (c :: text)
  | short {c meant : Char} {raw text : List Char} (hc : (c, meant) ∈ shortEscapes)
      (h : Denotes bare raw text) : Denotes bare ('\\' :: c :: raw) (meant :: text)
  | codePoint {digits raw text : List Char} (hdigits : ∀ c ∈ digits, (hexValue? c).isSome = true)
      (hsome : digits ≠ []) (hlength : digits.length ≤ 8) (hvalid : (hexNumber digits).isValidChar)
      (h : Denotes bare raw text) :
      Denotes bare ('\\' :: 'u' :: '\x7b' :: (digits ++ '\x7d' :: raw)) (Char.ofNat (hexNumber digits) :: text)

theorem simple_eq_some_iff {c meant : Char} : simple c = some meant ↔ (c, meant) ∈ shortEscapes := by
  unfold simple
  split <;> simp_all [shortEscapes, eq_comm]

theorem codePoint?_eq_some_iff {digits : List Char} {c : Char} : codePoint? digits = some c ↔
      digits ≠ [] ∧ (hexNumber digits).isValidChar ∧ c = Char.ofNat (hexNumber digits) := by
  by_cases hnil : digits = []
  · simp [codePoint?, hnil]
  · by_cases hvalid : (hexNumber digits).isValidChar
    · simp [codePoint?, hnil, hvalid, @eq_comm _ c]
    · simp [codePoint?, hnil, hvalid]

/-- The characters of an escape that have been read. -/
def Stage.read : Stage → List Char
  | .plain => []
  | .escape => ['\\']
  | .brace => ['\\', 'u']
  | .digits found => '\\' :: 'u' :: '\x7b' :: found

/-- The digits that have been read are digits, and not too many. -/
def Stage.Sound : Stage → Prop
  | .digits found => (∀ c ∈ found, (hexValue? c).isSome = true) ∧ found.length ≤ 8
  | _ => True

theorem exists_of_map_eq_ok {ε α β : Type} {f : α → β} {x : Except ε α} {b : β} (h : f <$> x = .ok b) :
    ∃ a, x = .ok a ∧ f a = b := by
  cases x with
  | error => cases h
  | ok a => exact ⟨a, rfl, Except.ok.inj h⟩

theorem denotes_of_decodeFrom {stage : Stage} {rest : List Char} (hstage : stage.Sound)
    (h : decodeFrom stage rest = .ok text) : Denotes (fun _ => True) (stage.read ++ rest) text := by
  fun_induction decodeFrom stage rest generalizing text with
  | case1 =>
    cases h
    exact .nil
  | case2 rest ih => exact ih trivial h
  | case3 c rest hc ih =>
    obtain ⟨text, htext, rfl⟩ := exists_of_map_eq_ok h
    exact .plain trivial hc (ih trivial htext)
  | case4 => cases h
  | case5 rest ih => exact ih trivial h
  | case6 c rest hc meant hmeant ih =>
    obtain ⟨text, htext, rfl⟩ := exists_of_map_eq_ok h
    exact .short (simple_eq_some_iff.1 hmeant) (ih trivial htext)
  | case7 => cases h
  | case8 => cases h
  | case9 rest ih => exact ih ⟨nofun, Nat.zero_le _⟩ h
  | case10 => cases h
  | case11 => cases h
  | case12 digits rest meant hmeant ih =>
    obtain ⟨text, htext, rfl⟩ := exists_of_map_eq_ok h
    obtain ⟨hsome, hvalid, rfl⟩ := codePoint?_eq_some_iff.1 hmeant
    exact .codePoint hstage.1 hsome hstage.2 hvalid (ih trivial htext)
  | case13 => cases h
  | case14 digits c rest hc hdigit ih =>
    have hread : Stage.read (.digits digits) ++ c :: rest = Stage.read (.digits (digits ++ [c])) ++ rest := by
      simp [Stage.read]
    rw [hread]
    refine ih ⟨?_, ?_⟩ h
    · intro d hd
      rcases mem_append.1 hd with hd | hd
      · exact hstage.1 d hd
      · rw [mem_singleton.1 hd]
        exact hdigit.1
    · rw [length_append, length_singleton]
      exact hdigit.2
  | case15 => cases h

theorem decodeFrom_digits {read digits rest : List Char} (hdigits : ∀ c ∈ digits, (hexValue? c).isSome = true)
    (hlength : (read ++ digits).length ≤ 8) :
    decodeFrom (.digits read) (digits ++ rest) = decodeFrom (.digits (read ++ digits)) rest := by
  induction digits generalizing read with
  | nil => simp
  | cons c digits ih =>
    have hdigit : (hexValue? c).isSome = true := hdigits c mem_cons_self
    have hc : c ≠ '\x7d' := by
      rintro rfl
      cases hdigit
    have hroom : read.length < 8 := by
      rw [length_append, length_cons] at hlength
      omega
    rw [cons_append, decodeFrom, if_neg hc, if_pos ⟨hdigit, hroom⟩,
      ih (fun d hd => hdigits d (mem_cons_of_mem c hd)) (by simpa using hlength)]
    simp

theorem Denotes.decode {bare : Char → Prop} {raw : List Char} (h : Denotes bare raw text) :
    decode raw = .ok text := by
  rw [Escape.decode]
  induction h with
  | nil => rfl
  | plain hbare hc h ih =>
    rw [decodeFrom, if_neg hc, ih]
    rfl
  | @short c meant raw text hc h ih =>
    have hu : c ≠ 'u' := by
      rintro rfl
      simp [shortEscapes] at hc
    rw [decodeFrom, if_pos rfl, decodeFrom, if_neg hu, simple_eq_some_iff.2 hc]
    simp only [ih]
    rfl
  | codePoint hdigits hsome hlength hvalid h ih =>
    rw [decodeFrom, if_pos rfl, decodeFrom, if_pos rfl, decodeFrom, if_pos rfl,
      decodeFrom_digits hdigits (by simpa using hlength), nil_append, decodeFrom, if_pos rfl,
      codePoint?_eq_some_iff.2 ⟨hsome, hvalid, rfl⟩]
    simp only [ih]
    rfl

theorem decode_eq_ok_iff {raw : List Char} : decode raw = .ok text ↔ Denotes (fun _ => True) raw text :=
  ⟨fun h => denotes_of_decodeFrom (show Stage.Sound .plain from trivial) h, Denotes.decode⟩

end Escape

namespace Scan

variable {y : List Char} {c : Char} {kind : TokenKind}

open Escape (Denotes)

/-! ### Spellings -/

/-- Decimal digits, at least one of them. -/
def Digits (text : List Char) : Prop := text ≠ [] ∧ ∀ c ∈ text, isDigit c = true

/-- The fraction of a number with the point before it, and its digits; there may be none. -/
inductive Fraction : List Char → List Char → Prop where
  | absent : Fraction [] []
  | present {digits : List Char} (h : Digits digits) : Fraction ('.' :: digits) digits

/-- The exponent of a number, and its sign and its digits; there may be none. -/
inductive Power : List Char → List Char → List Char → Prop where
  | absent : Power [] [] []
  | present {letter : Char} {sign digits : List Char} (hletter : letter = 'e' ∨ letter = 'E')
      (hsign : sign = [] ∨ sign = ['+'] ∨ sign = ['-']) (h : Digits digits) :
      Power (letter :: (sign ++ digits)) sign digits

/-- A character that may stand for itself in a literal on one line. -/
def Unquoted (c : Char) : Prop := c ≠ '"' ∧ c ≠ '\n'

/-- The texts that spell a token within a line. -/
inductive Spells : TokenKind → List Char → Prop where
  | reserved (word : Keyword) : Spells (.keyword word) word.text.toList
  | typeName {ty : Ty} (hty : ty.isStorable = true) : Spells (.typeName ty) ty.text.toList
  | name {c : Char} {rest : List Char} (hc : isLetter c = true) (hrest : ∀ d ∈ rest, isWordChar d = true)
      (hword : ∀ word : Keyword, word.text.toList ≠ c :: rest) (hty : ∀ b : Base, b.text.toList ≠ c :: rest) :
      Spells (.identifier (String.ofList (c :: rest))) (c :: rest)
  | integer {digits : List Char} (h : Digits digits) (hrange : Nat.ofDigitChars 10 digits 0 < Nat.pow 2 63) :
      Spells (.intLiteral (Nat.ofDigitChars 10 digits 0)) digits
  | double {whole point fraction power sign exponent : List Char} (hwhole : Digits whole)
      (hpoint : Fraction point fraction) (hpower : Power power sign exponent) (hsome : point ++ power ≠ []) :
      Spells (.doubleLiteral (doubleValue whole fraction sign exponent)) (whole ++ (point ++ power))
  | string {raw text : List Char} (h : Denotes Unquoted raw text) :
      Spells (.stringLiteral (String.ofList text)) ('"' :: raw ++ ['"'])
  | mark (sign : Mark) : Spells (.mark sign) sign.text.toList

/-- A line of a text block with an indentation, and what it contributes to the text. -/
inductive SpellsLine (indentation : List Char) : List Char → List Char → Prop where
  | content {raw returns text : List Char} (h : Denotes (fun _ => True) raw text)
      (hraw : raw.getLast? ≠ some '\r') (hreturns : ∀ c ∈ returns, c = '\r') :
      SpellsLine indentation (indentation ++ (raw ++ returns)) text
  | blank {line : List Char} (hindentation : ¬ indentation <+: line)
      (hline : ∀ c ∈ line, Text.isBlank c = true) : SpellsLine indentation line []

/-- The texts that spell a string as a text block: its lines do not close the block, and the closing quotes
stand alone behind the indentation. -/
inductive SpellsBlock : TokenKind → List Char → Prop where
  | lines {opening indentation : List Char} {lines texts : List (List Char)}
      (hopening : ∀ c ∈ opening, isOpeningBlank c = true)
      (hindentation : ∀ c ∈ indentation, Text.isIndent c = true)
      (hlines : ∀ line ∈ lines, '\n' ∉ line ∧ line.dropWhile Text.isIndent ≠ tripleQuote)
      (htexts : List.Forall₂ (SpellsLine indentation) lines texts) :
      SpellsBlock (.stringLiteral (String.ofList (['\n'].intercalate texts)))
        (tripleQuote ++ (opening ++ '\n' :: (lines.flatMap (· ++ ['\n']) ++ (indentation ++ tripleQuote))))

/-- A text in front of which a line ends: it is empty or begins with a line break. -/
def Ends (text : List Char) : Prop := ∀ c, text.head? = some c → c = '\n'

/-- A text that parts what stands before it from what follows: it is empty or begins with a blank. -/
def Parted (text : List Char) : Prop := ∀ c, text.head? = some c → Text.isBlank c = true

theorem Parted.any_head {p : Char → Bool} (h : Parted y) (hp : ∀ c, Parts c → p c = false) :
    y.head?.any p = false := by
  cases y with
  | nil => rfl
  | cons c y => exact hp c (.inl (h c rfl))

theorem Parted.head_ne {d : Char} (h : Parted y) (hd : 33 ≤ d.toNat) (hd' : d.toNat ≤ 126) :
    y.head? ≠ some d := by
  intro hhead
  have := toNat_of_isBlank (h d hhead)
  omega

/-! ### Words -/

section word

theorem ofWord_reserved (word : Keyword) : TokenKind.ofWord word.text = .keyword word := by
  cases word <;> rfl

theorem ofWord_base (b : Base) : TokenKind.ofWord b.text = .typeName (.base b) := by
  cases b <;> rfl

theorem isWordChar_of_reserved (word : Keyword) : ∀ c ∈ word.text.toList, isWordChar c = true := by
  cases word <;> exact all_eq_true.1 rfl

theorem isWordChar_of_base (b : Base) : ∀ c ∈ b.text.toList, isWordChar c = true := by
  cases b <;> exact all_eq_true.1 rfl

theorem ofWord_name {name : String} (hword : ∀ word : Keyword, word.text ≠ name)
    (hty : ∀ b : Base, b.text ≠ name) : TokenKind.ofWord name = .identifier name := by
  have hnotype : TokenKind.typeWords.find? (·.text == name) = none :=
    List.find?_eq_none.2 fun b _ => by simpa using hty b
  have hnoword : Keyword.all.find? (·.text == name) = none :=
    List.find?_eq_none.2 fun word _ => by simpa using hword word
  rw [TokenKind.ofWord, hnotype, hnoword]

theorem exists_base_of_ofWord {word : String} {ty : Ty} (h : TokenKind.ofWord word = .typeName ty) :
    ∃ b : Base, ty = .base b ∧ word = b.text := by
  unfold TokenKind.ofWord at h
  split at h
  · rename_i b hb
    cases h
    exact ⟨b, rfl, (by simpa using List.find?_some hb : b.text = word).symm⟩
  · split at h <;> cases h

theorem spells_ofWord {c : Char} {rest : List Char} (hc : isLetter c = true)
    (hrest : ∀ d ∈ rest, isWordChar d = true) :
    Spells (TokenKind.ofWord (String.ofList (c :: rest))) (c :: rest) := by
  by_cases hty : ∃ b : Base, b.text.toList = c :: rest
  · obtain ⟨b, hb⟩ := hty
    rw [← hb, String.ofList_toList, ofWord_base]
    exact .typeName (show (Ty.base b).isStorable = true from rfl)
  · by_cases hword : ∃ word : Keyword, word.text.toList = c :: rest
    · obtain ⟨word, hword⟩ := hword
      rw [← hword, String.ofList_toList, ofWord_reserved]
      exact .reserved word
    · simp only [not_exists] at hty hword
      rw [ofWord_name]
      · exact .name hc hrest hword hty
      · rintro word heq
        exact hword word (by rw [heq, String.toList_ofList])
      · rintro b heq
        exact hty b (by rw [heq, String.toList_ofList])

theorem word_spelled {l y : List Char} (hl : ∀ c ∈ l, isWordChar c = true) (hy : Parted y) :
    word (l ++ y) = ⟨l, .ok (TokenKind.ofWord (String.ofList l)), y⟩ := by
  refine word_plain hl (hy.any_head fun c hc => hc.not_isWordChar) fun ty _ => ?_
  cases y with
  | nil => rfl
  | cons c y =>
    have hc : c ≠ '?' := fun hc => hy.head_ne (d := '?') (by decide) (by decide) (by rw [hc]; rfl)
    simp [optionalMark?_cons, hc]

theorem word_spells {c : Char} {rest : List Char} (hc : isLetter c = true) :
    ∃ kind l y, c :: rest = l ++ y ∧ word (c :: rest) = ⟨l, .ok kind, y⟩ ∧ Spells kind l := by
  have hfirst : isWordChar c = true := by simp [isWordChar, hc]
  rcases word_cases (c :: rest) with ⟨l, y, htext, hl, hy, hmark⟩ | ⟨l, y, ty, htext, hl, hkind, hy⟩
  · cases l with
    | nil =>
      rw [nil_append] at htext
      rw [← htext] at hy
      exact absurd hfirst (by simpa using hy)
    | cons d l =>
      obtain rfl : c = d := (List.cons.inj htext).1
      rw [htext]
      exact ⟨_, c :: l, y, rfl, word_plain hl hy hmark,
        spells_ofWord hc fun d hd => hl d (mem_cons_of_mem c hd)⟩
  · cases l with
    | nil =>
      obtain rfl : c = '?' := (List.cons.inj htext).1
      cases hc
    | cons d l =>
      obtain rfl : c = d := (List.cons.inj htext).1
      obtain ⟨b, rfl, hb⟩ := exists_base_of_ofWord hkind
      have hspells : Spells (.typeName (.optional b)) (Ty.optional b).text.toList := .typeName rfl
      rw [Ty.text, String.toList_append, ← hb, String.toList_ofList] at hspells
      rw [htext]
      exact ⟨_, c :: l ++ ['?'], y, by simp, word_optional hl hkind hy, hspells⟩

end word

/-! ### Numbers -/

section number

variable {taken whole fraction power sign exponent y : List Char} {plain : Except Fault TokenKind}
variable {kind : TokenKind}

theorem decimalNumber_eq (digits : List Char) : decimalNumber digits = Nat.ofDigitChars 10 digits 0 := by
  rw [decimalNumber, Nat.ofDigitChars]
  congr 1
  funext number c
  rw [Nat.mul_comm]

theorem Digits.span {digits : List Char} (h : Digits digits) (hy : y.head?.any isDigit = false) :
    (digits ++ y).takeWhile isDigit = digits ∧ (digits ++ y).dropWhile isDigit = y :=
  span_of_head h.2 hy

theorem exponentSign_spelled {digits : List Char} (hsign : sign = [] ∨ sign = ['+'] ∨ sign = ['-'])
    (h : Digits digits) : exponentSign (sign ++ (digits ++ y)) = (sign, digits ++ y) := by
  rcases hsign with rfl | rfl | rfl
  · obtain ⟨c, rest, rfl⟩ := exists_cons_of_ne_nil h.1
    refine exponentSign_of_head ?_
    have hc := toNat_of_isDigit (h.2 c mem_cons_self)
    refine Bool.eq_false_iff.2 fun hsign => ?_
    rcases (by simpa [isExponentSign] using hsign : c = '+' ∨ c = '-') with rfl | rfl
    · exact absurd hc (by decide)
    · exact absurd hc (by decide)
  · rfl
  · rfl

theorem Power.scaled (h : Power power sign exponent) (hy : Parted y) :
    scaled taken whole fraction (power ++ y) plain = ⟨taken ++ power,
        if power = [] then plain else .ok (.doubleLiteral (doubleValue whole fraction sign exponent)), y⟩ := by
  have hletter : y.head?.any isLetter = false := hy.any_head fun c hc => hc.not_isLetter
  have hdigit : y.head?.any isDigit = false := hy.any_head fun c hc => hc.not_isDigit
  cases h with
  | absent =>
    rw [nil_append, scaled_plain (hy.any_head fun c hc => hc.not_isExponent), endNumber_plain hletter]
    simp
  | @present letter _ _ hexponent hsign h =>
    have hexponent : isExponent letter = true := by simpa [isExponent] using hexponent
    obtain ⟨htake, hdrop⟩ := h.span hdigit
    have hsome : exponent.isEmpty = false := by simpa using h.1
    rw [cons_append, scaled_exponent hexponent, append_assoc,
      exponent_of_sign (exponentSign_spelled hsign h), htake, hdrop, hsome, if_neg (by decide),
      endNumber_plain hletter]
    simp

theorem Digits.number (hwhole : Digits whole) {point : List Char} (hpoint : Fraction point fraction)
    (hpower : Power power sign exponent) (hy : Parted y) :
    number (whole ++ (point ++ power) ++ y) = ⟨whole ++ (point ++ power),
        if point ++ power = [] then integer whole
        else .ok (.doubleLiteral (doubleValue whole fraction sign exponent)), y⟩ := by
  have hhead : (power ++ y).head?.any isDigit = false ∧ (power ++ y).head? ≠ some '.' := by
    cases hpower with
    | absent =>
      exact ⟨hy.any_head fun c hc => hc.not_isDigit, hy.head_ne (d := '.') (by decide) (by decide)⟩
    | present hletter hsign h => rcases hletter with rfl | rfl <;> exact ⟨rfl, by simp⟩
  cases hpoint with
  | absent =>
    obtain ⟨htake, hdrop⟩ := hwhole.span hhead.1
    rw [nil_append, append_assoc, number_whole (by rw [hdrop]; exact hhead.2), htake, hdrop,
      hpower.scaled hy]
  | present h =>
    obtain ⟨htake, hdrop⟩ := hwhole.span (y := '.' :: (fraction ++ (power ++ y))) rfl
    obtain ⟨htake', hdrop'⟩ := h.span hhead.1
    have hsome : fraction.isEmpty = false := by simpa using h.1
    have htext : whole ++ ('.' :: fraction ++ power) ++ y = whole ++ '.' :: (fraction ++ (power ++ y)) := by
      simp
    rw [htext, number_point hdrop, htake, htake', hdrop', hsome, if_neg (by decide), hpower.scaled hy]
    cases hpower <;> simp

theorem endNumber_of_ok (h : (endNumber taken y plain).outcome = .ok kind) :
    plain = .ok kind ∧ endNumber taken y plain = ⟨taken, .ok kind, y⟩ := by
  cases hletter : y.head?.any isLetter with
  | false =>
    rw [endNumber_plain hletter] at h ⊢
    obtain rfl : plain = .ok kind := h
    exact ⟨rfl, rfl⟩
  | true =>
    obtain ⟨c, r, rfl⟩ := exists_cons_of_ne_nil (l := y) (by rintro rfl; cases hletter)
    have hc : isLetter c = true := hletter
    simp [endNumber, hc] at h

theorem exponentSign_append (text : List Char) :
    ∃ sign rest, exponentSign text = (sign, rest) ∧ text = sign ++ rest ∧
      (sign = [] ∨ sign = ['+'] ∨ sign = ['-']) := by
  unfold exponentSign
  split
  · exact ⟨_, _, rfl, rfl, .inr (.inl rfl)⟩
  · exact ⟨_, _, rfl, rfl, .inr (.inr rfl)⟩
  · exact ⟨_, _, rfl, rfl, .inl rfl⟩

theorem digits_takeWhile {text : List Char} (h : (text.takeWhile isDigit).isEmpty = false) :
    Digits (text.takeWhile isDigit) :=
  ⟨by simpa using h, fun _ => mem_takeWhile_imp⟩

theorem scaled_spells {text : List Char} (h : (scaled taken whole fraction text plain).outcome = .ok kind) :
    ∃ power sign exponent y, text = power ++ y ∧ Power power sign exponent ∧
      scaled taken whole fraction text plain = ⟨taken ++ power, .ok kind, y⟩ ∧
      (if power = [] then plain else .ok (.doubleLiteral (doubleValue whole fraction sign exponent))) =
        .ok kind := by
  cases hhead : text.head?.any isExponent with
  | false =>
    rw [scaled_plain hhead] at h ⊢
    obtain ⟨hplain, hscan⟩ := endNumber_of_ok h
    exact ⟨[], [], [], text, rfl, .absent, by rw [hscan, append_nil], hplain⟩
  | true =>
    obtain ⟨c, rest, rfl⟩ := exists_cons_of_ne_nil (l := text) (by rintro rfl; cases hhead)
    have hc : isExponent c = true := hhead
    obtain ⟨sign, rest, hsign, rfl, hspelled⟩ := exponentSign_append rest
    rw [scaled_exponent hc, exponent_of_sign hsign] at h ⊢
    cases hempty : (rest.takeWhile isDigit).isEmpty with
    | true =>
      rw [hempty, if_pos rfl] at h
      cases h
    | false =>
      rw [hempty] at h
      rw [if_neg (by decide)] at h ⊢
      obtain ⟨hkind, hscan⟩ := endNumber_of_ok h
      refine ⟨c :: (sign ++ rest.takeWhile isDigit), sign, rest.takeWhile isDigit, rest.dropWhile isDigit,
        ?_, .present (by simpa [isExponent] using hc) hspelled (digits_takeWhile hempty), ?_, hkind⟩
      · rw [cons_append, append_assoc, takeWhile_append_dropWhile]
      · rw [hscan]
        simp

theorem number_spells {c : Char} {rest : List Char} (hc : isDigit c = true)
    (h : (number (c :: rest)).outcome = .ok kind) :
    ∃ l y, c :: rest = l ++ y ∧ number (c :: rest) = ⟨l, .ok kind, y⟩ ∧ Spells kind l := by
  have hwhole : Digits ((c :: rest).takeWhile isDigit) :=
    digits_takeWhile (by rw [takeWhile_cons_of_pos hc]; rfl)
  have hspan := takeWhile_append_dropWhile (p := isDigit) (l := c :: rest)
  by_cases hpoint : ((c :: rest).dropWhile isDigit).head? = some '.'
  · obtain ⟨behind, hbehind⟩ := List.head?_eq_some_iff.1 hpoint
    rw [number_point hbehind] at h ⊢
    rw [hbehind] at hspan
    generalize (c :: rest).takeWhile isDigit = whole at hwhole hspan h ⊢
    cases hempty : (behind.takeWhile isDigit).isEmpty with
    | true =>
      rw [hempty, if_pos rfl] at h
      cases h
    | false =>
      rw [hempty] at h
      rw [if_neg (by decide)] at h ⊢
      have hspan' := takeWhile_append_dropWhile (p := isDigit) (l := behind)
      have hfraction := digits_takeWhile hempty
      generalize behind.takeWhile isDigit = fraction at hfraction hspan' h ⊢
      obtain ⟨power, sign, exponent, y, htext, hpower, hscan, hkind⟩ := scaled_spells h
      refine ⟨whole ++ ('.' :: fraction ++ power), y, ?_, by rw [hscan]; simp, ?_⟩
      · rw [← hspan, ← hspan', htext]
        simp
      · obtain rfl : TokenKind.doubleLiteral (doubleValue whole fraction sign exponent) = kind := by
          cases hpower <;> exact Except.ok.inj hkind
        exact .double hwhole (.present hfraction) hpower (by simp)
  · rw [number_whole hpoint] at h ⊢
    generalize (c :: rest).takeWhile isDigit = whole at hwhole hspan h ⊢
    obtain ⟨power, sign, exponent, y, htext, hpower, hscan, hkind⟩ := scaled_spells h
    rw [htext] at hspan
    refine ⟨whole ++ power, y, by rw [← hspan, append_assoc], hscan, ?_⟩
    cases hpower with
    | absent =>
      rw [if_pos rfl, integer, decimalNumber_eq] at hkind
      split at hkind
      · rename_i hrange
        obtain rfl := Except.ok.inj hkind
        rw [append_nil]
        exact .integer hwhole hrange
      · cases hkind
    | present hletter hsign hdigits =>
      obtain rfl := Except.ok.inj hkind
      exact .double hwhole .absent (.present hletter hsign hdigits) (by simp)

end number

/-! ### Literals on one line -/

section line

variable {raw text y : List Char}

theorem rawLine_plain_append {l : List Char} (hl : ∀ c ∈ l, c ≠ '\\' ∧ Unquoted c) :
    rawLine (l ++ y) = (l ++ (rawLine y).1, (rawLine y).2) := by
  induction l with
  | nil => rfl
  | cons c l ih =>
    obtain ⟨hescape, hquote, hbreak⟩ := hl c mem_cons_self
    have hstop : ¬ (c = '"' ∨ c = '\n') := fun hc => hc.elim hquote hbreak
    rw [cons_append, rawLine_other hescape hstop, ih fun d hd => hl d (mem_cons_of_mem c hd)]
    rfl

theorem unquoted_codePoint {digits : List Char} (hdigits : ∀ c ∈ digits, (Escape.hexValue? c).isSome = true) :
    ∀ c ∈ '\x7b' :: (digits ++ ['\x7d']), c ≠ '\\' ∧ Unquoted c := by
  intro c hc
  rcases mem_cons.1 hc with rfl | hc
  · simp [Unquoted]
  · rcases mem_append.1 hc with hc | hc
    · have hdigit := hdigits c hc
      refine ⟨?_, ?_, ?_⟩ <;> rintro rfl <;> cases hdigit
    · rw [mem_singleton.1 hc]
      simp [Unquoted]

theorem ne_break_of_short {c meant : Char} (h : (c, meant) ∈ Escape.shortEscapes) : c ≠ '\n' := by
  rintro rfl
  simp [Escape.shortEscapes] at h

theorem rawLine_codePoint {digits : List Char} (hdigits : ∀ c ∈ digits, (Escape.hexValue? c).isSome = true) :
    rawLine ('\\' :: 'u' :: '\x7b' :: (digits ++ '\x7d' :: raw) ++ y) =
      ('\\' :: 'u' :: '\x7b' :: (digits ++ '\x7d' :: (rawLine (raw ++ y)).1), (rawLine (raw ++ y)).2) := by
  have htext : '\\' :: 'u' :: '\x7b' :: (digits ++ '\x7d' :: raw) ++ y =
      '\\' :: 'u' :: ('\x7b' :: (digits ++ ['\x7d']) ++ (raw ++ y)) := by simp
  rw [htext, rawLine_escape (by decide), rawLine_plain_append (unquoted_codePoint hdigits)]
  simp

theorem rawLine_denotes (h : Denotes Unquoted raw text) : rawLine (raw ++ '"' :: y) = (raw, '"' :: y) := by
  induction h with
  | nil => rfl
  | plain hbare hc h ih =>
    rw [cons_append, rawLine_other hc (fun hstop => hstop.elim hbare.1 hbare.2), ih]
  | short hc h ih =>
    rw [cons_append, cons_append, rawLine_escape (ne_break_of_short hc), ih]
  | codePoint hdigits hsome hlength hvalid h ih =>
    rw [rawLine_codePoint hdigits, ih]

theorem unquoted_of_rawLine (h : Denotes (fun _ => True) raw text)
    (hraw : rawLine (raw ++ '"' :: y) = (raw, '"' :: y)) : Denotes Unquoted raw text := by
  induction h with
  | nil => exact .nil
  | @plain c raw text _ hc h ih =>
    have hstop : ¬ (c = '"' ∨ c = '\n') := by
      intro hstop
      rw [cons_append, rawLine_stop hstop] at hraw
      cases hraw
    rw [cons_append, rawLine_other hc hstop] at hraw
    obtain ⟨hfirst, hsecond⟩ := Prod.mk.inj hraw
    refine .plain ⟨fun hquote => hstop (.inl hquote), fun hbreak => hstop (.inr hbreak)⟩ hc (ih ?_)
    exact Prod.ext (List.cons.inj hfirst).2 hsecond
  | @short c meant raw text hc h ih =>
    rw [cons_append, cons_append, rawLine_escape (ne_break_of_short hc)] at hraw
    obtain ⟨hfirst, hsecond⟩ := Prod.mk.inj hraw
    exact .short hc (ih (Prod.ext (List.cons.inj (List.cons.inj hfirst).2).2 hsecond))
  | @codePoint digits raw text hdigits hsome hlength hvalid h ih =>
    rw [rawLine_codePoint hdigits] at hraw
    obtain ⟨hfirst, hsecond⟩ := Prod.mk.inj hraw
    refine .codePoint hdigits hsome hlength hvalid (ih (Prod.ext ?_ hsecond))
    simpa using hfirst

theorem quotation_spelled (h : Denotes Unquoted raw text) (hy : raw = [] → y.head? ≠ some '"') :
    quotation (raw ++ '"' :: y) = ⟨'"' :: raw ++ ['"'], .ok (.stringLiteral (String.ofList text)), y⟩ := by
  have hline := line_closed (rawLine_denotes (y := y) h)
  rw [h.decode] at hline
  cases h with
  | nil => exact quotation_empty (hy rfl)
  | plain hbare => exact (quotation_line (by simpa using hbare.1)).trans hline
  | short | codePoint => exact (quotation_line (by simp)).trans hline

theorem line_spells {kind : TokenKind} (h : (line text).outcome = .ok kind) :
    ∃ l y, '"' :: text = l ++ y ∧ line text = ⟨l, .ok kind, y⟩ ∧ Spells kind l := by
  have happend := rawLine_append text
  rcases hraw : rawLine text with ⟨raw, rest⟩
  rw [hraw] at happend
  by_cases hquote : rest.head? = some '"'
  · obtain ⟨y, rfl⟩ := List.head?_eq_some_iff.1 hquote
    rw [line_closed hraw] at h ⊢
    obtain rfl : raw ++ '"' :: y = text := happend
    cases hdecode : Escape.decode raw with
    | error fault =>
      rw [hdecode] at h
      cases h
    | ok denoted =>
      rw [hdecode] at h
      obtain rfl := Except.ok.inj h
      exact ⟨'"' :: raw ++ ['"'], y, by simp, rfl,
        .string (unquoted_of_rawLine (Escape.decode_eq_ok_iff.1 hdecode) hraw)⟩
  · rw [line_unclosed hraw hquote] at h
    cases h

end line

/-! ### Text blocks -/

section block

variable {lines : List (List Char)} {indentation y : List Char}
variable {text : List Char}

theorem blockLines_spells {n : Nat} {body : List Char} (h : blockLines n body = some (lines, indentation, y)) :
    body = lines.flatMap (· ++ ['\n']) ++ (indentation ++ tripleQuote) ++ y ∧
      (∀ c ∈ indentation, Text.isIndent c = true) ∧
      ∀ line ∈ lines, '\n' ∉ line ∧ line.dropWhile Text.isIndent ≠ tripleQuote := by
  induction n generalizing body lines with
  | zero => cases h
  | succ n ih =>
    have hspan := takeWhile_append_dropWhile (p := (· != '\n')) (l := body)
    rcases blockLines_cases h with ⟨hclosing, rfl, rfl, hrest⟩ | ⟨c, rest, later, hcontent, hrest, rfl, hlater⟩
    · have hindent := takeWhile_append_dropWhile (p := Text.isIndent) (l := body.takeWhile (· != '\n'))
      rw [hclosing] at hindent
      refine ⟨?_, fun c => mem_takeWhile_imp, nofun⟩
      rw [flatMap_nil, nil_append, hindent, ← hrest, hspan]
    · obtain ⟨rfl, hindentation, hlines⟩ := ih hlater
      have hbreak : c = '\n' := by
        have hhead := any_head_dropWhile (· != '\n') body
        rw [hrest] at hhead
        simpa using hhead
      refine ⟨?_, hindentation, ?_⟩
      · rw [hrest, hbreak] at hspan
        refine hspan.symm.trans ?_
        simp
      · intro line hline
        rcases mem_cons.1 hline with rfl | hline
        · refine ⟨fun hmem => ?_, hcontent⟩
          have hne := mem_takeWhile_imp hmem
          simp at hne
        · exact hlines line hline

theorem dropReturns_append (line : List Char) :
    ∃ returns, line = dropReturns line ++ returns ∧ (∀ c ∈ returns, c = '\r') ∧
      (dropReturns line).getLast? ≠ some '\r' := by
  obtain ⟨n, happend, hlast⟩ := exists_trimmed '\r' line
  exact ⟨List.replicate n '\r', happend, fun c => eq_of_mem_replicate, hlast⟩

theorem blockLine_spells {line : List Char} (h : blockLine indentation line = .ok text) :
    SpellsLine indentation line text := by
  unfold blockLine outdent at h
  cases hrest : indentation.isPrefixOf? line with
  | some rest =>
    rw [hrest] at h
    obtain ⟨returns, hreturns, hall, hlast⟩ := dropReturns_append rest
    have hline : indentation ++ rest = line := append_eq_of_isPrefixOf?_eq_some hrest
    rw [← hline, hreturns]
    exact .content (Escape.decode_eq_ok_iff.1 h) hlast hall
  | none =>
    rw [hrest] at h
    cases hblank : line.all Text.isBlank with
    | true =>
      simp only [hblank, if_true] at h
      obtain rfl := Except.ok.inj h
      refine .blank ?_ (by simpa using hblank)
      rintro ⟨rest, hline⟩
      rw [List.isPrefixOf?_eq_some_iff_append_eq.2 hline] at hrest
      cases hrest
    | false =>
      simp only [hblank] at h
      cases h

theorem forall₂_of_mapM {texts : List (List Char)} (h : lines.mapM (blockLine indentation) = .ok texts) :
    List.Forall₂ (SpellsLine indentation) lines texts := by
  induction lines generalizing texts with
  | nil =>
    obtain rfl := Except.ok.inj h
    exact .nil
  | cons line lines ih =>
    rw [mapM_cons] at h
    cases hline : blockLine indentation line with
    | error fault =>
      rw [hline] at h
      cases h
    | ok text =>
      cases hlines : lines.mapM (blockLine indentation) with
      | error fault =>
        rw [hline, hlines] at h
        cases h
      | ok later =>
        rw [hline, hlines] at h
        obtain rfl := Except.ok.inj h
        exact .cons (blockLine_spells hline) (ih hlines)

theorem block_spells {kind : TokenKind} (h : (block text).outcome = .ok kind) :
    ∃ l y, '"' :: '"' :: '"' :: text = l ++ y ∧ block text = ⟨l, .ok kind, y⟩ ∧ SpellsBlock kind l ∧ Ends y := by
  have hspan := takeWhile_append_dropWhile (p := isOpeningBlank) (l := text)
  by_cases hopening : (text.dropWhile isOpeningBlank).head? = some '\n'
  · obtain ⟨body, hbody⟩ := List.head?_eq_some_iff.1 hopening
    cases hlines : blockLines (body.length + 1) body with
    | none =>
      rw [block_unclosed hbody hlines] at h
      cases h
    | some result =>
      obtain ⟨lines, indentation, y⟩ := result
      obtain ⟨hsource, hindentation, hcontent⟩ := blockLines_spells hlines
      obtain ⟨-, -, -, hends⟩ := blockLines_rest hlines
      rw [block_closed hbody hlines] at h ⊢
      cases htexts : lines.mapM (blockLine indentation) with
      | error fault =>
        rw [blockText, htexts] at h
        cases h
      | ok texts =>
        rw [blockText, htexts] at h ⊢
        obtain rfl := Except.ok.inj h
        have hblanks : ∀ c ∈ text.takeWhile isOpeningBlank, isOpeningBlank c = true :=
          fun c => mem_takeWhile_imp
        refine ⟨_, y, ?_, ?_, .lines hblanks hindentation hcontent (forall₂_of_mapM htexts), hends⟩
        · rw [hbody, hsource] at hspan
          refine (congrArg (tripleQuote ++ ·) hspan.symm).trans ?_
          simp
        · rw [blockSource, append_assoc, append_assoc]
          rfl
  · rw [block_unopened hopening] at h
    cases h

theorem quotation_spells {kind : TokenKind} (h : (quotation text).outcome = .ok kind) :
    ∃ l y, '"' :: text = l ++ y ∧ quotation text = ⟨l, .ok kind, y⟩ ∧
      (Spells kind l ∨ SpellsBlock kind l ∧ Ends y) := by
  by_cases hquote : text.head? = some '"'
  · obtain ⟨rest, rfl⟩ := List.head?_eq_some_iff.1 hquote
    by_cases hquote' : rest.head? = some '"'
    · obtain ⟨rest, rfl⟩ := List.head?_eq_some_iff.1 hquote'
      obtain ⟨l, y, htext, hscan, hspells⟩ := block_spells h
      exact ⟨l, y, htext, hscan, .inr hspells⟩
    · rw [quotation_empty hquote'] at h ⊢
      obtain rfl := Except.ok.inj h
      exact ⟨['"', '"'], rest, rfl, rfl, .inl (.string .nil)⟩
  · rw [quotation_line hquote] at h ⊢
    obtain ⟨l, y, htext, hscan, hspells⟩ := line_spells h
    exact ⟨l, y, htext, hscan, .inl hspells⟩

end block

/-! ### Signs -/

theorem sign_spelled (mark : Mark) (hy : Parted y) :
    sign (mark.text.toList ++ y) = ⟨mark.text.toList, .ok (.mark mark), y⟩ := by
  have hsingle : ∀ c, y.head?.bind (pair? c) = none := by
    intro c
    cases y with
    | nil => rfl
    | cons d y => exact Parts.pair?_eq_none (.inl (hy d rfl))
  cases mark with
  | equal | notEqual | lessEqual | greaterEqual | coalesce | arrow => rfl
  | plus | minus | star | slash | assign | less | greater | bang | leftParen | rightParen | leftBrace
  | rightBrace | colon | comma => exact sign_single (hsingle _)

theorem text_of_pair? {d : Char} {mark : Mark} (h : pair? c d = some mark) : mark.text.toList = [c, d] := by
  unfold pair? at h
  split at h <;> cases h <;> rfl

theorem exists_mark_of_sign (h : (sign [c]).outcome = .ok kind) :
    ∃ mark : Mark, kind = .mark mark ∧ mark.text.toList = [c] := by
  unfold sign at h
  split at h
  all_goals simp_all
  all_goals exact ⟨_, h.symm, rfl⟩

theorem sign_spells {rest : List Char} (h : (sign (c :: rest)).outcome = .ok kind) :
    ∃ l y, c :: rest = l ++ y ∧ sign (c :: rest) = ⟨l, .ok kind, y⟩ ∧ Spells kind l := by
  cases hpair : rest.head?.bind (pair? c) with
  | none =>
    rw [sign_single hpair] at h ⊢
    obtain ⟨mark, rfl, htext⟩ := exists_mark_of_sign h
    refine ⟨[c], rest, rfl, by rw [show _ = _ from h], ?_⟩
    rw [← htext]
    exact .mark mark
  | some mark =>
    obtain ⟨d, hhead, hmark⟩ := Option.bind_eq_some_iff.1 hpair
    obtain ⟨y, rfl⟩ := List.head?_eq_some_iff.1 hhead
    rw [sign_pair hmark] at h ⊢
    obtain rfl := Except.ok.inj h
    refine ⟨[c, d], y, rfl, rfl, ?_⟩
    rw [← text_of_pair? hmark]
    exact .mark mark

/-! ### All tokens -/

section spells

variable {kind : TokenKind} {l y : List Char}

theorem Spells.exists_cons (h : Spells kind l) :
    ∃ c rest, l = c :: rest ∧ (33 ≤ c.toNat ∧ c.toNat ≤ 126) ∧ (c = '/' → rest = []) := by
  cases h with
  | reserved word => cases word <;> exact ⟨_, _, rfl, by decide, by decide⟩
  | @typeName ty hty =>
    cases ty with
    | base b | optional b => cases b <;> exact ⟨_, _, rfl, by decide, by decide⟩
    | bool | nil | void => cases hty
  | @name c rest hc =>
    have hrange := toNat_of_isLetter hc
    refine ⟨c, rest, rfl, by omega, ?_⟩
    rintro rfl
    cases hc
  | integer h =>
    obtain ⟨c, rest, rfl⟩ := exists_cons_of_ne_nil h.1
    have hc := h.2 c mem_cons_self
    have hrange := toNat_of_isDigit hc
    refine ⟨c, rest, rfl, by omega, ?_⟩
    rintro rfl
    cases hc
  | double hwhole =>
    obtain ⟨c, rest, rfl⟩ := exists_cons_of_ne_nil hwhole.1
    have hc := hwhole.2 c mem_cons_self
    have hrange := toNat_of_isDigit hc
    refine ⟨c, _, rfl, by omega, ?_⟩
    rintro rfl
    cases hc
  | string => exact ⟨'"', _, rfl, by decide, fun hc => absurd hc (by decide)⟩
  | mark sign => cases sign <;> exact ⟨_, _, rfl, by decide, by decide⟩

theorem Spells.starts (h : Spells kind l) (hy : Parted y) : Trivia.Starts (l ++ y) := by
  obtain ⟨c, rest, rfl, hrange, hslash⟩ := h.exists_cons
  refine ⟨c, rest ++ y, rfl, ?_, ?_⟩
  · refine Bool.eq_false_iff.2 fun hblank => ?_
    have := toNat_of_isBlank hblank
    omega
  · intro hc
    rw [hslash hc]
    exact ⟨hy.head_ne (by decide) (by decide), hy.head_ne (by decide) (by decide)⟩

theorem lexeme_of_word (hfirst : l.head?.any isLetter = true) (hl : ∀ c ∈ l, isWordChar c = true)
    (hy : Parted y) : Reader.lexeme (l ++ y) = ⟨l, .ok (TokenKind.ofWord (String.ofList l)), y⟩ := by
  cases l with
  | nil => cases hfirst
  | cons c rest => exact (Reader.lexeme_word hfirst _).trans (word_spelled hl hy)

theorem Digits.lexeme {whole point fraction power sign exponent : List Char} (hwhole : Digits whole)
    (hpoint : Fraction point fraction) (hpower : Power power sign exponent) (hy : Parted y) :
    Reader.lexeme (whole ++ (point ++ power) ++ y) = ⟨whole ++ (point ++ power),
        if point ++ power = [] then integer whole
        else .ok (.doubleLiteral (doubleValue whole fraction sign exponent)), y⟩ := by
  rw [← hwhole.number hpoint hpower hy]
  obtain ⟨c, rest, rfl⟩ := exists_cons_of_ne_nil hwhole.1
  have hc := hwhole.2 c mem_cons_self
  have hletter : isLetter c = false := by
    refine Bool.eq_false_iff.2 fun hletter => ?_
    have := toNat_of_isLetter hletter
    have := toNat_of_isDigit hc
    omega
  exact Reader.lexeme_number hletter hc _

/-- **A spelling that is followed by a blank, or by nothing, is read as its token.** -/
theorem Spells.lexeme (h : Spells kind l) (hy : Parted y) : Reader.lexeme (l ++ y) = ⟨l, .ok kind, y⟩ := by
  cases h with
  | reserved word =>
    rw [lexeme_of_word (by cases word <;> rfl) (isWordChar_of_reserved word) hy, String.ofList_toList,
      ofWord_reserved]
  | @typeName ty hty =>
    cases ty with
    | base b =>
      rw [Ty.text, lexeme_of_word (by cases b <;> rfl) (isWordChar_of_base b) hy, String.ofList_toList,
        ofWord_base]
    | optional b =>
      have hword : TokenKind.ofWord (String.ofList b.text.toList) = .typeName (.base b) := by
        rw [String.ofList_toList, ofWord_base]
      have hmark := word_optional (isWordChar_of_base b) hword (hy.head_ne (d := '?') (by decide) (by decide))
      rw [Ty.text, String.toList_append, append_assoc]
      refine Eq.trans ?_ hmark
      cases b <;> rfl
    | bool | nil | void => cases hty
  | @name c rest hc hrest hword hty =>
    have hall : ∀ d ∈ c :: rest, isWordChar d = true := by
      intro d hd
      rcases mem_cons.1 hd with rfl | hd
      · simp [isWordChar, hc]
      · exact hrest d hd
    have hname : TokenKind.ofWord (String.ofList (c :: rest)) = .identifier (String.ofList (c :: rest)) := by
      refine ofWord_name (fun word heq => hword word ?_) (fun b heq => hty b ?_)
      · rw [heq, String.toList_ofList]
      · rw [heq, String.toList_ofList]
    rw [lexeme_of_word (show (c :: rest).head?.any isLetter = true from hc) hall hy, hname]
  | integer h hrange =>
    have hscan := h.lexeme .absent .absent hy
    have hvalue : Scan.integer l = .ok (.intLiteral (Nat.ofDigitChars 10 l 0)) := by
      rw [Scan.integer, decimalNumber_eq]
      exact if_pos hrange
    rwa [nil_append, append_nil, if_pos rfl, hvalue] at hscan
  | double hwhole hpoint hpower hsome =>
    rw [hwhole.lexeme hpoint hpower hy, if_neg hsome]
  | string h =>
    rw [cons_append, cons_append, append_assoc]
    exact quotation_spelled h fun _ => hy.head_ne (by decide) (by decide)
  | mark sign =>
    refine Eq.trans ?_ (sign_spelled sign hy)
    cases sign <;> rfl

end spells

/-- **Every token that is read is spelled by the characters that it takes.** -/
theorem exists_spells {rest : List Char} (h : (Reader.lexeme (c :: rest)).outcome = .ok kind) :
    ∃ l y, c :: rest = l ++ y ∧ Reader.lexeme (c :: rest) = ⟨l, .ok kind, y⟩ ∧
      (Spells kind l ∨ SpellsBlock kind l ∧ Ends y) := by
  by_cases hquote : c = '"'
  · subst hquote
    exact quotation_spells h
  · cases hletter : isLetter c with
    | true =>
      obtain ⟨kind', l, y, htext, hscan, hspells⟩ := @word_spells c rest hletter
      rw [Reader.lexeme_word hletter, hscan] at h
      obtain rfl := Except.ok.inj h
      exact ⟨l, y, htext, (Reader.lexeme_word hletter rest).trans hscan, .inl hspells⟩
    | false =>
      cases hdigit : isDigit c with
      | true =>
        rw [Reader.lexeme_number hletter hdigit] at h ⊢
        obtain ⟨l, y, htext, hscan, hspells⟩ := number_spells hdigit h
        exact ⟨l, y, htext, hscan, .inl hspells⟩
      | false =>
        rw [Reader.lexeme_sign hquote hletter hdigit] at h ⊢
        obtain ⟨l, y, htext, hscan, hspells⟩ := sign_spells h
        exact ⟨l, y, htext, hscan, .inl hspells⟩

end Scan

end OnePass
