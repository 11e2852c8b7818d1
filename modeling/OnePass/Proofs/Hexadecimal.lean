import Mathlib.Algebra.Field.Rat
import Mathlib.Algebra.Order.Field.Basic
import Mathlib.Tactic.FieldSimp
import Mathlib.Tactic.Ring
import OnePass.Number.Hexadecimal
import OnePass.Proofs.Lexeme.Locality

/-!
# Hexadecimal numerals

A reader of hexadecimal floating-point notation, and what it makes of the texts of doubles: the same number,
with the same sign.

Main results:

* `HexNumeral.read?_text` — a numeral that is written is read back;
* `Double.value_numeral` — the numeral of a double has its value;
* `Double.hexText_exact` — **the text of a double denotes exactly its number, and no other double has it**.
-/

namespace OnePass

open List
open Escape (hexValue? hexNumber)

/-! ### Numerals -/

/-- A number in hexadecimal floating-point notation. -/
structure HexNumeral where
  negative : Bool
  whole : List Char
  fraction : List Char
  exponent : Int

namespace HexNumeral

/-- The number that a numeral denotes. -/
def value (x : HexNumeral) : ℚ :=
  (if x.negative then -1 else 1) * (hexNumber (x.whole ++ x.fraction) / 16 ^ x.fraction.length) * 2 ^ x.exponent

def isHexDigit (c : Char) : Bool := (hexValue? c).isSome

/-- Whether a text begins with a minus sign, and what follows its sign. -/
def signed : List Char → Bool × List Char
  | '-' :: rest => (true, rest)
  | '+' :: rest => (false, rest)
  | rest => (false, rest)

/-- The digits behind a point, if there is one, and what follows them. -/
def pointed : List Char → List Char × List Char
  | '.' :: rest => (rest.takeWhile isHexDigit, rest.dropWhile isHexDigit)
  | rest => ([], rest)

/-- The exponent, which ends the numeral. -/
def exponent? : List Char → Option Int
  | c :: rest =>
      let (negative, digits) := signed rest
      if (c = 'p' ∨ c = 'P') ∧ digits ≠ [] ∧ digits.all Char.isDigit then
        let power : Int := Nat.ofDigitChars 10 digits 0
        some (if negative then -power else power)
      else none
  | [] => none

/-- Reads a numeral: a sign, `0x`, digits with a point, and a decimal exponent behind `p`. -/
def read? (text : List Char) : Option HexNumeral :=
  match signed text with
  | (negative, '0' :: c :: rest) =>
      let whole := rest.takeWhile isHexDigit
      let (fraction, rest) := pointed (rest.dropWhile isHexDigit)
      if (c = 'x' ∨ c = 'X') ∧ whole ++ fraction ≠ [] then
        (exponent? rest).map fun exponent => ⟨negative, whole, fraction, exponent⟩
      else none
  | _ => none

/-- The text of a numeral. -/
def text (x : HexNumeral) : List Char :=
  (if x.negative then ['-'] else []) ++ '0' :: 'x' :: (x.whole ++
    ((if x.fraction = [] then [] else '.' :: x.fraction) ++ 'p' :: (Double.exponentText x.exponent).toList))

variable {x : HexNumeral}

theorem exponent?_exponentText (exponent : Int) :
    exponent? ('p' :: (Double.exponentText exponent).toList) = some exponent := by
  have hdigits : (Nat.toDigits 10 exponent.natAbs).all Char.isDigit = true :=
    all_eq_true.2 fun c => Nat.isDigit_of_mem_toDigits (by decide) (by decide)
  have hvalue : Nat.ofDigitChars 10 (Nat.toDigits 10 exponent.natAbs) 0 = exponent.natAbs :=
    Nat.ofDigitChars_toDigits (by decide) (by decide)
  have hsome : Nat.toDigits 10 exponent.natAbs ≠ [] := Nat.toDigits_ne_nil
  unfold Double.exponentText
  split
  · rename_i hneg
    have htext : (s!"-{exponent.natAbs}").toList = '-' :: Nat.toDigits 10 exponent.natAbs := by
      simp [toString, Nat.toList_repr]
    simp only [htext, exponent?, signed, hdigits, hvalue, Int.natCast_natAbs, abs_of_neg hneg]
    simp [hsome]
  · rename_i hpos
    have htext : (s!"+{exponent.natAbs}").toList = '+' :: Nat.toDigits 10 exponent.natAbs := by
      simp [toString, Nat.toList_repr]
    simp only [htext, exponent?, signed, hdigits, hvalue, Int.natCast_natAbs, abs_of_nonneg (not_lt.1 hpos)]
    simp [hsome]

/-- **A numeral that is written is read back.** -/
theorem read?_text (hwhole : x.whole ≠ []) (hdigits : ∀ c ∈ x.whole ++ x.fraction, isHexDigit c = true) :
    read? x.text = some x := by
  obtain ⟨hwhole', hfraction⟩ := forall_mem_append.1 hdigits
  have hsigned : signed x.text = (x.negative, '0' :: 'x' :: (x.whole ++
      ((if x.fraction = [] then [] else '.' :: x.fraction) ++
        'p' :: (Double.exponentText x.exponent).toList))) := by
    unfold text
    cases x.negative <;> rfl
  have hhead : ((if x.fraction = [] then [] else '.' :: x.fraction) ++
      'p' :: (Double.exponentText x.exponent).toList).head?.any isHexDigit = false := by
    split <;> rfl
  obtain ⟨htake, hdrop⟩ := Scan.span_of_head hwhole' hhead
  have hpointed : pointed ((if x.fraction = [] then [] else '.' :: x.fraction) ++
      'p' :: (Double.exponentText x.exponent).toList) =
        (x.fraction, 'p' :: (Double.exponentText x.exponent).toList) := by
    split
    · rename_i hnil
      rw [hnil]
      rfl
    · obtain ⟨htake, hdrop⟩ :=
        Scan.span_of_head (y := 'p' :: (Double.exponentText x.exponent).toList) hfraction rfl
      rw [cons_append, pointed, htake, hdrop]
  simp only [read?, hsigned, htake, hdrop, hpointed, exponent?_exponentText]
  simp [hwhole]

end HexNumeral

/-! ### Digits -/

theorem Escape.hexNumber_append (l m : List Char) : hexNumber (l ++ m) = hexNumber l * 16 ^ m.length + hexNumber m := by
  induction m using List.reverseRecOn with
  | nil => simp [hexNumber]
  | append_singleton m c ih =>
    have hsnoc : ∀ l : List Char, hexNumber (l ++ [c]) = hexNumber l * 16 + (hexValue? c).getD 0 := fun l => by
      simp [hexNumber]
    rw [← append_assoc, hsnoc, hsnoc, ih, length_append, length_singleton, pow_succ]
    ring

theorem Escape.hexNumber_zeros (n : Nat) : hexNumber (List.replicate n '0') = 0 := by
  induction n with
  | zero => rfl
  | succ n ih => rw [replicate_succ', hexNumber_append, ih]; rfl

theorem Escape.hexNumber_toDigits (n : Nat) :
    (∀ c ∈ Nat.toDigits 16 n, HexNumeral.isHexDigit c = true) ∧ hexNumber (Nat.toDigits 16 n) = n := by
  have hdigit : ∀ n < 16, hexValue? n.digitChar = some n := by decide
  induction n using Nat.strong_induction_on with
  | _ n ih =>
    rw [Nat.toDigits_eq_if (by decide)]
    split
    · rename_i hlt
      simp [HexNumeral.isHexDigit, hexNumber, hdigit n hlt]
    · rename_i hge
      obtain ⟨hdigits, hvalue⟩ := ih (n / 16) (by omega)
      have hlast := hdigit (n % 16) (by omega)
      refine ⟨forall_mem_append.2 ⟨hdigits, by simp [HexNumeral.isHexDigit, hlast]⟩, ?_⟩
      rw [hexNumber_append, hvalue]
      simp [hexNumber, hlast]
      omega

namespace Double

variable {d d' : Double}

theorem fraction_lt (d : Double) : d.fraction < 2 ^ 52 := Nat.mod_lt _ (by decide)

theorem fractionDigits_spec (d : Double) : (∀ c ∈ d.fractionDigits, HexNumeral.isHexDigit c = true) ∧
    d.fractionDigits.length = 13 ∧ hexNumber d.fractionDigits = d.fraction := by
  obtain ⟨hdigits, hvalue⟩ := Escape.hexNumber_toDigits d.fraction
  have hlength : (Nat.toDigits 16 d.fraction).length ≤ 13 :=
    (Nat.length_toDigits_le_iff (by decide) (by decide)).2 (Nat.lt_of_lt_of_eq d.fraction_lt (by norm_num))
  refine ⟨forall_mem_append.2 ⟨fun c hc => ?_, hdigits⟩, ?_, ?_⟩
  · rw [eq_of_mem_replicate hc]
    rfl
  · simp only [fractionDigits, length_append, length_replicate]
    omega
  · rw [fractionDigits, Escape.hexNumber_append, Escape.hexNumber_zeros, hvalue, Nat.zero_mul, Nat.zero_add]

/-- The fraction without the zeros at its end, which are what is left of thirteen digits. -/
theorem trimmedFraction_spec (d : Double) : (∀ c ∈ d.trimmedFraction, HexNumeral.isHexDigit c = true) ∧
    d.trimmedFraction.getLast? ≠ some '0' ∧ ∃ n, d.trimmedFraction.length + n = 13 ∧
      hexNumber d.trimmedFraction * 16 ^ n = d.fraction := by
  obtain ⟨hdigits, hlength, hvalue⟩ := d.fractionDigits_spec
  obtain ⟨n, happend, hlast⟩ := Scan.exists_trimmed '0' d.fractionDigits
  change d.fractionDigits = d.trimmedFraction ++ List.replicate n '0' at happend
  rw [happend] at hdigits hlength hvalue
  refine ⟨(forall_mem_append.1 hdigits).1, hlast, n, ?_, ?_⟩
  · simpa using hlength
  · rw [Escape.hexNumber_append, Escape.hexNumber_zeros] at hvalue
    simpa using hvalue

/-! ### Doubles -/

/-- The number of a finite double. -/
def value (d : Double) : ℚ := (if d.isNegative then -1 else 1) * d.significand * 2 ^ d.scale

/-- The numeral of a finite double. -/
def numeral (d : Double) : HexNumeral where
  negative := d.isNegative
  whole := [if d.exponentField = 0 then '0' else '1']
  fraction := d.trimmedFraction
  exponent := if d.significand = 0 then 0 else if d.exponentField = 0 then -1022 else d.exponentField - 1023

theorem significand_numeral (d : Double) : ∃ n, d.trimmedFraction.length + n = 13 ∧
    hexNumber (d.numeral.whole ++ d.numeral.fraction) * 16 ^ n = d.significand := by
  obtain ⟨-, -, n, hlength, hvalue⟩ := d.trimmedFraction_spec
  refine ⟨n, hlength, ?_⟩
  have hlead : hexNumber d.numeral.whole * 16 ^ 13 + d.fraction = d.significand := by
    unfold numeral significand
    split
    · simp [hexNumber, hexValue?]
    · simp [hexNumber, hexValue?]
  rw [← hlead, ← hvalue, ← hlength, Escape.hexNumber_append, pow_add]
  unfold numeral
  ring

/-- **The numeral of a finite double denotes its number.** -/
theorem value_numeral (d : Double) : d.numeral.value = d.value := by
  obtain ⟨n, hlength, hsignificand⟩ := d.significand_numeral
  have hquotient : (hexNumber (d.numeral.whole ++ d.numeral.fraction) : ℚ) / 16 ^ d.numeral.fraction.length =
      d.significand / 2 ^ 52 := by
    have hpower : (2 : ℚ) ^ 52 = 16 ^ d.trimmedFraction.length * 16 ^ n := by
      rw [← pow_add, hlength]
      norm_num
    rw [← hsignificand, hpower, Nat.cast_mul, Nat.cast_pow, Nat.cast_ofNat, numeral]
    field_simp
  have hscale : (d.significand : ℚ) / 2 ^ 52 * 2 ^ d.numeral.exponent = d.significand * 2 ^ d.scale := by
    by_cases hzero : d.significand = 0
    · simp [hzero]
    · have hexponent : d.numeral.exponent = d.scale + 52 := by
        simp only [numeral, scale, if_neg hzero]
        split <;> omega
      rw [hexponent, zpow_add₀ (by norm_num)]
      field_simp
  rw [HexNumeral.value, value, hquotient, mul_assoc, mul_assoc, hscale]
  rfl

theorem toList_hexText (hnan : d.isNaN = false) (hinf : d.isInfinite = false) :
    d.hexText.toList = d.numeral.text := by
  have hsign : (if d.isNegative then "-" else "").toList = if d.isNegative then ['-'] else [] := by
    split <;> rfl
  unfold hexText
  simp only [hnan, hinf, Bool.false_eq_true, if_false]
  by_cases hzero : d.significand = 0
  · have hfields : d.exponentField = 0 ∧ d.fraction = 0 := by
      unfold significand at hzero
      split at hzero
      · exact ⟨‹_›, hzero⟩
      · simp at hzero
    have hnone : d.trimmedFraction = [] := by
      unfold trimmedFraction fractionDigits
      rw [hfields.2]
      rfl
    simp only [hzero, if_true, String.toList_append, hsign, HexNumeral.text, numeral, hfields.1, hnone]
    rfl
  · have hpoint : (if d.trimmedFraction.isEmpty then "" else "." ++ String.ofList d.trimmedFraction).toList =
        if d.trimmedFraction = [] then [] else '.' :: d.trimmedFraction := by
      cases d.trimmedFraction <;> simp
    have hlead : d.leadAndExponent.1.toList = d.numeral.whole ∧ d.leadAndExponent.2 = d.numeral.exponent := by
      unfold leadAndExponent numeral
      split <;> simp [*]
    simp only [hzero, if_false, String.toList_append, hsign, hpoint, hlead.1, hlead.2, HexNumeral.text]
    simp [numeral, hzero]

theorem read?_hexText (hnan : d.isNaN = false) (hinf : d.isInfinite = false) :
    HexNumeral.read? d.hexText.toList = some d.numeral := by
  rw [toList_hexText hnan hinf]
  refine HexNumeral.read?_text (cons_ne_nil _ _) (forall_mem_append.2 ⟨?_, d.trimmedFraction_spec.1⟩)
  intro c hc
  rw [mem_singleton.1 hc]
  split <;> rfl

theorem hexText_infinite (hinf : d.isInfinite = true) :
    d.hexText = if d.isNegative then "-inf" else "inf" := by
  have hnan : d.isNaN = false := by
    simp_all [isNaN, isInfinite]
  simp only [hexText, hnan, hinf, Bool.false_eq_true, if_false, if_true]
  split <;> rfl

theorem ext_fields (hsign : d.isNegative = d'.isNegative) (hexponent : d.exponentField = d'.exponentField)
    (hfraction : d.fraction = d'.fraction) : d = d' := by
  have hbits : d.bits.toNat = d'.bits.toNat := by
    have hlt := d.bits.toNat_lt
    have hlt' := d'.bits.toNat_lt
    simp only [isNegative, decide_eq_decide, exponentField, fraction, Nat.pow_eq, Nat.reducePow] at *
    omega
  exact congrArg Double.mk (UInt64.toNat_inj.1 hbits)

theorem numeral_injective (h : d.numeral = d'.numeral) : d = d' := by
  simp only [numeral, HexNumeral.mk.injEq, List.cons.injEq, and_true] at h
  obtain ⟨hsign, hlead, hdigits, hpower⟩ := h
  have hfraction : d.fraction = d'.fraction := by
    obtain ⟨-, -, n, hlength, hvalue⟩ := d.trimmedFraction_spec
    obtain ⟨-, -, n', hlength', hvalue'⟩ := d'.trimmedFraction_spec
    rw [hdigits] at hlength hvalue
    obtain rfl : n = n' := by omega
    rw [← hvalue, ← hvalue']
  refine ext_fields hsign ?_ hfraction
  by_cases hzero : d.exponentField = 0 <;> by_cases hzero' : d'.exponentField = 0
  · rw [hzero, hzero']
  · simp [hzero, hzero'] at hlead
  · simp [hzero, hzero'] at hlead
  · simp [hzero, hzero', significand] at hpower
    exact hpower

theorem hexText_injective (hnan : d.isNaN = false) (hnan' : d'.isNaN = false) (h : d.hexText = d'.hexText) :
    d = d' := by
  have hread : ∀ {d : Double}, d.isInfinite = true → HexNumeral.read? d.hexText.toList = none := fun {d} hinf => by
    rw [hexText_infinite hinf]
    split <;> rfl
  cases hinf : d.isInfinite <;> cases hinf' : d'.isInfinite
  · exact numeral_injective (Option.some.inj (by rw [← read?_hexText hnan hinf, h, read?_hexText hnan' hinf']))
  · have hnone := hread hinf'
    rw [← h, read?_hexText hnan hinf] at hnone
    cases hnone
  · have hnone := hread hinf
    rw [h, read?_hexText hnan' hinf'] at hnone
    cases hnone
  · rw [hexText_infinite hinf, hexText_infinite hinf'] at h
    simp only [isInfinite, Bool.and_eq_true, beq_iff_eq] at hinf hinf'
    refine ext_fields ?_ (hinf.1.trans hinf'.1.symm) (hinf.2.trans hinf'.2.symm)
    revert h
    cases d.isNegative <;> cases d'.isNegative <;> simp

/-- **The text of a double is exact.** Read back, the text of a finite double is a numeral with one digit
before the point and no zero at the end of its fraction, which has the double's sign and denotes its
number. Infinities are named, and two doubles that are numbers or infinities have one text only if all
their bits are equal. -/
theorem hexText_exact (d : Double) (hnan : d.isNaN = false) :
    (d.isInfinite = false → ∃ x, HexNumeral.read? d.hexText.toList = some x ∧ x.negative = d.isNegative ∧
      x.value = d.value ∧ x.whole.length = 1 ∧ x.fraction.getLast? ≠ some '0') ∧
    (d.isInfinite = true → d.hexText = if d.isNegative then "-inf" else "inf") ∧
    ∀ d' : Double, d'.isNaN = false → d.hexText = d'.hexText → d = d' :=
  ⟨fun hinf => ⟨d.numeral, read?_hexText hnan hinf, rfl, d.value_numeral, rfl, d.trimmedFraction_spec.2.1⟩,
    hexText_infinite, fun _ hnan' => hexText_injective hnan hnan'⟩

/-- Of negative zero and the smallest positive double, which differ in sign and number. -/
theorem hexText_exact_zero :
    (∃ x, HexNumeral.read? (hexText ⟨0x8000000000000000⟩).toList = some x ∧ x.negative = true ∧
      x.value = value ⟨0x8000000000000000⟩ ∧ x.whole.length = 1 ∧ x.fraction.getLast? ≠ some '0') ∧
    hexText ⟨0xFFF0000000000000⟩ = "-inf" ∧ hexText ⟨0x8000000000000000⟩ ≠ hexText ⟨1⟩ :=
  ⟨(hexText_exact ⟨0x8000000000000000⟩ rfl).1 rfl, (hexText_exact ⟨0xFFF0000000000000⟩ rfl).2.1 rfl,
    fun h => absurd ((hexText_exact ⟨0x8000000000000000⟩ rfl).2.2 ⟨1⟩ rfl h) (by decide)⟩

end Double

end OnePass
