import Mathlib.Data.List.Basic
import Mathlib.Data.UInt

/-!
# The order of texts by their bytes

Texts are compared character by character, by code point.  The bytes of their UTF-8 forms give the same
order: the form of a character tells where it ends, and a larger code point has a larger form.

Main results:

* `Text.encode_lt` — a larger character has larger bytes, whatever follows;
* `Text.lt_iff_bytes_lt` — **the order of texts is the order of their bytes**.
-/

namespace OnePass.Text

open List

/-- The bytes of a text. -/
def bytes (text : String) : List UInt8 := text.toUTF8.data.toList

theorem bytes_eq (text : String) : bytes text = text.toList.flatMap String.utf8EncodeChar := by
  have hcode : text.toUTF8 = text.toList.utf8Encode := by
    rw [← String.toByteArray_ofList, String.ofList_toList]
    rfl
  rw [bytes, hcode, List.utf8Encode, data_toByteArray, toList_toArray]

theorem ofNat_lt_ofNat {a b : Nat} (ha : a < 256) (hb : b < 256) : UInt8.ofNat a < UInt8.ofNat b ↔ a < b := by
  rw [UInt8.lt_iff_toNat_lt, UInt8.toNat_ofNat_of_lt' ha, UInt8.toNat_ofNat_of_lt' hb]

theorem ofNat_eq_ofNat {a b : Nat} (ha : a < 256) (hb : b < 256) : UInt8.ofNat a = UInt8.ofNat b ↔ a = b := by
  rw [← UInt8.toNat_inj, UInt8.toNat_ofNat_of_lt' ha, UInt8.toNat_ofNat_of_lt' hb]

theorem encode_lt {c d : Char} (h : c < d) (u v : List UInt8) :
    String.utf8EncodeChar c ++ u < String.utf8EncodeChar d ++ v := by
  have hval : c.val.toNat < d.val.toNat := h
  have hbound : d.val.toNat < 0x110000 := by
    rcases d.valid with hd | ⟨-, hd⟩ <;> omega
  simp only [String.utf8EncodeChar]
  generalize c.val.toNat = m at hval ⊢
  generalize d.val.toNat = n at hval hbound ⊢
  -- the digits to the base 64, as far as a form has them
  have hdigits : ∀ k : Nat, k / 64 / 64 = k / 4096 ∧ k / 4096 / 64 = k / 262144 := by
    intro k
    exact ⟨Nat.div_div_eq_div_mul .., Nat.div_div_eq_div_mul ..⟩
  obtain ⟨hm, hm'⟩ := hdigits m
  obtain ⟨hn, hn'⟩ := hdigits n
  have htop : m / 262144 / 8 = 0 ∧ n / 262144 / 8 = 0 := by omega
  -- one case for each pair of lengths
  split_ifs <;> try omega
  all_goals
    simp (disch := omega) only [cons_append, nil_append, cons_lt_cons_iff, ofNat_lt_ofNat,
      ofNat_eq_ofNat]
    omega

theorem flatMap_encode_lt {l m : List Char} (h : l < m) :
    l.flatMap String.utf8EncodeChar < m.flatMap String.utf8EncodeChar := by
  induction h with
  | @nil d m =>
    rw [flatMap_nil, flatMap_cons]
    obtain ⟨byte, later, hbytes⟩ := exists_cons_of_ne_nil (String.utf8EncodeChar_ne_nil (c := d))
    rw [hbytes]
    exact .nil
  | rel h =>
    rw [flatMap_cons, flatMap_cons]
    exact encode_lt h _ _
  | cons _ ih =>
    rw [flatMap_cons, flatMap_cons]
    exact append_left_lt ih

theorem lt_iff_bytes_lt {s t : String} : s < t ↔ bytes s < bytes t := by
  have hforward : ∀ {s t : String}, s < t → bytes s < bytes t := by
    intro s t h
    rw [bytes_eq, bytes_eq]
    exact flatMap_encode_lt h
  refine ⟨hforward, fun h => ?_⟩
  rcases Std.lt_trichotomy s t with hlt | rfl | hgt
  · exact hlt
  · exact absurd h (List.lt_irrefl _)
  · exact absurd h (List.lt_asymm (hforward hgt))

end OnePass.Text
