import OnePass.Meaning.Context
import Mathlib.Data.List.Basic

/-!
# Names with separators

Names of variables in target code are made from the names of the program, a separator and a number.
They tell their parts, since numbers have no separators.

Main results:

* `split_last_unique` — lists come apart in one way at the last entry of some sort;
* `storageName_inj` — **storage names tell their variables**.
-/

namespace OnePass

theorem split_last_unique {α : Type} {P : α → Prop} {a b : α} {pre post pre' post' : List α}
    (h : pre ++ a :: post = pre' ++ b :: post') (ha : P a)
    (hb : P b) (hpost : ∀ i ∈ post, ¬ P i) (hpost' : ∀ i ∈ post', ¬ P i) :
    pre = pre' ∧ a = b ∧ post = post' := by
  rcases List.append_eq_append_iff.1 h with ⟨between, rfl, heq⟩ | ⟨between, rfl, heq⟩
  · cases between with
    | nil =>
      cases heq
      exact ⟨(List.append_nil _).symm, rfl, rfl⟩
    | cons first between =>
      cases heq
      exact absurd hb (hpost b (List.mem_append_right _ List.mem_cons_self))
  · cases between with
    | nil =>
      cases heq
      exact ⟨List.append_nil _, rfl, rfl⟩
    | cons first between =>
      cases heq
      exact absurd ha (hpost' a (List.mem_append_right _ List.mem_cons_self))

theorem separator_notMem_digits (n : Nat) : '$' ∉ Nat.toDigits 10 n := by
  intro hmem
  cases Nat.isDigit_of_mem_toDigits (by decide) (by decide) hmem

theorem digits_inj {m n : Nat} (h : Nat.toDigits 10 m = Nat.toDigits 10 n) : m = n := by
  rw [← Nat.ofDigitChars_ten_toDigits (n := m), h, Nat.ofDigitChars_ten_toDigits]

theorem toList_storageName (name : String) (owner : Nat) :
    (Meaning.storageName name owner).toList = name.toList ++ '$' :: Nat.toDigits 10 owner := by
  simp [Meaning.storageName, toString, Nat.repr_eq_ofList_toDigits]

theorem storageName_inj {name name' : String} {owner owner' : Nat}
    (h : Meaning.storageName name owner = Meaning.storageName name' owner') :
    name = name' ∧ owner = owner' := by
  have hlist := congrArg String.toList h
  rw [toList_storageName, toList_storageName] at hlist
  obtain ⟨hname, -, howner⟩ := split_last_unique hlist (P := (· = '$')) rfl rfl
    (fun c hc heq => separator_notMem_digits owner (heq ▸ hc))
    (fun c hc heq => separator_notMem_digits owner' (heq ▸ hc))
  exact ⟨String.toList_injective hname, digits_inj howner⟩

end OnePass
