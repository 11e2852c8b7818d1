import OnePass.Proofs.Hoisting
import OnePass.Proofs.Nesting
import OnePass.Proofs.Returning

/-!
# Brackets

The stream of an accepted program is well bracketed: the marks of conditionals and loops and the bounds of
functions stand once for each scope, in their order, and what is between two of them is what is below the
scope in the tree.

Main results:

* `Nests.found` — every scope of nested code has its block;
* `Found.placed` — and its brackets;
* `stream_bracketed` — **the stream of an accepted program is well bracketed**.
-/

namespace OnePass

open List

/-! ### Places -/

/-- The only place of an instruction with a property. -/
def OnlyAt (code : List Instruction) (P : Instruction → Prop) (place : Nat) : Prop :=
  ∀ q, (∃ i, code[q]? = some i ∧ P i) ↔ q = place

/-- Of the brackets of other scopes, those between two places are the ones below a scope. -/
def Confines (outlines : Nat → Scope) (code : List Instruction) (B first last : Nat) : Prop :=
  ∀ k i, code[k]? = some i → i.kind.isBracket → i.scope ≠ B →
    (first < k ∧ k < last ↔ B ∈ around outlines i.scope)

section places

variable {outlines : Nat → Scope} {code l A C : List Instruction} {P : Instruction → Prop}

theorem between_or_outside {x y i : Instruction} {k : Nat} (h : (A ++ x :: l ++ y :: C)[k]? = some i) :
    (A.length < k ∧ k < A.length + 1 + l.length) ∧ i ∈ l ∨
      ¬ (A.length < k ∧ k < A.length + 1 + l.length) ∧ i ∈ A ++ x :: y :: C := by
  rw [append_assoc, cons_append] at h
  rcases Nat.lt_trichotomy k A.length with hk | rfl | hk
  · rw [List.getElem?_append_left hk] at h
    exact .inr ⟨by omega, mem_append_left _ (mem_of_getElem? h)⟩
  · rw [List.getElem?_append_right (Nat.le_refl _), Nat.sub_self] at h
    cases h
    exact .inr ⟨by omega, mem_append_right _ mem_cons_self⟩
  · obtain ⟨j, rfl⟩ := Nat.exists_eq_add_of_lt hk
    rw [List.getElem?_append_right (by omega), Nat.add_assoc, Nat.add_sub_cancel_left,
      List.getElem?_cons_succ] at h
    by_cases hj : j < l.length
    · rw [List.getElem?_append_left hj] at h
      exact .inl ⟨by omega, mem_of_getElem? h⟩
    · rw [List.getElem?_append_right (Nat.le_of_not_lt hj)] at h
      exact .inr ⟨by omega, mem_append_right _ (mem_cons_of_mem _ (mem_of_getElem? h))⟩

theorem OnlyAt.unique {k q : Nat} (h : OnlyAt code P k) (h' : OnlyAt code P q) : k = q :=
  (h' k).1 ((h k).2 rfl)

theorem Confines.of_split {B : Nat} {x y : Instruction} (hcode : code = A ++ x :: l ++ y :: C)
    (hin : ∀ i ∈ l, i.kind.isBracket → i.scope ≠ B → B ∈ around outlines i.scope)
    (hout : ∀ i ∈ A ++ x :: y :: C, i.kind.isBracket → i.scope ≠ B → B ∉ around outlines i.scope) :
    Confines outlines code B A.length (A.length + 1 + l.length) := by
  intro k i hi hbracket hne
  rcases between_or_outside (hcode ▸ hi) with ⟨hk, hmem⟩ | ⟨hk, hmem⟩
  · exact iff_of_true hk (hin i hmem hbracket hne)
  · exact iff_of_false hk (hout i hmem hbracket hne)

end places

/-! ### Scopes and their brackets -/

/-- The marks of a conditional and the blocks between them, where the scopes are below a number. -/
structure ConditionalAt (outlines : Nat → Scope) (high : Nat) (code : List Instruction)
    (S t e f : Nat) : Prop where
  order : t < e ∧ e < f
  test : OnlyAt code (·.Tests S) t
  els : OnlyAt code (·.Marks .elseMark S) e
  fin : OnlyAt code (·.Marks .endIf S) f
  first : Confines outlines code S t e
  none : (outlines S).otherwise = none → ∀ k i, e < k → k < f → code[k]? = some i → i.kind.isBracket = false
  other : ∀ E, (outlines S).otherwise = some E → (S < E ∧ E < high) ∧
    ((outlines E).kind = .elseBranch ∧ (outlines E).parent = (outlines S).parent) ∧
    Confines outlines code E e f

/-- The marks of a loop and the block between them. -/
structure LoopAt (outlines : Nat → Scope) (code : List Instruction) (S b t f : Nat) : Prop where
  order : b < t ∧ t < f
  label : OnlyAt code (·.Marks .whileLabel S) b
  test : OnlyAt code (·.Marks .whileCondition S) t
  fin : OnlyAt code (·.Marks .endWhile S) f
  block : Confines outlines code S b f

/-- The bounds of a function and the body between them. -/
structure FunctionAt (outlines : Nat → Scope) (high : Nat) (code : List Instruction)
    (S b f : Nat) : Prop where
  order : b < f
  entry : OnlyAt code (·.Marks .functionBegin S) b
  fin : OnlyAt code (·.Marks .functionEnd S) f
  parent : (outlines S).parent = some ScopeTree.root
  child : Child outlines S (S + 1) .functionBody ∧ S + 1 < high
  body : Confines outlines code (S + 1) b f

/-- The brackets of a scope in code. -/
def Placed (outlines : Nat → Scope) (high : Nat) (code : List Instruction) (S : Nat) : Prop :=
  match (outlines S).kind with
  | .thenBranch => ∃ t e f, ConditionalAt outlines high code S t e f
  | .elseBranch => ∃ first, (outlines first).kind = .thenBranch ∧
      (outlines first).otherwise = some S ∧ (outlines first).parent = (outlines S).parent
  | .whileBody => ∃ b t f, LoopAt outlines code S b t f
  | .functionHeader => ∃ b f, FunctionAt outlines high code S b f
  | .functionBody => ∃ header, S = header + 1 ∧ (outlines S).parent = some header
  | .global => False

section placed

variable {outlines : Nat → Scope} {code : List Instruction} {i : Instruction} {S : Nat}

theorem Instruction.Marks.isBracket {mark : InstructionKind}
    (h : i.Marks mark S) {kind : ScopeKind} (hkind : mark.owner? = some kind) : i.kind.isBracket :=
  InstructionKind.isBracket_of_owner? (h.1 ▸ hkind)

theorem Instruction.Tests.isBracket (h : i.Tests S) : i.kind.isBracket :=
  InstructionKind.isBracket_of_owner? h.owner?.2

theorem Instruction.Tests.rank (h : i.Tests S) : i.kind.rank = 0 := by
  rcases h with h | h <;> rw [h.1] <;> rfl

section once

variable (honce : MarksOnce code) {k : Nat} (hi : code[k]? = some i)

include honce hi

theorem MarksOnce.onlyAt {P : Instruction → Prop} (hPi : P i) (hP : ∀ j, P j → j.kind.isBracket ∧
    j.scope = i.scope ∧ j.kind.rank = i.kind.rank) : OnlyAt code P k := by
  intro q
  refine ⟨fun ⟨j, hj, hPj⟩ => ?_, fun hq => ⟨i, hq ▸ hi, hPi⟩⟩
  obtain ⟨hbracket, hscope, hrank⟩ := hP j hPj
  exact honce.eq hj hi hbracket (hP i hPi).1 hscope hrank

theorem Instruction.Marks.onlyAt {mark : InstructionKind} {kind : ScopeKind} (h : i.Marks mark S)
    (hkind : mark.owner? = some kind) : OnlyAt code (·.Marks mark S) k :=
  honce.onlyAt hi h fun _ hj => ⟨hj.isBracket hkind, hj.2.trans h.2.symm, by rw [hj.1, h.1]⟩

theorem Instruction.Tests.onlyAt (h : i.Tests S) : OnlyAt code (·.Tests S) k :=
  honce.onlyAt hi h fun _ hj => ⟨hj.isBracket, hj.owner?.1.trans h.owner?.1.symm, hj.rank.trans h.rank.symm⟩

end once

variable {b p q : Span} {x z : Instruction} {ys : List Instruction}

/-- A block of which a scope is one of its own. -/
inductive Block (outlines : Nat → Scope) (S : Nat) : Span → List Instruction → Prop where
  | intro {b p q : Span} {x z : Instruction} {l ys m : List Instruction}
      (h : Brackets outlines b x ys z p q) (hfirst : Nests outlines p l) (hsecond : Nests outlines q m)
      (hlow : b.low ≤ S) (hhigh : S < b.high) (hown : S < p.low ∨ p.high ≤ S ∧ S < q.low) :
      Block outlines S b (x :: l ++ ys ++ m ++ [z])

/-- No bracket of code is in a block with one of the scopes between two bounds. -/
def Foreign (outlines : Nat → Scope) (low high : Nat) (code : List Instruction) : Prop :=
  ∀ i ∈ code, i.kind.isBracket → ∀ B, low ≤ B → B < high → B ∉ around outlines i.scope

/-- The block of a scope in code, apart from all the rest. -/
def Found (outlines : Nat → Scope) (low high : Nat) (code : List Instruction) (S : Nat) : Prop :=
  ∃ A b block C, code = A ++ block ++ C ∧ Block outlines S b block ∧ low ≤ b.low ∧ b.high ≤ high ∧
    Foreign outlines b.low b.high (A ++ C)

theorem Found.embed {low high low' high' : Nat} {A C : List Instruction} (h : Found outlines low high code S)
    (hlow : low' ≤ low) (hhigh : high ≤ high') (hapart : Foreign outlines low high (A ++ C)) :
    Found outlines low' high' (A ++ code ++ C) S := by
  obtain ⟨A', b, block, C', rfl, hblock, hlow', hhigh', hapart'⟩ := h
  refine ⟨A ++ A', b, block, C' ++ C, by simp only [append_assoc], hblock, Nat.le_trans hlow hlow',
    Nat.le_trans hhigh' hhigh, fun i hi hbracket B hB hB' => ?_⟩
  have hmem : i ∈ A' ++ C' ∨ i ∈ A ++ C := by
    simp only [mem_append] at hi ⊢
    tauto
  rcases hmem with hmem | hmem
  · exact hapart' i hmem hbracket B hB hB'
  · exact hapart i hmem hbracket B (Nat.le_trans hlow' hB) (Nat.lt_of_lt_of_le hB' hhigh')

theorem Brackets.above_lt (h : Brackets outlines b x ys z p q) (hle : p.low ≤ p.high) :
    p.above < p.low ∧ q.above < q.low := by
  cases h <;> simp_all <;> omega

section rooted

variable (hrooted : Rooted fun id => (outlines id).parent)

include hrooted

theorem notMem_around_of_lt {id B : Nat} (h : id < B) : B ∉ around outlines id := fun hmem =>
  Nat.not_lt.2 (le_of_mem_ancestorsBy hrooted hmem) h

theorem Brackets.notMem_around (h : Brackets outlines b x ys z p q) (habove : b.above < b.low) {B : Nat}
    (hB : p.low ≤ B) (hB' : B < p.high) : B ∉ around outlines q.above := by
  cases h with
  | ifThen | loop => exact notMem_around_of_lt hrooted hB
  | ifElse _ _ hscope' =>
    rw [hscope'.around hrooted]
    exact mt mem_cons.1 (not_or.2 ⟨Nat.ne_of_lt hB', notMem_around_of_lt hrooted
      (Nat.lt_of_lt_of_le habove (Nat.le_of_succ_le hB))⟩)
  | function => exact notMem_around_of_lt hrooted hB

theorem Nests.found (h : Nests outlines b code) (habove : b.above < b.low) (hle : b.low ≤ S)
    (hlt : S < b.high) : Found outlines b.low b.high code S := by
  induction h with
  | bare => exact absurd hlt (Nat.not_lt.2 hle)
  | @append above low middle high l m hfirst hsecond ih ih' =>
    have hlow : low ≤ middle := hfirst.le
    rcases Nat.lt_or_ge S middle with hS | hS
    · refine (ih habove hle hS).embed (A := []) (Nat.le_refl _) hsecond.le fun i hi hbracket B hB hB' => ?_
      exact hsecond.notMem_around hrooted (notMem_around_of_lt hrooted (Nat.lt_of_lt_of_le habove hB))
        (.inl hB') i hi hbracket
    · have hmiddle : above < middle := Nat.lt_of_lt_of_le habove hlow
      have hfound := (ih' hmiddle hS hlt).embed (A := l) (C := []) hlow (Nat.le_refl _)
        fun i hi hbracket B hB _ => ?_
      · rwa [append_nil] at hfound
      · rw [append_nil] at hi
        exact hfirst.notMem_around hrooted (notMem_around_of_lt hrooted (Nat.lt_of_lt_of_le hmiddle hB))
          (.inr hB) i hi hbracket
  | @block b p q x z l ys m h hfirst hsecond ih ih' =>
    obtain ⟨hlow, hmiddle, hhigh⟩ := h.bounds
    have hfirstLe := hfirst.le
    have hsecondLe := hsecond.le
    obtain ⟨habove', habove''⟩ := h.above_lt hfirstLe
    have hmarks : ∀ i ∈ x :: ys ++ [z], ∀ B, b.low < B → B ∉ around outlines i.scope := fun i hi B hB =>
      notMem_around_of_lt hrooted ((h.marks i hi).1 ▸ hB)
    by_cases hS : p.low ≤ S ∧ S < p.high
    · have hle' : p.high ≤ b.high := by omega
      have hfound := (ih habove' hS.1 hS.2).embed (A := [x]) (C := ys ++ m ++ [z]) hlow.le hle'
        fun i hi hbracket B hB hB' => ?_
      · simpa using hfound
      · have hmem : i ∈ x :: ys ++ [z] ∨ i ∈ m := by
          simp only [mem_append, mem_cons, not_mem_nil, or_false] at hi ⊢
          rcases hi with hi | (hi | hi) | hi <;> simp [hi]
        rcases hmem with hmem | hmem
        · exact hmarks i hmem B (Nat.lt_of_lt_of_le hlow hB)
        · exact hsecond.notMem_around hrooted (h.notMem_around hrooted habove hB hB') (.inl (by omega)) i hmem
            hbracket
    · by_cases hS' : q.low ≤ S
      · have hle' : b.low ≤ q.low := by omega
        have hfound := (ih' habove'' hS' (hhigh ▸ hlt)).embed (A := x :: l ++ ys) (C := [z]) hle' hhigh.le
          fun i hi hbracket B hB _ => ?_
        · simpa using hfound
        · have hmem : i ∈ x :: ys ++ [z] ∨ i ∈ l := by
            simp only [mem_append, mem_cons, not_mem_nil, or_false] at hi ⊢
            rcases hi with ((hi | hi) | hi) | hi <;> simp [hi]
          rcases hmem with hmem | hmem
          · exact hmarks i hmem B (by omega)
          · exact hfirst.notMem_around hrooted (notMem_around_of_lt hrooted (by omega)) (.inr (by omega)) i
              hmem hbracket
      · exact ⟨[], b, _, [], (append_nil _).symm, .intro h hfirst hsecond hle hlt (by omega), Nat.le_refl _,
          Nat.le_refl _, forall_mem_nil _⟩

section pieces

variable (honce : MarksOnce code) {A C l m : List Instruction} {fin : Instruction} {high : Nat}

include honce

theorem conditionalAt {test els : Instruction} (hcode : code = A ++ (test :: l ++ els :: m ++ [fin]) ++ C)
    (htest : test.Tests S) (hels : els.Marks .elseMark S) (hfin : fin.Marks .endIf S)
    (hin : ∀ i ∈ l, i.kind.isBracket → S ∈ around outlines i.scope)
    (hout : ∀ i ∈ m ++ (A ++ C), i.kind.isBracket → S ∉ around outlines i.scope)
    (hnone : (outlines S).otherwise = none → Bare m)
    (hother : ∀ E, (outlines S).otherwise = some E → (S < E ∧ E < high) ∧
      ((outlines E).kind = .elseBranch ∧ (outlines E).parent = (outlines S).parent) ∧
      (∀ i ∈ m, i.kind.isBracket → E ∈ around outlines i.scope) ∧
      ∀ i ∈ l ++ (A ++ C), i.kind.isBracket → E ∉ around outlines i.scope) :
    ∃ t e f, ConditionalAt outlines high code S t e f := by
  obtain ⟨htest', hels', hfin'⟩ := getElem?_loop hcode
  have hfirst : code = A ++ test :: l ++ els :: (m ++ fin :: C) := by simp [hcode]
  have hsecond : code = A ++ test :: l ++ els :: m ++ fin :: C := by simp [hcode]
  have hlength : (A ++ test :: l).length = A.length + 1 + l.length := by simp; omega
  refine ⟨_, _, _, by omega, htest.onlyAt honce htest', hels.onlyAt honce hels' rfl,
    hfin.onlyAt honce hfin' rfl, ?_, fun hnone' k i hk hk' hi => ?_, fun E hE => ?_⟩
  · refine .of_split hfirst (fun i hi hbracket _ => hin i hi hbracket) fun i hi hbracket hne => ?_
    have hmem : i ∈ m ++ (A ++ C) ∨ i = test ∨ i = els ∨ i = fin := by
      simp only [mem_append, mem_cons] at hi ⊢
      rcases hi with hi | hi | hi | hi | hi | hi <;> simp [hi]
    rcases hmem with hmem | rfl | rfl | rfl
    · exact hout i hmem hbracket
    · exact absurd htest.owner?.1 hne
    · exact absurd hels.2 hne
    · exact absurd hfin.2 hne
  · rcases between_or_outside (hsecond ▸ hi) with ⟨-, hmem⟩ | ⟨hk'', -⟩
    · exact hnone hnone' i hmem
    · omega
  · obtain ⟨hlt, hscope, hin', hout'⟩ := hother E hE
    refine ⟨hlt, hscope, hlength ▸ .of_split hsecond (fun i hi hbracket _ => hin' i hi hbracket)
      fun i hi hbracket _ => ?_⟩
    have hnot : E ∉ around outlines S := notMem_around_of_lt hrooted hlt.1
    have hmem : i ∈ l ++ (A ++ C) ∨ i = test ∨ i = els ∨ i = fin := by
      simp only [mem_append, mem_cons] at hi ⊢
      rcases hi with (hi | hi | hi) | hi | hi | hi <;> simp [hi]
    rcases hmem with hmem | rfl | rfl | rfl
    · exact hout' i hmem hbracket
    · rwa [htest.owner?.1]
    · rwa [hels.2]
    · rwa [hfin.2]

omit hrooted in
theorem loopAt {label test : Instruction} (hcode : code = A ++ (label :: l ++ test :: m ++ [fin]) ++ C)
    (hlabel : label.Marks .whileLabel S) (hhead : Bare l) (htest : test.Marks .whileCondition S)
    (hfin : fin.Marks .endWhile S) (hin : ∀ i ∈ m, i.kind.isBracket → S ∈ around outlines i.scope)
    (hout : ∀ i ∈ A ++ C, i.kind.isBracket → S ∉ around outlines i.scope) :
    ∃ b t f, LoopAt outlines code S b t f := by
  obtain ⟨hlabel', htest', hfin'⟩ := getElem?_loop hcode
  have hwhole : code = A ++ label :: (l ++ test :: m) ++ fin :: C := by simp [hcode]
  have hlength : A.length + 1 + (l ++ test :: m).length = A.length + 1 + l.length + 1 + m.length := by
    simp; omega
  refine ⟨_, _, _, by omega, hlabel.onlyAt honce hlabel' rfl, htest.onlyAt honce htest' rfl,
    hfin.onlyAt honce hfin' rfl, hlength ▸ .of_split hwhole (fun i hi hbracket hne => ?_)
    fun i hi hbracket hne => ?_⟩
  · rcases mem_append.1 hi with hi | hi
    · cases (hhead i hi).symm.trans hbracket
    · rcases mem_cons.1 hi with rfl | hi
      · exact absurd htest.2 hne
      · exact hin i hi hbracket
  · have hmem : i ∈ A ++ C ∨ i = label ∨ i = fin := by
      simp only [mem_append, mem_cons] at hi ⊢
      tauto
    rcases hmem with hmem | rfl | rfl
    · exact hout i hmem hbracket
    · exact absurd hlabel.2 hne
    · exact absurd hfin.2 hne

theorem functionAt {entry : Instruction} (hcode : code = A ++ (entry :: l ++ [fin]) ++ C)
    (hentry : entry.Marks .functionBegin S) (hfin : fin.Marks .functionEnd S)
    (hin : ∀ i ∈ l, i.kind.isBracket → S + 1 ∈ around outlines i.scope)
    (hout : ∀ i ∈ A ++ C, i.kind.isBracket → S + 1 ∉ around outlines i.scope) :
    ∃ b f, b < f ∧ OnlyAt code (·.Marks .functionBegin S) b ∧ OnlyAt code (·.Marks .functionEnd S) f ∧
      Confines outlines code (S + 1) b f := by
  have hwhole : code = A ++ entry :: l ++ fin :: C := by simp [hcode]
  have hentry' : code[A.length]? = some entry := getElem?_between (hwhole.trans (append_assoc ..)) rfl
  have hfin' : code[A.length + 1 + l.length]? = some fin := getElem?_between hwhole (by simp; omega)
  refine ⟨_, _, by omega, hentry.onlyAt honce hentry' rfl, hfin.onlyAt honce hfin' rfl,
    .of_split hwhole (fun i hi hbracket _ => hin i hi hbracket) fun i hi hbracket _ => ?_⟩
  have hnot : S + 1 ∉ around outlines S := notMem_around_of_lt hrooted (Nat.lt_succ_self _)
  have hmem : i ∈ A ++ C ∨ i = entry ∨ i = fin := by
    simp only [mem_append, mem_cons] at hi ⊢
    tauto
  rcases hmem with hmem | rfl | rfl
  · exact hout i hmem hbracket
  · rwa [hentry.2]
  · rwa [hfin.2]

theorem Found.placed {low : Nat} (h : Found outlines low high code S) : Placed outlines high code S := by
  obtain ⟨A, b, block, C, hcode, hblock, hlow, hhigh, hapart⟩ := h
  cases hblock with
  | @intro p q x z l ys m hbrackets hfirst hsecond hle hlt hown =>
    have hfirstLe := hfirst.le
    have hsecondLe := hsecond.le
    have hfirst' : ∀ i ∈ l, i.kind.isBracket → p.above ∈ around outlines i.scope := fun i hi hbracket =>
      (hfirst.owned hrooted i hi hbracket).mem_around
    have hsecond' : ∀ i ∈ m, i.kind.isBracket → q.above ∈ around outlines i.scope := fun i hi hbracket =>
      (hsecond.owned hrooted i hi hbracket).mem_around
    have hout : ∀ i ∈ A ++ C, i.kind.isBracket → S ∉ around outlines i.scope := fun i hi hbracket =>
      hapart i hi hbracket S hle hlt
    cases hbrackets with
    | @ifThen above low high test els fin hscope hnone htest hels hfin =>
      dsimp only at hown hle hlt hfirstLe
      obtain rfl : S = low := by omega
      have hbare : Bare m := hsecond.bare_of_le hrooted (Nat.le_refl _)
      rw [Placed, hscope.1]
      refine conditionalAt hrooted honce (hcode.trans (by simp)) htest hels hfin hfirst'
        (forall_mem_append.2 ⟨fun i hi hbracket => ?_, hout⟩) (fun _ => hbare) fun E hE => ?_
      · cases (hbare i hi).symm.trans hbracket
      · cases hnone.symm.trans hE
    | @ifElse above low middle high test els fin hscope hsome hscope' htest hels hfin =>
      dsimp only at hown hle hlt hfirstLe hsecondLe hhigh
      rcases hown with hown | hown
      · obtain rfl : S = low := by omega
        have hnot : S ∉ around outlines middle := by
          rw [hscope'.around hrooted]
          exact mt mem_cons.1 (not_or.2 ⟨by omega, notMem_around_of_lt hrooted (hrooted _ _ hscope.2)⟩)
        rw [Placed, hscope.1]
        refine conditionalAt hrooted honce (hcode.trans (by simp)) htest hels hfin hfirst'
          (forall_mem_append.2 ⟨hsecond.notMem_around hrooted hnot (.inl (Nat.lt_succ_of_lt hfirstLe)), hout⟩)
          (fun hnone => ?_) fun E hE => ?_
        · cases hsome.symm.trans hnone
        · cases hsome.symm.trans hE
          refine ⟨by omega, ⟨hscope'.1, hscope'.2.trans hscope.2.symm⟩, hsecond',
            forall_mem_append.2 ⟨?_, fun i hi hbracket => hapart i hi hbracket _ ?_ ?_⟩⟩
          · exact hfirst.notMem_around hrooted (notMem_around_of_lt hrooted hfirstLe) (.inr (Nat.le_refl _))
          · exact Nat.le_of_succ_le hfirstLe
          · exact hsecondLe
      · obtain rfl : S = middle := by omega
        rw [Placed, hscope'.1]
        exact ⟨low, hscope.1, hsome, hscope.2.trans hscope'.2.symm⟩
    | @loop above low high label test fin hscope hlabel htest hfin =>
      dsimp only at hown hle
      obtain rfl : S = low := by omega
      rw [Placed, hscope.1]
      exact loopAt honce (hcode.trans (by simp)) hlabel (hfirst.bare_of_le hrooted (Nat.le_refl _)) htest
        hfin hsecond' hout
    | @function low high entry fin hscope hscope' hentry hfin =>
      dsimp only at hown hle hlt hfirstLe
      by_cases hS : S = low
      · subst hS
        rw [Placed, hscope.1]
        obtain ⟨b, f, horder, hentry', hfin', hbody⟩ := functionAt hrooted honce (l := l ++ m)
          (hcode.trans (by simp)) hentry hfin (forall_mem_append.2 ⟨hfirst', hsecond'⟩)
          fun i hi hbracket => hapart i hi hbracket _ (Nat.le_succ _) hfirstLe
        exact ⟨b, f, horder, hentry', hfin', hscope.2, ⟨hscope', Nat.lt_of_lt_of_le hfirstLe hhigh⟩, hbody⟩
      · obtain rfl : S = low + 1 := by omega
        rw [Placed, hscope'.1]
        exact ⟨low, rfl, hscope'.2⟩

end pieces

end rooted

end placed

/-! ### Returns -/

theorem Elaborates.giveBack_notMem {d d' : Draft} {H : List Instruction} {T : Flow}
    (h : Elaborates d H T d') (hd : d.Formed) (hmain : d.function? = none) :
    .giveBack ∉ T.content := by
  have hdefines : ∀ {H : List Instruction}, (∀ i ∈ H, i.kind = .defineVariable) → .giveBack ∉ deeds H := by
    intro H hH hmem
    obtain ⟨i, hi, heq⟩ := mem_filterMap.1 hmem
    rw [Instruction.deed?, hH i hi] at heq
    obtain ⟨_, -, heq⟩ := Option.map_eq_some_iff.1 heq
    cases heq
  have hopened : ∀ {d : Draft} {kind : ScopeKind} {code : List Instruction}, d.Formed →
      kind ≠ .functionHeader → d.function? = none → (d.opened kind code).function? = none :=
    fun hd hkind hmain => (Draft.function?_opened hd hkind).trans hmain
  induction h with
  | step hstep =>
    cases hstep with
    | skip | hoist => exact not_mem_nil
    | store hvalue hpop => exact (hvalue.reads_store hpop).giveBack_notMem
    | call _ hcode hafter => exact (hcode.reads hafter).giveBack_notMem
    | giveBack _ hreturns =>
      obtain ⟨header, _, hheader, -⟩ := hreturns
      cases hmain.symm.trans hheader
    | declare _ _ hdefine => exact hdefines (forall_mem_singleton.2 hdefine.1)
  | seq hfirst _ ih ih' =>
    obtain ⟨hd₁, hkeeps⟩ := hfirst.keeps hd
    exact mt mem_append.1 (not_or.2 ⟨ih hd hmain, ih' hd₁ ((hkeeps.function? hd).trans hmain)⟩)
  | ifThen hhead htest _ _ _ ih =>
    simp only [Flow.content, append_nil, mem_append, not_or]
    exact ⟨(hhead.reads_if htest).giveBack_notMem, ih hd.opened (hopened hd (by decide) hmain)⟩
  | ifElse hhead htest hbody _ _ _ ih ih' =>
    obtain ⟨hd₁, hkeeps⟩ := hbody.keeps hd.opened
    simp only [Flow.content, mem_append, not_or]
    exact ⟨⟨(hhead.reads_if htest).giveBack_notMem, ih hd.opened (hopened hd (by decide) hmain)⟩,
      ih' (hd.otherwise hd₁ hkeeps) ((hkeeps.function?_otherwise hd hd₁).trans hmain)⟩
  | loop _ hhead _ htest hbody _ ih =>
    simp only [Flow.content, mem_append, not_or]
    exact ⟨hdefines hbody.hoisted, (hhead.reads_while htest).giveBack_notMem, ih hd.opened (hopened hd (by decide) hmain)⟩
  | nested _ hhead _ htest hbody _ ih =>
    simp only [Flow.content, mem_append, not_or]
    exact ⟨(hhead.reads_while htest).giveBack_notMem, ih hd.opened (hopened hd (by decide) hmain)⟩

theorem Composes.giveBack_notMem {parts : List Part} {d : Draft} (h : Composes parts d) :
    ∀ part ∈ parts, part.header = none → .giveBack ∉ part.flow.content := by
  induction h with
  | start => exact forall_mem_singleton.2 fun _ => not_mem_nil
  | statement h hbody ih =>
    obtain ⟨hsound, hcurrent, hglobal⟩ := h.sound
    refine forall_mem_append.2 ⟨ih, forall_mem_singleton.2 fun _ => ?_⟩
    exact hbody.giveBack_notMem hsound.formed (Draft.function?_of_root hsound.formed hcurrent hglobal)
  | function _ _ _ _ _ _ _ _ ih =>
    exact forall_mem_append.2 ⟨ih, forall_mem_singleton.2 nofun⟩

theorem exists_function_around {parts : List Part} {codes : List (List Instruction)}
    (h : List.Forall₂ Part.Lays parts codes)
    (hmain : ∀ part ∈ parts, part.header = none → .giveBack ∉ part.flow.content) {k : Nat}
    {i : Instruction} (hi : codes.flatten[k]? = some i) (hkind : i.kind = .returnValue) :
    ∃ H b f entry fin, codes.flatten[b]? = some entry ∧ entry.Marks .functionBegin H ∧
      codes.flatten[f]? = some fin ∧ fin.Marks .functionEnd H ∧ b < k ∧ k < f := by
  induction h generalizing k with
  | nil => cases hi
  | @cons part l parts codes hpart _ ih =>
    obtain ⟨hmain, hlater⟩ := forall_mem_cons.1 hmain
    rw [flatten_cons] at hi ⊢
    by_cases hk : k < l.length
    · rw [List.getElem?_append_left hk] at hi
      cases hpart with
      | main hlays =>
        have hdeed : .giveBack ∈ deeds l :=
          mem_filterMap.2 ⟨i, mem_of_getElem? hi, by rw [Instruction.deed?, hkind]⟩
        rw [hlays.content] at hdeed
        exact absurd hdeed (hmain rfl)
      | @function header T entry fin l hlays hentry hinner hfin =>
        have hfirst : (entry :: l ++ [fin] ++ codes.flatten)[0]? = some entry := rfl
        have hlast : (entry :: l ++ [fin])[l.length + 1]? = some fin := by simp
        have hne : k ≠ 0 := by
          rintro rfl
          cases hi
          cases hkind.symm.trans hentry.1
        have hne' : k ≠ l.length + 1 := by
          rintro rfl
          cases hlast.symm.trans hi
          cases hkind.symm.trans hfin.1
        have hlength : (entry :: l ++ [fin]).length = l.length + 2 := by simp
        refine ⟨header, 0, l.length + 1, entry, fin, hfirst, hentry, ?_, hfin, by omega, by omega⟩
        rw [List.getElem?_append_left (by omega), hlast]
    · rw [List.getElem?_append_right (Nat.le_of_not_lt hk)] at hi
      obtain ⟨H, b, f, entry, fin, hb, hentry, hf, hfin, hbk, hkf⟩ := ih hlater hi
      refine ⟨H, l.length + b, l.length + f, entry, fin, ?_, hentry, ?_, hfin, by omega, by omega⟩
      · rw [List.getElem?_append_right (Nat.le_add_right _ _), Nat.add_sub_cancel_left, hb]
      · rw [List.getElem?_append_right (Nat.le_add_right _ _), Nat.add_sub_cancel_left, hf]

/-! ### Programs -/

/-- The content of a scope stands between two places: the blocks of a conditional between its condition,
its `else` and its end, the block of a loop between its label and its end, and the body of a function
between the bounds of the function. -/
inductive Program.Encloses (p : Program) : Nat → Nat → Nat → Prop where
  | conditional {S t e : Nat} (hkind : (p.scopes.scope S).kind = .thenBranch)
      (htest : OnlyAt p.stream.code (·.Tests S) t)
      (hels : OnlyAt p.stream.code (·.Marks .elseMark S) e) : Encloses p S t e
  | alternative {S E e f : Nat} (hother : (p.scopes.scope S).otherwise = some E)
      (hels : OnlyAt p.stream.code (·.Marks .elseMark S) e)
      (hfin : OnlyAt p.stream.code (·.Marks .endIf S) f) : Encloses p E e f
  | loop {S b f : Nat} (hkind : (p.scopes.scope S).kind = .whileBody)
      (hlabel : OnlyAt p.stream.code (·.Marks .whileLabel S) b)
      (hfin : OnlyAt p.stream.code (·.Marks .endWhile S) f) : Encloses p S b f
  | function {H B b f : Nat} (hkind : (p.scopes.scope B).kind = .functionBody)
      (hparent : (p.scopes.scope B).parent = some H)
      (hentry : OnlyAt p.stream.code (·.Marks .functionBegin H) b)
      (hfin : OnlyAt p.stream.code (·.Marks .functionEnd H) f) : Encloses p B b f

/-- A place is between the bounds of a function. -/
def Program.Within (p : Program) (H k : Nat) : Prop :=
  ∃ b f, OnlyAt p.stream.code (·.Marks .functionBegin H) b ∧
    OnlyAt p.stream.code (·.Marks .functionEnd H) f ∧ b < k ∧ k < f

/-- The brackets of a program mirror its tree of scopes. -/
structure Program.Bracketed (p : Program) : Prop where
  /-- every conditional has its three marks, once and in their order -/
  conditionals : ∀ S, (p.scopes.scope S).kind = .thenBranch → ∃ t e f, t < e ∧ e < f ∧
    OnlyAt p.stream.code (·.Tests S) t ∧ OnlyAt p.stream.code (·.Marks .elseMark S) e ∧
    OnlyAt p.stream.code (·.Marks .endIf S) f ∧
    ((p.scopes.scope S).otherwise = none →
      ∀ k i, e < k → k < f → p.stream.code[k]? = some i → i.kind.isBracket = false)
  /-- every second block is that of a conditional with the same scope around -/
  alternatives : ∀ E, (p.scopes.scope E).kind = .elseBranch → ∃ S,
    (p.scopes.scope S).kind = .thenBranch ∧ (p.scopes.scope S).otherwise = some E ∧
    (p.scopes.scope S).parent = (p.scopes.scope E).parent
  loops : ∀ S, (p.scopes.scope S).kind = .whileBody → ∃ b t f, b < t ∧ t < f ∧
    OnlyAt p.stream.code (·.Marks .whileLabel S) b ∧
    OnlyAt p.stream.code (·.Marks .whileCondition S) t ∧
    OnlyAt p.stream.code (·.Marks .endWhile S) f
  /-- every function of the program has its bounds -/
  functions : ∀ H returns, (p.scopes.scope H).kind = .functionHeader →
    ((p.scopes.scope ScopeTree.root).table.get? (p.scopes.scope H).name).map Symbol.kind =
      some (.function returns false) → ∃ b f, b < f ∧
    OnlyAt p.stream.code (·.Marks .functionBegin H) b ∧ OnlyAt p.stream.code (·.Marks .functionEnd H) f
  /-- there are no other brackets -/
  owned : ∀ i ∈ p.stream.code, i.kind.isBracket → i.kind.owner? = some (p.scopes.scope i.scope).kind
  /-- blocks are nested as in the tree, or apart -/
  nested : ∀ {B B' lo hi lo' hi' : Nat}, p.Encloses B lo hi → p.Encloses B' lo' hi' → B ≠ B' →
    (lo < lo' ∧ hi' < hi ∧ B ∈ p.scopes.ancestors B') ∨
    (lo' < lo ∧ hi < hi' ∧ B' ∈ p.scopes.ancestors B) ∨
    ((hi ≤ lo' ∨ hi' ≤ lo) ∧ B ∉ p.scopes.ancestors B' ∧ B' ∉ p.scopes.ancestors B)
  /-- the brackets between the places of a block are those of the scopes below it -/
  inside : ∀ {B lo hi : Nat}, p.Encloses B lo hi → lo < hi ∧ ∀ k i, p.stream.code[k]? = some i →
    i.kind.isBracket → i.scope ≠ B → (lo < k ∧ k < hi ↔ B ∈ p.scopes.ancestors i.scope)
  /-- no block is around a function -/
  outermost : ∀ {B lo hi : Nat}, p.Encloses B lo hi → ∀ k i, p.stream.code[k]? = some i →
    i.kind.isBound → ¬ (lo < k ∧ k < hi)
  returns : ∀ k i, p.stream.code[k]? = some i → i.kind = .returnValue → ∃! H, p.Within H k

section accepted

variable {c : Context} {p : Program}
variable {S : Nat}

theorem Accepted.nests (h : Accepted c p) :
    Nests c.draft.outlines ⟨ScopeTree.root, 11, c.draft.size⟩ p.stream.code := by
  obtain ⟨parts, codes, hparts, hcodes, hcode⟩ := h.lays
  exact hcode ▸ hparts.nests hcodes fun _ _ _ => ⟨rfl, rfl, rfl⟩

theorem Accepted.rooted (h : Accepted c p) : Rooted fun id => (c.draft.outlines id).parent := by
  obtain ⟨parts, hparts⟩ := h.composed.composes
  exact hparts.sound.1.formed.rooted

theorem Accepted.owned (h : Accepted c p) {i : Instruction} (hi : i ∈ p.stream.code)
    (hbracket : i.kind.isBracket) :
    Nests.Owned c.draft.outlines ⟨ScopeTree.root, 11, c.draft.size⟩ i :=
  h.nests.owned h.rooted i hi hbracket

theorem Accepted.placed (h : Accepted c p) (hle : 11 ≤ S) (hlt : S < c.draft.size) :
    Placed c.draft.outlines c.draft.size p.stream.code S :=
  (h.nests.found h.rooted (Nat.zero_lt_succ 10) hle hlt).placed h.rooted (h.nests.marksOnce h.rooted)

theorem Composes.extends_start {parts : List Part} {d : Draft} (h : Composes parts d) :
    Context.start.draft.Extends d :=
  h.preserves (P := fun d => Context.start.draft.Extends d)
    ⟨Nat.le_refl _, fun _ _ => ⟨rfl, rfl, rfl, rfl⟩, fun _ _ => Set.Subset.refl _, List.Subset.refl _⟩
    (fun hd hbody h => h.trans (hbody.keeps hd).2.toExtends)
    (fun _ _ _ _ _ _ _ _ h => h.trans Draft.extends_headed)
    (fun _ _ _ _ _ h => h.trans Draft.extends_ended)

theorem Accepted.placed_of_kind (h : Accepted c p) {kind : ScopeKind} (hkind : (c.scopes.scope S).kind = kind)
    (hglobal : kind ≠ .global) (hheader : kind ≠ .functionHeader) :
    Placed c.draft.outlines c.draft.size p.stream.code S := by
  obtain ⟨parts, hparts⟩ := h.composed.composes
  refine h.placed (Nat.le_of_not_lt fun hlt => ?_) (Meaning.lt_size_of_kind (hkind ▸ hglobal))
  have hsame := (hparts.extends_start.fixed S (Nat.lt_of_lt_of_eq hlt start_size.symm)).1.symm.trans hkind
  rcases Nat.eq_zero_or_pos S with rfl | hpos
  · exact hglobal (hsame.symm.trans start_root.1)
  · exact hheader (hsame.symm.trans (start_header hlt hpos).1)

theorem Accepted.placed_of_onlyAt (h : Accepted c p) {mark : InstructionKind} {kind : ScopeKind}
    {place : Nat} (hmark : OnlyAt p.stream.code (·.Marks mark S) place)
    (hkind : mark.owner? = some kind) : 11 ≤ S ∧ (c.draft.outlines S).kind = kind ∧
      Placed c.draft.outlines c.draft.size p.stream.code S := by
  obtain ⟨i, hi, hmarks, rfl⟩ := (hmark place).2 rfl
  have howned := h.owned (mem_of_getElem? hi)
    (InstructionKind.isBracket_of_owner? (hmarks.symm ▸ hkind))
  have hkind' := howned.kind
  rw [hmarks, hkind] at hkind'
  exact ⟨howned.bounds.1, (Option.some.inj hkind').symm, h.placed howned.bounds.1 howned.bounds.2⟩

theorem Accepted.conditional (h : Accepted c p) {e : Nat}
    (hels : OnlyAt p.stream.code (·.Marks .elseMark S) e) : 11 ≤ S ∧
      (c.draft.outlines S).kind = .thenBranch ∧
      ∃ t f, ConditionalAt c.draft.outlines c.draft.size p.stream.code S t e f := by
  obtain ⟨hle, hkind, hplaced⟩ := h.placed_of_onlyAt hels rfl
  rw [Placed, hkind] at hplaced
  obtain ⟨t, e', f, hplaced⟩ := hplaced
  rw [hels.unique hplaced.els]
  exact ⟨hle, hkind, t, f, hplaced⟩

section encloses

variable {B B' lo hi lo' hi' : Nat}

theorem Accepted.eq_succ (h : Accepted c p) {H : Nat} (hkind : (p.scopes.scope B).kind = .functionBody)
    (hparent : (p.scopes.scope B).parent = some H) : B = H + 1 := by
  rw [h.scopes] at hkind hparent
  have hplaced := h.placed_of_kind hkind (by decide) (by decide)
  rw [Placed, show (c.draft.outlines B).kind = _ from hkind] at hplaced
  obtain ⟨header, rfl, hheader⟩ := hplaced
  rw [Option.some.inj (hparent.symm.trans hheader)]

theorem Accepted.confines (h : Accepted c p) (hB : p.Encloses B lo hi) :
    lo < hi ∧ Confines c.draft.outlines p.stream.code B lo hi := by
  cases hB with
  | conditional hkind htest hels =>
    obtain ⟨-, -, t, f, hplaced⟩ := h.conditional hels
    rw [htest.unique hplaced.test]
    exact ⟨hplaced.order.1, hplaced.first⟩
  | alternative hother hels hfin =>
    obtain ⟨-, -, t, f, hplaced⟩ := h.conditional hels
    rw [hfin.unique hplaced.fin]
    rw [h.scopes] at hother
    exact ⟨hplaced.order.2, (hplaced.other B hother).2.2⟩
  | loop hkind hlabel hfin =>
    obtain ⟨-, hkind, hplaced⟩ := h.placed_of_onlyAt hfin rfl
    rw [Placed, hkind] at hplaced
    obtain ⟨b, t, f, hplaced⟩ := hplaced
    rw [hlabel.unique hplaced.label, hfin.unique hplaced.fin]
    exact ⟨Nat.lt_trans hplaced.order.1 hplaced.order.2, hplaced.block⟩
  | function hkind hparent hentry hfin =>
    obtain ⟨-, hheader, hplaced⟩ := h.placed_of_onlyAt hentry rfl
    rw [Placed, hheader] at hplaced
    obtain ⟨b, f, hplaced⟩ := hplaced
    rw [hentry.unique hplaced.entry, hfin.unique hplaced.fin, h.eq_succ hkind hparent]
    exact ⟨hplaced.order, hplaced.body⟩

theorem Accepted.alternative (h : Accepted c p) {S E e : Nat} (hother : (p.scopes.scope S).otherwise = some E)
    (hels : OnlyAt p.stream.code (·.Marks .elseMark S) e) :
    11 ≤ E ∧ (c.draft.outlines S).kind = .thenBranch ∧ (c.draft.outlines E).kind = .elseBranch ∧
      (c.draft.outlines E).parent = (c.draft.outlines S).parent := by
  obtain ⟨hle, hkind, t, f, hplaced⟩ := h.conditional hels
  rw [h.scopes] at hother
  obtain ⟨⟨hlt, -⟩, ⟨hkind', hparent⟩, -⟩ := hplaced.other E hother
  exact ⟨Nat.le_trans hle hlt.le, hkind, hkind', hparent⟩

theorem Accepted.kind_of_encloses (h : Accepted c p) (hB : p.Encloses B lo hi) :
    (c.draft.outlines B).kind ≠ .functionHeader := by
  cases hB with
  | conditional hkind | loop hkind | function hkind =>
    rw [h.scopes] at hkind
    exact fun heq => absurd (hkind.symm.trans heq) nofun
  | alternative hother hels =>
    rw [(h.alternative hother hels).2.2.1]
    exact nofun

theorem around_eq {outlines : Nat → Scope} (hrooted : Rooted fun id => (outlines id).parent) (id : Nat) :
    around outlines id = id :: ((outlines id).parent.map (around outlines)).getD [] := by
  cases hparent : (outlines id).parent with
  | none => exact ancestorsBy_of_none hparent
  | some above => exact ancestorsBy_of_some hrooted hparent

theorem mem_around_congr {outlines : Nat → Scope} (hrooted : Rooted fun id => (outlines id).parent)
    {first second : Nat} (hparent : (outlines first).parent = (outlines second).parent)
    (hne : B ≠ first) (hne' : B ≠ second) : B ∈ around outlines first ↔ B ∈ around outlines second := by
  rw [around_eq hrooted first, around_eq hrooted second, hparent, mem_cons, mem_cons, or_iff_right hne,
    or_iff_right hne']

theorem notMem_around_sibling {outlines : Nat → Scope}
    (hrooted : Rooted fun id => (outlines id).parent) {first second : Nat}
    (hparent : (outlines second).parent = (outlines first).parent) (hne : first ≠ second) :
    first ∉ around outlines second := by
  rw [around_eq hrooted, hparent, mem_cons, or_iff_right hne]
  cases hfirst : (outlines first).parent with
  | none => exact not_mem_nil
  | some above => exact notMem_around_of_lt hrooted (hrooted first above hfirst)

theorem Accepted.side_of_marks (h : Accepted c p) (hB : p.Encloses B lo hi) {P Q : Instruction → Prop}
    {s : Nat} (hfirst : OnlyAt p.stream.code P lo') (hlast : OnlyAt p.stream.code Q hi')
    (hP : ∀ i, P i → i.kind.isBracket ∧ i.scope = s) (hQ : ∀ i, Q i → i.kind.isBracket ∧ i.scope = s)
    (hne : s ≠ B) (hsame : B ∈ around c.draft.outlines s ↔ B ∈ around c.draft.outlines B') :
    (lo < lo' ∧ hi' < hi ∧ B ∈ around c.draft.outlines B') ∨
      ((lo' ≤ lo ∨ hi ≤ lo') ∧ (hi' ≤ lo ∨ hi ≤ hi') ∧ B ∉ around c.draft.outlines B') := by
  obtain ⟨-, hconfines⟩ := h.confines hB
  obtain ⟨i, hplace, hPi⟩ := (hfirst lo').2 rfl
  obtain ⟨j, hplace', hQj⟩ := (hlast hi').2 rfl
  obtain ⟨hbracket, hscope⟩ := hP i hPi
  obtain ⟨hbracket', hscope'⟩ := hQ j hQj
  have hin := hconfines _ i hplace hbracket (hscope ▸ hne)
  have hin' := hconfines _ j hplace' hbracket' (hscope' ▸ hne)
  rw [hscope, hsame] at hin
  rw [hscope', hsame] at hin'
  by_cases hmem : B ∈ around c.draft.outlines B'
  · exact .inl ⟨(hin.2 hmem).1, (hin'.2 hmem).2, hmem⟩
  · have hout := mt hin.1 hmem
    have hout' := mt hin'.1 hmem
    exact .inr ⟨by omega, by omega, hmem⟩

theorem Instruction.Marks.bracket {mark : InstructionKind} {kind : ScopeKind} {s : Nat}
    (hkind : mark.owner? = some kind) (i : Instruction) (h : i.Marks mark s) :
    i.kind.isBracket ∧ i.scope = s := ⟨h.isBracket hkind, h.2⟩

theorem Accepted.side (h : Accepted c p) (hB : p.Encloses B lo hi) (hB' : p.Encloses B' lo' hi')
    (hne : B ≠ B') :
    (lo < lo' ∧ hi' < hi ∧ B ∈ around c.draft.outlines B') ∨
      ((lo' ≤ lo ∨ hi ≤ lo') ∧ (hi' ≤ lo ∨ hi ≤ hi') ∧ B ∉ around c.draft.outlines B') := by
  cases hB' with
  | conditional hkind htest hels =>
    exact h.side_of_marks hB htest hels (fun i hi => ⟨hi.isBracket, hi.owner?.1⟩)
      (Instruction.Marks.bracket rfl) hne.symm Iff.rfl
  | loop hkind hlabel hfin =>
    exact h.side_of_marks hB hlabel hfin (Instruction.Marks.bracket rfl)
      (Instruction.Marks.bracket rfl) hne.symm Iff.rfl
  | @function H _ _ _ hkind hparent hentry hfin =>
    obtain ⟨-, hheader, -⟩ := h.placed_of_onlyAt hentry rfl
    have hH : H ≠ B := fun heq => h.kind_of_encloses hB (heq ▸ hheader)
    rw [h.scopes] at hkind hparent
    refine h.side_of_marks hB hentry hfin (Instruction.Marks.bracket rfl)
      (Instruction.Marks.bracket rfl) hH ?_
    have haround : around c.draft.outlines B' = B' :: around c.draft.outlines H :=
      ancestorsBy_of_some h.rooted hparent
    rw [haround, mem_cons, or_iff_right hne]
  | @alternative S _ _ _ hother hels hfin =>
    obtain ⟨-, hkind, -, hparent⟩ := h.alternative hother hels
    by_cases hS : S = B
    · -- the two blocks of one conditional meet at its `else`
      subst hS
      have hnot := notMem_around_sibling h.rooted hparent hne
      have hmeet : hi = lo' := by
        cases hB with
        | conditional _ _ hels' => exact hels'.unique hels
        | alternative hother' hels' => cases hkind.symm.trans (h.alternative hother' hels').2.2.1
        | loop hkind' | function hkind' =>
          rw [h.scopes] at hkind'
          cases hkind.symm.trans hkind'
      have horder := (h.confines (.alternative hother hels hfin)).1
      exact .inr ⟨by omega, by omega, hnot⟩
    · exact h.side_of_marks hB hels hfin (Instruction.Marks.bracket rfl)
        (Instruction.Marks.bracket rfl) hS (mem_around_congr h.rooted hparent.symm (Ne.symm hS) hne)

/-- The scope whose content begins with a bracket. -/
def ScopeTree.begun? (tree : ScopeTree) (i : Instruction) : Option Nat :=
  match i.kind with
  | .ifCondition | .ifLetCondition | .whileLabel => some i.scope
  | .elseMark => (tree.scope i.scope).otherwise
  | .functionBegin => some (i.scope + 1)
  | _ => none

theorem Accepted.begun?_of_encloses (h : Accepted c p) (hB : p.Encloses B lo hi) :
    ∃ i, p.stream.code[lo]? = some i ∧ c.scopes.begun? i = some B := by
  cases hB with
  | conditional _ htest =>
    obtain ⟨i, hplace, hmarks⟩ := (htest lo).2 rfl
    refine ⟨i, hplace, ?_⟩
    rcases hmarks with hmarks | hmarks <;> rw [ScopeTree.begun?, hmarks.1, hmarks.2]
  | alternative hother hels =>
    obtain ⟨i, hplace, hmarks⟩ := (hels lo).2 rfl
    rw [h.scopes] at hother
    exact ⟨i, hplace, by rw [ScopeTree.begun?, hmarks.1, hmarks.2, hother]⟩
  | loop _ hlabel =>
    obtain ⟨i, hplace, hmarks⟩ := (hlabel lo).2 rfl
    exact ⟨i, hplace, by rw [ScopeTree.begun?, hmarks.1, hmarks.2]⟩
  | function hkind hparent hentry =>
    obtain ⟨i, hplace, hmarks⟩ := (hentry lo).2 rfl
    exact ⟨i, hplace, by rw [ScopeTree.begun?, hmarks.1, hmarks.2, h.eq_succ hkind hparent]⟩

theorem Accepted.eq_of_encloses (h : Accepted c p) (hB : p.Encloses B lo hi)
    (hB' : p.Encloses B' lo hi') : B = B' := by
  obtain ⟨i, hplace, hbegun⟩ := h.begun?_of_encloses hB
  obtain ⟨j, hplace', hbegun'⟩ := h.begun?_of_encloses hB'
  cases hplace.symm.trans hplace'
  exact Option.some.inj (hbegun.symm.trans hbegun')

theorem Accepted.nested (h : Accepted c p) (hB : p.Encloses B lo hi) (hB' : p.Encloses B' lo' hi')
    (hne : B ≠ B') :
    (lo < lo' ∧ hi' < hi ∧ B ∈ around c.draft.outlines B') ∨
      (lo' < lo ∧ hi < hi' ∧ B' ∈ around c.draft.outlines B) ∨
      ((hi ≤ lo' ∨ hi' ≤ lo) ∧ B ∉ around c.draft.outlines B' ∧ B' ∉ around c.draft.outlines B) := by
  have horder := (h.confines hB).1
  have horder' := (h.confines hB').1
  rcases h.side hB hB' hne with hinside | ⟨hlo, hhi, hnot⟩
  · exact .inl hinside
  · rcases h.side hB' hB hne.symm with hinside | ⟨hlo', hhi', hnot'⟩
    · exact .inr (.inl hinside)
    · have hplaces : lo ≠ lo' := by
        rintro rfl
        exact hne (h.eq_of_encloses hB hB')
      exact .inr (.inr ⟨by omega, hnot, hnot'⟩)

theorem Accepted.le_of_encloses (h : Accepted c p) (hB : p.Encloses B lo hi) : 11 ≤ B := by
  cases hB with
  | conditional _ _ hels => exact (h.conditional hels).1
  | alternative hother hels => exact (h.alternative hother hels).1
  | loop _ hlabel => exact (h.placed_of_onlyAt hlabel rfl).1
  | function hkind hparent hentry =>
    rw [h.eq_succ hkind hparent]
    exact Nat.le_succ_of_le (h.placed_of_onlyAt hentry rfl).1

theorem Accepted.function_of_bound (h : Accepted c p) {k : Nat} {i : Instruction}
    (hplace : p.stream.code[k]? = some i) (hbound : i.kind.isBound) :
    (c.draft.outlines i.scope).kind = .functionHeader ∧
      ∃ b f, FunctionAt c.draft.outlines c.draft.size p.stream.code i.scope b f := by
  have hbracket : i.kind.isBracket := by rw [InstructionKind.isBracket, hbound, Bool.or_true]
  have howned := h.owned (mem_of_getElem? hplace) hbracket
  have hheader : (c.draft.outlines i.scope).kind = .functionHeader := by
    have hkind := howned.kind
    revert hkind hbound
    cases i.kind <;> simp [InstructionKind.isBound, InstructionKind.owner?, eq_comm]
  have hplaced := h.placed howned.bounds.1 howned.bounds.2
  rw [Placed, hheader] at hplaced
  exact ⟨hheader, hplaced⟩

theorem Accepted.outermost (h : Accepted c p) (hB : p.Encloses B lo hi) {k : Nat} {i : Instruction}
    (hplace : p.stream.code[k]? = some i) (hbound : i.kind.isBound) : ¬ (lo < k ∧ k < hi) := by
  intro hinside
  have hbracket : i.kind.isBracket := by rw [InstructionKind.isBracket, hbound, Bool.or_true]
  obtain ⟨hheader, b, f, hfunction⟩ := h.function_of_bound hplace hbound
  have hne : i.scope ≠ B := fun heq => h.kind_of_encloses hB (heq ▸ hheader)
  have hmem := ((h.confines hB).2 k i hplace hbracket hne).1 hinside
  rw [around, ancestorsBy_of_some h.rooted hfunction.parent] at hmem
  rcases mem_cons.1 hmem with heq | hmem
  · exact hne heq.symm
  · -- only the global scope is around a function
    have hle : B ≤ 0 := le_of_mem_ancestorsBy h.rooted hmem
    have hle' := h.le_of_encloses hB
    omega

end encloses

theorem Accepted.encloses_of_within (h : Accepted c p) {H b f : Nat}
    (hentry : OnlyAt p.stream.code (·.Marks .functionBegin H) b)
    (hfin : OnlyAt p.stream.code (·.Marks .functionEnd H) f) : p.Encloses (H + 1) b f := by
  obtain ⟨i, hplace, hmarks⟩ := (hentry b).2 rfl
  obtain ⟨-, b', f', hfunction⟩ := h.function_of_bound hplace (by rw [hmarks.1]; rfl)
  rw [hmarks.2] at hfunction
  obtain ⟨⟨hkind, hparent⟩, -⟩ := hfunction.child
  refine .function ?_ ?_ hentry hfin
  · rw [h.scopes]
    exact hkind
  · rw [h.scopes]
    exact hparent

theorem Accepted.returns (h : Accepted c p) {k : Nat} {i : Instruction}
    (hplace : p.stream.code[k]? = some i) (hkind : i.kind = .returnValue) : ∃! H, p.Within H k := by
  obtain ⟨parts, codes, hparts, hcodes, hcode⟩ := h.lays
  have hexists := exists_function_around hcodes hparts.giveBack_notMem (hcode ▸ hplace) hkind
  rw [← hcode] at hexists
  obtain ⟨H, b, f, entry, fin, hb, hentry, hf, hfin, hbk, hkf⟩ := hexists
  obtain ⟨-, b', f', hfunction⟩ := h.function_of_bound hb (by rw [hentry.1]; rfl)
  rw [hentry.2] at hfunction
  have hbegin : b = b' := (hfunction.entry b).1 ⟨entry, hb, hentry⟩
  have hend : f = f' := (hfunction.fin f).1 ⟨fin, hf, hfin⟩
  refine ⟨H, ⟨b', f', hfunction.entry, hfunction.fin, hbegin ▸ hbk, hend ▸ hkf⟩, ?_⟩
  rintro H' ⟨b'', f'', hentry', hfin', hbk', hkf'⟩
  by_contra hne
  have hB := h.encloses_of_within hfunction.entry hfunction.fin
  have hB' := h.encloses_of_within hentry' hfin'
  -- neither function is in the other one, so they have no place in common
  obtain ⟨i, hi, hmarks⟩ := (hentry' b'').2 rfl
  obtain ⟨j, hj, hmarks'⟩ := (hfunction.entry b').2 rfl
  have hout := h.outermost hB hi (by rw [hmarks.1]; rfl)
  have hout' := h.outermost hB' hj (by rw [hmarks'.1]; rfl)
  rcases h.nested hB hB' (fun heq => hne (Nat.succ.inj heq).symm) with h | h | h <;> omega

end accepted

/-- The stream of an accepted program is well bracketed: each conditional, loop and function has its
brackets once and in their order, blocks are nested as their scopes are in the tree, functions are in no
block and in no other function, and every return is in one function. -/
theorem stream_bracketed {source : String} {p : Program}
    (h : (Program.ofFeed (.ofSource source)).result = .ok p) : p.Bracketed := by
  obtain ⟨c, haccepted, -⟩ := accepted_of_ok h
  have hscopes := haccepted.scopes
  have hancestors : ∀ id, p.scopes.ancestors id = around c.draft.outlines id := fun id => by
    rw [hscopes, ScopeTree.ancestors_eq]
    rfl
  constructor
  case conditionals =>
    intro S hkind
    rw [hscopes] at hkind ⊢
    have hplaced := haccepted.placed_of_kind hkind (by decide) (by decide)
    rw [Placed, show (c.draft.outlines S).kind = _ from hkind] at hplaced
    obtain ⟨t, e, f, hplaced⟩ := hplaced
    exact ⟨t, e, f, hplaced.order.1, hplaced.order.2, hplaced.test, hplaced.els, hplaced.fin, hplaced.none⟩
  case alternatives =>
    intro E hkind
    rw [hscopes] at hkind ⊢
    have hplaced := haccepted.placed_of_kind hkind (by decide) (by decide)
    rw [Placed, show (c.draft.outlines E).kind = _ from hkind] at hplaced
    exact hplaced
  case loops =>
    intro S hkind
    rw [hscopes] at hkind
    have hplaced := haccepted.placed_of_kind hkind (by decide) (by decide)
    rw [Placed, show (c.draft.outlines S).kind = _ from hkind] at hplaced
    obtain ⟨b, t, f, hplaced⟩ := hplaced
    exact ⟨b, t, f, hplaced.order.1, hplaced.order.2, hplaced.label, hplaced.test, hplaced.fin⟩
  case functions =>
    intro H returns hkind hsymbol
    rw [hscopes] at hkind hsymbol
    obtain ⟨i, hi, hmarks⟩ := haccepted.begun hkind hsymbol
    obtain ⟨j, hj, hbecomes⟩ := haccepted.trims.becomes_of_mem hi (hmarks.kind_ne (by decide))
    have hmarks' := hbecomes.marks.2 hmarks
    obtain ⟨k, hk⟩ := List.getElem?_of_mem hj
    obtain ⟨-, b, f, hfunction⟩ := haccepted.function_of_bound hk (by rw [hmarks'.1]; rfl)
    rw [hmarks'.2] at hfunction
    exact ⟨b, f, hfunction.order, hfunction.entry, hfunction.fin⟩
  case owned =>
    intro i hi hbracket
    rw [hscopes]
    exact (haccepted.owned hi hbracket).kind
  case nested =>
    intro B B' lo hi lo' hi' hB hB' hne
    rw [hancestors, hancestors]
    exact haccepted.nested hB hB' hne
  case inside =>
    intro B lo hi hB
    obtain ⟨horder, hconfines⟩ := haccepted.confines hB
    refine ⟨horder, fun k i hplace hbracket hne => ?_⟩
    rw [hancestors]
    exact hconfines k i hplace hbracket hne
  case outermost => exact fun hB k i hplace hbound => haccepted.outermost hB hplace hbound
  case returns => exact fun k i hplace hkind => haccepted.returns hplace hkind

/-- A loop in the second block of a conditional stands between the `else` and the end. -/
theorem stream_bracketed_else : ∃ p, (Program.ofFeed (.ofSource
        "func f(_ n: Int) -> Int \x7b\n if n == 1 \x7b\n  return 1\n \x7d else \x7b\n  while n < 2 \x7b\n  \x7d\n \x7d\n return n\n\x7d\n")).result = .ok p ∧
      p.Bracketed ∧ ∃ e f b g, OnlyAt p.stream.code (·.Marks .elseMark 13) e ∧
        OnlyAt p.stream.code (·.Marks .endIf 13) f ∧ OnlyAt p.stream.code (·.Marks .whileLabel 15) b ∧
        OnlyAt p.stream.code (·.Marks .endWhile 15) g ∧ e < b ∧ g < f := by
  refine exists_ok_of_any (fun p => (p.scopes.scope 13).kind = .thenBranch ∧
      (p.scopes.scope 15).kind = .whileBody ∧ (p.scopes.scope 13).otherwise = some 14 ∧
      14 ∈ p.scopes.ancestors 15 ∧ 15 ∉ p.scopes.ancestors 14)
    (by decide +kernel) fun p hok ⟨hthen, hwhile, hother, hbelow, hnot⟩ => ?_
  have hbracketed := stream_bracketed hok
  obtain ⟨t, e, f, -, -, -, hels, hfin, -⟩ := hbracketed.conditionals 13 hthen
  obtain ⟨b, u, g, -, -, hlabel, -, hend⟩ := hbracketed.loops 15 hwhile
  refine ⟨hbracketed, e, f, b, g, hels, hfin, hlabel, hend, ?_⟩
  rcases hbracketed.nested (.alternative hother hels hfin) (.loop hwhile hlabel hend) (by decide) with
    ⟨hlo, hhi, -⟩ | ⟨-, -, habove⟩ | ⟨-, hout, -⟩
  · exact ⟨hlo, hhi⟩
  · exact absurd habove hnot
  · exact absurd hbelow hout

end OnePass
