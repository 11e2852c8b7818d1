import OnePass.Proofs.JumpGraph

/-!
# Surveys of flows

A survey of a piece of code says for every position whether something has been done on all paths to
it.  Surveys of blocks make up surveys of conditionals and loops, so what is known of all ways through
a flow is known of all paths through its code.

Main results:

* `Lays.survey` — **what a flow passes, all paths through its code pass**;
* `Lays.escape` — and there is a path without a return where it passes none.
-/

namespace OnePass

open List

/-! ### What happens on all paths -/

namespace Flow

/-- A deed is done on all ways through a flow. A loop may be left at once. -/
def passes (D : Deed) : Flow → Prop
  | straight deeds => D ∈ deeds
  | seq first second => first.passes D ∨ second.passes D
  | branch _ before body _ other => D ∈ before ∨ body.passes D ∧ other.passes D
  | loop _ before _ => D ∈ before

/-- A use comes after a deed on all ways through a flow, given whether the deed has been done before. -/
def Guarded (D use : Deed) : Prop → Flow → Prop
  | known, straight deeds => use ∈ deeds → known
  | known, seq first second =>
      first.Guarded D use known ∧ second.Guarded D use (known ∨ first.passes D)
  | known, branch _ before body _ other =>
      (use ∈ before → known) ∧ body.Guarded D use (known ∨ D ∈ before) ∧
        other.Guarded D use (known ∨ D ∈ before)
  | known, loop _ before body => (use ∈ before → known) ∧ body.Guarded D use (known ∨ D ∈ before)

end Flow

/-- The deed at a position. -/
def deedAt (code : List Instruction) (p : Nat) : Option Deed := code[p]?.bind Instruction.deed?

/-- A deed has been done before, or at a position between two bounds. -/
def Told (code : List Instruction) (D : Deed) (known : Prop) (a p : Nat) : Prop :=
  known ∨ ∃ r, a ≤ r ∧ r < p ∧ deedAt code r = some D

/-- A survey of a piece of code says for every position whether a deed has been done on all paths to
it. What is known at the end of an edge is known at its beginning, or it has just been done. -/
structure Surveys (code : List Instruction) (D : Deed) (T : Flow) (known : Prop) (a b : Nat)
    (sure : Nat → Prop) : Prop where
  enter : sure a → known
  leave : known ∨ T.passes D → sure b
  step : ∀ {p q : Nat}, a ≤ p → p < b → Steps code p q →
    a ≤ q ∧ q ≤ b ∧ (sure q → sure p ∨ deedAt code p = some D)
  guard : ∀ {use : Deed}, T.Guarded D use known → ∀ {p : Nat}, a ≤ p → p < b →
    deedAt code p = some use → sure p

section survey

variable {code A l B : List Instruction} {D : Deed} {known : Prop}

theorem Told.enter {a : Nat} (h : Told code D known a a) : known := by
  rcases h with h | ⟨r, hle, hlt, -⟩
  · exact h
  · exact absurd hle (Nat.not_le.2 hlt)

theorem Told.back {a p : Nat} (h : Told code D known a (p + 1)) :
    Told code D known a p ∨ deedAt code p = some D := by
  rcases h with h | ⟨r, hle, hlt, hr⟩
  · exact .inl (.inl h)
  · rcases Nat.lt_or_eq_of_le (Nat.le_of_lt_succ hlt) with hlt | rfl
    · exact .inl (.inr ⟨r, hle, hlt, hr⟩)
    · exact .inr hr

theorem deedAt_piece (hcode : code = A ++ l ++ B) {p : Nat} (hp : A.length ≤ p)
    (hp' : p < A.length + l.length) {deed : Deed} (h : deedAt code p = some deed) :
    deed ∈ deeds l := by
  obtain ⟨i, hmem, hi⟩ := exists_piece hcode hp hp'
  rw [deedAt, hi] at h
  exact mem_filterMap.2 ⟨i, hmem, h⟩

theorem deedAt_mark {kind : InstructionKind} {scope p : Nat} {i : Instruction}
    (hi : code[p]? = some i) (hmarks : i.Marks kind scope)
    (hkind : kind = .elseMark ∨ kind = .endIf ∨ kind = .endWhile) : deedAt code p = none := by
  rw [deedAt, hi]
  show i.deed? = none
  rcases hkind with rfl | rfl | rfl <;> rw [Instruction.deed?, hmarks.1]

theorem told_of_mem (hcode : code = A ++ l ++ B) (h : known ∨ D ∈ deeds l) :
    Told code D known A.length (A.length + l.length) := by
  refine h.imp_right fun hmem => ?_
  obtain ⟨i, hi, hdeed⟩ := mem_filterMap.1 hmem
  obtain ⟨k, hk, rfl⟩ := mem_iff_getElem.1 hi
  refine ⟨A.length + k, Nat.le_add_right _ _, Nat.add_lt_add_left hk _, ?_⟩
  rw [deedAt, getElem?_piece hcode hk, List.getElem?_eq_getElem hk]
  exact hdeed

theorem Surveys.straight (hcode : code = A ++ l ++ B) (hl : Straight l) :
    Surveys code D (.straight (deeds l)) known A.length (A.length + l.length)
      (Told code D known A.length) where
  enter := Told.enter
  leave := told_of_mem hcode
  step hp hp' hstep := by
    rw [hstep.of_straight hcode hl hp hp']
    exact ⟨Nat.le_succ_of_le hp, hp', Told.back⟩
  guard hguarded _ hp hp' huse := .inl (hguarded (deedAt_piece hcode hp hp' huse))

theorem Surveys.seq {T U : Flow} {a m b : Nat} {first second : Nat → Prop}
    (h : Surveys code D T known a m first) (h' : Surveys code D U (known ∨ T.passes D) m b second)
    (ham : a ≤ m) (hmb : m ≤ b) :
    Surveys code D (.seq T U) known a b fun p => p < m ∧ first p ∨ m ≤ p ∧ second p where
  enter := by
    rintro (⟨-, hfirst⟩ | ⟨hle, hsecond⟩)
    · exact h.enter hfirst
    · obtain rfl : a = m := Nat.le_antisymm ham hle
      rcases h'.enter hsecond with hknown | hpasses
      · exact hknown
      · exact h.enter (h.leave (.inr hpasses))
  leave hor := .inr ⟨hmb, h'.leave (or_assoc.2 hor)⟩
  step := by
    intro p q hp hp' hstep
    by_cases hlt : p < m
    · obtain ⟨hq, hq', hback⟩ := h.step hp hlt hstep
      refine ⟨hq, Nat.le_trans hq' hmb, ?_⟩
      rintro (⟨-, hfirst⟩ | ⟨hle, hsecond⟩)
      · exact (hback hfirst).imp_left fun hfirst => .inl ⟨hlt, hfirst⟩
      · obtain rfl : q = m := Nat.le_antisymm hq' hle
        exact (hback (h.leave (h'.enter hsecond))).imp_left fun hfirst => .inl ⟨hlt, hfirst⟩
    · have hle : m ≤ p := Nat.le_of_not_lt hlt
      obtain ⟨hq, hq', hback⟩ := h'.step hle hp' hstep
      refine ⟨Nat.le_trans ham hq, hq', ?_⟩
      rintro (⟨hlt', -⟩ | ⟨-, hsecond⟩)
      · exact absurd hq (Nat.not_le.2 hlt')
      · exact (hback hsecond).imp_left fun hsecond => .inr ⟨hle, hsecond⟩
  guard := by
    rintro use ⟨hguarded, hguarded'⟩ p hp hp' huse
    by_cases hlt : p < m
    · exact .inl ⟨hlt, h.guard hguarded hp hlt huse⟩
    · have hle : m ≤ p := Nat.le_of_not_lt hlt
      exact .inr ⟨hle, h'.guard hguarded' hle hp' huse⟩

theorem told_test {head : List Instruction} {test : Instruction}
    (hcode : code = A ++ head ++ test :: B) (h : known ∨ D ∈ deeds (head ++ [test])) :
    Told code D known A.length (A.length + head.length) ∨
      deedAt code (A.length + head.length) = some D := by
  have hpiece : code = A ++ (head ++ [test]) ++ B := by simp [hcode]
  have htold := told_of_mem hpiece h
  rw [length_append, ← Nat.add_assoc] at htold
  exact htold.back

theorem Surveys.branch {S t e f : Nat} {head m : List Instruction} {test els fin : Instruction}
    {T U : Flow} {otherwise : Option Nat} {body other : Nat → Prop}
    (hcode : code = A ++ (head ++ test :: l ++ els :: m ++ [fin]) ++ B) (honce : MarksOnce code)
    (hhead : Straight head) (htest : test.Tests S) (hels : els.Marks .elseMark S)
    (hfin : fin.Marks .endIf S) (ht : t = A.length + head.length) (he : e = t + 1 + l.length)
    (hf : f = e + 1 + m.length)
    (hbody : Surveys code D T (known ∨ D ∈ deeds (head ++ [test])) (t + 1) e body)
    (hother : Surveys code D U (known ∨ D ∈ deeds (head ++ [test])) (e + 1) f other) :
    Surveys code D (.branch S (deeds (head ++ [test])) T otherwise U) known A.length (f + 1)
      fun p => p ≤ t ∧ Told code D known A.length p ∨ (t < p ∧ p ≤ e) ∧ body p ∨
        (e < p ∧ p < f) ∧ other p ∨ f ≤ p ∧ body e ∧ other f := by
  have hpiece : code = A ++ head ++ test :: (l ++ els :: m ++ [fin] ++ B) := by simp [hcode]
  have hback := @told_test code A _ D known head test hpiece
  rw [← ht] at hback
  refine ⟨?_, ?_, ?_, ?_⟩
  · rintro (⟨-, htold⟩ | ⟨h, -⟩ | ⟨h, -⟩ | ⟨h, -⟩)
    · exact htold.enter
    all_goals omega
  · rintro (hknown | hmem | ⟨hT, hU⟩)
    · exact .inr (.inr (.inr ⟨Nat.le_succ _, hbody.leave (.inl (.inl hknown)),
        hother.leave (.inl (.inl hknown))⟩))
    · exact .inr (.inr (.inr ⟨Nat.le_succ _, hbody.leave (.inl (.inr hmem)),
        hother.leave (.inl (.inr hmem))⟩))
    · exact .inr (.inr (.inr ⟨Nat.le_succ _, hbody.leave (.inr hT), hother.leave (.inr hU)⟩))
  · intro p q hp hp' hstep
    rcases hstep.of_branch hcode honce hhead htest hels hfin ht he hf hp (Nat.le_of_lt_succ hp') with
      ⟨hlt, rfl⟩ | ⟨rfl, rfl | rfl⟩ | ⟨hgt, hlt⟩ | ⟨rfl, rfl⟩ | ⟨hgt, hlt⟩ | ⟨rfl, rfl⟩
    · -- up to the condition
      refine ⟨by omega, by omega, ?_⟩
      rintro (⟨-, htold⟩ | ⟨h, -⟩ | ⟨h, -⟩ | ⟨h, -⟩)
      · exact htold.back.imp_left fun htold => .inl ⟨by omega, htold⟩
      all_goals omega
    · -- into the first block
      refine ⟨by omega, by omega, ?_⟩
      rintro (⟨h, -⟩ | ⟨-, hsure⟩ | ⟨h, -⟩ | ⟨h, -⟩)
      · omega
      · exact (hback (hbody.enter hsure)).imp_left fun htold => .inl ⟨by omega, htold⟩
      all_goals omega
    · -- into the second block, which may be empty
      refine ⟨by omega, by omega, ?_⟩
      rintro (⟨h, -⟩ | ⟨h, -⟩ | ⟨-, hsure⟩ | ⟨h, -, hsure⟩)
      · omega
      · omega
      · exact (hback (hother.enter hsure)).imp_left fun htold => .inl ⟨by omega, htold⟩
      · obtain rfl : f = e + 1 := by omega
        exact (hback (hother.enter hsure)).imp_left fun htold => .inl ⟨by omega, htold⟩
    · -- in the first block
      obtain ⟨hq, hq', hinside⟩ := hbody.step hgt hlt hstep
      refine ⟨by omega, by omega, ?_⟩
      rintro (⟨h, -⟩ | ⟨-, hsure⟩ | ⟨h, -⟩ | ⟨h, -⟩)
      · omega
      · exact (hinside hsure).imp_left fun hsure => .inr (.inl ⟨by omega, hsure⟩)
      all_goals omega
    · -- from the first block to the end
      refine ⟨by omega, by omega, ?_⟩
      rintro (⟨h, -⟩ | ⟨h, -⟩ | ⟨h, -⟩ | ⟨-, hsure, -⟩)
      · omega
      · omega
      · omega
      · exact .inl (.inr (.inl ⟨by omega, hsure⟩))
    · -- in the second block
      obtain ⟨hq, hq', hinside⟩ := hother.step hgt hlt hstep
      refine ⟨by omega, by omega, ?_⟩
      rintro (⟨h, -⟩ | ⟨h, -⟩ | ⟨-, hsure⟩ | ⟨h, -, hsure⟩)
      · omega
      · omega
      · exact (hinside hsure).imp_left fun hsure => .inr (.inr (.inl ⟨by omega, hsure⟩))
      · obtain rfl : q = f := by omega
        exact (hinside hsure).imp_left fun hsure => .inr (.inr (.inl ⟨by omega, hsure⟩))
    · -- behind the end
      refine ⟨by omega, by omega, ?_⟩
      rintro (⟨h, -⟩ | ⟨h, -⟩ | ⟨h, -⟩ | ⟨-, hsure⟩)
      · omega
      · omega
      · omega
      · exact .inl (.inr (.inr (.inr ⟨Nat.le_refl _, hsure⟩)))
  · rintro use ⟨hbefore, hguarded, hguarded'⟩ p hp hp' huse
    obtain ⟨-, hels', hfin'⟩ := getElem?_branch hcode
    rw [← ht, ← he] at hels' hfin'
    rw [← hf] at hfin'
    rcases Nat.lt_or_ge t p with hgt | hle
    · rcases Nat.lt_trichotomy p e with hlt | rfl | hgt'
      · exact .inr (.inl ⟨by omega, hbody.guard hguarded hgt hlt huse⟩)
      · rw [deedAt_mark hels' hels (.inl rfl)] at huse
        cases huse
      · rcases Nat.lt_or_eq_of_le (Nat.le_of_lt_succ hp') with hlt | rfl
        · exact .inr (.inr (.inl ⟨by omega, hother.guard hguarded' hgt' hlt huse⟩))
        · rw [deedAt_mark hfin' hfin (.inr (.inl rfl))] at huse
          cases huse
    · have hpiece' : code = A ++ (head ++ [test]) ++ (l ++ els :: m ++ [fin] ++ B) := by simp [hcode]
      have hlength : (head ++ [test]).length = head.length + 1 := by simp
      exact .inl ⟨hle, .inl (hbefore (deedAt_piece hpiece' hp (by omega) huse))⟩

theorem Surveys.loop {S t f : Nat} {head : List Instruction} {label test fin : Instruction}
    {T : Flow} {body : Nat → Prop}
    (hcode : code = A ++ (label :: head ++ test :: l ++ [fin]) ++ B) (honce : MarksOnce code)
    (hlabel : label.Marks .whileLabel S) (hhead : Straight head)
    (htest : test.Marks .whileCondition S) (hfin : fin.Marks .endWhile S)
    (ht : t = A.length + 1 + head.length) (hf : f = t + 1 + l.length)
    (hbody : Surveys code D T (known ∨ D ∈ deeds (head ++ [test])) (t + 1) f body) :
    Surveys code D (.loop S (deeds (head ++ [test])) T) known A.length (f + 1)
      fun p => p ≤ t ∧ Told code D known A.length p ∨ (t < p ∧ p ≤ f) ∧ body p ∨
        f < p ∧ (known ∨ D ∈ deeds (head ++ [test])) := by
  have hpiece : code = A ++ (label :: head) ++ test :: (l ++ [fin] ++ B) := by simp [hcode]
  have hdeeds : deeds (label :: head ++ [test]) = deeds (head ++ [test]) :=
    filterMap_cons_none (by rw [Instruction.deed?, hlabel.1])
  have hback := @told_test code A _ D known (label :: head) test hpiece
  rw [hdeeds, show A.length + (label :: head).length = t by rw [ht, length_cons]; omega] at hback
  refine ⟨?_, ?_, ?_, ?_⟩
  · rintro (⟨-, htold⟩ | ⟨h, -⟩ | ⟨h, -⟩)
    · exact htold.enter
    all_goals omega
  · exact fun hpasses => .inr (.inr ⟨Nat.lt_succ_self _, hpasses⟩)
  · intro p q hp hp' hstep
    rcases hstep.of_loop hcode honce hlabel hhead htest hfin ht hf hp (Nat.le_of_lt_succ hp') with
      ⟨hlt, rfl⟩ | ⟨rfl, rfl | rfl⟩ | ⟨hgt, hlt⟩ | ⟨rfl, rfl⟩
    · -- up to the condition
      refine ⟨by omega, by omega, ?_⟩
      rintro (⟨-, htold⟩ | ⟨h, -⟩ | ⟨h, -⟩)
      · exact htold.back.imp_left fun htold => .inl ⟨by omega, htold⟩
      all_goals omega
    · -- into the block
      refine ⟨by omega, by omega, ?_⟩
      rintro (⟨h, -⟩ | ⟨-, hsure⟩ | ⟨h, -⟩)
      · omega
      · exact (hback (hbody.enter hsure)).imp_left fun htold => .inl ⟨by omega, htold⟩
      · omega
    · -- out of the loop
      refine ⟨by omega, by omega, ?_⟩
      rintro (⟨h, -⟩ | ⟨h, -⟩ | ⟨-, hsure⟩)
      · omega
      · omega
      · exact (hback hsure).imp_left fun htold => .inl ⟨by omega, htold⟩
    · -- in the block
      obtain ⟨hq, hq', hinside⟩ := hbody.step hgt hlt hstep
      refine ⟨by omega, by omega, ?_⟩
      rintro (⟨h, -⟩ | ⟨-, hsure⟩ | ⟨h, -⟩)
      · omega
      · exact (hinside hsure).imp_left fun hsure => .inr (.inl ⟨by omega, hsure⟩)
      · omega
    · -- back to the label: what is known there was known before the loop
      refine ⟨by omega, by omega, ?_⟩
      rintro (⟨-, htold⟩ | ⟨h, -⟩ | ⟨h, -⟩)
      · exact .inl (.inr (.inl ⟨by omega, hbody.leave (.inl (.inl htold.enter))⟩))
      all_goals omega
  · rintro use ⟨hbefore, hguarded⟩ p hp hp' huse
    obtain ⟨-, -, hfin'⟩ := getElem?_loop hcode
    rw [← ht, ← hf] at hfin'
    rcases Nat.lt_or_ge t p with hgt | hle
    · rcases Nat.lt_or_eq_of_le (Nat.le_of_lt_succ hp') with hlt | rfl
      · exact .inr (.inl ⟨by omega, hbody.guard hguarded hgt hlt huse⟩)
      · rw [deedAt_mark hfin' hfin (.inr (.inr rfl))] at huse
        cases huse
    · have hpiece' : code = A ++ (label :: head ++ [test]) ++ (l ++ [fin] ++ B) := by simp [hcode]
      have hlength : (label :: head ++ [test]).length = head.length + 2 := by simp
      have hmem := deedAt_piece hpiece' hp (by omega) huse
      rw [hdeeds] at hmem
      exact .inl ⟨hle, .inl (hbefore hmem)⟩

theorem Lays.survey {T : Flow} {a b : Nat} (h : Lays T l) (honce : MarksOnce code)
    (hcode : code = A ++ l ++ B) (ha : a = A.length) (hb : b = a + l.length) :
    ∃ sure, Surveys code D T known a b sure := by
  induction h generalizing A B known a b with
  | straight hstraight =>
    subst ha hb
    exact ⟨_, .straight hcode hstraight⟩
  | @seq T U l m _ _ ih ih' =>
    have hfirst : code = A ++ l ++ (m ++ B) := by simp [hcode]
    have hsecond : code = (A ++ l) ++ m ++ B := by simp [hcode]
    rw [length_append] at hb
    obtain ⟨first, hT⟩ := @ih A (m ++ B) known a (a + l.length) hfirst ha rfl
    obtain ⟨second, hU⟩ := @ih' (A ++ l) B (known ∨ T.passes D) (a + l.length) b hsecond
      (by rw [length_append]; omega) (by omega)
    exact ⟨_, hT.seq hU (Nat.le_add_right _ _) (by omega)⟩
  | @branch S head test els fin T U l m otherwise hhead htest _ hels _ hfin ih ih' =>
    have hfirst : code = (A ++ head ++ [test]) ++ l ++ (els :: m ++ [fin] ++ B) := by simp [hcode]
    have hsecond : code = (A ++ head ++ test :: l ++ [els]) ++ m ++ (fin :: B) := by simp [hcode]
    simp only [length_append, length_cons, length_nil] at hb
    obtain ⟨t, ht⟩ : ∃ t, t = A.length + head.length := ⟨_, rfl⟩
    obtain ⟨e, he⟩ : ∃ e, e = t + 1 + l.length := ⟨_, rfl⟩
    obtain ⟨f, hf⟩ : ∃ f, f = e + 1 + m.length := ⟨_, rfl⟩
    obtain ⟨body, hT⟩ := @ih _ _ (known ∨ D ∈ deeds (head ++ [test])) (t + 1) e hfirst
      (by simp only [length_append, length_cons, length_nil]; omega) he
    obtain ⟨other, hU⟩ := @ih' _ _ (known ∨ D ∈ deeds (head ++ [test])) (e + 1) f hsecond
      (by simp only [length_append, length_cons, length_nil]; omega) hf
    obtain rfl : b = f + 1 := by omega
    subst ha
    exact ⟨_, .branch hcode honce hhead htest hels hfin ht he hf hT hU⟩
  | @loop S head label test fin T l hlabel hhead htest _ hfin ih =>
    have hbody : code = (A ++ label :: head ++ [test]) ++ l ++ (fin :: B) := by simp [hcode]
    simp only [length_append, length_cons, length_nil] at hb
    obtain ⟨t, ht⟩ : ∃ t, t = A.length + 1 + head.length := ⟨_, rfl⟩
    obtain ⟨f, hf⟩ : ∃ f, f = t + 1 + l.length := ⟨_, rfl⟩
    obtain ⟨body, hT⟩ := @ih _ _ (known ∨ D ∈ deeds (head ++ [test])) (t + 1) f hbody
      (by simp only [length_append, length_cons, length_nil]; omega) hf
    obtain rfl : b = f + 1 := by omega
    subst ha
    exact ⟨_, .loop hcode honce hlabel hhead htest hfin ht hf hT⟩

theorem Surveys.avoids {T : Flow} {b q : Nat} {sure : Nat → Prop}
    (h : Surveys code D T known 0 b sure) (hend : ∀ next, ¬ Steps code b next)
    (hpath : Avoids code (fun i => i.deed? = some D) 0 q) : q ≤ b ∧ (sure q → known) := by
  induction hpath with
  | refl => exact ⟨Nat.zero_le _, h.enter⟩
  | @tail p q _ hedge ih =>
    obtain ⟨hstep, havoids⟩ := hedge
    obtain ⟨hle, hknown⟩ := ih
    have hlt : p < b := Nat.lt_of_le_of_ne hle fun heq => hend q (heq ▸ hstep)
    obtain ⟨-, hq, hback⟩ := h.step (Nat.zero_le _) hlt hstep
    refine ⟨hq, fun hsure => ?_⟩
    rcases hback hsure with hsure | hdeed
    · exact hknown hsure
    · obtain ⟨i, hi, hdeed⟩ := Option.bind_eq_some_iff.1 hdeed
      exact absurd hdeed (havoids i hi)

end survey

theorem Lays.guarded {T : Flow} {code : List Instruction} (h : Lays T code)
    (honce : MarksOnce code) {D use : Deed} (hguarded : T.Guarded D use False) {p : Nat}
    (huse : deedAt code p = some use) : ¬ Avoids code (fun i => i.deed? = some D) 0 p := by
  intro hpath
  have hcode : code = [] ++ code ++ [] := by simp
  obtain ⟨sure, hsurvey⟩ :=
    @survey code [] code [] D False T 0 code.length h honce hcode rfl (Nat.zero_add _).symm
  have hlt : p < code.length := by
    by_contra hge
    rw [deedAt, List.getElem?_eq_none (Nat.le_of_not_lt hge)] at huse
    cases huse
  have hend : ∀ next, ¬ Steps code code.length next :=
    fun next hstep => Nat.lt_irrefl _ hstep.lt_length
  exact (hsurvey.avoids hend hpath).2 (hsurvey.guard hguarded (Nat.zero_le _) hlt huse)

/-! ### Paths without a return -/

/-- An instruction that returns. -/
def Instruction.Returns (i : Instruction) : Prop := i.kind = .returnValue

section escape

variable {code A l B : List Instruction}

theorem Steps.avoids {p q : Nat} {i : Instruction} (h : Steps code p q) (hi : code[p]? = some i)
    (hkind : i.kind ≠ .returnValue) : Avoids code Instruction.Returns p q := by
  refine .single ⟨h, fun j hj => ?_⟩
  cases hi.symm.trans hj
  exact hkind

theorem avoids_next {p : Nat} {i : Instruction} (hi : code[p]? = some i)
    (hkind : i.kind ≠ .elseMark ∧ i.kind ≠ .endWhile ∧ i.kind ≠ .returnValue ∧
      i.kind ≠ .functionEnd) : Avoids code Instruction.Returns p (p + 1) := by
  obtain ⟨helse, hwhile, hreturn, hend⟩ := hkind
  refine Steps.avoids ?_ hi hreturn
  rw [Steps, successors, hi]
  cases hcase : i.kind <;> simp_all

theorem avoids_skip {p e scope : Nat} {test mark : Instruction} (htest : code[p]? = some test)
    (hmark : code[e]? = some mark)
    (hkinds : test.Tests scope ∧ mark.Marks .elseMark scope ∨
      test.Marks .whileCondition scope ∧ mark.Marks .endWhile scope) :
    Avoids code Instruction.Returns p (e + 1) := by
  rcases hkinds with ⟨⟨hkind, rfl⟩ | ⟨hkind, rfl⟩, hmarks⟩ | ⟨⟨hkind, rfl⟩, hmarks⟩
  all_goals
    refine Steps.avoids ?_ htest (by rw [hkind]; decide)
    rw [Steps, successors, htest]
    simp only [hkind, mem_cons, mem_map]
    exact .inr ⟨e, mem_positions.2 ⟨mark, hmark, hmarks⟩, rfl⟩

theorem avoids_other {e f scope : Nat} {els fin : Instruction} (hels : code[e]? = some els)
    (hfin : code[f]? = some fin) (hels' : els.Marks .elseMark scope)
    (hfin' : fin.Marks .endIf scope) : Avoids code Instruction.Returns e f := by
  refine Steps.avoids ?_ hels (by rw [hels'.1]; decide)
  rw [Steps, successors, hels]
  simp only [hels'.1, hels'.2]
  exact mem_positions.2 ⟨fin, hfin, hfin'⟩

theorem avoids_straight (hcode : code = A ++ l ++ B) (hl : Straight l) (hend : ∀ i ∈ l, i.kind ≠ .functionEnd)
    (hdeeds : .giveBack ∉ deeds l) :
    Avoids code Instruction.Returns A.length (A.length + l.length) := by
  have hwalk : ∀ n ≤ l.length, Avoids code Instruction.Returns A.length (A.length + n) := by
    intro n
    induction n with
    | zero => exact fun _ => .refl
    | succ n ih =>
      intro hlt
      have hi := (getElem?_piece hcode hlt).trans (List.getElem?_eq_getElem hlt)
      have hmem : l[n] ∈ l := getElem_mem hlt
      refine (ih (Nat.le_of_succ_le hlt)).trans (avoids_next hi ⟨?_, ?_, ?_, ?_⟩) <;> intro hkind
      · have hmark := hl _ hmem
        rw [hkind] at hmark
        cases hmark
      · have hmark := hl _ hmem
        rw [hkind] at hmark
        cases hmark
      · exact hdeeds (mem_filterMap.2 ⟨_, hmem, by rw [Instruction.deed?, hkind]⟩)
      · exact hend _ hmem hkind
  exact hwalk _ (Nat.le_refl _)

theorem Lays.escape {T : Flow} {a b : Nat} (h : Lays T l) (hend : ∀ i ∈ l, i.kind ≠ .functionEnd)
    (hT : ¬ T.passes .giveBack) (hcode : code = A ++ l ++ B) (ha : a = A.length)
    (hb : b = a + l.length) : Avoids code Instruction.Returns a b := by
  induction h generalizing A B a b with
  | straight hstraight =>
    subst ha hb
    exact avoids_straight hcode hstraight hend hT
  | @seq T U l m _ _ ih ih' =>
    obtain ⟨hend₁, hend₂⟩ := forall_mem_append.1 hend
    obtain ⟨hT, hU⟩ := not_or.1 hT
    have hfirst : code = A ++ l ++ (m ++ B) := by simp [hcode]
    have hsecond : code = (A ++ l) ++ m ++ B := by simp [hcode]
    rw [length_append] at hb
    have hmiddle : a + l.length = (A ++ l).length := by rw [length_append, ha]
    exact (ih hend₁ hT hfirst ha rfl).trans (ih' hend₂ hU hsecond hmiddle (by omega))
  | @branch S head test els fin T U l m otherwise hhead htest _ hels _ hfin ih ih' =>
    obtain ⟨hbefore, hblocks⟩ := not_or.1 hT
    obtain ⟨htest', hels', hfin'⟩ := getElem?_branch hcode
    obtain ⟨t, ht⟩ : ∃ t, t = A.length + head.length := ⟨_, rfl⟩
    obtain ⟨e, he⟩ : ∃ e, e = t + 1 + l.length := ⟨_, rfl⟩
    obtain ⟨f, hf⟩ : ∃ f, f = e + 1 + m.length := ⟨_, rfl⟩
    rw [← ht] at htest' hels' hfin'
    rw [← he] at hels' hfin'
    rw [← hf] at hfin'
    simp only [length_append, length_cons, length_nil] at hb
    have hpiece : code = A ++ head ++ (test :: l ++ els :: m ++ [fin] ++ B) := by simp [hcode]
    have hfirst : code = (A ++ head ++ [test]) ++ l ++ (els :: m ++ [fin] ++ B) := by simp [hcode]
    have hsecond : code = (A ++ head ++ test :: l ++ [els]) ++ m ++ (fin :: B) := by simp [hcode]
    -- up to the condition, and from the end on
    have hstart : Avoids code Instruction.Returns a t := by
      rw [ha, ht]
      refine avoids_straight hpiece hhead (fun i hi => hend i (by simp [hi])) fun hmem => ?_
      exact hbefore (by rw [deeds_append]; exact mem_append_left _ hmem)
    have hlast : Avoids code Instruction.Returns f b := by
      obtain rfl : b = f + 1 := by omega
      exact avoids_next hfin' (by rw [hfin.1]; decide)
    by_cases hbody : T.passes .giveBack
    · have hother : ¬ U.passes .giveBack := fun hother => hblocks ⟨hbody, hother⟩
      have hskip : Avoids code Instruction.Returns t (e + 1) :=
        avoids_skip htest' hels' (.inl ⟨htest, hels⟩)
      refine (hstart.trans hskip).trans (.trans ?_ hlast)
      refine ih' (fun i hi => hend i (by simp [hi])) hother hsecond ?_ hf
      simp only [length_append, length_cons, length_nil]
      omega
    · have hnext : Avoids code Instruction.Returns t (t + 1) := by
        refine avoids_next htest' ?_
        rcases htest with htest | htest <;> rw [htest.1] <;> decide
      have hover : Avoids code Instruction.Returns e f := avoids_other hels' hfin' hels hfin
      refine (hstart.trans hnext).trans (.trans ?_ (hover.trans hlast))
      refine ih (fun i hi => hend i (by simp [hi])) hbody hfirst ?_ he
      simp only [length_append, length_cons, length_nil]
      omega
  | @loop S head label test fin T l hlabel hhead htest _ hfin ih =>
    obtain ⟨hlabel', htest', hfin'⟩ := getElem?_loop hcode
    have hpiece : code = (A ++ [label]) ++ head ++ (test :: l ++ [fin] ++ B) := by simp [hcode]
    have hlength : (A ++ [label]).length = a + 1 := by rw [ha, length_append]; rfl
    simp only [length_append, length_cons, length_nil] at hb
    -- the loop is left at once
    have hstart : Avoids code Instruction.Returns a (a + 1) :=
      avoids_next (ha ▸ hlabel') (by rw [hlabel.1]; decide)
    have hhead' : Avoids code Instruction.Returns (a + 1) (a + 1 + head.length) := by
      rw [← hlength]
      refine avoids_straight hpiece hhead (fun i hi => hend i (by simp [hi])) fun hmem => ?_
      exact hT (show _ ∈ deeds _ by rw [deeds_append]; exact mem_append_left _ hmem)
    have hskip : Avoids code Instruction.Returns (a + 1 + head.length) b := by
      obtain rfl : b = A.length + 1 + head.length + 1 + l.length + 1 := by omega
      rw [ha]
      exact avoids_skip htest' hfin' (.inr ⟨htest, hfin⟩)
    exact hstart.trans (hhead'.trans hskip)

end escape

end OnePass
