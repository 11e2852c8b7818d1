import OnePass.Instruction
import Mathlib.Data.List.Basic

/-!
# Flows

The instructions of a body are nested: conditionals and loops have a condition, blocks and marks.  A
flow is this nesting, with straight pieces of code reduced to their deeds: which variables they
define and use, and where they return.

Main results:

* `Lays.trim` — **trimmed code has the same flow**.
-/

namespace OnePass

open List

/-! ### Deeds -/

/-- What an instruction does to a variable, and the return from a function. -/
inductive Deed where
  | define (target : String)
  | use (target : String)
  | giveBack
deriving DecidableEq

/-- The deed of an instruction, if it has one. -/
def Instruction.deed? (instruction : Instruction) : Option Deed :=
  match instruction.kind with
  | .defineVariable | .paramPop => instruction.name?.map .define
  | .pushVariable | .popVariable | .ifLetCondition => instruction.name?.map .use
  | .returnValue => some .giveBack
  | _ => none

/-- The deeds of instructions. -/
def deeds (code : List Instruction) : List Deed := code.filterMap Instruction.deed?

@[simp] theorem deeds_append (first second : List Instruction) :
    deeds (first ++ second) = deeds first ++ deeds second := filterMap_append

/-- Whether an instruction takes part in a conditional or a loop. -/
def InstructionKind.isMark : InstructionKind → Bool
  | ifCondition | ifLetCondition | elseMark | endIf | whileLabel | whileCondition | endWhile => true
  | _ => false

/-- An instruction of a kind that belongs to a scope. -/
def Instruction.Marks (kind : InstructionKind) (scope : Nat) (instruction : Instruction) : Prop :=
  instruction.kind = kind ∧ instruction.scope = scope

instance (kind : InstructionKind) (scope : Nat) (instruction : Instruction) :
    Decidable (instruction.Marks kind scope) := inferInstanceAs (Decidable (_ ∧ _))

/-- The condition of a conditional. -/
def Instruction.Tests (scope : Nat) (instruction : Instruction) : Prop :=
  instruction.Marks .ifCondition scope ∨ instruction.Marks .ifLetCondition scope

/-- Code without conditionals and loops. -/
def Straight (code : List Instruction) : Prop := ∀ i ∈ code, i.kind.isMark = false

/-! ### Flows -/

/-- Nested blocks. A conditional has deeds up to and with its condition, a first block and maybe a
second one with a scope of its own; a loop has deeds up to and with its condition, and a block. -/
inductive Flow where
  | straight (deeds : List Deed)
  | seq (first second : Flow)
  | branch (scope : Nat) (before : List Deed) (body : Flow) (otherwise : Option Nat) (other : Flow)
  | loop (scope : Nat) (before : List Deed) (body : Flow)

/-- A list of instructions lays out a flow. -/
inductive Lays : Flow → List Instruction → Prop where
  | straight {code : List Instruction} (hcode : Straight code) : Lays (.straight (deeds code)) code
  | seq {T U : Flow} {l m : List Instruction} (hfirst : Lays T l) (hsecond : Lays U m) :
      Lays (.seq T U) (l ++ m)
  | branch {S : Nat} {head : List Instruction} {test els fin : Instruction} {T U : Flow}
      {l m : List Instruction} {otherwise : Option Nat} (hhead : Straight head)
      (htest : test.Tests S) (hbody : Lays T l) (hels : els.Marks .elseMark S) (hother : Lays U m)
      (hfin : fin.Marks .endIf S) :
      Lays (.branch S (deeds (head ++ [test])) T otherwise U) (head ++ test :: l ++ els :: m ++ [fin])
  | loop {S : Nat} {head : List Instruction} {label test fin : Instruction} {T : Flow}
      {l : List Instruction} (hlabel : label.Marks .whileLabel S) (hhead : Straight head)
      (htest : test.Marks .whileCondition S) (hbody : Lays T l) (hfin : fin.Marks .endWhile S) :
      Lays (.loop S (deeds (head ++ [test])) T) (label :: head ++ test :: l ++ [fin])

/-! ### Trimming -/

/-- An instruction stays as it is but for its literal, which may have become a double. -/
def Instruction.Becomes (i j : Instruction) : Prop := j = i ∨ j = i.toDouble

namespace Instruction

theorem toDouble_eq (i : Instruction) : ∃ payload, i.toDouble = { i with payload } ∧
    i.toDouble.name? = i.name? := by
  unfold toDouble
  split
  · rename_i value hpayload
    exact ⟨_, rfl, by simp [name?, hpayload]⟩
  · exact ⟨i.payload, rfl, rfl⟩

theorem toDouble_toDouble (i : Instruction) : i.toDouble.toDouble = i.toDouble := by
  rcases i with ⟨kind, scope, frame, counter, _ | (_ | _ | _ | _ | _)⟩ <;> rfl

variable {i j k : Instruction}

theorem Becomes.trans (h : i.Becomes j) (h' : j.Becomes k) : i.Becomes k := by
  rcases h with rfl | rfl <;> rcases h' with rfl | rfl
  · exact .inl rfl
  · exact .inr rfl
  · exact .inr rfl
  · exact .inr i.toDouble_toDouble

theorem Becomes.fields (h : i.Becomes j) : j.kind = i.kind ∧ j.scope = i.scope ∧
    j.frame = i.frame ∧ j.counter = i.counter ∧ j.name? = i.name? := by
  rcases h with rfl | rfl
  · exact ⟨rfl, rfl, rfl, rfl, rfl⟩
  · obtain ⟨payload, heq, hname⟩ := i.toDouble_eq
    exact ⟨by rw [heq], by rw [heq], by rw [heq], by rw [heq], hname⟩

theorem Becomes.deed? (h : i.Becomes j) : j.deed? = i.deed? := by
  obtain ⟨hkind, -, -, -, hname⟩ := h.fields
  rw [Instruction.deed?, Instruction.deed?, hkind, hname]

theorem Becomes.marks (h : i.Becomes j) {kind : InstructionKind} {scope : Nat} :
    j.Marks kind scope ↔ i.Marks kind scope := by
  rw [Marks, Marks, h.fields.1, h.fields.2.1]

end Instruction

/-- Some results are no longer dropped, and some literals have become doubles. -/
inductive Trims : List Instruction → List Instruction → Prop where
  | nil : Trims [] []
  | keep {i j : Instruction} {l m : List Instruction} (hi : i.Becomes j) (h : Trims l m) :
      Trims (i :: l) (j :: m)
  | drop {i : Instruction} {l m : List Instruction} (hi : i.kind = .discardResult)
      (h : Trims l m) : Trims (i :: l) m

namespace Trims

variable {l l' m m' : List Instruction}
variable {k : List Instruction}

theorem refl (l : List Instruction) : Trims l l := by
  induction l with
  | nil => exact .nil
  | cons i l ih => exact .keep (.inl rfl) ih

theorem trans (h : Trims k l) (h' : Trims l m) : Trims k m := by
  induction h generalizing m with
  | nil => exact h'
  | @keep i j k l hi h ih =>
    cases h' with
    | keep hj h' => exact .keep (hi.trans hj) (ih h')
    | drop hj h' => exact .drop (hi.fields.1 ▸ hj) (ih h')
  | drop hi h ih => exact .drop hi (ih h')

theorem append (h : Trims l l') (h' : Trims m m') : Trims (l ++ m) (l' ++ m') := by
  induction h with
  | nil => exact h'
  | keep hi _ ih => exact .keep hi ih
  | drop hi _ ih => exact .drop hi ih

theorem of_append (h : Trims (l ++ m) k) : ∃ l' m', k = l' ++ m' ∧ Trims l l' ∧ Trims m m' := by
  induction l generalizing k with
  | nil => exact ⟨[], k, rfl, .nil, h⟩
  | cons i l ih =>
    cases h with
    | keep hi h =>
      obtain ⟨l', m', rfl, hl, hm⟩ := ih h
      exact ⟨_ :: l', m', rfl, .keep hi hl, hm⟩
    | drop hi h =>
      obtain ⟨l', m', rfl, hl, hm⟩ := ih h
      exact ⟨l', m', rfl, .drop hi hl, hm⟩

theorem of_cons {i : Instruction} (h : Trims (i :: l) k)
    (hi : i.kind ≠ .discardResult) : ∃ j l', k = j :: l' ∧ i.Becomes j ∧ Trims l l' := by
  cases h with
  | keep hj h => exact ⟨_, _, rfl, hj, h⟩
  | drop hkind => exact absurd hkind hi

theorem exists_becomes (h : Trims l m) {j : Instruction} (hj : j ∈ m) : ∃ i ∈ l, i.Becomes j := by
  induction h with
  | nil => cases hj
  | keep hi _ ih =>
    rcases mem_cons.1 hj with rfl | hj
    · exact ⟨_, mem_cons_self, hi⟩
    · obtain ⟨i, hmem, hbecomes⟩ := ih hj
      exact ⟨i, mem_cons_of_mem _ hmem, hbecomes⟩
  | drop _ _ ih =>
    obtain ⟨i, hmem, hbecomes⟩ := ih hj
    exact ⟨i, mem_cons_of_mem _ hmem, hbecomes⟩

theorem becomes_of_mem (h : Trims l m) {i : Instruction} (hi : i ∈ l)
    (hkind : i.kind ≠ .discardResult) : ∃ j ∈ m, i.Becomes j := by
  induction h with
  | nil => cases hi
  | keep hj _ ih =>
    rcases mem_cons.1 hi with rfl | hi
    · exact ⟨_, mem_cons_self, hj⟩
    · obtain ⟨j, hmem, hbecomes⟩ := ih hi
      exact ⟨j, mem_cons_of_mem _ hmem, hbecomes⟩
  | drop hj _ ih =>
    rcases mem_cons.1 hi with rfl | hi
    · exact absurd hj hkind
    · exact ih hi

theorem filterMap {α : Type} {f : Instruction → Option α} (h : Trims l m)
    (hbecomes : ∀ {i j : Instruction}, i.Becomes j → f j = f i)
    (hdrop : ∀ {i : Instruction}, i.kind = .discardResult → f i = none) :
    m.filterMap f = l.filterMap f := by
  induction h with
  | nil => rfl
  | keep hi _ ih => rw [filterMap_cons, filterMap_cons, hbecomes hi, ih]
  | drop hi _ ih => rw [ih, filterMap_cons_none (hdrop hi)]

theorem deeds (h : Trims l m) : OnePass.deeds m = OnePass.deeds l :=
  h.filterMap (fun hi => hi.deed?) fun hi => by rw [Instruction.deed?, hi]

theorem straight (h : Trims l m) (hl : Straight l) : Straight m := by
  intro j hj
  obtain ⟨i, hi, hbecomes⟩ := h.exists_becomes hj
  rw [hbecomes.fields.1]
  exact hl i hi

end Trims

theorem Instruction.Marks.kind_ne {i : Instruction} {kind other : InstructionKind} {scope : Nat}
    (h : i.Marks kind scope) (hne : kind ≠ other) : i.kind ≠ other := h.1 ▸ hne

theorem Lays.trim {T : Flow} {l m : List Instruction} (h : Lays T l) (htrims : Trims l m) :
    Lays T m := by
  induction h generalizing m with
  | straight hcode => exact htrims.deeds ▸ .straight (htrims.straight hcode)
  | seq _ _ ih ih' =>
    obtain ⟨l', m', rfl, hl, hm⟩ := htrims.of_append
    exact .seq (ih hl) (ih' hm)
  | @branch S head test els fin T U l m' otherwise hhead htest _ hels _ hfin ih ih' =>
    have hkind : test.kind ≠ .discardResult := by
      rcases htest with h | h <;> exact h.kind_ne (by decide)
    obtain ⟨_, _, rfl, hfront, hback⟩ := htrims.of_append
    obtain ⟨fin', _, rfl, hbecomes, hnil⟩ := hback.of_cons (hfin.kind_ne (by decide))
    cases hnil
    obtain ⟨_, _, rfl, hfirst, hsecond⟩ := hfront.of_append
    obtain ⟨els', other, rfl, hels', hother⟩ := hsecond.of_cons (hels.kind_ne (by decide))
    obtain ⟨head', _, rfl, hhead', hrest⟩ := hfirst.of_append
    obtain ⟨test', body, rfl, htest', hbody⟩ := hrest.of_cons hkind
    have hdeeds : deeds (head ++ [test]) = deeds (head' ++ [test']) :=
      (hhead'.append (.keep htest' .nil)).deeds.symm
    rw [hdeeds]
    refine .branch (hhead'.straight hhead) ?_ (ih hbody) (hels'.marks.2 hels) (ih' hother)
      (hbecomes.marks.2 hfin)
    exact htest.imp htest'.marks.2 htest'.marks.2
  | @loop S head label test fin T l hlabel hhead htest _ hfin ih =>
    obtain ⟨_, _, rfl, hfront, hback⟩ := htrims.of_append
    obtain ⟨fin', _, rfl, hbecomes, hnil⟩ := hback.of_cons (hfin.kind_ne (by decide))
    cases hnil
    obtain ⟨label', _, rfl, hlabel', hfront'⟩ := hfront.of_cons (hlabel.kind_ne (by decide))
    obtain ⟨head', _, rfl, hhead', hrest⟩ := hfront'.of_append
    obtain ⟨test', body, rfl, htest', hbody⟩ := hrest.of_cons (htest.kind_ne (by decide))
    have hdeeds : deeds (head ++ [test]) = deeds (head' ++ [test']) :=
      (hhead'.append (.keep htest' .nil)).deeds.symm
    rw [hdeeds]
    exact .loop (hlabel'.marks.2 hlabel) (hhead'.straight hhead) (htest'.marks.2 htest) (ih hbody)
      (hbecomes.marks.2 hfin)

end OnePass
