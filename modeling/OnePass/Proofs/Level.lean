import OnePass.Instruction
import Mathlib.Tactic.Common

/-!
# Levels of the data stack

An instruction takes values off the data stack and leaves its result there.  The level of a piece of
code is the number of values that it leaves, if it never takes more values than there are.  Calls and
returns depend on a function and are not looked at here.

Main results:

* `level?_append` — levels go from piece to piece;
* `level?_add` — code does not look at the values below its own.
-/

namespace OnePass

variable {low high : Nat}

/-- How many values an instruction takes off the data stack. -/
def InstructionKind.takes : InstructionKind → Nat
  | popVariable | paramPop | discardResult | write | ifCondition | whileCondition | intToDouble
  | unwrap => 1
  | add | sub | mul | div | intDiv | concat | lt | gt | le | ge | eq | neq | coalesce => 2
  | _ => 0

/-- How many values an instruction leaves on the data stack. -/
def InstructionKind.leaves : InstructionKind → Nat
  | pushLiteral | pushVariable | intToDouble | unwrap | add | sub | mul | div | intDiv | concat | lt
  | gt | le | ge | eq | neq | coalesce => 1
  | _ => 0

/-- The level behind an instruction, unless it takes more values than there are. -/
def Instruction.lift? (i : Instruction) (level : Nat) : Option Nat :=
  if i.kind.takes ≤ level then some (level - i.kind.takes + i.kind.leaves) else none

/-- The level behind a piece of code. -/
def level? (level : Nat) : List Instruction → Option Nat
  | [] => some level
  | i :: code => (i.lift? level).bind fun level => level? level code

theorem level?_cons (level : Nat) (i : Instruction) (code : List Instruction) :
    level? level (i :: code) = (i.lift? level).bind fun level => level? level code := rfl

theorem level?_singleton (level : Nat) (i : Instruction) : level? level [i] = i.lift? level := by
  rw [level?_cons]
  exact Option.bind_fun_some _

theorem level?_append (level : Nat) (first second : List Instruction) :
    level? level (first ++ second) = (level? level first).bind fun level => level? level second := by
  induction first generalizing level with
  | nil => rfl
  | cons i first ih =>
    rw [List.cons_append, level?_cons, level?_cons, Option.bind_assoc]
    exact Option.bind_congr fun next _ => ih next

theorem level?_trans {mid : Nat} {first second : List Instruction}
    (h : level? low first = some mid) (h' : level? mid second = some high) :
    level? low (first ++ second) = some high := by
  rw [level?_append, h]
  exact h'

theorem Instruction.lift?_add {i : Instruction} (h : i.lift? low = some high)
    (below : Nat) : i.lift? (low + below) = some (high + below) := by
  unfold lift? at h ⊢
  split at h
  · cases h
    rw [if_pos (by omega)]
    exact congrArg some (by omega)
  · cases h

theorem level?_add {code : List Instruction} (h : level? low code = some high)
    (below : Nat) : level? (low + below) code = some (high + below) := by
  induction code generalizing low with
  | nil =>
    cases h
    rfl
  | cons i code ih =>
    obtain ⟨mid, hmid, hrest⟩ := Option.bind_eq_some_iff.1 h
    rw [level?_cons, Instruction.lift?_add hmid below]
    exact ih hrest

end OnePass
