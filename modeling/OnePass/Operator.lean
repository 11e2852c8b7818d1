import OnePass.Token

/-!
# Binary operators

* `Operator` — the operators that stand between two operands;
* `Operator.strength` — how strongly they bind.
-/

namespace OnePass

/-- The operators between two operands. -/
inductive Operator where
  | add
  | subtract
  | multiply
  | divide
  | less
  | greater
  | lessEqual
  | greaterEqual
  | notEqual
  | equal
  | coalesce
deriving DecidableEq, Repr, Inhabited

namespace Operator

def mark : Operator → Mark
  | add => .plus
  | subtract => .minus
  | multiply => .star
  | divide => .slash
  | less => .less
  | greater => .greater
  | lessEqual => .lessEqual
  | greaterEqual => .greaterEqual
  | notEqual => .notEqual
  | equal => .equal
  | coalesce => .coalesce

def text (operator : Operator) : String := operator.mark.text

def strength : Operator → Nat
  | multiply | divide => 4
  | add | subtract => 3
  | less | greater | lessEqual | greaterEqual | notEqual | equal => 2
  | coalesce => 1

end Operator

end OnePass
