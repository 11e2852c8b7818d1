import OnePass.Log

/-!
# What the program needs from its surroundings

* `Host` — files, the standard streams and the log.
-/

namespace OnePass.Shell

/-- The surroundings of the program, as actions of a monad. Actions that can fail give the reason in words. -/
structure Host (m : Type → Type) where
  readFile : (path : String) → m (Except String ByteArray)
  readInput : m (Except String ByteArray)
  writeFile : (path : String) → (text : String) → m (Except String Unit)
  writeOutput : (text : String) → m (Except String Unit)
  writeError : (text : String) → m Unit
  note : (level : String) → (message : String) → m Unit

end OnePass.Shell
