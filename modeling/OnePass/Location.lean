/-!
# Places in a source text

Lines and columns count from one, and a column counts characters.

* `Location.step` — the place after one more character;
* `Location.after` — the place after a run of characters.
-/

namespace OnePass

/-- A line and a column of a source text. -/
structure Location where
  line : Nat
  column : Nat
deriving DecidableEq, Repr, Inhabited

namespace Location

def start : Location := ⟨1, 1⟩

def step (place : Location) (c : Char) : Location :=
  if c = '\n' then ⟨place.line + 1, 1⟩ else ⟨place.line, place.column + 1⟩

def after (place : Location) (text : List Char) : Location := text.foldl step place

def text (place : Location) : String := s!"{place.line}:{place.column}"

@[simp] theorem after_nil (place : Location) : place.after [] = place := rfl

@[simp] theorem after_cons (place : Location) (c : Char) (text : List Char) :
    place.after (c :: text) = (place.step c).after text := rfl

theorem after_append (place : Location) (text rest : List Char) :
    place.after (text ++ rest) = (place.after text).after rest := by
  simp [after]

end Location

end OnePass
