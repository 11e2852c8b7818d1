import OnePass.Grammar.Statement

/-!
# Other places for the same tokens

The same tokens can stand at other places of a text.  Moving the places of tokens, faults and events by a
function says what two texts have in common: with a constant function everything but the places, with the
identity everything.

Main results:

* `Event.relocate_id` — the identity moves nothing.
-/

namespace OnePass

variable (f : Location → Location)

/-! ### Tokens and faults -/

/-- The token at another place. -/
def Token.relocate (token : Token) : Token := { token with location := f token.location }

/-- The fault at another place, if it has one. -/
def Diagnostic.relocate (d : Diagnostic) : Diagnostic := { d with location := d.location.map f }

/-- A result or a fault, with other places. -/
def relocateResult {α β : Type} (g : α → β) : Except Diagnostic α → Except Diagnostic β
  | .ok a => .ok (g a)
  | .error d => .error (d.relocate f)

/-- An answer of a source of tokens with other places. -/
def relocateAnswer : Except Diagnostic Token → Except Diagnostic Token
  | .ok token => .ok (token.relocate f)
  | .error d => .error (d.relocate f)

@[simp] theorem Token.relocate_kind (token : Token) : (token.relocate f).kind = token.kind := rfl

@[simp] theorem Diagnostic.relocate_id (d : Diagnostic) : d.relocate id = d := by
  simp [Diagnostic.relocate]

/-- The receiver with other places. -/
def Receiver.relocate : Receiver → Receiver
  | .declared name place stated => .declared name (f place) stated
  | .assigned name place => .assigned name (f place)

/-- The use of a call with other places. -/
def CallUse.relocate : CallUse → CallUse
  | .dropped => .dropped
  | .received receiver => .received (receiver.relocate f)

/-- The event with other places. -/
def Event.relocate : Event → Event
  | .read token => .read (token.relocate f)
  | .refused d => .refused (d.relocate f)
  | .moved token => .moved (token.relocate f)
  | .operand token => .operand (token.relocate f)
  | .binary operator place => .binary operator (f place)
  | .unwrap place => .unwrap (f place)
  | .declareName name place => .declareName name (f place)
  | .bind mutable name place stated source => .bind mutable name (f place) stated source
  | .assignee name place => .assignee name (f place)
  | .assign name place source => .assign name (f place) source
  | .receiveCall callee receiver => .receiveCall callee (receiver.relocate f)
  | .argument callee label term place => .argument callee label (term.relocate f) (f place)
  | .call callee place purpose => .call callee (f place) (purpose.relocate f)
  | .ifCondition place => .ifCondition (f place)
  | .ifLet name place => .ifLet name (f place)
  | .whileCondition place => .whileCondition (f place)
  | .functionName name place => .functionName name (f place)
  | .parameter index label name ty place => .parameter index label name ty (f place)
  | .beginBody name place parameters returns => .beginBody name (f place) parameters returns
  | .beginReturn hasValue place => .beginReturn hasValue (f place)
  | .endReturn hasValue place => .endReturn hasValue (f place)
  -- the other events have no place
  | .start => .start
  | .reserve name => .reserve name
  | .beginIf => .beginIf
  | .endThen => .endThen
  | .beginElse => .beginElse
  | .endElse => .endElse
  | .endIf => .endIf
  | .beginWhile => .beginWhile
  | .endWhile => .endWhile
  | .beginParameters name => .beginParameters name
  | .endFunction name => .endFunction name

@[simp] theorem Receiver.relocate_id (receiver : Receiver) : receiver.relocate id = receiver := by
  cases receiver <;> rfl

@[simp] theorem CallUse.relocate_id (purpose : CallUse) : purpose.relocate id = purpose := by
  cases purpose with
  | dropped => rfl
  | received receiver => rw [CallUse.relocate, Receiver.relocate_id]

@[simp] theorem Event.relocate_id (event : Event) : event.relocate id = event := by
  cases event with
  | refused d => rw [Event.relocate, Diagnostic.relocate_id]
  | receiveCall callee receiver => rw [Event.relocate, Receiver.relocate_id]
  | call callee place purpose => rw [Event.relocate, CallUse.relocate_id]; rfl
  | _ => rfl

end OnePass
