import OnePass.Builtin
import OnePass.Settings
import OnePass.Stream
import OnePass.Target.Body

/-!
# Rendering instructions

Each instruction becomes a few lines of target code. After the main program come the bodies of the built-in
functions that it calls, each once, in the order of their first calls.

* `Target.linesOf` — the lines of an instruction;
* `Target.Listing` — lines, and the fault that ended them, if any;
* `Target.render` — the listing of a stream.
-/

namespace OnePass.Target

/-- Lines of target code, and the fault that ended them, if any. -/
structure Listing where
  lines : List Line
  fault : Option Diagnostic := none
deriving Repr

def Listing.append (first second : Listing) : Listing :=
  match first.fault with
  | some _ => first
  | none => { second with lines := first.lines ++ second.lines }

instance : Append Listing := ⟨Listing.append⟩

def whole (lines : List Line) : Listing := { lines }

def failing (fault : Fault) : Listing := { lines := [], fault := some { fault } }

def temp1 : Place := ⟨.global, "$tmp1"⟩
def temp2 : Place := ⟨.global, "$tmp2"⟩

def literal? : Payload → Option Operand
  | .int value => some (.int value)
  | .double value => some (.double value)
  | .string text => some (.string text)
  | .nil => some .nil
  | .name _ => none

def unwrapLines (exitCode counter : Nat) : List Line :=
  let label := s!"$unwrap${counter}"
  [.pop temp1, .jumpIfNeq label (.place temp1) .nil, .exit (.int exitCode), .label label,
    .push (.place temp1)]

def coalesceLines (counter : Nat) : List Line :=
  let label := s!"$coalesce${counter}"
  [.pop temp2, .pop temp1, .jumpIfEq label (.place temp1) .nil, .push (.place temp1),
    .jump (label ++ "$end"), .label label, .push (.place temp2), .label (label ++ "$end")]

def callLabel (name : String) : String :=
  match Builtin.find? name with
  | some builtin => if builtin.variadic then name else bodyLabel name
  | none => name

def beginLines (settings : Settings) (name : String) : List Line :=
  (if settings.emitComments then [.comment s!"func {name}"] else []) ++
    [.jump (name ++ "$skip"), .label name, .createFrame, .pushFrame]

def named (instruction : Instruction) (lines : String → List Line) : Listing :=
  match instruction.name? with
  | some name => whole (lines name)
  | none => failing (.namelessInstruction instruction.kind)

def linesOf (settings : Settings) (scopes : ScopeTree) (instruction : Instruction) : Listing :=
  let scope := (scopes.scope instruction.scope).name
  let place (name : String) : Place := ⟨instruction.frame, name⟩
  match instruction.kind with
  | .programStart => whole [.header, .defVar temp1, .defVar temp2]
  | .defineVariable => named instruction fun name => [.defVar (place name)]
  | .pushLiteral =>
      match instruction.payload.bind literal? with
      | some operand => whole [.push operand]
      | none => failing .missingLiteral
  | .pushVariable => named instruction fun name => [.push (.place (place name))]
  | .popVariable => named instruction fun name => [.pop (place name)]
  | .add => whole [.adds]
  | .sub => whole [.subs]
  | .mul => whole [.muls]
  | .div => whole [.divs]
  | .intDiv => whole [.idivs]
  | .concat =>
      -- strings are not concatenated on the stack
      whole [.pop temp2, .pop temp1, .concat temp1 (.place temp1) (.place temp2), .push (.place temp1)]
  | .lt => whole [.lts]
  | .gt => whole [.gts]
  | .le => whole [.gts, .nots]
  | .ge => whole [.lts, .nots]
  | .eq => whole [.eqs]
  | .neq => whole [.eqs, .nots]
  | .intToDouble => whole [.int2floats]
  | .unwrap => whole (unwrapLines settings.unwrapExitCode instruction.counter)
  | .coalesce => whole (coalesceLines instruction.counter)
  | .ifCondition => whole [.push (.bool true), .jumpIfNeqs (scope ++ "$else")]
  | .ifLetCondition =>
      named instruction fun name =>
        [.push (.place (place name)), .push .nil, .jumpIfEqs (scope ++ "$else")]
  | .elseMark => whole [.jump (scope ++ "$end"), .label (scope ++ "$else")]
  | .endIf => whole [.label (scope ++ "$end")]
  | .whileLabel => whole [.label (scope ++ "$start")]
  | .whileCondition => whole [.push (.bool false), .jumpIfEqs (scope ++ "$end")]
  | .endWhile => whole [.jump (scope ++ "$start"), .label (scope ++ "$end")]
  | .functionBegin => named instruction (beginLines settings)
  | .paramPop => named instruction fun name => [.defVar (place name), .pop (place name)]
  | .returnValue => whole [.popFrame, .ret]
  | .functionEnd => whole [.popFrame, .ret] ++ named instruction fun name => [.label (name ++ "$skip")]
  | .call => named instruction fun name => [.call (callLabel name)]
  | .discardResult => whole [.pop temp1]
  | .write => whole [.pop temp1, .write (.place temp1)]

def calledBuiltin? (instruction : Instruction) : Option String :=
  if instruction.kind = .call then
    (instruction.name?.bind Builtin.find?).bind fun builtin =>
      if builtin.variadic then none else some builtin.name
  else none

def calledBuiltins (instructions : List Instruction) : List String :=
  (instructions.filterMap calledBuiltin?).eraseDups

def bodyListing (name : String) : Listing :=
  match body? name with
  | some lines => whole lines
  | none => failing (.missingBody name)

/-- The listing of a stream: its instructions, the end of the main program, and the bodies of the built-in
functions. -/
def render (settings : Settings) (scopes : ScopeTree) (stream : Stream) : Listing :=
  let instructions := stream.toList.map Entry.instruction
  let main := (instructions.map (linesOf settings scopes)).foldr Listing.append (whole [.exit (.int 0)])
  main ++ ((calledBuiltins instructions).map bodyListing).foldr Listing.append (whole [])

end OnePass.Target
