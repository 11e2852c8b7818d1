import OnePass.Proofs.Execution
import OnePass.Target.Body

/-!
# The code of `substring`

The code of a built-in function is the only target code with a loop of its own.  It is executed here on a
machine that has the lines of this code: a data stack, frames of variables, and jumps to labels.  The machine
stops with an error where a line finds operands of wrong types, an index outside of a string, a variable that
is defined twice or not at all, or no frame.

Main results:

* `Target.Invocation.runs_checks` — a call goes on if no check ends it;
* `Target.Invocation.runs_loop` — the loop appends the characters from its index up to the last one;
* `Target.substring_correct` — **a call of `substring` ends, and leaves its result in place of its arguments**.
-/

namespace OnePass.Target

/-! ### The target machine -/

/-- The variables of a frame, each with its value if it has been given one. -/
abbrev Store := List (String × Option Datum)

/-- What the target machine holds: the data stack, the global variables, the stack of frames, and a frame that
is not on it. -/
structure State where
  stack : List Datum
  globals : Store
  frames : List Store
  temporary : Option Store

namespace State

/-- The variables of a kind of frame; there may be no local frame. -/
def store (s : State) : Frame → Option Store
  | .global => some s.globals
  | .local => s.frames.head?

def withStore (s : State) (store : Store) : Frame → State
  | .global => { s with globals := store }
  | .local => { s with frames := store :: s.frames.tail }

/-- The value of a variable; there is none if the variable or its frame does not exist. -/
def read (s : State) (place : Place) : Option Datum := do
  let store ← s.store place.frame
  (store.lookup place.name).join

/-- A variable cannot be defined twice. -/
def define (s : State) (place : Place) : Option State := do
  let store ← s.store place.frame
  if (store.lookup place.name).isSome then none
  else some (s.withStore ((place.name, none) :: store) place.frame)

/-- Only a variable that has been defined can be given a value. -/
def assign (s : State) (place : Place) (v : Datum) : Option State := do
  let store ← s.store place.frame
  if (store.lookup place.name).isSome then
    some (s.withStore
      (store.map fun entry => if entry.1 = place.name then (entry.1, some v) else entry) place.frame)
  else none

def value (s : State) : Operand → Option Datum
  | .place place => s.read place
  | .int value => some (.int value)
  | .double value => some (.double value)
  | .string text => some (.string text)
  | .bool value => some (.bool value)
  | .nil => some .nil

def int (s : State) (operand : Operand) : Option Int :=
  match s.value operand with
  | some (.int value) => some value
  | _ => none

def string (s : State) (operand : Operand) : Option String :=
  match s.value operand with
  | some (.string text) => some text
  | _ => none

end State

/-- The character of a string at an index, which has to lie in the string. -/
def charAt (text : String) (index : Int) : Option Char :=
  if index < 0 then none else text.toList[index.toNat]?

/-- What a line does behind which the next one comes.  There is no result where the machine stops with an
error. -/
def perform (line : Line) (s : State) : Option State :=
  match line with
  | .label _ => some s
  | .createFrame => some { s with temporary := some [] }
  | .pushFrame => s.temporary.map fun store => { s with frames := store :: s.frames, temporary := none }
  | .popFrame => s.frames.head?.map fun store => { s with frames := s.frames.tail, temporary := some store }
  | .defVar target => s.define target
  | .move target operand => do s.assign target (← s.value operand)
  | .push operand => do some { s with stack := (← s.value operand) :: s.stack }
  | .pop target => do ({ s with stack := s.stack.tail } : State).assign target (← s.stack.head?)
  | .add target left right => do s.assign target (.int ((← s.int left) + (← s.int right)))
  | .lt target left right => do s.assign target (.bool ((← s.int left) < (← s.int right)))
  | .gt target left right => do s.assign target (.bool ((← s.int left) > (← s.int right)))
  | .concat target left right => do s.assign target (.string ((← s.string left) ++ (← s.string right)))
  | .strLen target text => do s.assign target (.int (← s.string text).length)
  | .getChar target text index => do
      s.assign target (.string (.singleton (← charAt (← s.string text) (← s.int index))))
  | _ => none

/-- Lines of which each goes on with the next one. -/
def performAll : List Line → State → Option State
  | [], s => some s
  | line :: later, s => (perform line s).bind (performAll later)

/-- Whether two values are equal: values of one type, or any value and an absent one.  Doubles are left out. -/
def equal : Datum → Datum → Option Bool
  | .int a, .int b => some (a = b)
  | .bool a, .bool b => some (a = b)
  | .string a, .string b => some (a = b)
  | .nil, v | v, .nil => some (v = .nil)
  | _, _ => none

/-- The code behind a label. -/
def goTo (code : List Line) (label : String) : Option (List Line) :=
  match code.dropWhile (· ≠ .label label) with
  | [] => none
  | _ :: rest => some rest

/-- One line of code, with the lines that come next. -/
def advance (code : List Line) (line : Line) (rest : List Line) (s : State) : Option (List Line × State) :=
  match line with
  | .jump label => do some (← goTo code label, s)
  | .jumpIfEq label left right => do
      if ← equal (← s.value left) (← s.value right) then some (← goTo code label, s) else some (rest, s)
  | line => (perform line s).map fun s => (rest, s)

/-- Whether a line changes the frames. -/
def Line.isFraming : Line → Bool
  | createFrame | pushFrame | popFrame => true
  | _ => false

/-- A run from some lines to others, with the lines that change the frames on the way. -/
inductive Runs (code : List Line) : List Line → State → List Line → List Line → State → Prop where
  | refl {rest : List Line} {s : State} : Runs code rest s [] rest s
  | step {line : Line} {rest rest' rest'' framing : List Line} {s s' s'' : State}
      (h : advance code line rest s = some (rest', s')) (hlater : Runs code rest' s' framing rest'' s'') :
      Runs code (line :: rest) s (bif line.isFraming then line :: framing else framing) rest'' s''

section runs

variable {code first second third rest framing framing' : List Line} {line : Line} {s s' s'' : State}

theorem Runs.trans (h : Runs code first s framing second s') (h' : Runs code second s' framing' third s'') :
    Runs code first s (framing ++ framing') third s'' := by
  induction h with
  | refl => exact h'
  | @step line _ _ _ framing _ _ _ hstep _ ih =>
    have hwhole := Runs.step hstep (ih h')
    cases hframing : line.isFraming <;> simpa [hframing] using hwhole

theorem Runs.plain (hline : line.isFraming = false) (h : advance code line rest s = some (second, s'))
    (h' : Runs code second s' framing third s'') : Runs code (line :: rest) s framing third s'' := by
  have hwhole := Runs.step h h'
  rwa [hline] at hwhole

theorem Runs.next (h : Runs code first s [] second s') (h' : Runs code second s' framing third s'') :
    Runs code first s framing third s'' :=
  h.trans h'

theorem advance_of_perform (h : perform line s = some s') : advance code line rest s = some (rest, s') := by
  cases line with
  | jump | jumpIfEq => cases h
  | _ => exact congrArg (Option.map fun s => (rest, s)) h

theorem runs_of_performAll {lines : List Line} (h : performAll lines s = some s') :
    Runs code (lines ++ rest) s (lines.filter Line.isFraming) rest s' := by
  induction lines generalizing s with
  | nil =>
    cases h
    exact .refl
  | cons line lines ih =>
    obtain ⟨next, hline, hlines⟩ := Option.bind_eq_some_iff.1 h
    have hwhole := Runs.step (advance_of_perform hline) (ih hlines)
    cases hframing : line.isFraming <;> simpa [hframing] using hwhole

end runs

/-! ### The parts of the code -/

/-- A call: what the machine holds besides the arguments, and the arguments. -/
structure Invocation where
  stack : List Datum
  globals : Store
  frames : List Store
  text : String
  i : Int
  j : Int

/-- A comparison with its value, and the outcome for which there is no result. -/
structure Check where
  line : Line
  value : Bool
  outcome : Bool

def Check.lines (check : Check) : List Line := [check.line, bailIf check.outcome]

/-- The lines that take the arguments into a frame. -/
def opening : List Line :=
  [.label "$substring"] ++ openFrame ++ take "j" ++ take "i" ++ take "s" ++ measure ++ [.defVar (here "cond")]

/-- The lines between the checks and the loop. -/
def preparation : List Line :=
  [.defVar (here "result"), .move (here "result") (.string ""), .defVar (here "char"), .label "$substring$loop"]

/-- The lines of one turn of the loop. -/
def turn : List Line :=
  [.getChar (here "char") (valueOf "s") (valueOf "i"),
    .concat (here "result") (valueOf "result") (valueOf "char"), .add (here "i") (valueOf "i") (.int 1)]

/-- The end without a result. -/
def absence : List Line := [.push .nil] ++ returnFromFrame

/-- The end with a result, and what stands behind it. -/
def presence : List Line := [.push (valueOf "result")] ++ returnFromFrame ++ .label "$substring$nil" :: absence

/-- The loop, and what stands behind it. -/
def loop : List Line :=
  .jumpIfEq "$substring$done" (valueOf "i") (valueOf "j") ::
    (turn ++ .jump "$substring$loop" :: .label "$substring$done" :: presence)

namespace Invocation

variable (c : Invocation)

/-- The comparisons before the loop. -/
def checks : List Check :=
  [⟨.lt (here "cond") (valueOf "i") (.int 0), c.i < 0, true⟩,
    ⟨.lt (here "cond") (valueOf "j") (.int 0), c.j < 0, true⟩,
    ⟨.gt (here "cond") (valueOf "i") (valueOf "j"), c.j < c.i, true⟩,
    ⟨.lt (here "cond") (valueOf "i") (valueOf "len"), c.i < c.text.length, false⟩,
    ⟨.gt (here "cond") (valueOf "j") (valueOf "len"), c.text.length < c.j, true⟩]

theorem substringBody_eq :
    substringBody = opening ++ (c.checks.flatMap Check.lines ++ (preparation ++ loop)) := rfl

/-- The state at a call. -/
def called (temporary : Option Store) : State :=
  ⟨.int c.j :: .int c.i :: .string c.text :: c.stack, c.globals, c.frames, temporary⟩

/-- The frame of a call, with the index that the loop has come to. -/
def locals (cond : Option Datum) (k : Int) : Store :=
  [("cond", cond), ("len", some (.int c.text.length)), ("s", some (.string c.text)), ("i", some (.int k)),
    ("j", some (.int c.j))]

/-- The state between two checks. -/
def checking (cond : Option Datum) : State := ⟨c.stack, c.globals, c.locals cond c.i :: c.frames, none⟩

/-- The state between two turns of the loop. -/
def looping (cond char : Option Datum) (result : String) (k : Int) : State :=
  ⟨c.stack, c.globals, (("char", char) :: ("result", some (.string result)) :: c.locals cond k) :: c.frames, none⟩

theorem runs_opening {rest : List Line} (temporary : Option Store) :
    Runs substringBody (opening ++ rest) (c.called temporary) [.createFrame, .pushFrame] rest (c.checking none) :=
  runs_of_performAll rfl

theorem advance_bailIf {rest : List Line} (value outcome : Bool) :
    advance substringBody (bailIf outcome) rest (c.checking (some (.bool value))) =
      some (if value = outcome then absence else rest, c.checking (some (.bool value))) := by
  cases value <;> cases outcome <;> rfl

theorem runs_checks (rest : List Line) {checks : List Check} (hsub : checks ⊆ c.checks) (cond : Option Datum) :
    ∃ cond', Runs substringBody (checks.flatMap Check.lines ++ rest) (c.checking cond) []
      (if ∃ check ∈ checks, check.value = check.outcome then absence else rest) (c.checking cond') := by
  induction checks generalizing cond with
  | nil => exact ⟨cond, by simpa using .refl⟩
  | cons check checks ih =>
    obtain ⟨hcheck, hchecks⟩ := List.cons_subset.1 hsub
    have hline : check.line.isFraming = false ∧
        perform check.line (c.checking cond) = some (c.checking (some (.bool check.value))) := by
      simp only [Invocation.checks, List.mem_cons, List.not_mem_nil, or_false] at hcheck
      rcases hcheck with rfl | rfl | rfl | rfl | rfl <;> exact ⟨rfl, rfl⟩
    have hfirst : Runs substringBody (check.lines ++ (checks.flatMap Check.lines ++ rest)) (c.checking cond) []
        (if check.value = check.outcome then absence else checks.flatMap Check.lines ++ rest)
        (c.checking (some (.bool check.value))) :=
      .plain hline.1 (advance_of_perform hline.2) (.plain rfl (c.advance_bailIf _ _) .refl)
    rw [List.flatMap_cons, List.append_assoc]
    simp only [List.mem_cons, exists_eq_or_imp]
    by_cases hout : check.value = check.outcome
    · rw [if_pos hout] at hfirst
      exact ⟨_, by rwa [if_pos (.inl hout)]⟩
    · rw [if_neg hout] at hfirst
      obtain ⟨cond', hlater⟩ := ih hchecks (some (.bool check.value))
      exact ⟨cond', by simpa only [hout, false_or] using hfirst.next hlater⟩

theorem runs_preparation (cond : Option Datum) :
    Runs substringBody (preparation ++ loop) (c.checking cond) [] loop (c.looping cond none "" c.i) :=
  runs_of_performAll rfl

section loop

variable (cond char : Option Datum) (result : String) {k : Int}

theorem advance_loop {rest : List Line} :
    advance substringBody (.jumpIfEq "$substring$done" (valueOf "i") (valueOf "j")) rest
      (c.looping cond char result k) =
      some (if k = c.j then presence else rest, c.looping cond char result k) := by
  show (if decide (k = c.j) = true then some (presence, _) else some (rest, _)) = _
  simp only [decide_eq_true_eq]
  split <;> rfl

theorem runs_turn {ch : Char} (hne : k ≠ c.j) (hch : charAt c.text k = some ch) :
    Runs substringBody loop (c.looping cond char result k) [] loop
      (c.looping cond (some (.string (.singleton ch))) (result ++ .singleton ch) (k + 1)) := by
  have hget : perform (.getChar (here "char") (valueOf "s") (valueOf "i")) (c.looping cond char result k) =
      some (c.looping cond (some (.string (.singleton ch))) result k) := by
    show (charAt c.text k).bind _ = _
    rw [hch]
    rfl
  have hturn : performAll turn (c.looping cond char result k) =
      some (c.looping cond (some (.string (.singleton ch))) (result ++ .singleton ch) (k + 1)) := by
    show (perform _ _).bind _ = _
    rw [hget]
    rfl
  exact .plain rfl ((c.advance_loop cond char result).trans (by rw [if_neg hne]))
    ((runs_of_performAll hturn).next (.plain rfl rfl .refl))

theorem runs_loop {n : Nat} (hk : 0 ≤ k) (hlast : k + n = c.j) (hj : c.j ≤ c.text.length) :
    ∃ char', Runs substringBody loop (c.looping cond char result k) [] presence
      (c.looping cond char' (result ++ .ofList (c.text.toList.extract k.toNat c.j.toNat)) c.j) := by
  induction n generalizing k char result with
  | zero =>
    obtain rfl : k = c.j := by omega
    refine ⟨char, .plain rfl ((c.advance_loop cond char result).trans (by rw [if_pos rfl])) ?_⟩
    simpa using .refl
  | succ n ih =>
    have hlt : k.toNat < c.text.toList.length := by
      rw [String.length_toList]
      omega
    have hch : charAt c.text k = some c.text.toList[k.toNat] := by
      rw [charAt, if_neg (by omega), List.getElem?_eq_getElem hlt]
    have hslice : c.text.toList.extract k.toNat c.j.toNat =
        c.text.toList[k.toNat] :: c.text.toList.extract (k + 1).toNat c.j.toNat := by
      rw [List.extract, List.extract, List.drop_eq_getElem_cons hlt,
        show c.j.toNat - k.toNat = (c.j.toNat - (k + 1).toNat) + 1 by omega, List.take_succ_cons,
        show (k + 1).toNat = k.toNat + 1 by omega]
    have hresult : result ++ String.ofList (c.text.toList.extract k.toNat c.j.toNat) =
        result ++ .singleton c.text.toList[k.toNat] ++ .ofList (c.text.toList.extract (k + 1).toNat c.j.toNat) := by
      rw [hslice]
      apply String.toList_injective
      simp
    rw [hresult]
    obtain ⟨char', hlater⟩ := ih _ _ (k := k + 1) (by omega) (by omega)
    exact ⟨char', (c.runs_turn cond char result (by omega) hch).next hlater⟩

end loop

theorem runs_absence (cond : Option Datum) :
    ∃ last, Runs substringBody absence (c.checking cond) [.popFrame] [.ret]
      ⟨.nil :: c.stack, c.globals, c.frames, some last⟩ :=
  ⟨_, runs_of_performAll (show performAll [.push .nil, .popFrame] _ = _ from rfl)⟩

theorem runs_presence (cond char : Option Datum) (result : String) (k : Int) :
    ∃ last rest, Runs substringBody presence (c.looping cond char result k) [.popFrame] (.ret :: rest)
      ⟨.string result :: c.stack, c.globals, c.frames, some last⟩ :=
  ⟨_, _, runs_of_performAll (show performAll [.push (valueOf "result"), .popFrame] _ = _ from rfl)⟩

end Invocation

/-- A call of `substring` comes to its `RETURN` without an error, and opens and closes one frame.  It leaves the
characters between two indices in place of its arguments, or the absent value if the indices do not lie in the
string in order. -/
theorem substring_correct (text : String) (i j : Int) (stack : List Datum) (globals : Store) (frames : List Store)
    (temporary : Option Store) :
    ∃ body last rest, body? "substring" = some body ∧
      Runs body body ⟨.int j :: .int i :: .string text :: stack, globals, frames, temporary⟩
        [.createFrame, .pushFrame, .popFrame] (.ret :: rest)
        ⟨(if i < 0 ∨ j < 0 ∨ j < i ∨ text.length ≤ i ∨ text.length < j then .nil
          else .string (.ofList (text.toList.extract i.toNat j.toNat))) :: stack, globals, frames, last⟩ := by
  let c : Invocation := ⟨stack, globals, frames, text, i, j⟩
  obtain ⟨cond, hchecked⟩ := c.runs_checks (preparation ++ loop) (List.Subset.refl c.checks) none
  have hopened := (c.runs_opening temporary).trans hchecked
  have hrefused : (∃ check ∈ c.checks, check.value = check.outcome) ↔
      i < 0 ∨ j < 0 ∨ j < i ∨ text.length ≤ i ∨ text.length < j := by
    simp [Invocation.checks, c]
  by_cases h : i < 0 ∨ j < 0 ∨ j < i ∨ text.length ≤ i ∨ text.length < j
  · rw [if_pos (hrefused.2 h)] at hopened
    obtain ⟨last, hclosed⟩ := c.runs_absence cond
    exact ⟨_, _, _, rfl, by rw [if_pos h]; exact hopened.trans hclosed⟩
  · rw [if_neg (mt hrefused.1 h)] at hopened
    obtain ⟨n, hn⟩ : ∃ n : Nat, i + n = j := ⟨(j - i).toNat, by omega⟩
    obtain ⟨char, hlooped⟩ := c.runs_loop cond none "" (n := n) (k := i) (by omega) hn (show j ≤ text.length by omega)
    rw [String.empty_append] at hlooped
    obtain ⟨last, rest, hclosed⟩ := c.runs_presence cond char _ c.j
    have hprepared := (hopened.trans (c.runs_preparation cond)).trans hlooped
    exact ⟨_, _, _, rfl, by rw [if_neg h]; exact hprepared.trans hclosed⟩

end OnePass.Target
