import OnePass.Proofs.Naming
import OnePass.Proofs.Nesting

/-!
# The layout of programs

Each statement adds one piece of code at the end of the code before it, and the piece lays out its
flow.  A definition in a loop is the exception: it goes in front of the outermost loop, so there the
code is laid out around the definitions that are still to come.

Main results:

* `Elaborates.lays` — **statements add code that lays out their flow**;
* `Composes.lays` — the code of a program consists of the codes of its parts;
* `Composes.nests` — **it spans the scopes of the program**.
-/

namespace OnePass

open List

variable {d d' : Draft} {code H l m post head : List Instruction} {scope level : Nat} {T : Flow}
  {i test : Instruction} {params : List (String × Ty)} {name : String} {returns : Ty}
  {parts : List Part}

theorem Lays.nil : Lays (.straight []) [] := .straight fun _ hi => absurd hi not_mem_nil

/-! ### Loops around -/

namespace Draft

variable {d d' : Draft}
variable {code : List Instruction}

/-- A new scope is in the same loops as the scope above it, and maybe in one of its own. -/
theorem Extends.outermost?_new (h : Extends d d') (hd : d.Formed) {new above : Nat}
    (habove : above < d.size) (hnew : d'.ancestors new = new :: d.ancestors above) :
    d'.outermost? new = if (d'.outlines new).kind = .whileBody
      then some ((d.outermost? above).getD new) else d.outermost? above := by
  have hsame := h.outermost? hd habove
  rw [Draft.outermost?, h.ancestors hd habove] at hsame
  rw [Draft.outermost?, hnew, filter_cons]
  split <;> rename_i hkind
  · rw [if_pos (beq_iff_eq.1 hkind), List.getLast?_cons, hsame]
  · rw [if_neg (fun hwhile => hkind (beq_iff_eq.2 hwhile)), hsame]

theorem outermost?_le (hd : d.Formed) {id loop : Nat} (h : d.outermost? id = some loop) : loop ≤ id :=
  le_of_mem_ancestorsBy hd.rooted (mem_of_mem_filter (mem_of_getLast? h))

section opened

variable {kind : ScopeKind} {code : List Instruction}

theorem opened_code {pre : List Instruction} (h : d.code = pre ++ post) :
    (d.opened kind code).code = pre ++ (post ++ code) := by
  show d.code ++ code = _
  rw [h, append_assoc]

theorem outermost?_opened_while (hd : d.Formed) :
    (d.opened .whileBody code).outermost? d.size = some ((d.outermost? d.current).getD d.size) := by
  have hkind : ((d.opened .whileBody code).outlines d.size).kind = .whileBody :=
    congrArg Scope.kind (opened_new hd)
  rw [extends_opened.outermost?_new hd hd.current_lt (ancestors_opened hd), if_pos hkind]

theorem outermost?_opened_then (hd : d.Formed) :
    (d.opened .thenBranch code).outermost? d.size = d.outermost? d.current := by
  have hkind : ((d.opened .thenBranch code).outlines d.size).kind = .thenBranch :=
    congrArg Scope.kind (opened_new hd)
  rw [extends_opened.outermost?_new hd hd.current_lt (ancestors_opened hd), hkind]
  exact if_neg nofun

theorem outermost?_alternative (hd : d.Formed) {parent : Nat} (hscope : scope < d.size)
    (hparent : parent < d.size) (hne : scope ≠ parent) :
    (d.alternative scope parent code).outermost? d.size = d.outermost? parent := by
  have hkind : ((d.alternative scope parent code).outlines d.size).kind = .elseBranch :=
    congrArg Scope.kind (alternative_new hscope hparent)
  rw [(extends_alternative hscope hne).outermost?_new hd hparent
    (ancestors_alternative hscope hparent hne hd), hkind]
  exact if_neg nofun

theorem Keeps.outermost?_current (h : d.Keeps d') (hd : d.Formed) :
    d'.outermost? d'.current = d.outermost? d.current := by
  rw [h.current, h.toExtends.outermost? hd hd.current_lt]

theorem Keeps.outermost?_otherwise {code' : List Instruction} (hd : d.Formed) (hd' : d'.Formed)
    (h : (d.opened kind code).Keeps d') :
    (d'.alternative d.size d.current code').outermost? d'.size = d.outermost? d.current := by
  have hscope : d.size < d'.size := h.size_le
  rw [outermost?_alternative hd' hscope (Nat.lt_trans hd.current_lt hscope) (Nat.ne_of_gt hd.current_lt),
    h.toExtends.outermost? hd.opened (Nat.lt_succ_of_lt hd.current_lt),
    extends_opened.outermost? hd hd.current_lt]

end opened

/-! ### The function around -/

theorem Extends.find_header (h : d.Extends d') (hd : d.Formed) {id : Nat} (hlt : id < d.size) :
    (d'.ancestors id).find? (fun id => (d'.outlines id).kind == .functionHeader) =
      (d.ancestors id).find? fun id => (d.outlines id).kind == .functionHeader := by
  rw [h.ancestors hd hlt, ← List.head?_filter, ← List.head?_filter]
  refine congrArg List.head? (filter_congr fun other hother => ?_)
  rw [(h.fixed other (Nat.lt_of_le_of_lt (le_of_mem_ancestorsBy hd.rooted hother) hlt)).1]

theorem Keeps.function? (h : d.Keeps d') (hd : d.Formed) : d'.function? = d.function? := by
  rw [Draft.function?, h.current, h.toExtends.find_header hd hd.current_lt]
  rfl

theorem Extends.function?_closed {d₁ : Draft} (h : d.Extends d₁) (hd : d.Formed)
    (code : List Instruction) : (d₁.closed d.current code).function? = d.function? :=
  h.find_header hd hd.current_lt

theorem Extends.function?_new (h : d.Extends d') (hd : d.Formed) {above : Nat} (habove : above < d.size)
    (hnew : d'.ancestors d'.current = d'.current :: d.ancestors above)
    (hkind : (d'.outlines d'.current).kind ≠ .functionHeader) :
    d'.function? = (d.ancestors above).find? fun id => (d.outlines id).kind == .functionHeader := by
  rw [Draft.function?, hnew, List.find?_cons_of_neg (by simpa using hkind), ← h.find_header hd habove,
    h.ancestors hd habove]

theorem function?_opened (hd : d.Formed) {kind : ScopeKind} (hkind : kind ≠ .functionHeader) :
    (d.opened kind code).function? = d.function? := by
  refine extends_opened.function?_new hd hd.current_lt (ancestors_opened hd) ?_
  rw [show (d.opened kind code).current = d.size from rfl, opened_new hd]
  exact hkind

theorem Keeps.function?_otherwise {kind : ScopeKind} {code' : List Instruction} (hd : d.Formed)
    (hd' : d'.Formed) (h : (d.opened kind code).Keeps d') :
    (d'.alternative d.size d.current code').function? = d.function? := by
  have hscope : d.size < d'.size := h.size_le
  have hparent : d.current < d'.size := Nat.lt_trans hd.current_lt hscope
  have hne : d.size ≠ d.current := Nat.ne_of_gt hd.current_lt
  have hextends : d.Extends d' := extends_opened.trans h.toExtends
  refine ((extends_alternative hscope hne).function?_new hd' hparent
    (ancestors_alternative hscope hparent hne hd') ?_).trans (hextends.find_header hd hd.current_lt)
  rw [show (d'.alternative d.size d.current code').current = d'.size from rfl, alternative_new hscope hparent]
  exact nofun

/-! ### Labels in front -/

/-- Where there are loops around, code begins with the label of the outermost one. -/
def Anchored (d : Draft) (code : List Instruction) : Prop :=
  ∀ loop, d.outermost? d.current = some loop → ∃ label rest, code = label :: rest ∧
    label.Marks .whileLabel loop ∧ ∀ i ∈ rest, ¬ i.Marks .whileLabel loop

theorem Anchored.append {later : List Instruction} (h : d.Anchored code) (hd : d.Formed)
    (hsame : d'.outermost? d'.current = d.outermost? d.current)
    (hlater : ∀ i ∈ later, i.kind = .whileLabel → d.size ≤ i.scope) : d'.Anchored (code ++ later) := by
  intro loop hloop
  rw [hsame] at hloop
  obtain ⟨label, rest, rfl, hlabel, hrest⟩ := h loop hloop
  refine ⟨label, rest ++ later, rfl, hlabel, fun i hi hmarks => ?_⟩
  rcases mem_append.1 hi with hi | hi
  · exact hrest i hi hmarks
  · have hold : loop < d.size := Nat.lt_of_le_of_lt (outermost?_le hd hloop) hd.current_lt
    have hnew := hlater i hi hmarks.1
    rw [hmarks.2] at hnew
    exact Nat.not_lt.2 hnew hold

end Draft

/-! ### Kinds of instructions -/

theorem Draft.Plain.kinds (h : d.Plain i) : i.kind.isMark = false ∧ i.kind.isBound = false := by
  cases h with
  | literal hkind => rw [hkind]; decide
  | «variable» hkind => rcases hkind with hkind | hkind <;> rw [hkind] <;> decide
  | operation hkind => revert hkind; cases i.kind <;> decide

theorem Draft.Plains.straight (h : d.Plains code level) : Straight code ∧ Inner code :=
  ⟨fun i hi => (h.plain i hi).kinds.1, fun i hi => (h.plain i hi).kinds.2⟩

theorem Draft.Conditions.tests (h : d.Conditions scope i) : i.Tests scope := h.imp_right And.left

theorem Step.straight (h : Step d H code d') : Straight code ∧ Inner code := by
  have hall : ∀ i ∈ code, i.kind.isMark = false ∧ i.kind.isBound = false := by
    intro i hi
    cases h with
    | skip => cases hi
    | store hvalue hpop => exact (hvalue.store hpop i hi).kinds
    | call _ hcode hafter =>
      rcases hcode.of_mem_append hafter hi with hplain | ⟨hkind, -⟩ | hkind
      · exact hplain.kinds
      · rw [hkind]
        decide
      · rw [hkind]
        decide
    | giveBack hvalue _ hkind =>
      rcases mem_append.1 hi with hi | hi
      · exact (hvalue.plain i hi).kinds
      · rw [mem_singleton.1 hi, hkind]
        decide
    | declare _ _ hdefine =>
      rw [mem_singleton.1 hi, hdefine.1]
      decide
    | hoist => cases hi
  exact ⟨fun i hi => (hall i hi).1, fun i hi => (hall i hi).2⟩

/-! ### Statements -/

/-- The code of a conditional or loop up to and with its condition. -/
inductive Draft.Heads (d : Draft) : ScopeKind → List Instruction → Prop where
  | conditional {head : List Instruction} {test : Instruction}
      (hhead : d.Plains head test.kind.takes) (htest : d.Conditions d.size test) :
      Heads d .thenBranch (head ++ [test])
  | loop {head : List Instruction} {label test : Instruction}
      (hlabel : label.Marks .whileLabel d.size) (hhead : d.Plains head test.kind.takes)
      (htest : test.Marks .whileCondition d.size) : Heads d .whileBody (label :: head ++ [test])

/-- The kind of block that a mark ends. -/
def InstructionKind.ends? : InstructionKind → Option ScopeKind
  | elseMark | endIf => some .thenBranch
  | endWhile => some .whileBody
  | _ => none

/-- The marks at the end of a block. -/
def Ends (kind : ScopeKind) (scope : Nat) (code : List Instruction) : Prop :=
  ∀ i ∈ code, i.kind.ends? = some kind ∧ i.scope = scope

theorem Instruction.Marks.ends {mark : InstructionKind} {kind : ScopeKind} (h : i.Marks mark scope)
    (hkind : mark.ends? = some kind) : Ends kind scope [i] :=
  forall_mem_singleton.2 ⟨h.1 ▸ hkind, h.2⟩

theorem Elaborates.preserves {P : Draft → Prop}
    (hstep : ∀ {d d' : Draft} {H code : List Instruction}, d.Formed → Step d H code d' → P d → P d')
    (hopened : ∀ {d : Draft} {kind : ScopeKind} {code : List Instruction}, d.Formed →
      d.Heads kind code → P d → P (d.opened kind code))
    (halternative : ∀ {d d' : Draft} {code : List Instruction} {els : Instruction}, d.Formed →
      d'.Formed → (d.opened .thenBranch code).Keeps d' → els.Marks .elseMark d.size → P d →
      P d' → P (d'.alternative d.size d.current [els]))
    (hclosed : ∀ {d d' : Draft} {kind : ScopeKind} {code tail : List Instruction}, d.Formed →
      d'.Formed → (d.opened kind code).Extends d' → d'.function? = d.function? →
      Ends kind d.size tail → P d → P d' → P (d'.closed d.current tail)) (h : Elaborates d H T d')
    (hd : d.Formed) (hP : P d) : P d' := by
  induction h with
  | step h => exact hstep hd h hP
  | seq hfirst _ ih ih' => exact ih' (hfirst.keeps hd).1 (ih hd hP)
  | ifThen hhead htest hbody hels hfin ih =>
    obtain ⟨hd₁, hkeeps⟩ := hbody.keeps hd.opened
    exact hclosed hd hd₁ hkeeps.toExtends
      ((hkeeps.function? hd.opened).trans (Draft.function?_opened hd (by decide)))
      (forall_mem_append.2 ⟨hels.ends rfl, hfin.ends rfl⟩) hP
      (ih hd.opened (hopened hd (.conditional hhead htest) hP))
  | ifElse hhead htest hbody hels hother hfin ih ih' =>
    obtain ⟨hd₁, hkeeps⟩ := hbody.keeps hd.opened
    obtain ⟨hd₂, hkeeps'⟩ := hother.keeps (hd.otherwise hd₁ hkeeps)
    have hP₁ := ih hd.opened (hopened hd (.conditional hhead htest) hP)
    have hP₂ := ih' (hd.otherwise hd₁ hkeeps) (halternative hd hd₁ hkeeps hels hP hP₁)
    refine hclosed hd hd₂ (hkeeps.toExtends.trans (.trans ?_ hkeeps'.toExtends))
      ((hkeeps'.function? (hd.otherwise hd₁ hkeeps)).trans (hkeeps.function?_otherwise hd hd₁))
      (hfin.ends rfl) hP hP₂
    exact Draft.extends_alternative hkeeps.size_le (Nat.ne_of_gt hd.current_lt)
  | loop _ hhead hlabel htest hbody hfin ih | nested _ hhead hlabel htest hbody hfin ih =>
    obtain ⟨hd₁, hkeeps⟩ := hbody.keeps hd.opened
    exact hclosed hd hd₁ hkeeps.toExtends
      ((hkeeps.function? hd.opened).trans (Draft.function?_opened hd (by decide))) (hfin.ends rfl) hP
      (ih hd.opened (hopened hd (.loop hlabel hhead htest) hP))

theorem Elaborates.hoisted (h : Elaborates d H T d') : ∀ i ∈ H, i.kind = .defineVariable := by
  induction h with
  | step hstep =>
    cases hstep with
    | hoist _ _ hdefine => exact forall_mem_singleton.2 hdefine.1
    | _ => exact fun _ hi => absurd hi not_mem_nil
  | seq _ _ ih ih' | ifElse _ _ _ _ _ _ ih ih' => exact forall_mem_append.2 ⟨ih, ih'⟩
  | ifThen _ _ _ _ _ ih | nested _ _ _ _ _ _ ih => exact ih
  | loop => exact fun _ hi => absurd hi not_mem_nil

theorem straight_of_defines (h : ∀ i ∈ H, i.kind = .defineVariable) : Straight H ∧ Inner H :=
  ⟨fun i hi => by rw [h i hi]; rfl, fun i hi => by rw [h i hi]; rfl⟩

theorem Step.lays {pre : List Instruction} (h : Step d H code d') (hcode : d.code = pre ++ post)
    (hanchored : d.Anchored post) : d'.code = pre ++ H ++ (post ++ code) := by
  cases h with
  | skip => rw [hcode, append_nil, append_nil]
  | store | call | giveBack | declare =>
    show d.code ++ _ = _
    rw [hcode, append_nil, append_assoc]
  | @hoist _ _ define label pre' post' loop hloop _ _ hcode' hlabel hlast =>
    obtain ⟨label', rest, rfl, hlabel', hrest⟩ := hanchored loop hloop
    obtain ⟨rfl, rfl, rfl⟩ :=
      split_last_unique (hcode.symm.trans hcode') hlabel' hlabel hrest hlast
    show pre ++ define :: label' :: rest = _
    rw [append_nil, append_assoc]
    rfl

theorem Elaborates.labels_new (h : Elaborates d H T d') (hd : d.Formed) (hl : Lays T l) :
    ∀ i ∈ l, i.kind = .whileLabel → d.size ≤ i.scope := by
  intro i hi hkind
  have hnests := h.nests hd hl fun _ _ _ => ⟨rfl, rfl, rfl⟩
  have hmem : i ∈ inner l := mem_filter.2 ⟨hi, by rw [hkind]; rfl⟩
  exact (hnests.owned (h.keeps hd).1.rooted i hmem (by rw [hkind]; rfl)).bounds.1

theorem Draft.Plains.no_labels (hhead : d.Plains head level) (htest : test.kind ≠ .whileLabel) :
    ∀ i ∈ head ++ [test], i.kind = .whileLabel → d.size ≤ i.scope := by
  intro i hi hkind
  rcases mem_append.1 hi with hi | hi
  · have hmark := hhead.straight.1 i hi
    rw [hkind] at hmark
    cases hmark
  · rw [mem_singleton.1 hi] at hkind
    exact absurd hkind htest

theorem Draft.Plains.anchored_loop {label : Instruction} (hd : d.Formed)
    (hloop : d.outermost? d.current = none) (hhead : d.Plains head level)
    (hlabel : label.Marks .whileLabel d.size) (htest : test.Marks .whileCondition d.size) :
    (d.opened .whileBody (label :: head ++ [test])).Anchored (label :: head ++ [test]) := by
  intro loop heq
  replace heq := (outermost?_opened_while hd).symm.trans heq
  rw [hloop] at heq
  cases heq
  refine ⟨label, head ++ [test], rfl, hlabel, fun i hi hmarks => ?_⟩
  rcases mem_append.1 hi with hi | hi
  · have hmark := hhead.straight.1 i hi
    rw [hmarks.1] at hmark
    cases hmark
  · rw [mem_singleton.1 hi] at hmarks
    cases hmarks.1.symm.trans htest.1

theorem Draft.Anchored.opened_then (h : d.Anchored post) (hd : d.Formed) (hhead : d.Plains head level)
    (htest : d.Conditions d.size test) :
    (d.opened .thenBranch (head ++ [test])).Anchored (post ++ (head ++ [test])) :=
  h.append hd (outermost?_opened_then hd) (hhead.no_labels htest.tests.kinds.1)

theorem Draft.Anchored.opened_nested {label : Instruction} {outer : Nat} (h : d.Anchored post)
    (hd : d.Formed) (hloop : d.outermost? d.current = some outer) (hhead : d.Plains head level)
    (hlabel : label.Marks .whileLabel d.size) (htest : test.Marks .whileCondition d.size) :
    (d.opened .whileBody (label :: head ++ [test])).Anchored (post ++ (label :: head ++ [test])) := by
  refine h.append hd ((outermost?_opened_while hd).trans (by rw [hloop]; rfl)) fun i hi hkind => ?_
  rcases mem_cons.1 hi with rfl | hi
  · exact Nat.le_of_eq hlabel.2.symm
  · exact hhead.no_labels (htest.kind_ne (by decide)) i hi hkind

theorem Elaborates.lays (h : Elaborates d H T d') (hd : d.Formed) {pre : List Instruction}
    (hcode : d.code = pre ++ post) (hanchored : d.Anchored post) :
    ∃ l, Lays T l ∧ Inner l ∧ d'.code = pre ++ H ++ (post ++ l) := by
  induction h generalizing pre post with
  | step hstep =>
    obtain ⟨hstraight, hinner⟩ := hstep.straight
    exact ⟨_, .straight hstraight, hinner, hstep.lays hcode hanchored⟩
  | seq hfirst _ ih ih' =>
    obtain ⟨hd₁, hkeeps⟩ := hfirst.keeps hd
    obtain ⟨l, hl, hinner, hcode₁⟩ := ih hd hcode hanchored
    obtain ⟨m, hm, hinner', hcode₂⟩ := ih' hd₁ hcode₁
      (hanchored.append hd (hkeeps.outermost?_current hd) (hfirst.labels_new hd hl))
    exact ⟨l ++ m, .seq hl hm, hinner.append hinner', by rw [hcode₂]; simp⟩
  | @ifThen d d₁ head H test els fin T hhead htest hbody hels hfin ih =>
    obtain ⟨hstraight, hinner⟩ := hhead.straight
    have hanchored' := hanchored.opened_then hd hhead htest
    obtain ⟨l, hl, hinner', hcode₁⟩ := ih hd.opened (Draft.opened_code hcode) hanchored'
    refine ⟨_, .branch hstraight htest.tests hl hels .nil hfin, ?_, ?_⟩
    · exact ((hinner.append (.cons htest.tests.kinds.2 hinner')).append
        (.singleton (hels.inner rfl))).append (.singleton (hfin.inner rfl))
    · show d₁.code ++ _ = _
      rw [hcode₁]
      simp
  | @ifElse d d₁ d₂ head H H' test els fin T U hhead htest hbody hels hother hfin ih ih' =>
    obtain ⟨hstraight, hinner⟩ := hhead.straight
    have hanchored' := hanchored.opened_then hd hhead htest
    obtain ⟨l, hl, hinner₁, hcode₁⟩ := ih hd.opened (Draft.opened_code hcode) hanchored'
    obtain ⟨hd₁, hkeeps⟩ := hbody.keeps hd.opened
    have hmiddle : (d₁.alternative d.size d.current [els]).code =
        pre ++ H ++ (post ++ (head ++ [test]) ++ (l ++ [els])) := by
      show d₁.code ++ _ = _
      rw [hcode₁]
      simp
    have hsame : (d₁.alternative d.size d.current [els]).outermost? d₁.size =
        (d.opened .thenBranch (head ++ [test])).outermost? d.size :=
      (hkeeps.outermost?_otherwise hd hd₁).trans (Draft.outermost?_opened_then hd).symm
    have hlater : ∀ i ∈ l ++ [els], i.kind = .whileLabel → d.size + 1 ≤ i.scope := by
      intro i hi hkind
      rcases mem_append.1 hi with hi | hi
      · exact hbody.labels_new hd.opened hl i hi hkind
      · rw [mem_singleton.1 hi, hels.1] at hkind
        cases hkind
    obtain ⟨m, hm, hinner₂, hcode₂⟩ := ih' (hd.otherwise hd₁ hkeeps) hmiddle
      (hanchored'.append hd.opened hsame hlater)
    refine ⟨_, .branch hstraight htest.tests hl hels hm hfin, ?_, ?_⟩
    · exact ((hinner.append (.cons htest.tests.kinds.2 hinner₁)).append
        (.cons (hels.inner rfl) hinner₂)).append (.singleton (hfin.inner rfl))
    · show d₂.code ++ _ = _
      rw [hcode₂]
      simp
  | @loop d d₁ head H label test fin T hloop hhead hlabel htest hbody hfin ih =>
    obtain ⟨hstraight, hinner⟩ := hhead.straight
    obtain ⟨l, hl, hinner', hcode₁⟩ := ih hd.opened rfl (hhead.anchored_loop hd hloop hlabel htest)
    obtain ⟨hstraightH, hinnerH⟩ := straight_of_defines hbody.hoisted
    refine ⟨_, .seq (.straight hstraightH) (.loop hlabel hstraight htest hl hfin), ?_, ?_⟩
    · exact hinnerH.append ((Inner.cons (hlabel.inner rfl) (hinner.append
        (.cons (htest.inner rfl) hinner'))).append (.singleton (hfin.inner rfl)))
    · show d₁.code ++ _ = _
      rw [hcode₁, hcode]
      simp
  | @nested d d₁ head H label test fin outer T hloop hhead hlabel htest hbody hfin ih =>
    obtain ⟨hstraight, hinner⟩ := hhead.straight
    obtain ⟨l, hl, hinner', hcode₁⟩ := ih hd.opened (Draft.opened_code hcode)
      (hanchored.opened_nested hd hloop hhead hlabel htest)
    refine ⟨_, .loop hlabel hstraight htest hl hfin, ?_, ?_⟩
    · exact (Inner.cons (hlabel.inner rfl) (hinner.append
        (.cons (htest.inner rfl) hinner'))).append (.singleton (hfin.inner rfl))
    · show d₁.code ++ _ = _
      rw [hcode₁]
      simp

theorem Elaborates.hoists_nil (h : Elaborates d H T d') (hd : d.Formed)
    (hloop : d.outermost? d.current = none) : H = [] := by
  induction h with
  | step hstep =>
    cases hstep with
    | hoist hsome => cases hloop.symm.trans hsome
    | _ => rfl
  | seq hfirst _ ih ih' =>
    obtain ⟨hd₁, hkeeps⟩ := hfirst.keeps hd
    rw [ih hd hloop, ih' hd₁ ((hkeeps.outermost?_current hd).trans hloop), nil_append]
  | ifThen _ _ _ _ _ ih => exact ih hd.opened ((Draft.outermost?_opened_then hd).trans hloop)
  | @ifElse d d₁ d₂ head H H' test els fin T U _ _ hbody _ _ _ ih ih' =>
    obtain ⟨hd₁, hkeeps⟩ := hbody.keeps hd.opened
    rw [ih hd.opened ((Draft.outermost?_opened_then hd).trans hloop),
      ih' (hd.otherwise hd₁ hkeeps) ((hkeeps.outermost?_otherwise hd hd₁).trans hloop),
      nil_append]
  | loop => rfl
  | nested hsome => cases hloop.symm.trans hsome

theorem Elaborates.lays_outside (h : Elaborates d H T d') (hd : d.Formed)
    (hloop : d.outermost? d.current = none) : ∃ l, Lays T l ∧ Inner l ∧ d'.code = d.code ++ l := by
  have hanchored : d.Anchored [] := fun loop hsome => by cases hloop.symm.trans hsome
  obtain ⟨l, hl, hinner, hcode⟩ := h.lays hd (append_nil _).symm hanchored
  rw [h.hoists_nil hd hloop] at hcode
  exact ⟨l, hl, hinner, by simpa using hcode⟩

/-! ### Programs -/

/-- The code of a part of a program lays out its flow. A function stands between its bounds. -/
inductive Part.Lays : Part → List Instruction → Prop where
  | main {T : Flow} {l : List Instruction} (hlays : OnePass.Lays T l) (hinner : Inner l) :
      Lays ⟨none, T⟩ l
  | function {header : Nat} {T : Flow} {entry fin : Instruction} {l : List Instruction}
      (hlays : OnePass.Lays T (entry :: l)) (hentry : entry.Marks .functionBegin header)
      (hinner : Inner l) (hfin : fin.Marks .functionEnd header) :
      Lays ⟨some header, .seq T (.straight [])⟩ (entry :: l ++ [fin])

theorem Part.Lays.flow {part : Part} (h : part.Lays l) : OnePass.Lays part.flow l := by
  cases h with
  | main hlays => exact hlays
  | @function header T entry fin l hlays _ _ hfin =>
    have hdeeds : deeds [fin] = [] :=
      filterMap_cons_none (by rw [Instruction.deed?, hfin.1])
    have hstraight : Straight [fin] := forall_mem_singleton.2 (by rw [hfin.1]; rfl)
    exact .seq hlays (hdeeds ▸ .straight hstraight)

theorem Pops.straight {header : Nat} {pops : List Instruction} (h : Pops header params pops) :
    Straight pops ∧ Inner pops :=
  ⟨fun i hi => by rw [(h.2 i hi).1]; rfl, fun i hi => by rw [(h.2 i hi).1]; rfl⟩

theorem Draft.ancestors_root (hd : d.Formed) : d.ancestors ScopeTree.root = [ScopeTree.root] := by
  refine ancestorsBy_of_none ?_
  cases hparent : (d.outlines ScopeTree.root).parent with
  | none => rfl
  | some above => exact absurd (hd.rooted _ above hparent) (Nat.not_lt_zero _)

theorem Draft.ancestors_headed (hd : d.Formed) :
    (d.headed name params returns code).ancestors (d.size + 1) = [d.size + 1, d.size, ScopeTree.root] := by
  have hformed : (d.headed name params returns code).Formed := hd.headed
  have hbody : ((d.headed name params returns code).outlines (d.size + 1)).parent = some d.size := by
    rw [headed_parent hd, if_neg (Nat.succ_ne_self _), if_pos rfl]
  have hheader : ((d.headed name params returns code).outlines d.size).parent = some ScopeTree.root := by
    rw [headed_parent hd, if_pos rfl]
  rw [Draft.ancestors, ancestorsBy_of_some hformed.rooted hbody,
    ancestorsBy_of_some hformed.rooted hheader, ← Draft.ancestors, ancestors_root hformed]

theorem Draft.function?_of_root (hd : d.Formed) (hcurrent : d.current = ScopeTree.root)
    (hglobal : (d.outlines ScopeTree.root).kind = .global) : d.function? = none := by
  rw [Draft.function?, hcurrent, ancestors_root hd]
  refine List.find?_cons_of_neg ?_
  rw [hglobal]
  decide

theorem Draft.function?_headed (hd : d.Formed) :
    (d.headed name params returns code).function? = some d.size := by
  have hbody : ((d.headed name params returns code).outlines (d.size + 1)).kind = .functionBody := by
    rw [headed_body]
    rfl
  have hheader : ((d.headed name params returns code).outlines d.size).kind = .functionHeader := by
    rw [headed_header hd]
    rfl
  rw [Draft.function?, show (d.headed name params returns code).current = d.size + 1 from rfl,
    ancestors_headed hd, List.find?_cons_of_neg (by rw [hbody]; decide),
    List.find?_cons_of_pos (by rw [hheader]; decide)]

theorem Draft.outermost?_root (hd : d.Formed) (hglobal : (d.outlines ScopeTree.root).kind = .global) :
    d.outermost? ScopeTree.root = none := by
  rw [Draft.outermost?, ancestors_root hd, filter_cons, hglobal]
  rfl

theorem Draft.outermost?_headed (hd : d.Formed) (hglobal : (d.outlines ScopeTree.root).kind = .global) :
    (d.headed name params returns code).outermost? (d.size + 1) = none := by
  rw [Draft.outermost?, ancestors_headed hd]
  simp only [filter_cons, headed_body, headed_header hd, headed_root, hglobal]
  rfl

theorem Composes.lays (h : Composes parts d) :
    ∃ codes, List.Forall₂ Part.Lays parts codes ∧ d.code = codes.flatten := by
  induction h with
  | start =>
    have hdeeds : deeds Context.start.draft.code = [] := rfl
    refine ⟨[Context.start.draft.code], .cons (.main (hdeeds ▸ .straight ?_) ?_) .nil,
      (flatten_singleton).symm⟩
    · intro i hi
      rw [start_kind i hi]
      rfl
    · intro i hi
      rw [start_kind i hi]
      rfl
  | @statement parts d d' H T h hbody ih =>
    obtain ⟨codes, hcodes, hcode⟩ := ih
    obtain ⟨hsound, hcurrent, hglobal⟩ := h.sound
    have hloop : d.outermost? d.current = none :=
      hcurrent ▸ Draft.outermost?_root hsound.formed hglobal
    obtain ⟨l, hl, hinner, hcode'⟩ := hbody.lays_outside hsound.formed hloop
    refine ⟨codes ++ [l], rel_append hcodes (.cons (.main hl hinner) .nil), ?_⟩
    rw [hcode', hcode]
    simp
  | @function parts d d' name params returns entry fin pops H T h hname hfresh hparams hentry hpops hbody hfin
      ih =>
    obtain ⟨codes, hcodes, hcode⟩ := ih
    obtain ⟨hsound, -, hglobal⟩ := h.sound
    obtain ⟨l, hl, hinner, hcode'⟩ := hbody.lays_outside hsound.formed.headed
      (Draft.outermost?_headed hsound.formed hglobal)
    obtain ⟨hstraight, hpopsInner⟩ := hpops.straight
    have hentry' : Straight (entry :: pops) :=
      forall_mem_cons.2 ⟨by rw [hentry.1.1]; rfl, hstraight⟩
    have hlays : Lays (.seq (.straight (deeds (entry :: pops))) T) (entry :: (pops ++ l)) :=
      .seq (.straight hentry') hl
    refine ⟨codes ++ [entry :: (pops ++ l) ++ [fin]], rel_append hcodes
      (.cons (.function hlays hentry.1 (hpopsInner.append hinner) hfin.1) .nil), ?_⟩
    show d'.code ++ [fin] = _
    rw [hcode', show (d.headed name params returns (entry :: pops)).code = d.code ++ entry :: pops from rfl,
      hcode]
    simp

theorem forall₂_concat {α β : Type} {R : α → β → Prop} {l : List α} {a : α} {m : List β}
    (h : List.Forall₂ R (l ++ [a]) m) : ∃ m' b, m = m' ++ [b] ∧ List.Forall₂ R l m' ∧ R a b := by
  induction l generalizing m with
  | nil =>
    obtain ⟨b, _, hab, hnil, rfl⟩ := forall₂_cons_left_iff.1 h
    cases hnil
    exact ⟨[], b, rfl, .nil, hab⟩
  | cons first l ih =>
    obtain ⟨b, m, hfirst, hlater, rfl⟩ := forall₂_cons_left_iff.1 h
    obtain ⟨m', last, rfl, hl, hlast⟩ := ih hlater
    exact ⟨b :: m', last, rfl, .cons hfirst hl, hlast⟩

/-- The code of a program spans the scopes that are not those of built-in functions, whatever comes
after it. -/
theorem Composes.nests {parts : List Part} {codes : List (List Instruction)} {d : Draft}
    (h : Composes parts d) (hcodes : List.Forall₂ Part.Lays parts codes)
    (hlater : ∀ id, 11 ≤ id → id < d.size → SameBlock (d.outlines id) (outlines id)) :
    Nests outlines ⟨ScopeTree.root, 11, d.size⟩ codes.flatten := by
  induction h generalizing codes with
  | start =>
    obtain ⟨code, _, hcode, hnil, rfl⟩ := forall₂_cons_left_iff.1 hcodes
    cases hnil
    cases hcode with
    | main hlays hinner =>
      rw [flatten_singleton, ← hinner.inner_eq]
      exact start_size ▸ .bare hlays.straight_code.bare
  | @statement parts d d' H T h hbody ih =>
    obtain ⟨hsound, hcurrent, -⟩ := h.sound
    obtain ⟨-, hkeeps⟩ := hbody.keeps hsound.formed
    obtain ⟨codes, code, rfl, hcodes, hcode⟩ := forall₂_concat hcodes
    cases hcode with
    | main hlays hinner =>
      have hfirst := ih hcodes fun id hle hlt =>
        (hkeeps.sameBlock hlt).trans (hlater id hle (Nat.lt_of_lt_of_le hlt hkeeps.size_le))
      have hle₀ : 11 ≤ d.size := hfirst.le
      rw [flatten_concat]
      refine .append hfirst ?_
      · rw [← hcurrent, ← hinner.inner_eq]
        exact hbody.nests hsound.formed hlays fun id hle => hlater id (Nat.le_trans hle₀ hle)
  | @function parts d d' name params returns entry fin pops H T h hname hfresh hparams hentry hpops hbody
      hfin ih =>
    have hd : d.Formed := h.sound.1.formed
    have hformed : (d.headed name params returns (entry :: pops)).Formed := hd.headed
    obtain ⟨-, hkeeps⟩ := hbody.keeps hformed
    have hle : d.size + 2 ≤ d'.size := hkeeps.size_le
    obtain ⟨codes, code, rfl, hcodes, hcode⟩ := forall₂_concat hcodes
    have hfirst := ih hcodes fun id hle₀ hid => by
      have hold := hkeeps.sameBlock (Nat.lt_add_right 2 hid)
      have hpos : ScopeTree.root < id := Nat.lt_of_lt_of_le (by decide) hle₀
      rw [Draft.headed_of_ne (Nat.ne_of_gt hpos) (Nat.ne_of_lt hid)
        (Nat.ne_of_lt (Nat.lt_succ_of_lt hid))] at hold
      exact hold.trans (hlater id hle₀ (Nat.lt_of_lt_of_le (Nat.lt_add_right 2 hid) hle))
    have hle₀ : 11 ≤ d.size := hfirst.le
    have hheader := (hkeeps.sameBlock (Nat.lt_succ_of_lt (Nat.lt_succ_self d.size))).trans
      (hlater d.size hle₀ (Nat.lt_of_succ_lt hle))
    have hown := (hkeeps.sameBlock (Nat.lt_succ_self (d.size + 1))).trans
      (hlater (d.size + 1) (Nat.le_succ_of_le hle₀) hle)
    rw [Draft.headed_header hd] at hheader
    rw [Draft.headed_body] at hown
    cases hcode with
    | @function header T' entry' fin' l hlays hentry' hinner hfin' =>
      have hbody' : Nests outlines ⟨d.size + 1, d.size + 2, d'.size⟩ (inner (entry' :: l)) := by
        generalize entry' :: l = code at hlays
        cases hlays with
        | seq hpops hlays =>
          rw [inner_append]
          exact .append (.bare hpops.straight_code.bare) (hbody.nests hformed hlays fun id hid =>
            hlater id (Nat.le_trans hle₀ (Nat.le_of_add_right_le hid)))
      rw [inner, filter_cons_of_neg (by rw [hentry'.1]; decide), ← inner, hinner.inner_eq] at hbody'
      have hblock := Nests.block
        (.function ⟨hheader.1, hheader.2.1⟩ ⟨hown.1, hown.2.1⟩ hentry' hfin') hbody' (.bare (forall_mem_nil _))
      simpa [Draft.ended, Draft.write] using hfirst.append hblock

theorem Composes.marksOnce {codes : List (List Instruction)} (h : Composes parts d)
    (hcodes : List.Forall₂ Part.Lays parts codes) : MarksOnce codes.flatten :=
  (h.nests hcodes fun _ _ _ => ⟨rfl, rfl, rfl⟩).marksOnce h.sound.1.formed.rooted

/-! ### Trimmed programs -/

theorem Inner.trim (h : Inner l) (htrims : Trims l m) : Inner m := by
  intro j hj
  obtain ⟨i, hi, hbecomes⟩ := htrims.exists_becomes hj
  rw [hbecomes.fields.1]
  exact h i hi

theorem Part.Lays.trim {part : Part} (h : part.Lays l) (htrims : Trims l m) : part.Lays m := by
  cases h with
  | main hlays hinner => exact .main (hlays.trim htrims) (hinner.trim htrims)
  | @function header T entry fin l hlays hentry hinner hfin =>
    obtain ⟨_, _, rfl, hfront, hback⟩ := htrims.of_append
    obtain ⟨fin', _, rfl, hbecomes', hnil⟩ := hback.of_cons (hfin.kind_ne (by decide))
    cases hnil
    have hlays' := hlays.trim hfront
    obtain ⟨entry', l', rfl, hbecomes, hrest⟩ := hfront.of_cons (hentry.kind_ne (by decide))
    exact .function hlays' (hbecomes.marks.2 hentry) (hinner.trim hrest) (hbecomes'.marks.2 hfin)

theorem lays_trim {codes : List (List Instruction)} (h : List.Forall₂ Part.Lays parts codes)
    (htrims : Trims codes.flatten code) :
    ∃ codes', List.Forall₂ Part.Lays parts codes' ∧ code = codes'.flatten := by
  induction h generalizing code with
  | nil =>
    cases htrims
    exact ⟨[], .nil, rfl⟩
  | cons hpart _ ih =>
    obtain ⟨l, m, rfl, hl, hm⟩ := htrims.of_append
    obtain ⟨codes', hcodes', rfl⟩ := ih hm
    exact ⟨l :: codes', .cons (hpart.trim hl) hcodes', rfl⟩

end OnePass
