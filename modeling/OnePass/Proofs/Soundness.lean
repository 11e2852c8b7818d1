import OnePass.Proofs.Elaboration

/-!
# Sound drafts

A draft is sound if nothing is missing in it that is looked up later: the parameters and symbols of
functions, the labels of loops, the names and literals of instructions, and the instructions that
drop the results of calls.

Main result:

* `Elaborates.sound` — **statements keep drafts sound**.
-/

namespace OnePass

open List

variable {i : Instruction} {d : Draft} {code : List Instruction}

/-! ### Instructions -/

/-- Whether the lines of an instruction need a name. -/
def InstructionKind.isNamed : InstructionKind → Bool
  | defineVariable | pushVariable | popVariable | ifLetCondition | functionBegin | paramPop
  | functionEnd | call => true
  | _ => false

/-- An instruction carries what its lines need. -/
def Instruction.Renderable (i : Instruction) : Prop :=
  (i.kind.isNamed → ∃ name, i.name? = some name) ∧
    (i.kind = .pushLiteral → (i.payload.bind Target.literal?).isSome)

theorem Instruction.renderable_of_kind (hnamed : i.kind.isNamed = false)
    (hliteral : i.kind ≠ .pushLiteral) : i.Renderable :=
  ⟨fun h => absurd h (by rw [hnamed]; exact Bool.false_ne_true), fun h => absurd h hliteral⟩

theorem Instruction.renderable_of_name {name : String} (hname : i.name? = some name)
    (hliteral : i.kind ≠ .pushLiteral) : i.Renderable :=
  ⟨fun _ => ⟨name, hname⟩, fun h => absurd h hliteral⟩

theorem Instruction.Marks.renderable {kind : InstructionKind} {scope : Nat} (h : i.Marks kind scope)
    (hnamed : kind.isNamed = false) (hliteral : kind ≠ .pushLiteral) : i.Renderable :=
  renderable_of_kind (h.1 ▸ hnamed) (h.1 ▸ hliteral)

theorem Draft.Plain.renderable (h : d.Plain i) : i.Renderable := by
  cases h with
  | literal hkind hpayload => exact ⟨fun h => (by rw [hkind] at h; cases h), fun _ => hpayload⟩
  | «variable» hkind hname =>
    refine Instruction.renderable_of_name hname ?_
    rcases hkind with hkind | hkind <;> rw [hkind] <;> decide
  | operation hkind =>
    refine Instruction.renderable_of_kind ?_ ?_ <;> revert hkind <;> cases i.kind <;> decide

theorem Draft.Conditions.renderable {scope : Nat} (h : d.Conditions scope i) : i.Renderable := by
  rcases h with h | ⟨h, name, owner, hname, -⟩
  · exact h.renderable rfl (by decide)
  · exact Instruction.renderable_of_name hname (by rw [h.1]; decide)

/-! ### Calls whose results are dropped -/

/-- A call is directly followed by an instruction that drops its result. -/
def Scaffolded (code : List Instruction) (callId : Nat) : Prop :=
  ∃ pre call drop post, code = pre ++ call :: drop :: post ∧ call.kind = .call ∧
    call.counter = callId ∧ drop.kind = .discardResult

theorem Scaffolded.append {callId : Nat} (h : Scaffolded code callId) (later : List Instruction) :
    Scaffolded (code ++ later) callId := by
  obtain ⟨pre, call, drop, post, rfl, hrest⟩ := h
  exact ⟨pre, call, drop, post ++ later, by simp, hrest⟩

theorem Scaffolded.insert {callId : Nat} {pre post : List Instruction} {new : Instruction}
    (h : Scaffolded (pre ++ i :: post) callId) (hi : i.kind ≠ .discardResult) :
    Scaffolded (pre ++ new :: i :: post) callId := by
  obtain ⟨before, call, drop, after, heq, hcall, hcounter, hdrop⟩ := h
  rcases append_eq_append_iff.1 heq with ⟨between, rfl, hrest⟩ | ⟨between, rfl, hrest⟩
  · -- the call is behind the place
    cases between with
    | nil =>
      cases hrest
      exact ⟨pre ++ [new], i, drop, after, by simp, hcall, hcounter, hdrop⟩
    | cons first between =>
      cases hrest
      exact ⟨pre ++ new :: i :: between, call, drop, after, by simp, hcall, hcounter, hdrop⟩
  · -- the call is before the place, and its drop is not the instruction behind the place
    match between, hrest with
    | [], hrest =>
      cases hrest
      exact ⟨before ++ [new], i, drop, after, by simp, hcall, hcounter, hdrop⟩
    | [_], hrest =>
      cases hrest
      exact absurd hdrop hi
    | _ :: _ :: between, hrest =>
      cases hrest
      exact ⟨before, call, drop, between ++ new :: i :: post, by simp, hcall, hcounter, hdrop⟩

/-! ### Soundness -/

namespace Draft

variable {code : List Instruction}

/-- The head of a function is complete: its symbol and all its parameters are there. -/
def Complete (d : Draft) (header : Nat) : Prop :=
  (∃ returns, d.Results (d.outlines header).name returns) ∧ ∀ index < (d.outlines header).parameters,
      ∃ name base, (name, ⟨.parameter index, base⟩) ∈ d.names header

/-- The code of a draft holds what is looked up in it and can be rendered. -/
structure SoundCode (d : Draft) : Prop where
  renderable : ∀ i ∈ d.code, i.Renderable
  start : ∃ first rest, d.code = first :: rest ∧ first.kind = .programStart
  sites : ∀ site ∈ d.calls.recorded, site.scaffolded → Scaffolded d.code site.callId
  numbered : d.calls.recorded.map (·.callId) = (List.range' 1 d.calls.length).reverse

/-- Nothing is missing in a draft between statements. -/
structure Sound (d : Draft) : Prop where
  formed : d.Formed
  here : (d.outlines d.current).kind ≠ .functionHeader
  headers : ∀ id < d.size, (d.outlines id).kind = .functionHeader → d.Complete id
  loops : ∀ id < d.size, (d.outlines id).kind = .whileBody → ∃ i ∈ d.code, i.Marks .whileLabel id
  code : d.SoundCode

variable {d d' : Draft}

theorem Complete.extend {header : Nat} (h : d.Complete header) (hextends : d.Extends d')
    (hlt : header < d.size) : d'.Complete header := by
  obtain ⟨⟨returns, builtin, hsymbol⟩, hparameters⟩ := h
  obtain ⟨-, hname, -, hcount⟩ := hextends.fixed header hlt
  refine ⟨⟨returns, builtin, ?_⟩, fun index hindex => ?_⟩
  · rw [hname]
    exact hextends.names _ (Nat.lt_of_le_of_lt (Nat.zero_le _) hlt) hsymbol
  · obtain ⟨name, base, hmem⟩ := hparameters index (hcount ▸ hindex)
    exact ⟨name, base, hextends.names header hlt hmem⟩

theorem Sound.complete_of_function? {header : Nat} (h : d.Sound) (hheader : d.function? = some header) :
    d.Complete header := by
  have hmem := mem_of_find?_eq_some hheader
  have hkind := List.find?_some hheader
  exact h.headers header (Nat.lt_of_le_of_lt (le_of_mem_ancestorsBy h.formed.rooted hmem)
    h.formed.current_lt) (eq_of_beq hkind)

theorem SoundCode.write (h : d.SoundCode) (hcode : ∀ i ∈ code, i.Renderable) : (d.write code).SoundCode where
  renderable i hi := by
    rcases mem_append.1 hi with hi | hi
    · exact h.renderable i hi
    · exact hcode i hi
  start := by
    obtain ⟨first, rest, heq, hfirst⟩ := h.start
    exact ⟨first, rest ++ code, by simp [Draft.write, heq], hfirst⟩
  sites site hsite hdropped := (h.sites site hsite hdropped).append code
  numbered := h.numbered

theorem SoundCode.congr (h : d.SoundCode) (hcode : d'.code = d.code) (hcalls : d'.calls = d.calls) :
    d'.SoundCode := by
  obtain ⟨hrenderable, hstart, hsites, hnumbered⟩ := h
  rw [← hcode] at hrenderable hstart hsites
  rw [← hcalls] at hsites hnumbered
  exact ⟨hrenderable, hstart, hsites, hnumbered⟩

theorem Sound.extend (h : d.Sound) (hextends : d.Extends d') (hformed : d'.Formed)
    (hhere : (d'.outlines d'.current).kind ≠ .functionHeader) (hcode : d'.SoundCode)
    (hnew : ∀ id, d.size ≤ id → id < d'.size → (d'.outlines id).kind ≠ .functionHeader ∧
      ((d'.outlines id).kind = .whileBody → ∃ i ∈ d'.code, i.Marks .whileLabel id)) :
    d'.Sound where
  formed := hformed
  here := hhere
  headers id hlt hkind := by
    by_cases hold : id < d.size
    · exact (h.headers id hold ((hextends.fixed id hold).1 ▸ hkind)).extend hextends hold
    · exact absurd hkind (hnew id (Nat.le_of_not_lt hold) hlt).1
  loops id hlt hkind := by
    by_cases hold : id < d.size
    · obtain ⟨i, hi, hmarks⟩ := h.loops id hold ((hextends.fixed id hold).1 ▸ hkind)
      exact ⟨i, hextends.code hi, hmarks⟩
    · exact (hnew id (Nat.le_of_not_lt hold) hlt).2 hkind
  code := hcode

theorem Sound.opened {kind : ScopeKind} (h : d.Sound) (hkind : kind ≠ .functionHeader)
    (hlabel : kind = .whileBody → ∃ i ∈ code, i.Marks .whileLabel d.size)
    (hcode : ∀ i ∈ code, i.Renderable) : (d.opened kind code).Sound := by
  have hnew : ((d.opened kind code).outlines d.size).kind = kind :=
    congrArg Scope.kind (opened_new h.formed)
  refine h.extend extends_opened h.formed.opened (fun hhere => hkind (hnew.symm.trans hhere))
    ((h.code.write hcode).congr rfl rfl) fun id hle hlt => ?_
  obtain rfl : id = d.size := Nat.le_antisymm (Nat.le_of_lt_succ hlt) hle
  refine ⟨fun hid => hkind (hnew.symm.trans hid), fun hid => ?_⟩
  obtain ⟨i, hi, hmarks⟩ := hlabel (hnew.symm.trans hid)
  exact ⟨i, mem_append_right _ hi, hmarks⟩

theorem Sound.alternative {scope parent : Nat} (h : d.Sound) (hscope : scope < d.size)
    (hparent : parent < d.size) (hne : scope ≠ parent) (hcode : ∀ i ∈ code, i.Renderable) :
    (d.alternative scope parent code).Sound := by
  have hnew : ((d.alternative scope parent code).outlines d.size).kind = .elseBranch :=
    congrArg Scope.kind (alternative_new hscope hparent)
  refine h.extend (extends_alternative hscope hne) (h.formed.alternative hscope hparent hne)
    (fun hhere => ScopeKind.noConfusion (hnew.symm.trans hhere))
    ((h.code.write hcode).congr rfl rfl) fun id hle hlt => ?_
  obtain rfl : id = d.size := Nat.le_antisymm (Nat.le_of_lt_succ hlt) hle
  constructor <;> intro hid <;> exact ScopeKind.noConfusion (hnew.symm.trans hid)

theorem Sound.closed {parent : Nat} (h : d.Sound) (hparent : parent < d.size)
    (hkind : (d.outlines parent).kind ≠ .functionHeader) (hcode : ∀ i ∈ code, i.Renderable) :
    (d.closed parent code).Sound :=
  h.extend (extends_closed parent) (h.formed.closed hparent) hkind
    ((h.code.write hcode).congr rfl rfl) fun _ hle hlt => absurd hlt (Nat.not_lt.2 hle)

theorem Sound.closed_block {d₁ : Draft} (h : d.Sound) (h₁ : d₁.Sound)
    (hkeeps : d.Keeps (d₁.closed d.current code)) (hcode : ∀ i ∈ code, i.Renderable) :
    (d₁.closed d.current code).Sound := by
  refine h₁.closed (Nat.lt_of_lt_of_le h.formed.current_lt hkeeps.size_le) ?_ hcode
  have hkind := (hkeeps.toExtends.fixed _ h.formed.current_lt).1
  exact fun hheader => h.here (hkind.symm.trans hheader)

theorem Sound.opened_then {head : List Instruction} {test : Instruction} {level : Nat} (h : d.Sound)
    (hhead : d.Plains head level) (htest : d.Conditions d.size test) :
    (d.opened .thenBranch (head ++ [test])).Sound := by
  refine h.opened (by decide) (fun hkind => ScopeKind.noConfusion hkind) fun i hi => ?_
  rcases mem_append.1 hi with hi | hi
  · exact (hhead.plain i hi).renderable
  · obtain rfl := mem_singleton.1 hi
    exact htest.renderable

theorem Sound.opened_while {head : List Instruction} {label test : Instruction} {level : Nat}
    (h : d.Sound) (hlabel : label.Marks .whileLabel d.size) (hhead : d.Plains head level)
    (htest : test.Marks .whileCondition d.size) :
    (d.opened .whileBody (label :: head ++ [test])).Sound := by
  refine h.opened (by decide) (fun _ => ⟨label, mem_cons_self, hlabel⟩) fun i hi => ?_
  simp only [cons_append, mem_cons, mem_append, not_mem_nil, or_false] at hi
  rcases hi with rfl | hi | rfl
  · exact hlabel.renderable rfl (by decide)
  · exact (hhead.plain i hi).renderable
  · exact htest.renderable rfl (by decide)

end Draft

/-! ### Statements -/

theorem Draft.Calling.renderable {site : CallSite} {after : List Instruction} (h : d.Calling site code)
    (hafter : d.Receives site after) : ∀ i ∈ code ++ after, i.Renderable := by
  intro i hi
  rcases h.of_mem_append hafter hi with hplain | ⟨hkind, hname, -⟩ | hkind
  · exact hplain.renderable
  · exact Instruction.renderable_of_name hname (by rw [hkind]; decide)
  · exact Instruction.renderable_of_kind (by rw [hkind]; rfl) (by rw [hkind]; decide)

theorem Draft.Calling.scaffolded {site : CallSite} (h : d.Calling site code) (hdropped : site.scaffolded)
    (before : List Instruction) : Scaffolded (before ++ code) site.callId := by
  cases h with
  | written _ hkept | kept _ hkept =>
    rw [hdropped] at hkept
    cases hkept
  | @dropped pushes call drop _ _ _ _ hcall hdrop =>
    exact ⟨before ++ pushes, call, drop, [], by simp, hcall.1, hcall.2.2, hdrop⟩

theorem Step.soundCode {d' : Draft} {H : List Instruction} (h : Step d H code d') (hd : d.SoundCode) :
    d'.SoundCode := by
  cases h with
  | skip => exact hd
  | store hvalue hpop =>
    exact (hd.write fun i hi => (hvalue.store hpop i hi).renderable).congr rfl rfl
  | @call site code after hid hcode hafter =>
    obtain ⟨hrenderable, hstart, hsites, hnumbered⟩ := hd.write (hcode.renderable hafter)
    refine ⟨hrenderable, hstart, ?_, ?_⟩
    · intro other hother hdropped
      rcases mem_cons.1 hother with rfl | hother
      · have hscaffolded := (hcode.scaffolded hdropped d.code).append after
        rw [append_assoc] at hscaffolded
        exact hscaffolded
      · exact hsites other hother hdropped
    · have hlength : (d.calls.record site).length = d.calls.length + 1 := rfl
      have hrecorded : (d.calls.record site).recorded = site :: d.calls.recorded := rfl
      have hold : d.calls.recorded.map (·.callId) = (List.range' 1 d.calls.length).reverse :=
        hd.numbered
      show ((d.calls.record site).recorded.map fun site => site.callId) = _
      rw [hrecorded, hlength, List.range'_concat, reverse_concat, map_cons, hold, hid]
      simp [Calls.nextId, Nat.add_comm]
  | giveBack hvalue _ hkind =>
    refine (hd.write fun i hi => ?_).congr rfl rfl
    rcases mem_append.1 hi with hi | hi
    · exact (hvalue.plain i hi).renderable
    · obtain rfl := mem_singleton.1 hi
      exact Instruction.renderable_of_kind (by rw [hkind]; rfl) (by rw [hkind]; decide)
  | declare _ _ hdefine =>
    refine (hd.write fun i hi => ?_).congr rfl rfl
    obtain rfl := mem_singleton.1 hi
    exact Instruction.renderable_of_name hdefine.2 (by rw [hdefine.1]; decide)
  | @hoist _ _ define label pre post _ _ _ hdefine hcode hlabel _ =>
    obtain ⟨hrenderable, ⟨first, rest, hstart, hfirst⟩, hsites, hnumbered⟩ := hd
    rw [hcode] at hrenderable hsites hstart
    refine ⟨fun i hi => ?_, ?_, fun site hsite hdropped => ?_, hnumbered⟩
    · have hmem : i = define ∨ i ∈ pre ++ label :: post := by
        simp only [Draft.declare, mem_append, mem_cons] at hi ⊢
        tauto
      rcases hmem with rfl | hmem
      · exact Instruction.renderable_of_name hdefine.2 (by rw [hdefine.1]; decide)
      · exact hrenderable i hmem
    · -- a label is not the sentinel, so the first instruction stays the first
      cases pre with
      | nil =>
        cases hstart
        rw [hlabel.1] at hfirst
        cases hfirst
      | cons _ pre =>
        cases hstart
        exact ⟨first, pre ++ define :: label :: post, rfl, hfirst⟩
    · exact (hsites site hsite hdropped).insert (by rw [hlabel.1]; decide)

theorem Elaborates.sound {d' : Draft} {H : List Instruction} {T : Flow} (h : Elaborates d H T d')
    (hd : d.Sound) : d'.Sound := by
  induction h with
  | step hstep =>
    refine hd.extend hstep.keeps.toExtends (hstep.formed hd.formed) ?_ (hstep.soundCode hd.code) ?_
    · rw [hstep.keeps.current, (hstep.keeps.toExtends.fixed _ hd.formed.current_lt).1]
      exact hd.here
    · intro id hle hlt
      have hsize := hstep.size_eq
      omega
  | seq _ _ ih ih' => exact ih' (ih hd)
  | ifThen hhead htest hbody hels hfin ih =>
    have hopened := hd.opened_then hhead htest
    obtain ⟨-, hkeeps⟩ := hbody.keeps hopened.formed
    refine hd.closed_block (ih hopened) (hkeeps.block hd.formed) ?_
    simp [hels.renderable rfl (by decide), hfin.renderable rfl (by decide)]
  | ifElse hhead htest hbody hels hother hfin ih ih' =>
    have hopened := hd.opened_then hhead htest
    obtain ⟨-, hkeeps⟩ := hbody.keeps hopened.formed
    have hscope := Nat.lt_of_lt_of_le (Nat.lt_succ_self _) hkeeps.size_le
    have hmiddle := (ih hopened).alternative hscope (Nat.lt_trans hd.formed.current_lt hscope)
      (Nat.ne_of_gt hd.formed.current_lt)
      (forall_mem_singleton.2 (hels.renderable rfl (by decide)))
    obtain ⟨-, hkeeps'⟩ := hother.keeps hmiddle.formed
    exact hd.closed_block (ih' hmiddle) (hkeeps.blocks_else hd.formed hkeeps')
      (forall_mem_singleton.2 (hfin.renderable rfl (by decide)))
  | loop _ hhead hlabel htest hbody hfin ih | nested _ hhead hlabel htest hbody hfin ih =>
    have hopened := hd.opened_while hlabel hhead htest
    obtain ⟨-, hkeeps⟩ := hbody.keeps hopened.formed
    exact hd.closed_block (ih hopened) (hkeeps.block hd.formed)
      (forall_mem_singleton.2 (hfin.renderable rfl (by decide)))

end OnePass
