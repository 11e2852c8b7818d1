import OnePass.Proofs.Balance
import OnePass.Proofs.Safety
import OnePass.Proofs.JumpGraph

/-!
# Heights of the data stack

A run through a body takes the edges of its jump graph, and the values on the data stack are counted on
the way.  The code of a program is balanced when it is read from its beginning to its end, and nothing is
on the stack where control jumps from or to, so the count is the same on all paths.

Main results:

* `Signature.Leads.bodyFrom` — the bodies of balanced code are balanced;
* `Accepted.signed` — an accepted program agrees with its signature;
* `stack_discipline` — **the height of the data stack depends on the place alone, suffices for every
  instruction, and is zero between statements**.
-/

namespace OnePass

open List

/-! ### Bodies -/

namespace Signature

variable {σ : Signature} {s s' : Count} {i : Instruction} {code : List Instruction}

theorem next_of_inner (hbegin : i.kind ≠ .functionBegin) (hend : i.kind ≠ .functionEnd) :
    (σ.next s i).inside = s.inside ∧ (s.taking = false → (σ.next s i).taking = false) := by
  unfold next
  split
  · rename_i hkind
    exact absurd hkind hbegin
  · rename_i hkind
    exact absurd hkind hend
  · exact ⟨rfl, id⟩
  · exact ⟨rfl, fun _ => rfl⟩

theorem Leads.inside_of_inner (h : σ.Leads s code s') (hcode : Inner code) : s'.inside = s.inside := by
  induction h with
  | nil => rfl
  | @cons s s' i code _ _ ih =>
    obtain ⟨hi, hcode⟩ := forall_mem_cons.1 hcode
    obtain ⟨hbegin, hend⟩ := InstructionKind.ne_of_isBound hi
    rw [ih hcode, (next_of_inner hbegin hend).1]

theorem Leads.bodyFrom (h : σ.Leads s code s') (body : Option Nat) {inside : Option Nat}
    (hinside : s.inside = none ↔ inside = none) (htaking : s.inside = none → s.taking = false)
    (hlevel : s'.level = 0) :
    ∃ t, σ.Leads (if inside = body then s else .start) (OnePass.bodyFrom body inside code) t ∧
      t.level = 0 := by
  induction h generalizing inside with
  | nil s =>
    refine ⟨_, .nil _, ?_⟩
    split
    · exact hlevel
    · rfl
  | @cons s s' i code hi _ ih =>
    rw [OnePass.bodyFrom]
    by_cases hbegin : i.kind = .functionBegin
    · -- a function begins where nothing is on the stack of the main program
      obtain ⟨hnone, hzero, hname⟩ := hi.begins hbegin
      have hs : s = .start := by
        obtain ⟨_, _, _⟩ := s
        cases hnone
        cases hzero
        cases htaking rfl
        rfl
      have hnext : (σ.next s i).inside ≠ none := by
        rw [show (σ.next s i).inside = i.name? by simp [next, hbegin]]
        exact Option.isSome_iff_ne_none.1 hname
      obtain ⟨t, hleads, ht⟩ := @ih (some i.scope) (iff_of_false hnext (Option.some_ne_none _))
        (fun h => absurd h hnext) hlevel
      have hstart : (if inside = body then s else .start) = Count.start := by
        split
        · exact hs
        · rfl
      simp only [hbegin, if_true, reduceCtorEq, if_false, hstart]
      split at hleads
      · rename_i hbody
        rw [if_pos hbody]
        rw [hs] at hi hleads
        exact ⟨t, .cons hi hleads, ht⟩
      · rename_i hbody
        rw [if_neg hbody]
        exact ⟨t, hleads, ht⟩
    · by_cases hend : i.kind = .functionEnd
      · -- and it ends with an empty stack
        have hnext : σ.next s i = .start := by
          have hzero : (σ.next s i).level = 0 := hi.complete (.inl (by rw [hend]; rfl))
          have heq : σ.next s i = ⟨none, false, s.level⟩ := by simp [next, hend]
          rw [heq] at hzero ⊢
          exact congrArg _ hzero
        obtain ⟨t, hleads, ht⟩ := @ih none (by rw [hnext]; exact iff_of_true rfl rfl)
          (by rw [hnext]; exact fun _ => rfl) hlevel
        have hstart : (if none = body then σ.next s i else .start) = Count.start := by
          split
          · exact hnext
          · rfl
        rw [hstart] at hleads
        simp only [hend, reduceCtorEq, if_false, if_true]
        split
        · exact ⟨t, .cons hi (hnext ▸ hleads), ht⟩
        · exact ⟨t, hleads, ht⟩
      · obtain ⟨hsame, hkept⟩ := @next_of_inner σ s i hbegin hend
        obtain ⟨t, hleads, ht⟩ := @ih inside (hsame ▸ hinside) (fun h => hkept (htaking (hsame ▸ h))) hlevel
        simp only [hbegin, hend, if_false]
        split
        · rename_i hbody
          rw [if_pos hbody] at hleads
          exact ⟨t, .cons hi hleads, ht⟩
        · rename_i hbody
          rw [if_neg hbody] at hleads
          exact ⟨t, hleads, ht⟩

theorem Leads.at_place {t : Count} (h : σ.Leads s code t) (place : Nat) :
    ∃ s', σ.Leads s (code.take place) s' ∧ σ.Leads s' (code.drop place) t := by
  rw [← take_append_drop place code] at h
  exact h.split

theorem Leads.step {t : Count} {place : Nat} (h : σ.Leads s code t) (hi : code[place]? = some i)
    (hs' : σ.Leads s (code.take place) s') :
    σ.Admits s' i ∧ σ.Leads s (code.take (place + 1)) (σ.next s' i) := by
  obtain ⟨s₁, hfirst, hsecond⟩ := h.at_place place
  cases hfirst.unique hs'
  obtain ⟨hlt, rfl⟩ := List.getElem?_eq_some_iff.1 hi
  rw [drop_eq_getElem_cons hlt] at hsecond
  cases hsecond with
  | cons hadmits _ =>
    rw [take_succ_eq_append_getElem hlt]
    exact ⟨hadmits, hfirst.append (.single hadmits)⟩

theorem Admits.level_next (h : σ.Admits s i) (hkind : i.kind ≠ .functionBegin) :
    ((σ.next s i).level : Int) = s.level - σ.takes s.inside i + σ.leaves i := by
  have henough := h.enough
  unfold next
  split
  · exact absurd ‹_› hkind
  · simp [takes, leaves, ‹i.kind = _›, InstructionKind.takes, InstructionKind.leaves]
  · rename_i hpop
    simp only [takes, leaves, hpop, InstructionKind.takes, InstructionKind.leaves] at henough ⊢
    omega
  · dsimp only
    omega

/-! ### Edges -/

section edges

variable {t : Count} {p q : Nat}

theorem Leads.behind (h : σ.Leads s code t) (hi : code[p]? = some i) (hkind : i.kind.completes) :
    ∃ s', σ.Leads s (code.take (p + 1)) s' ∧ s'.level = 0 := by
  obtain ⟨s₁, hs₁, -⟩ := h.at_place p
  obtain ⟨hadmits, hnext⟩ := h.step hi hs₁
  exact ⟨_, hnext, hadmits.complete (.inl hkind)⟩

theorem Leads.front (h : σ.Leads s code t) (hi : code[p]? = some i)
    (hkind : i.kind = .endIf ∨ i.kind = .whileLabel) :
    ∃ s', σ.Leads s (code.take p) s' ∧ s'.level = 0 := by
  obtain ⟨s₁, hs₁, -⟩ := h.at_place p
  obtain ⟨hadmits, -⟩ := h.step hi hs₁
  have hzero : (σ.next s₁ i).level = 0 :=
    hadmits.complete (.inl (by rcases hkind with hkind | hkind <;> rw [hkind] <;> rfl))
  have hlevel : (σ.next s₁ i).level = s₁.level := by
    rcases hkind with hkind | hkind <;>
      simp [next, takes, leaves, hkind, InstructionKind.takes, InstructionKind.leaves]
  exact ⟨s₁, hs₁, hlevel.symm.trans hzero⟩

theorem Leads.edge (h : σ.Leads s code t) (hi : code[p]? = some i) (hstep : Steps code p q)
    (hs' : σ.Leads s (code.take p) s') :
    ∃ s'', σ.Leads s (code.take q) s'' ∧ s''.level = (σ.next s' i).level := by
  obtain ⟨hadmits, hnext⟩ := h.step hi hs'
  have hdirect : q = p + 1 → ∃ s'', σ.Leads s (code.take q) s'' ∧ s''.level = (σ.next s' i).level := by
    rintro rfl
    exact ⟨_, hnext, rfl⟩
  have hzero : i.kind.completes → (σ.next s' i).level = 0 := fun hkind => hadmits.complete (.inl hkind)
  cases hkind : i.kind with
  | ifCondition | ifLetCondition =>
    have htest : i.Tests i.scope := by simp [Instruction.Tests, Instruction.Marks, hkind]
    rcases hstep.of_test hi htest with hq | ⟨e, he, rfl⟩
    · exact hdirect hq
    · obtain ⟨els, hels, hmarks⟩ := mem_positions.1 he
      rw [hzero (by rw [hkind]; rfl)]
      exact h.behind hels (by rw [hmarks.1]; rfl)
  | elseMark =>
    obtain ⟨fin, hfin, hmarks⟩ := mem_positions.1 (hstep.of_elseMark hi ⟨hkind, rfl⟩)
    rw [hzero (by rw [hkind]; rfl)]
    exact h.front hfin (.inl hmarks.1)
  | whileCondition =>
    rcases hstep.of_whileCondition hi ⟨hkind, rfl⟩ with hq | ⟨e, he, rfl⟩
    · exact hdirect hq
    · obtain ⟨fin, hfin, hmarks⟩ := mem_positions.1 he
      rw [hzero (by rw [hkind]; rfl)]
      exact h.behind hfin (by rw [hmarks.1]; rfl)
  | endWhile =>
    obtain ⟨label, hlabel, hmarks⟩ := mem_positions.1 (hstep.of_endWhile hi ⟨hkind, rfl⟩)
    rw [hzero (by rw [hkind]; rfl)]
    exact h.front hlabel (.inr hmarks.1)
  | _ => exact hdirect (hstep.next hi (by simp [hkind, InstructionKind.isMark]))

end edges

end Signature

/-! ### Runs through bodies -/

namespace Program

/-- The numbers of arguments and results of the functions of a program. -/
def signature (p : Program) : Signature where
  arity name := ((p.scopes.function? name).map fun header => (p.scopes.scope header).parameters).getD 0
  results name := if p.scopes.functionResult? name = some .void then 0 else 1

/-- The name of the function that a body belongs to. -/
def functionName (p : Program) (body : Option Nat) : Option String :=
  body.map fun header => (p.scopes.scope header).name

/-- The number of values on the stack at the beginning of a body: the arguments of its function. -/
def arguments (p : Program) (body : Option Nat) : Nat :=
  (body.map fun header => (p.scopes.scope header).parameters).getD 0

/-- A run through a body reaches a place with a number of values on the stack. Calls step over the
functions that they call. -/
inductive Reaches (p : Program) (body : Option Nat) : Nat → Int → Prop where
  | entry : Reaches p body 0 (p.arguments body)
  | step {place next : Nat} {height : Int} {i : Instruction} (h : Reaches p body place height)
      (hi : (bodyCode body p.stream.code)[place]? = some i)
      (hstep : Steps (bodyCode body p.stream.code) place next) :
      Reaches p body next (height - p.signature.takes (p.functionName body) i + p.signature.leaves i)

/-- The places between statements: behind an instruction that completes a statement or opens or closes a
block, and behind the last parameter. -/
def Boundary (p : Program) (body : Option Nat) (place : Nat) : Prop :=
  ∃ before i, place = before + 1 ∧ (bodyCode body p.stream.code)[before]? = some i ∧
    (p.signature.completes i ∨ (i.kind = .functionBegin ∨ i.kind = .paramPop) ∧
      ∀ j, (bodyCode body p.stream.code)[place]? = some j → j.kind ≠ .paramPop)

end Program

/-! ### Accepted programs -/

theorem Ty.accepts_void (ty : Ty) : ty.accepts .void = false := by
  rcases ty with (_ | _ | _) | (_ | _ | _) | _ | _ | _ <;> rfl

section accepted

variable {c : Context} {p : Program}
variable {i : Instruction} {body : Option Nat} {place : Nat} {height : Int}

theorem Accepted.signed (h : Accepted c p) : c.draft.Signed p.signature (vain c.scopes c.calls.recorded) := by
  obtain ⟨hfit, parts, hparts⟩ := h.composed
  have hresult : ∀ {name : String} {returns : Ty}, c.scopes.functionResult? name = some returns →
      p.signature.results name = if returns = .void then 0 else 1 := by
    intro name returns hreturns
    show (if p.scopes.functionResult? name = some .void then 0 else 1) = _
    rw [h.scopes, hreturns]
    simp only [Option.some_inj]
  have harity : ∀ {name : String} {header : Nat}, c.scopes.function? name = some header →
      p.signature.arity name = (c.scopes.scope header).parameters := by
    intro name header hheader
    show ((p.scopes.function? name).map fun header => (p.scopes.scope header).parameters).getD 0 = _
    rw [h.scopes, hheader]
    rfl
  constructor
  case results =>
    exact fun name returns hresults =>
      hresult ((ScopeTree.functionResult?_eq_some_iff hfit.scopes).2 hresults)
  case headers =>
    intro id hid hkind
    exact (harity (h.function?_name hkind)).symm
  case sites =>
    intro site hsite
    obtain ⟨header, returns, hagrees⟩ := h.agrees site hsite
    have hreceived : site.target.isSome → returns ≠ .void := by
      rintro htarget rfl
      obtain ⟨ty, hty⟩ := Option.isSome_iff_exists.1 htarget
      have haccepts := hagrees.target ty hty
      rw [Ty.accepts_void] at haccepts
      cases haccepts
    constructor
    case written =>
      intro hvariadic
      by_contra htarget
      obtain ⟨builtin, hfind, hbuiltin⟩ := (Option.any_eq_true _ _).1 hvariadic
      have hmem : builtin ∈ Builtin.all := mem_of_find?_eq_some hfind
      have hvoid : builtin.returns = .void :=
        (by decide : ∀ builtin ∈ Builtin.all, builtin.variadic → builtin.returns = .void) _ hmem hbuiltin
      have hname : builtin.name = site.name := by simpa using List.find?_some hfind
      have hreturns := (ScopeTree.functionResult?_eq_some_iff hfit.scopes).2 ⟨true, hparts.builtins hmem⟩
      rw [hname, hvoid, hagrees.result] at hreturns
      exact hreceived (Option.isSome_iff_ne_none.2 htarget) (Option.some.inj hreturns)
    case passed => exact fun hvariadic => (hagrees.count hvariadic).trans (harity hagrees.callee).symm
    case received =>
      intro _ htarget
      rw [hresult hagrees.result, if_neg (hreceived htarget)]
    case dropped =>
      intro _ hdropped
      rw [hresult hagrees.result, vain_of_mem (Meaning.callIds_nodup hparts.sound.1) hsite, CallSite.isVain, hdropped, hagrees.result]
      simp

theorem Accepted.leads (h : Accepted c p) :
    ∃ taking, p.signature.Leads .start p.stream.code ⟨none, taking, 0⟩ := by
  obtain ⟨parts, hparts⟩ := h.composed.composes
  obtain ⟨hsound, hcurrent, hglobal⟩ := hparts.sound
  obtain ⟨taking, hleads⟩ := hparts.balanced h.signed
  have hinside : c.draft.inside? = none := by
    rw [Draft.inside?, Draft.function?_of_root hsound.formed hcurrent hglobal]
    rfl
  rw [hinside] at hleads
  exact ⟨taking, h.code.leads hleads⟩

theorem Accepted.leads_body (h : Accepted c p) (body : Option Nat) :
    ∃ t, p.signature.Leads .start (bodyCode body p.stream.code) t ∧ t.level = 0 := by
  obtain ⟨taking, hleads⟩ := h.leads
  obtain ⟨t, ht, hlevel⟩ := hleads.bodyFrom body (iff_of_true rfl rfl) (fun _ => rfl) rfl
  refine ⟨t, ?_, hlevel⟩
  split at ht <;> exact ht

theorem Accepted.bounds (h : Accepted c p) {header : Nat} (hi : i ∈ bodyCode (some header) p.stream.code) :
    (p.scopes.scope header).kind = .functionHeader ∧
      ∃ entry l fin, bodyCode (some header) p.stream.code = entry :: l ++ [fin] ∧
        entry.Marks .functionBegin header ∧ entry.name? = some (p.scopes.scope header).name ∧
        Inner l ∧ fin.Marks .functionEnd header := by
  obtain ⟨parts, codes, hparts, hcodes, hcode⟩ := h.lays
  rcases hcode ▸ bodyCode_bounds hcodes (hparts.headers_nodup hcodes) with
    hnil | ⟨entry, l, fin, heq, hentry, hinner, hfin⟩
  · rw [hnil] at hi
    cases hi
  have hmem : entry ∈ bodyCode (some header) p.stream.code := by
    rw [heq]
    exact mem_cons_self
  obtain ⟨entry₀, hmem₀, hbecomes⟩ := h.trims.exists_becomes ((bodyFrom_sublist _ _ _).subset hmem)
  obtain ⟨hkind, hscope, -, -, hname⟩ := hbecomes.fields
  obtain ⟨-, hheader, hname₀⟩ :=
    hparts.headers.bounds entry₀ hmem₀ (by rw [← hkind, hentry.1]; rfl)
  rw [← hscope, hentry.2] at hheader hname₀
  rw [h.scopes]
  exact ⟨hheader, entry, l, fin, heq, hentry, hname.trans hname₀, hinner, hfin⟩

/-- A function begins with its first instruction, and all other instructions are inside their bodies. -/
theorem Accepted.at_place (h : Accepted c p) (hi : (bodyCode body p.stream.code)[place]? = some i) :
    (∃ header, body = some header ∧ place = 0 ∧ i.Marks .functionBegin header) ∨
      i.kind ≠ .functionBegin ∧ (body = none ∨ 0 < place) ∧
        ∀ s, p.signature.Leads .start ((bodyCode body p.stream.code).take place) s →
          s.inside = p.functionName body := by
  cases body with
  | none =>
    obtain ⟨parts, codes, -, hcodes, hcode⟩ := h.lays
    have hinner : Inner (bodyCode none p.stream.code) := hcode ▸ inner_main hcodes
    have hkind := InstructionKind.ne_of_isBound (hinner i (mem_of_getElem? hi))
    refine .inr ⟨hkind.1, .inl rfl, fun s hs => ?_⟩
    exact hs.inside_of_inner fun j hj => hinner j (mem_of_mem_take hj)
  | some header =>
    obtain ⟨-, entry, l, fin, heq, hentry, hname, hinner, hfin⟩ := h.bounds (mem_of_getElem? hi)
    cases place with
    | zero =>
      rw [heq] at hi
      exact .inl ⟨header, rfl, rfl, Option.some.inj hi ▸ hentry⟩
    | succ place =>
      rw [heq, cons_append, List.getElem?_cons_succ] at hi
      have hplace : place ≤ l.length := by
        have hlt := (List.getElem?_eq_some_iff.1 hi).1
        rw [length_append, length_singleton] at hlt
        exact Nat.le_of_lt_succ hlt
      refine .inr ⟨?_, .inr (Nat.succ_pos place), fun s hs => ?_⟩
      · rcases mem_append.1 (mem_of_getElem? hi) with hi | hi
        · exact (InstructionKind.ne_of_isBound (hinner i hi)).1
        · rw [mem_singleton.1 hi, hfin.1]
          exact InstructionKind.noConfusion
      · rw [heq, cons_append, take_succ_cons, take_append_of_le_length hplace] at hs
        cases hs with
        | cons _ hrest =>
          rw [hrest.inside_of_inner fun j hj => hinner j (mem_of_mem_take hj)]
          simp [Signature.next, hentry.1, hname, Program.functionName]

theorem Accepted.function (h : Accepted c p) {header : Nat}
    (hkind : (p.scopes.scope header).kind = .functionHeader) :
    (∃ returns, p.scopes.functionResult? (p.scopes.scope header).name = some returns) ∧
      p.signature.arity (p.scopes.scope header).name = (p.scopes.scope header).parameters := by
  obtain ⟨hfit, parts, hparts⟩ := h.composed
  rw [h.scopes] at hkind ⊢
  have hlt : header < c.draft.size :=
    Meaning.lt_size_of_kind (by rw [hkind]; exact ScopeKind.noConfusion)
  refine ⟨?_, (h.signed.headers header hlt hkind).symm⟩
  obtain ⟨returns, hresults⟩ := (hparts.sound.1.headers header hlt hkind).1
  exact ⟨returns, (ScopeTree.functionResult?_eq_some_iff hfit.scopes).2 hresults⟩

/-- The number of values on the stack is the number that is counted, except at the beginning of a
function, where its arguments are there already. -/
theorem Accepted.reaches (h : Accepted c p) (hreach : p.Reaches body place height) :
    (∃ header, body = some header ∧ place = 0 ∧ height = p.arguments body) ∨ (body = none ∨ 0 < place) ∧
        ∃ s, p.signature.Leads .start ((bodyCode body p.stream.code).take place) s ∧ height = s.level := by
  obtain ⟨t, hleads, -⟩ := h.leads_body body
  induction hreach with
  | entry =>
    cases body with
    | none => exact .inr ⟨.inl rfl, .start, .nil _, rfl⟩
    | some header => exact .inl ⟨header, rfl, rfl, rfl⟩
  | @step place next height i _ hi hstep ih =>
    have hnext : body = none ∨ 0 < next := by
      rcases hstep.pos_or_mark with hpos | ⟨j, hj, hmark⟩
      · exact .inr hpos
      · rcases h.at_place hj with ⟨_, -, -, hmarks⟩ | ⟨-, hpos, -⟩
        · rw [hmarks.1] at hmark
          rcases hmark with hmark | hmark <;> cases hmark
        · exact hpos
    refine .inr ⟨hnext, ?_⟩
    rcases h.at_place hi with ⟨header, rfl, rfl, hmarks⟩ | ⟨hkind, hplace, hinside⟩
    · have hheight : height = p.arguments (some header) := by
        rcases ih with ⟨_, _, _, hheight⟩ | ⟨hplace, -⟩
        · exact hheight
        · rcases hplace with hplace | hplace <;> cases hplace
      obtain ⟨s, hs, hlevel⟩ := hleads.edge hi hstep (.nil _)
      refine ⟨s, hs, ?_⟩
      obtain ⟨hheader, entry, l, fin, heq, -, hname, -⟩ := h.bounds (mem_of_getElem? hi)
      rw [heq] at hi
      cases hi
      rw [hlevel, hheight]
      simp [Signature.next, Signature.takes, Signature.leaves, hmarks.1, hname, (h.function hheader).2,
        Program.arguments, InstructionKind.takes, InstructionKind.leaves]
    · rcases ih with ⟨header, rfl, rfl, -⟩ | ⟨-, s, hs, rfl⟩
      · rcases hplace with hplace | hplace <;> cases hplace
      · obtain ⟨s', hs', hlevel⟩ := hleads.edge hi hstep hs
        refine ⟨s', hs', ?_⟩
        rw [hlevel, ← hinside s hs]
        exact ((hleads.step hi hs).1.level_next hkind).symm

theorem Accepted.height_boundary (h : Accepted c p) (hreach : p.Reaches body place height)
    (hboundary : p.Boundary body place) : height = 0 := by
  obtain ⟨before, i, rfl, hi, hcomplete⟩ := hboundary
  rcases h.reaches hreach with ⟨_, -, hplace, -⟩ | ⟨-, s, hs, rfl⟩
  · cases hplace
  obtain ⟨t, hleads, ht⟩ := h.leads_body body
  obtain ⟨s₀, hs₀, -⟩ := hleads.at_place before
  obtain ⟨hadmits, hnext⟩ := hleads.step hi hs₀
  cases hnext.unique hs
  refine congrArg Nat.cast ?_
  rcases hcomplete with hcomplete | ⟨hkind, hlast⟩
  · exact hadmits.complete hcomplete
  · have htaking : (p.signature.next s₀ i).taking := by
      rcases hkind with hkind | hkind
      · simp [Signature.next, hkind]
      · simpa [Signature.next, hkind] using hadmits.pops hkind
    cases hj : (bodyCode body p.stream.code)[before + 1]? with
    | some j => exact (hleads.step hj hs).1.taken htaking (hlast j hj)
    | none =>
      rw [take_of_length_le (List.getElem?_eq_none_iff.1 hj)] at hs
      rw [hs.unique hleads, ht]

theorem Accepted.height_enough (h : Accepted c p) (hreach : p.Reaches body place height)
    (hi : (bodyCode body p.stream.code)[place]? = some i) :
    p.signature.takes (p.functionName body) i ≤ height ∧
      (i.kind = .returnValue → (p.functionName body).isSome) ∧
      (p.signature.completes i → height = p.signature.takes (p.functionName body) i) := by
  obtain ⟨t, hleads, -⟩ := h.leads_body body
  rcases h.at_place hi with ⟨header, rfl, rfl, hmarks⟩ | ⟨hkind, hplace, hinside⟩
  · have htakes : p.signature.takes (p.functionName (some header)) i = 0 := by
      simp [Signature.takes, hmarks.1, InstructionKind.takes]
    rcases h.reaches hreach with ⟨_, -, -, rfl⟩ | ⟨hplace, -⟩
    · refine ⟨?_, fun hkind => ?_, ?_⟩
      · rw [htakes]
        exact Int.natCast_nonneg _
      · cases hmarks.1.symm.trans hkind
      · simp [Signature.completes, hmarks.1, InstructionKind.completes]
    · rcases hplace with hplace | hplace <;> cases hplace
  · rcases h.reaches hreach with ⟨_, rfl, rfl, -⟩ | ⟨-, s, hs, rfl⟩
    · rcases hplace with hplace | hplace <;> cases hplace
    obtain ⟨hadmits, -⟩ := hleads.step hi hs
    rw [← hinside s hs]
    refine ⟨Int.ofNat_le.2 hadmits.enough, hadmits.returns, fun hcomplete => ?_⟩
    have hlevel := hadmits.level_next hkind
    rw [hadmits.complete hcomplete] at hlevel
    have henough := hadmits.enough
    omega

theorem Accepted.height_return (h : Accepted c p) (hreach : p.Reaches body place height)
    (hi : (bodyCode body p.stream.code)[place]? = some i) (hkind : i.kind = .returnValue) :
    ∃ header returns, body = some header ∧
      p.scopes.functionResult? (p.scopes.scope header).name = some returns ∧
      height = if returns = .void then 0 else 1 := by
  obtain ⟨-, hsome, hheight⟩ := h.height_enough hreach hi
  cases body with
  | none => cases hsome hkind
  | some header =>
    obtain ⟨hheader, -⟩ := h.bounds (mem_of_getElem? hi)
    obtain ⟨returns, hreturns⟩ := (h.function hheader).1
    refine ⟨header, returns, rfl, hreturns, ?_⟩
    rw [hheight (.inl (by rw [hkind]; rfl))]
    simp only [Signature.takes, hkind, Program.functionName, Option.map_some, Option.getD_some,
      Program.signature, hreturns, Option.some_inj]
    split <;> rfl

end accepted

/-- Data-stack discipline: on every path through the jump graph of a body, the number of values on the
stack depends only on the place that is reached, suffices for the instruction there, is zero between
statements, and at a return it is one exactly if the function has a result. -/
theorem stack_discipline {source : String} {p : Program}
    (h : (Program.ofFeed (.ofSource source)).result = .ok p) (body : Option Nat) :
    (∀ place height height', p.Reaches body place height → p.Reaches body place height' → height = height') ∧
    ∀ place height, p.Reaches body place height → 0 ≤ height ∧ (p.Boundary body place → height = 0) ∧
      ∀ i, (bodyCode body p.stream.code)[place]? = some i →
        p.signature.takes (p.functionName body) i ≤ height ∧
        (i.kind = .returnValue → ∃ header returns, body = some header ∧
          p.scopes.functionResult? (p.scopes.scope header).name = some returns ∧
          height = if returns = .void then 0 else 1) ∧
        (i.kind = .functionEnd → height = 0) := by
  obtain ⟨c, haccepted, -⟩ := accepted_of_ok h
  constructor
  · intro place height height' hreach hreach'
    rcases haccepted.reaches hreach with ⟨_, rfl, hplace, rfl⟩ | ⟨hplace, s, hs, rfl⟩ <;>
      rcases haccepted.reaches hreach' with ⟨_, hbody, hplace', rfl⟩ | ⟨hplace', s', hs', rfl⟩
    · rfl
    · rcases hplace' with hplace' | hplace'
      · cases hplace'
      · omega
    · rcases hplace with rfl | hplace
      · cases hbody
      · omega
    · rw [hs.unique hs']
  · intro place height hreach
    refine ⟨?_, haccepted.height_boundary hreach, fun i hi => ⟨?_, ?_, ?_⟩⟩
    · rcases haccepted.reaches hreach with ⟨_, -, -, rfl⟩ | ⟨-, s, -, rfl⟩
      · exact Int.natCast_nonneg _
      · exact Int.natCast_nonneg _
    · exact (haccepted.height_enough hreach hi).1
    · exact haccepted.height_return hreach hi
    · intro hkind
      rw [(haccepted.height_enough hreach hi).2.2 (.inl (by rw [hkind]; rfl))]
      simp [Signature.takes, hkind, InstructionKind.takes]

/-- A function starts with its argument and returns with its result. -/
theorem stack_discipline_argument : ∃ p, (Program.ofFeed (.ofSource
        "func f(_ n: Int) -> Int \x7b\n return n\n\x7d\nlet x = f(3)\n")).result = .ok p ∧
      p.Reaches (some 11) 3 1 ∧ ∀ height, p.Reaches (some 11) 3 height → height = 1 := by
  refine exists_ok_of_any (fun p => (bodyCode (some 11) p.stream.code).map (·.kind) =
      [.functionBegin, .paramPop, .pushVariable, .returnValue, .functionEnd] ∧
      p.arguments (some 11) = 1) (by decide +kernel) fun p hok ⟨hcode, harguments⟩ => ?_
  simp only [map_eq_cons_iff] at hcode
  obtain ⟨entry, _, hcode, hentry, pop, _, rfl, hpop, push, _, rfl, hpush, _, _, rfl, -⟩ := hcode
  have hstart : p.Reaches (some 11) 0 1 := by
    have h := @Program.Reaches.entry p (some 11)
    rwa [harguments] at h
  have hbegun : p.Reaches (some 11) 1 1 := by
    simpa [Signature.takes, Signature.leaves, hentry, InstructionKind.takes, InstructionKind.leaves]
      using @Program.Reaches.step p (some 11) 0 1 1 entry hstart (by rw [hcode]; rfl)
        (by rw [hcode]; simp [Steps, successors, hentry])
  have htaken : p.Reaches (some 11) 2 0 := by
    simpa [Signature.takes, Signature.leaves, hpop, InstructionKind.takes, InstructionKind.leaves]
      using @Program.Reaches.step p (some 11) 1 2 1 pop hbegun (by rw [hcode]; rfl)
        (by rw [hcode]; simp [Steps, successors, hpop])
  have hresult : p.Reaches (some 11) 3 1 := by
    simpa [Signature.takes, Signature.leaves, hpush, InstructionKind.takes, InstructionKind.leaves]
      using @Program.Reaches.step p (some 11) 2 3 0 push htaken (by rw [hcode]; rfl)
        (by rw [hcode]; simp [Steps, successors, hpush])
  exact ⟨hresult, fun height h => (stack_discipline hok (some 11)).1 _ _ _ h hresult⟩

end OnePass
