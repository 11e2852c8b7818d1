import OnePass.Proofs.Deeds
import OnePass.Proofs.Survey

/-!
# Hoisting

The definitions of variables in loops are put in front of the outermost loop.  So no variable is
defined twice while a body runs, and all variables are defined before they are used, whatever path
control takes.

Main results:

* `Lays.define_behind` — no path leads back to a definition;
* `Elaborates.settled`, `Elaborates.guarded` — no definition is in a loop, and **variables are defined
  before they are used**;
* `Elaborates.targeted`, `Elaborates.covered` — **hoisting defines every variable once, in front of the
  outermost loop**.
-/

namespace OnePass

open List

variable {T : Flow} {d d' : Draft} {H code : List Instruction}

/-! ### Definitions and paths -/

namespace Flow

/-- All deeds of a flow, in their order. -/
def content : Flow → List Deed
  | straight deeds => deeds
  | seq first second => first.content ++ second.content
  | branch _ before body _ other => before ++ body.content ++ other.content
  | loop _ before body => before ++ body.content

/-- No definition is in a loop. -/
def Settled : Flow → Prop
  | straight _ => True
  | seq first second => first.Settled ∧ second.Settled
  | branch _ _ body _ other => body.Settled ∧ other.Settled
  | loop _ before body => ∀ target, .define target ∉ before ++ body.content

end Flow

theorem Lays.content {l : List Instruction} (h : Lays T l) : deeds l = T.content := by
  induction h with
  | straight => rfl
  | seq _ _ ih ih' => rw [deeds_append, ih, ih', Flow.content]
  | @branch S head test els fin T U l m otherwise hhead htest _ hels _ hfin ih ih' =>
    have hels' : deeds (els :: m) = deeds m := filterMap_cons_none (hels.deed? (by decide))
    have hfin' : deeds [fin] = [] := filterMap_cons_none (hfin.deed? (by decide))
    have hsplit : head ++ test :: l = head ++ [test] ++ l := by simp
    rw [deeds_append, deeds_append, hfin', append_nil, hels', hsplit, deeds_append, ih, ih',
      Flow.content]
  | @loop S head label test fin T l hlabel hhead htest _ hfin ih =>
    have hlabel' : deeds (label :: (head ++ [test] ++ l)) = deeds (head ++ [test] ++ l) :=
      filterMap_cons_none (hlabel.deed? (by decide))
    have hfin' : deeds [fin] = [] := filterMap_cons_none (hfin.deed? (by decide))
    have hsplit : label :: head ++ test :: l = label :: (head ++ [test] ++ l) := by simp
    rw [deeds_append, hfin', append_nil, hsplit, hlabel', deeds_append, ih, Flow.content]

section order

variable {code A l B : List Instruction}
variable {T : Flow}
variable {p q : Nat}

theorem Lays.within (h : Lays T l) (honce : MarksOnce code) (hcode : code = A ++ l ++ B)
    (hp : A.length ≤ p) (hp' : p < A.length + l.length) (hstep : Steps code p q) :
    A.length ≤ q := by
  obtain ⟨sure, hsurvey⟩ :=
    @survey code A l B .giveBack True T A.length (A.length + l.length) h honce hcode rfl rfl
  exact (hsurvey.step hp hp' hstep).1

theorem Lays.order (h : Lays T l) (honce : MarksOnce code) (hT : T.Settled) (hcode : code = A ++ l ++ B)
    (hp : A.length ≤ p) (hp' : p < A.length + l.length) (hstep : Steps code p q) :
    p < q ∨ ∀ r, q ≤ r → r ≤ p → ∀ target, deedAt code r ≠ some (.define target) := by
  induction h generalizing A B with
  | straight hstraight =>
    rw [hstep.of_straight hcode hstraight hp hp']
    exact .inl (Nat.lt_succ_self _)
  | @seq T U l m _ _ ih ih' =>
    have hfirst : code = A ++ l ++ (m ++ B) := by simp [hcode]
    have hsecond : code = (A ++ l) ++ m ++ B := by simp [hcode]
    rw [length_append] at hp'
    by_cases hlt : p < A.length + l.length
    · exact ih hT.1 hfirst hp hlt
    · refine ih' hT.2 hsecond ?_ ?_ <;> rw [length_append] <;> omega
  | @branch S head test els fin T U l m otherwise hhead htest _ hels _ hfin ih ih' =>
    have hfirst : code = (A ++ head ++ [test]) ++ l ++ (els :: m ++ [fin] ++ B) := by simp [hcode]
    have hsecond : code = (A ++ head ++ test :: l ++ [els]) ++ m ++ (fin :: B) := by simp [hcode]
    simp only [length_append, length_cons, length_nil] at hp'
    rcases hstep.of_branch hcode honce hhead htest hels hfin rfl rfl rfl hp (by omega) with
      ⟨-, rfl⟩ | ⟨rfl, rfl | rfl⟩ | ⟨hgt, hlt⟩ | ⟨rfl, rfl⟩ | ⟨hgt, hlt⟩ | ⟨rfl, rfl⟩
    · exact .inl (Nat.lt_succ_self _)
    · exact .inl (Nat.lt_succ_self _)
    · exact .inl (by omega)
    · refine ih hT.1 hfirst ?_ ?_ <;>
        simp only [length_append, length_cons, length_nil] <;> omega
    · exact .inl (by omega)
    · refine ih' hT.2 hsecond ?_ ?_ <;>
        simp only [length_append, length_cons, length_nil] <;> omega
    · exact .inl (Nat.lt_succ_self _)
  | @loop S head label test fin T l hlabel hhead htest hbody hfin ih =>
    -- the way back is inside the loop, where nothing is defined
    have hlays := Lays.loop hlabel hhead htest hbody hfin
    have hq := hlays.within honce hcode hp hp' hstep
    refine .inr fun r hqr hrp target hdeed => hT target ?_
    have hmem := deedAt_piece hcode (Nat.le_trans hq hqr) (Nat.lt_of_le_of_lt hrp hp') hdeed
    rw [hlays.content] at hmem
    exact hmem

theorem Lays.define_behind (h : Lays T code) (honce : MarksOnce code) (hT : T.Settled)
    {target : String} (hp : deedAt code p = some (.define target))
    (hpath : Relation.TransGen (Steps code) p q) : p < q := by
  have hcode : code = [] ++ code ++ [] := by simp
  have horder : ∀ {p q}, Steps code p q →
      p < q ∨ ∀ r, q ≤ r → r ≤ p → ∀ target, deedAt code r ≠ some (.define target) :=
    fun hstep => h.order honce hT hcode (Nat.zero_le _)
      (Nat.lt_of_lt_of_eq hstep.lt_length (Nat.zero_add _).symm) hstep
  induction hpath with
  | single hstep =>
    rcases horder hstep with hlt | hfree
    · exact hlt
    · by_contra hge
      exact hfree p (Nat.le_of_not_lt hge) (Nat.le_refl _) target hp
  | tail _ hstep ih =>
    rcases horder hstep with hlt | hfree
    · exact Nat.lt_trans ih hlt
    · by_contra hge
      exact hfree p (Nat.le_of_not_lt hge) (Nat.le_of_lt ih) target hp

end order

/-! ### No definition is in a loop -/

theorem Elaborates.define_notMem (h : Elaborates d H T d') (hd : d.Formed)
    (hloop : d.outermost? d.current ≠ none) (target : String) : .define target ∉ T.content := by
  induction h with
  | step hstep =>
    cases hstep with
    | skip => exact not_mem_nil
    | store hvalue hpop => exact (hvalue.reads_store hpop).define_notMem target
    | call _ hcode hafter => exact (hcode.reads hafter).define_notMem target
    | giveBack hvalue _ hkind =>
      rw [Flow.content, deeds_giveBack hkind]
      exact not_mem_append (hvalue.reads.define_notMem target) (by simp)
    | declare hnone => exact absurd hnone hloop
    | hoist => exact not_mem_nil
  | seq hfirst _ ih ih' =>
    obtain ⟨hd₁, hkeeps⟩ := hfirst.keeps hd
    exact not_mem_append (ih hd hloop) (ih' hd₁ ((hkeeps.outermost?_current hd).trans_ne hloop))
  | ifThen hhead htest _ _ _ ih =>
    rw [Flow.content, Flow.content, append_nil]
    exact not_mem_append ((hhead.reads_if htest).define_notMem target)
      (ih hd.opened ((Draft.outermost?_opened_then hd).trans_ne hloop))
  | ifElse hhead htest hbody _ _ _ ih ih' =>
    obtain ⟨hd₁, hkeeps⟩ := hbody.keeps hd.opened
    refine not_mem_append (not_mem_append ((hhead.reads_if htest).define_notMem target)
      (ih hd.opened ((Draft.outermost?_opened_then hd).trans_ne hloop))) ?_
    exact ih' (hd.otherwise hd₁ hkeeps) ((hkeeps.outermost?_otherwise hd hd₁).trans_ne hloop)
  | loop hnone => exact absurd hnone hloop
  | nested _ hhead _ htest _ _ ih =>
    exact not_mem_append ((hhead.reads_while htest).define_notMem target)
      (ih hd.opened ((Draft.outermost?_opened_while hd).trans_ne (Option.some_ne_none _)))

theorem Elaborates.settled (h : Elaborates d H T d') (hd : d.Formed) : T.Settled := by
  induction h with
  | step => trivial
  | seq hfirst _ ih ih' => exact ⟨ih hd, ih' (hfirst.keeps hd).1⟩
  | ifThen _ _ _ _ _ ih => exact ⟨ih hd.opened, trivial⟩
  | ifElse _ _ hbody _ _ _ ih ih' =>
    obtain ⟨hd₁, hkeeps⟩ := hbody.keeps hd.opened
    exact ⟨ih hd.opened, ih' (hd.otherwise hd₁ hkeeps)⟩
  | loop _ hhead _ htest hbody =>
    refine ⟨trivial, fun target => not_mem_append
      ((hhead.reads_while htest).define_notMem target) (hbody.define_notMem hd.opened ?_ target)⟩
    exact (Draft.outermost?_opened_while hd).trans_ne (Option.some_ne_none _)
  | nested _ hhead _ htest hbody =>
    refine fun target => not_mem_append
      ((hhead.reads_while htest).define_notMem target) (hbody.define_notMem hd.opened ?_ target)
    exact (Draft.outermost?_opened_while hd).trans_ne (Option.some_ne_none _)

/-! ### Variables are defined before they are used -/

namespace Draft

variable {d d₁ d₂ : Draft} {name : String} {owner : Nat}

theorem Sees.back (h : d₁.Sees name owner)
    (haround : ∀ id ∈ d₁.ancestors d₁.current, id ∈ d.ancestors d.current ∨ d₁.names id = ∅)
    (hnames : ∀ id ∈ d.ancestors d.current, d₁.names id = d.names id) : d.Sees name owner := by
  obtain ⟨hmem, sort, hsort, hfunction⟩ := h
  rcases haround owner hmem with hmem | hempty
  · exact ⟨hmem, sort, hnames owner hmem ▸ hsort, hfunction⟩
  · rw [hempty] at hsort
    exact absurd hsort (Set.notMem_empty _)

theorem lt_size_of_mem_ancestors (hd : d.Formed) {id : Nat} (h : id ∈ d.ancestors d.current) : id < d.size :=
  Nat.lt_of_le_of_lt (le_of_mem_ancestorsBy hd.rooted h) hd.current_lt

section blocks

variable {kind : ScopeKind} {code code' code'' : List Instruction}

theorem Sees.of_opened (hd : d.Formed) (h : (d.opened kind code).Sees name owner) :
    d.Sees name owner := by
  refine h.back (fun id hid => ?_) fun id hid => ?_
  · rw [show (d.opened kind code).ancestors (d.opened kind code).current = _ from
      ancestors_opened hd] at hid
    rcases mem_cons.1 hid with rfl | hid
    · exact .inr (Function.update_self ..)
    · exact .inl hid
  · exact Function.update_of_ne (Nat.ne_of_lt (lt_size_of_mem_ancestors hd hid)) _ _

theorem Keeps.names_block (h : (d.opened kind code).Keeps d₁) {id : Nat} (hid : id < d.size) :
    d₁.names id = d.names id :=
  (h.names id (Nat.lt_succ_of_lt hid) (Nat.ne_of_lt hid)).trans (Function.update_of_ne (Nat.ne_of_lt hid) _ _)

theorem Keeps.names_otherwise (h : (d.opened kind code).Keeps d₁)
    (h' : (d₁.alternative d.size d.current code').Keeps d₂) {id : Nat} (hid : id < d.size) :
    d₂.names id = d.names id := by
  have hlt : id < d₁.size := Nat.lt_of_lt_of_le (Nat.lt_succ_of_lt hid) h.size_le
  refine (h'.names id (Nat.lt_succ_of_lt hlt) (Nat.ne_of_lt hlt)).trans ?_
  exact (Function.update_of_ne (Nat.ne_of_lt hlt) _ _).trans (h.names_block hid)

theorem Keeps.ancestors_block (hd : d.Formed) (h : (d.opened kind code).Keeps d₁) :
    d₁.ancestors d.current = d.ancestors d.current := by
  rw [h.toExtends.ancestors hd.opened (Nat.lt_succ_of_lt hd.current_lt),
    extends_opened.ancestors hd hd.current_lt]

theorem Sees.of_closed (hd : d.Formed) (h : (d.opened kind code).Keeps d₁)
    (hsees : (d₁.closed d.current code').Sees name owner) : d.Sees name owner := by
  refine hsees.back (fun id hid => .inl ?_) fun id hid => ?_
  · exact h.ancestors_block hd ▸ hid
  · exact h.names_block (lt_size_of_mem_ancestors hd hid)

theorem Sees.of_alternative (hd : d.Formed) (hd₁ : d₁.Formed) (h : (d.opened kind code).Keeps d₁)
    (hsees : (d₁.alternative d.size d.current code').Sees name owner) : d.Sees name owner := by
  have hscope : d.size < d₁.size := h.size_le
  have haround := @ancestors_alternative d₁ code' d.size d.current hscope
    (Nat.lt_trans hd.current_lt hscope) (Nat.ne_of_gt hd.current_lt) hd₁
  refine hsees.back (fun id hid => ?_) fun id hid => ?_
  · rw [show (d₁.alternative d.size d.current code').current = d₁.size from rfl, haround,
      h.ancestors_block hd] at hid
    rcases mem_cons.1 hid with rfl | hid
    · exact .inr (Function.update_self ..)
    · exact .inl hid
  · have hlt := lt_size_of_mem_ancestors hd hid
    refine (Function.update_of_ne ?_ _ _).trans (h.names_block hlt)
    exact Nat.ne_of_lt (Nat.lt_trans hlt hscope)

theorem Sees.of_closed_otherwise (hd : d.Formed) (hd₁ : d₁.Formed) (h : (d.opened kind code).Keeps d₁)
    (h' : (d₁.alternative d.size d.current code').Keeps d₂)
    (hsees : (d₂.closed d.current code'').Sees name owner) : d.Sees name owner := by
  have hscope : d.size < d₁.size := h.size_le
  have hparent : d.current < d₁.size := Nat.lt_trans hd.current_lt hscope
  have hne : d.size ≠ d.current := Nat.ne_of_gt hd.current_lt
  refine hsees.back (fun id hid => .inl ?_) fun id hid => ?_
  · rw [← h.ancestors_block hd, ← (extends_alternative hscope hne).ancestors hd₁ hparent,
      ← h'.toExtends.ancestors (hd₁.alternative hscope hparent hne) (Nat.lt_succ_of_lt hparent)]
    exact hid
  · exact h.names_otherwise h' (lt_size_of_mem_ancestors hd hid)

end blocks

end Draft

theorem Draft.Sees.of_declare {name declared : String} {owner : Nat} {base : Ty}
    (h : (d.declare declared base).Sees name owner) :
    d.Sees name owner ∨ name = declared ∧ owner = d.current := by
  obtain ⟨hmem, role, hrole, hfunction⟩ := h
  by_cases howner : owner = d.current
  · rw [howner, declare_here] at hrole
    rcases hrole with heq | hold
    · exact .inr ⟨congrArg Prod.fst heq, howner⟩
    · exact .inl ⟨hmem, role, howner ▸ hold, hfunction⟩
  · rw [declare_of_ne howner] at hrole
    exact .inl ⟨hmem, role, hrole, hfunction⟩

theorem Draft.Reads.sees {deeds : List Deed} (h : d.Reads deeds) {name : String} {owner : Nat}
    (hmem : .use (Meaning.storageName name owner) ∈ deeds) : d.Sees name owner := by
  obtain ⟨name', owner', heq, hsees⟩ := h _ hmem
  obtain ⟨rfl, rfl⟩ := storageName_inj (Deed.use.inj heq)
  exact hsees

section guarded

variable {name : String} {owner : Nat} {K : Prop}

theorem Step.guarded (h : Step d H code d') (hd : d.Formed) (hsees : d.Sees name owner → K)
    (hhoisted : (∃ i ∈ H, i.Defines (Meaning.storageName name owner)) → K) :
    (.use (Meaning.storageName name owner) ∈ deeds code → K) ∧
      (d'.Sees name owner → K ∨ .define (Meaning.storageName name owner) ∈ deeds code) := by
  have haround := h.keeps.toExtends.ancestors hd hd.current_lt
  cases h with
  | skip => exact ⟨fun hmem => absurd hmem not_mem_nil, fun h => .inl (hsees h)⟩
  | store hvalue hpop =>
    exact ⟨fun hmem => hsees ((hvalue.reads_store hpop).sees hmem), fun h => .inl (hsees h)⟩
  | call _ hcode hafter =>
    exact ⟨fun hmem => hsees ((hcode.reads hafter).sees hmem), fun h => .inl (hsees h)⟩
  | giveBack hvalue _ hkind =>
    refine ⟨fun hmem => ?_, fun h => .inl (hsees (h.back ?_ fun _ _ => rfl))⟩
    · rw [deeds_giveBack hkind] at hmem
      rcases mem_append.1 hmem with hmem | hmem
      · exact hsees (hvalue.reads.sees hmem)
      · cases mem_singleton.1 hmem
    · exact fun id hid => .inl (haround ▸ hid)
  | @declare declared _ define _ _ hdefine =>
    have hdeeds : deeds [define] = [.define (Meaning.storageName declared d.current)] :=
      filterMap_cons_some hdefine.deed?
    rw [hdeeds]
    refine ⟨fun hmem => ?_, fun h => ?_⟩
    · cases mem_singleton.1 hmem
    · rcases h.of_declare with h | ⟨rfl, rfl⟩
      · exact .inl (hsees h)
      · exact .inr (mem_singleton_self _)
  | hoist _ _ hdefine =>
    refine ⟨fun hmem => ?_, fun h => .inl ?_⟩
    · cases hmem
    · rcases h.of_declare with h | ⟨rfl, rfl⟩
      · exact hsees h
      · exact hhoisted ⟨_, mem_singleton_self _, hdefine⟩

theorem Elaborates.guarded (h : Elaborates d H T d') (hd : d.Formed) (hsees : d.Sees name owner → K)
    (hhoisted : (∃ i ∈ H, i.Defines (Meaning.storageName name owner)) → K) :
    T.Guarded (.define (Meaning.storageName name owner)) (.use (Meaning.storageName name owner)) K ∧
      (d'.Sees name owner → K ∨ T.passes (.define (Meaning.storageName name owner))) := by
  induction h generalizing K with
  | step hstep => exact hstep.guarded hd hsees hhoisted
  | @seq d d₁ d₂ H H' T T' hfirst _ ih ih' =>
    obtain ⟨hd₁, -⟩ := hfirst.keeps hd
    obtain ⟨hguarded, hsees₁⟩ := ih hd hsees fun ⟨i, hi, h⟩ =>
      hhoisted ⟨i, mem_append_left _ hi, h⟩
    obtain ⟨hguarded', hsees₂⟩ := ih' hd₁ hsees₁ fun ⟨i, hi, h⟩ =>
      .inl (hhoisted ⟨i, mem_append_right _ hi, h⟩)
    exact ⟨⟨hguarded, hguarded'⟩, fun h => or_assoc.1 (hsees₂ h)⟩
  | ifThen hhead htest hbody _ _ ih =>
    obtain ⟨-, hkeeps⟩ := hbody.keeps hd.opened
    have hbefore := hhead.reads_if htest
    obtain ⟨hguarded, -⟩ := ih (K := K ∨ _) hd.opened (fun h => .inl (hsees (h.of_opened hd)))
      fun h => .inl (hhoisted h)
    refine ⟨⟨fun hmem => hsees (hbefore.sees hmem), hguarded, ?_⟩, fun h => ?_⟩
    · exact fun hmem => absurd hmem not_mem_nil
    · exact .inl (hsees (h.of_closed hd hkeeps))
  | @ifElse d d₁ d₂ head H H' test els fin T U hhead htest hbody _ hother _ ih ih' =>
    obtain ⟨hd₁, hkeeps⟩ := hbody.keeps hd.opened
    obtain ⟨-, hkeeps'⟩ := hother.keeps (hd.otherwise hd₁ hkeeps)
    have hbefore := hhead.reads_if htest
    obtain ⟨hguarded, -⟩ := ih (K := K ∨ _) hd.opened (fun h => .inl (hsees (h.of_opened hd)))
      fun ⟨i, hi, h⟩ => .inl (hhoisted ⟨i, mem_append_left _ hi, h⟩)
    obtain ⟨hguarded', -⟩ := ih' (K := K ∨ _) (hd.otherwise hd₁ hkeeps)
      (fun h => .inl (hsees (h.of_alternative hd hd₁ hkeeps)))
      fun ⟨i, hi, h⟩ => .inl (hhoisted ⟨i, mem_append_right _ hi, h⟩)
    refine ⟨⟨fun hmem => hsees (hbefore.sees hmem), hguarded, hguarded'⟩, fun h => ?_⟩
    exact .inl (hsees (h.of_closed_otherwise hd hd₁ hkeeps hkeeps'))
  | @loop d d₁ head H label test fin T _ hhead _ htest hbody _ ih =>
    obtain ⟨-, hkeeps⟩ := hbody.keeps hd.opened
    have hbefore := hhead.reads_while htest
    -- what is hoisted out of the loop is defined in front of it
    obtain ⟨hguarded, -⟩ := ih (K := (K ∨ _) ∨ _) hd.opened (fun h => .inl (.inl (hsees (h.of_opened hd))))
      fun ⟨i, hi, h⟩ => .inl (.inr (mem_filterMap.2 ⟨i, hi, h.deed?⟩))
    refine ⟨⟨fun hmem => ?_, fun hmem => .inl (hsees (hbefore.sees hmem)), hguarded⟩, fun h => ?_⟩
    · obtain ⟨i, hi, heq⟩ := mem_filterMap.1 hmem
      rw [Instruction.deed?, hbody.hoisted i hi] at heq
      obtain ⟨_, -, heq⟩ := Option.map_eq_some_iff.1 heq
      cases heq
    · exact .inl (hsees (h.of_closed hd hkeeps))
  | nested _ hhead _ htest hbody _ ih =>
    obtain ⟨-, hkeeps⟩ := hbody.keeps hd.opened
    have hbefore := hhead.reads_while htest
    obtain ⟨hguarded, -⟩ := ih (K := K ∨ _) hd.opened (fun h => .inl (hsees (h.of_opened hd)))
      fun h => .inl (hhoisted h)
    exact ⟨⟨fun hmem => hsees (hbefore.sees hmem), hguarded⟩, fun h => .inl (hsees (h.of_closed hd hkeeps))⟩

end guarded

/-! ### Every variable is defined once -/

/-- The variable that a deed defines. -/
def Deed.target? : Deed → Option String
  | define target => some target
  | _ => none

/-- The variables that instructions define, in their order. -/
def targets (code : List Instruction) : List String :=
  code.filterMap fun i => i.deed?.bind Deed.target?

theorem targets_eq (code : List Instruction) : targets code = (deeds code).filterMap Deed.target? :=
  filterMap_filterMap.symm

theorem targets_append (first second : List Instruction) :
    targets (first ++ second) = targets first ++ targets second := filterMap_append

theorem targets_eq_nil (h : ∀ target, .define target ∉ deeds code) : targets code = [] := by
  rw [targets_eq]
  refine filterMap_eq_nil_iff.2 fun deed hdeed => ?_
  cases deed with
  | define target => exact absurd hdeed (h target)
  | use | giveBack => rfl

theorem Instruction.Defines.targets {i : Instruction} {target : String} (h : i.Defines target) :
    targets [i] = [target] := by
  rw [targets_eq, OnePass.deeds, filterMap_cons_some h.deed?]
  rfl

namespace Draft

variable {d d' : Draft}

/-- The definitions in the code are those of declared variables, each once. -/
structure Targeted (d : Draft) : Prop where
  nodup : (targets d.code).Nodup
  declared : ∀ target ∈ targets d.code, ∃ name owner, target = Meaning.storageName name owner ∧
    owner < d.size ∧ ∃ role, (name, role) ∈ d.names owner

theorem Targeted.extend (h : d.Targeted) (hextends : d.Extends d')
    (hcode : targets d'.code = targets d.code) : d'.Targeted where
  nodup := hcode ▸ h.nodup
  declared target htarget := by
    obtain ⟨name, owner, heq, hlt, role, hrole⟩ := h.declared target (hcode ▸ htarget)
    exact ⟨name, owner, heq, Nat.lt_of_lt_of_le hlt hextends.size_le, role, hextends.names owner hlt hrole⟩

theorem Targeted.write (h : d.Targeted) (hextends : d.Extends d')
    (hcode : d'.code = d.code ++ code) (hdeeds : ∀ target, .define target ∉ deeds code) :
    d'.Targeted :=
  h.extend hextends (by rw [hcode, targets_append, targets_eq_nil hdeeds, append_nil])

theorem Targeted.declare (h : d.Targeted) (hd : d.Formed) {name : String} {base : Ty}
    (hfresh : ∀ role, (name, role) ∉ d.names d.current)
    (hcode : (targets code).Perm (Meaning.storageName name d.current :: targets d.code)) :
    ({ d with code }.declare name base).Targeted where
  nodup := by
    refine hcode.nodup_iff.2 (nodup_cons.2 ⟨fun hmem => ?_, h.nodup⟩)
    obtain ⟨name', owner, heq, -, role, hrole⟩ := h.declared _ hmem
    obtain ⟨rfl, rfl⟩ := storageName_inj heq
    exact hfresh role hrole
  declared target htarget := by
    have hnames := subset_declare { d with code } name base
    rcases mem_cons.1 (hcode.mem_iff.1 htarget) with rfl | htarget
    · exact ⟨name, d.current, rfl, hd.current_lt, ⟨.variable, base⟩,
        (declare_here { d with code } name base).ge (Set.mem_insert _ _)⟩
    · obtain ⟨name', owner, heq, hlt, role, hrole⟩ := h.declared target htarget
      exact ⟨name', owner, heq, hlt, role, hnames owner hrole⟩

end Draft

theorem Step.targeted (h : Step d H code d') (hd : d.Formed) (htargeted : d.Targeted) : d'.Targeted := by
  have hextends := h.keeps.toExtends
  cases h with
  | skip => exact htargeted
  | store hvalue hpop => exact htargeted.write hextends rfl (hvalue.reads_store hpop).define_notMem
  | call _ hcode hafter =>
    exact htargeted.write hextends rfl (hcode.reads hafter).define_notMem
  | giveBack hvalue _ hkind =>
    refine htargeted.write hextends rfl fun target hmem => ?_
    rw [deeds_giveBack hkind] at hmem
    rcases mem_append.1 hmem with hmem | hmem
    · exact hvalue.reads.define_notMem target hmem
    · cases mem_singleton.1 hmem
  | declare _ hfresh hdefine =>
    refine htargeted.declare hd hfresh ?_
    rw [targets_append, hdefine.targets]
    exact perm_append_comm
  | @hoist name base define label pre post loop _ hfresh hdefine hcode =>
    refine htargeted.declare hd hfresh ?_
    have hsplit : pre ++ define :: label :: post = pre ++ [define] ++ label :: post := by simp
    rw [hsplit, hcode, targets_append, targets_append, targets_append, hdefine.targets, append_assoc]
    exact perm_middle

theorem Elaborates.targeted (h : Elaborates d H T d') (hd : d.Formed) (htargeted : d.Targeted) :
    d'.Targeted := by
  refine h.preserves (P := Draft.Targeted) (fun hd hstep h => hstep.targeted hd h) ?_ ?_ ?_ hd htargeted
  · intro d kind code hd hheads h
    exact h.write Draft.extends_opened rfl hheads.define_notMem
  · intro d d' code els hd _ hkeeps hels _ h
    exact h.write (Draft.extends_alternative hkeeps.size_le (Nat.ne_of_gt hd.current_lt)) rfl
      (hels.ends rfl).define_notMem
  · intro d d' kind code tail _ _ _ _ htail _ h
    exact h.write (Draft.extends_closed d.current) rfl htail.define_notMem

/-! ### Definitions in front of loops -/

/-- A variable is defined among the definitions directly in front of the label of a loop. -/
def Covers (code : List Instruction) (loop : Nat) (target : String) : Prop :=
  ∃ pre defs label post, code = pre ++ defs ++ label :: post ∧
    (∀ i ∈ defs, i.kind = .defineVariable) ∧ (∃ i ∈ defs, i.Defines target) ∧
    label.Marks .whileLabel loop

namespace Covers

variable {code : List Instruction} {loop : Nat} {target : String}

theorem append (h : Covers code loop target) (later : List Instruction) :
    Covers (code ++ later) loop target := by
  obtain ⟨pre, defs, label, post, rfl, hrest⟩ := h
  exact ⟨pre, defs, label, post ++ later, by simp, hrest⟩

theorem insert {define label : Instruction} {pre post : List Instruction} {outer : Nat}
    (h : Covers (pre ++ label :: post) loop target) (hdefine : define.kind = .defineVariable)
    (hlabel : label.Marks .whileLabel outer) :
    Covers (pre ++ define :: label :: post) loop target := by
  obtain ⟨pre', defs, label', post', heq, hdefs, ⟨i, hi, htarget⟩, hlabel'⟩ := h
  have hnotMem : label ∉ defs := fun hmem => by cases hlabel.1.symm.trans (hdefs label hmem)
  -- directly in front of the label that the definitions belong to
  have hsame : Covers ((pre' ++ defs) ++ define :: label' :: post') loop target := by
    refine ⟨pre', defs ++ [define], label', post', by simp, ?_, ⟨i, ?_, htarget⟩, hlabel'⟩
    · exact forall_mem_append.2 ⟨hdefs, forall_mem_singleton.2 hdefine⟩
    · exact mem_append_left _ hi
  rcases append_eq_append_iff.1 heq with ⟨between, hpre, hrest⟩ | ⟨between, hpre, hrest⟩
  · cases between with
    | nil =>
      cases hrest
      rw [append_nil] at hpre
      exact hpre ▸ hsame
    | cons first between =>
      cases hrest
      -- the place is in front of the definitions, since the label is none of them
      rcases append_eq_append_iff.1 hpre with ⟨within, -, hdefs'⟩ | ⟨within, hpre', hdefs'⟩
      · exact absurd (hdefs' ▸ mem_append_right _ mem_cons_self) hnotMem
      · cases within with
        | nil => exact absurd ((nil_append defs ▸ hdefs') ▸ mem_cons_self) hnotMem
        | cons _ within =>
          cases hdefs'
          exact ⟨pre ++ define :: label :: within, defs, label', post', by simp, hdefs,
            ⟨i, hi, htarget⟩, hlabel'⟩
  · cases between with
    | nil =>
      cases hrest
      rw [append_nil] at hpre
      exact hpre ▸ hsame
    | cons first between =>
      cases hrest
      exact ⟨pre', defs, label', between ++ define :: label :: post, by simp [hpre], hdefs,
        ⟨i, hi, htarget⟩, hlabel'⟩

theorem trim {code' : List Instruction} (h : Covers code loop target) (htrims : Trims code code') :
    Covers code' loop target := by
  obtain ⟨pre, defs, label, post, rfl, hdefs, ⟨define, hmem, hdefine⟩, hlabel⟩ := h
  obtain ⟨_, _, rfl, hfront, hback⟩ := htrims.of_append
  obtain ⟨label', post', rfl, hbecomes, -⟩ := hback.of_cons (hlabel.kind_ne (by decide))
  obtain ⟨pre', defs', rfl, -, hdefs'⟩ := hfront.of_append
  refine ⟨pre', defs', label', post', rfl, fun j hj => ?_, ?_, hbecomes.marks.2 hlabel⟩
  · obtain ⟨i, hi, hbecomes'⟩ := hdefs'.exists_becomes hj
    exact hbecomes'.fields.1.trans (hdefs i hi)
  · obtain ⟨j, hj, hbecomes'⟩ := hdefs'.becomes_of_mem hmem (by rw [hdefine.1]; decide)
    obtain ⟨hkind, -, -, -, hname⟩ := hbecomes'.fields
    exact ⟨j, hj, hkind.trans hdefine.1, hname.trans hdefine.2⟩

end Covers

namespace Draft

variable {d d' : Draft}

/-- The variables of loops are defined directly in front of the outermost loop around them. -/
def Covered (d : Draft) : Prop :=
  ∀ owner < d.size, ∀ name base, (name, ⟨.variable, base⟩) ∈ d.names owner →
    ∀ loop, d.outermost? owner = some loop → Covers d.code loop (Meaning.storageName name owner)

theorem Covered.extend (h : d.Covered) (hd : d.Formed) (hextends : d.Extends d')
    (hcode : ∀ {loop target}, Covers d.code loop target → Covers d'.code loop target)
    (hnew : ∀ owner < d'.size, ∀ name base, (name, ⟨.variable, base⟩) ∈ d'.names owner →
      (owner < d.size ∧ (name, ⟨.variable, base⟩) ∈ d.names owner) ∨
      ∀ loop, d'.outermost? owner = some loop → Covers d'.code loop (Meaning.storageName name owner)) :
    d'.Covered := by
  intro owner hlt name base hname loop hloop
  rcases hnew owner hlt name base hname with ⟨hold, hname⟩ | hcovers
  · rw [hextends.outermost? hd hold] at hloop
    exact hcode (h owner hold name base hname loop hloop)
  · exact hcovers loop hloop

theorem declared_of_new {owner : Nat} {entry : String × Role} (hlt : owner < d.size + 1)
    (h : entry ∈ Function.update d.names d.size ∅ owner) : owner < d.size ∧ entry ∈ d.names owner := by
  by_cases howner : owner = d.size
  · rw [howner, Function.update_self] at h
    exact absurd h (Set.notMem_empty _)
  · rw [Function.update_of_ne howner] at h
    exact ⟨by omega, h⟩

end Draft

theorem Step.covered (h : Step d H code d') (hd : d.Formed) (hcovered : d.Covered) : d'.Covered := by
  have hextends := h.keeps.toExtends
  have hloops := h.keeps.toExtends.outermost? hd hd.current_lt
  cases h with
  | skip => exact hcovered
  | store | call | giveBack =>
    exact hcovered.extend hd hextends (fun h => h.append _) fun owner hlt name base hname =>
      .inl ⟨hlt, hname⟩
  | declare hloop =>
    refine hcovered.extend hd hextends (fun h => h.append _) fun owner hlt name base hname => ?_
    by_cases howner : owner = d.current
    · refine .inr fun loop hsome => ?_
      rw [howner, hloops, hloop] at hsome
      cases hsome
    · exact .inl ⟨hlt, Draft.declare_of_ne howner _ _ ▸ hname⟩
  | @hoist declared _ define label pre post loop hloop hfresh hdefine hcode hlabel hlast =>
    refine hcovered.extend hd hextends (fun h => ?_) fun owner hlt name base hname => ?_
    · rw [hcode] at h
      exact h.insert hdefine.1 hlabel
    · by_cases howner : owner = d.current
      · subst howner
        rw [Draft.declare_here] at hname
        rcases hname with heq | hname
        · refine .inr fun loop' hsome => ?_
          cases heq
          cases (hloops.trans hloop).symm.trans hsome
          exact ⟨pre, [define], label, post, by simp [Draft.declare],
            forall_mem_singleton.2 hdefine.1, ⟨define, mem_singleton_self _, hdefine⟩,
            hlabel⟩
        · exact .inl ⟨hlt, hname⟩
      · exact .inl ⟨hlt, Draft.declare_of_ne howner _ _ ▸ hname⟩

theorem Elaborates.covered (h : Elaborates d H T d') (hd : d.Formed) (hcovered : d.Covered) :
    d'.Covered := by
  refine h.preserves (P := Draft.Covered) (fun hd hstep h => hstep.covered hd h) ?_ ?_ ?_ hd hcovered
  · intro d kind code hd hheads h
    exact h.extend hd Draft.extends_opened (fun h => h.append _) fun owner hlt name base hname =>
      .inl (Draft.declared_of_new hlt hname)
  · intro d d' code els hd hd' hkeeps _ _ h
    exact h.extend hd' (Draft.extends_alternative hkeeps.size_le (Nat.ne_of_gt hd.current_lt))
      (fun h => h.append _) fun owner hlt name base hname => .inl (Draft.declared_of_new hlt hname)
  · intro d d' kind code tail _ hd' _ _ _ _ h
    exact h.extend hd' (Draft.extends_closed d.current) (fun h => h.append _)
      fun owner hlt name base hname => .inl ⟨hlt, hname⟩

end OnePass
