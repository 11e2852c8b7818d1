import OnePass.Proofs.Hoisting
import OnePass.Proofs.Safety

/-!
# Variables are defined once, and before they are used

What hoisting does to statements holds of whole programs: of the main program, whose statements stand
between functions, and of every function, whose parameters are taken off the stack first.

Main results:

* `Composes.guarded_main`, `Composes.guarded_function` — variables are defined before they are used;
* `hoisting_correct` — **hoisting is correct**.
-/

namespace OnePass

open List

variable {D : Deed} {parts : List Part} {body : Option Nat} {d : Draft} {c : Context} {p : Program}
variable {use : Deed} {place scope : Nat}

/-! ### The flows of bodies -/

theorem Flow.Guarded.mono {T : Flow} {K K' : Prop} (h : T.Guarded D use K) (hle : K → K') :
    T.Guarded D use K' := by
  induction T generalizing K K' with
  | straight => exact fun hmem => hle (h hmem)
  | seq T U ih ih' => exact ⟨ih h.1 hle, ih' h.2 (Or.imp_left hle)⟩
  | branch _ _ T _ U ih ih' =>
    exact ⟨fun hmem => hle (h.1 hmem), ih h.2.1 (Or.imp_left hle), ih' h.2.2 (Or.imp_left hle)⟩
  | loop _ _ T ih => exact ⟨fun hmem => hle (h.1 hmem), ih h.2 (Or.imp_left hle)⟩

theorem settled_bodyFlow (h : ∀ part ∈ parts, part.flow.Settled) (body : Option Nat) :
    (bodyFlow body parts).Settled := by
  induction parts with
  | nil => trivial
  | cons part later ih =>
    obtain ⟨hpart, hlater⟩ := forall_mem_cons.1 h
    rw [bodyFlow]
    split
    · exact ⟨hpart, ih hlater⟩
    · exact ih hlater

theorem guarded_bodyFlow (h : ∀ part ∈ parts, part.header = body → part.flow.Guarded D use False) :
    (bodyFlow body parts).Guarded D use False := by
  induction parts with
  | nil => exact fun hmem => absurd hmem not_mem_nil
  | cons part later ih =>
    obtain ⟨hpart, hlater⟩ := forall_mem_cons.1 h
    rw [bodyFlow]
    split
    · rename_i hheader
      exact ⟨hpart hheader, (ih hlater).mono False.elim⟩
    · exact ih hlater

theorem passes_bodyFlow_concat {part : Part} : (bodyFlow body (parts ++ [part])).passes D ↔
      (bodyFlow body parts).passes D ∨ part.header = body ∧ part.flow.passes D := by
  induction parts with
  | nil => by_cases hheader : part.header = body <;> simp [bodyFlow, Flow.passes, hheader]
  | cons first later ih =>
    rw [cons_append, bodyFlow, bodyFlow]
    split
    · rw [Flow.passes, Flow.passes, ih, or_assoc]
    · exact ih

theorem guarded_bodyFlow_concat {part : Part} {K : Prop} (h : (bodyFlow body parts).Guarded D use K)
    (hpart : part.header = body → part.flow.Guarded D use (K ∨ (bodyFlow body parts).passes D)) :
    (bodyFlow body (parts ++ [part])).Guarded D use K := by
  induction parts generalizing K with
  | nil =>
    rw [nil_append, bodyFlow]
    split
    · rename_i hheader
      refine ⟨(hpart hheader).mono ?_, fun hmem => absurd hmem not_mem_nil⟩
      exact fun hor => hor.elim id fun hmem => absurd hmem not_mem_nil
    · exact h
  | cons first later ih =>
    rw [cons_append, bodyFlow]
    rw [bodyFlow] at h hpart
    split
    · rename_i hheader
      rw [if_pos hheader] at h hpart
      refine ⟨h.1, ih h.2 fun heq => (hpart heq).mono ?_⟩
      exact or_assoc.2
    · rename_i hheader
      rw [if_neg hheader] at h hpart
      exact ih h hpart

/-! ### The flows of parts -/

theorem Composes.settled (h : Composes parts d) : ∀ part ∈ parts, part.flow.Settled := by
  induction h with
  | start => exact forall_mem_singleton.2 trivial
  | statement h hbody ih =>
    exact forall_mem_append.2 ⟨ih, forall_mem_singleton.2 (hbody.settled h.sound.1.formed)⟩
  | @function parts d d' name params returns entry fin pops H T h hname hfresh hparams hentry hpops hbody hfin
      ih =>
    refine forall_mem_append.2 ⟨ih, forall_mem_singleton.2 ?_⟩
    exact ⟨⟨trivial, hbody.settled h.sound.1.formed.headed⟩, trivial⟩

section guarded

variable {name : String} {owner : Nat}
variable {d : Draft}

theorem start_not_sees : ¬ Context.start.draft.Sees name owner := by
  rintro ⟨hmem, role, hrole, hfunction⟩
  rw [start_current, Draft.ancestors_root start_formed] at hmem
  rw [mem_singleton.1 hmem, start_names_root] at hrole
  obtain ⟨builtin, -, -, rfl⟩ := hrole
  exact hfunction true rfl

theorem Draft.Sees.of_ended {d' : Draft} {function : String} {params : List (String × Ty)} {returns : Ty}
    {code code' : List Instruction} (hd : d.Formed) (hcurrent : d.current = ScopeTree.root)
    (hd' : d'.Formed) (hkeeps : (d.headed function params returns code).Keeps d')
    (h : (d'.ended code').Sees name owner) : d.Sees name owner := by
  obtain ⟨hmem, role, hrole, hfunction⟩ := h
  have hmem' : owner ∈ d'.ancestors ScopeTree.root := hmem
  rw [ancestors_root hd', mem_singleton] at hmem'
  subst hmem'
  refine ⟨?_, role, ?_, hfunction⟩
  · rw [hcurrent, ancestors_root hd]
    exact mem_singleton_self _
  · have hnames : d'.names ScopeTree.root = _ :=
      hkeeps.names ScopeTree.root hd.headed.size_pos (Nat.ne_of_lt (Nat.succ_pos _))
    rw [show (d'.ended code').names ScopeTree.root = d'.names ScopeTree.root from rfl, hnames,
      headed_names_root] at hrole
    rcases hrole with heq | hrole
    · cases heq
      exact absurd rfl (hfunction false)
    · exact hrole

theorem Composes.guarded_main (h : Composes parts d) :
    (bodyFlow none parts).Guarded (.define (Meaning.storageName name owner))
        (.use (Meaning.storageName name owner)) False ∧
      (d.Sees name owner → (bodyFlow none parts).passes (.define (Meaning.storageName name owner))) := by
  induction h with
  | start =>
    refine ⟨⟨fun hmem => absurd hmem not_mem_nil, fun hmem => absurd hmem not_mem_nil⟩, ?_⟩
    exact fun hsees => absurd hsees start_not_sees
  | @statement parts d d' H T h hbody ih =>
    obtain ⟨hguarded, hsees⟩ := ih
    obtain ⟨hsound, hcurrent, hglobal⟩ := h.sound
    have hloop : d.outermost? d.current = none :=
      hcurrent ▸ Draft.outermost?_root hsound.formed hglobal
    have hnone : H = [] := hbody.hoists_nil hsound.formed hloop
    subst hnone
    obtain ⟨hguarded', hsees'⟩ := hbody.guarded hsound.formed hsees fun ⟨_, hi, _⟩ =>
      absurd hi not_mem_nil
    refine ⟨guarded_bodyFlow_concat hguarded fun _ => hguarded'.mono .inr, fun hsees => ?_⟩
    exact passes_bodyFlow_concat.2 ((hsees' hsees).imp_right fun hpasses => ⟨rfl, hpasses⟩)
  | @function parts d d' function params returns entry fin pops H T h hname hfresh hparams hentry hpops hbody
      hfin ih =>
    obtain ⟨hguarded, hsees⟩ := ih
    obtain ⟨hsound, hcurrent, -⟩ := h.sound
    obtain ⟨hd', hkeeps⟩ := hbody.keeps hsound.formed.headed
    refine ⟨guarded_bodyFlow_concat hguarded nofun, fun h => ?_⟩
    exact passes_bodyFlow_concat.2 (.inl (hsees (h.of_ended hsound.formed hcurrent hd' hkeeps)))

theorem Pops.define_mem {function : String} {params : List (String × Ty)} {returns : Ty}
    {entry : Instruction} {pops : List Instruction} (hpops : Pops d.size params pops)
    (hentry : entry.Bounds .functionBegin d.size function) (hd : d.Formed) (hle : d.size ≤ owner) (hsees : (d.headed function params returns (entry :: pops)).Sees name owner) :
    .define (Meaning.storageName name owner) ∈ OnePass.deeds (entry :: pops) := by
  obtain ⟨hmem, role, hrole, -⟩ := hsees
  rw [show (d.headed function params returns (entry :: pops)).current = d.size + 1 from rfl,
    Draft.ancestors_headed hd] at hmem
  simp only [mem_cons, not_mem_nil, or_false] at hmem
  rcases hmem with rfl | rfl | rfl
  · rw [Draft.headed_names_body] at hrole
    exact absurd hrole (Set.notMem_empty _)
  · rw [Draft.headed_names_header hd] at hrole
    obtain ⟨index, base, hindex, -⟩ := hrole
    have hparam : (name, base) ∈ params.reverse := mem_reverse.2 (mem_of_getElem? hindex)
    rw [hpops.entry_deeds hentry]
    exact mem_map.2 ⟨_, hparam, rfl⟩
  · exact absurd hd.size_pos (Nat.not_lt.2 hle)

theorem Composes.guarded_function (h : Composes parts d) {header : Nat}
    (hle : header ≤ owner) : ∀ part ∈ parts, part.header = some header →
      part.flow.Guarded (.define (Meaning.storageName name owner))
        (.use (Meaning.storageName name owner)) False := by
  induction h with
  | start => exact forall_mem_singleton.2 nofun
  | statement _ _ ih => exact forall_mem_append.2 ⟨ih, forall_mem_singleton.2 nofun⟩
  | @function parts d d' function params returns entry fin pops H T h hname hfresh hparams hentry hpops hbody
      hfin ih =>
    refine forall_mem_append.2 ⟨ih, forall_mem_singleton.2 ?_⟩
    rintro ⟨⟩
    obtain ⟨hsound, -, hglobal⟩ := h.sound
    have hformed : (d.headed function params returns (entry :: pops)).Formed := hsound.formed.headed
    have hnone : H = [] :=
      hbody.hoists_nil hformed (Draft.outermost?_headed hsound.formed hglobal)
    subst hnone
    have hentry' : .use (Meaning.storageName name owner) ∉ OnePass.deeds (entry :: pops) := by
      rw [hpops.entry_deeds hentry]
      simp
    have hsees : (d.headed function params returns (entry :: pops)).Sees name owner →
        False ∨ .define (Meaning.storageName name owner) ∈ OnePass.deeds (entry :: pops) :=
      fun hsees => .inr (hpops.define_mem hentry hsound.formed hle hsees)
    obtain ⟨hguarded, -⟩ := hbody.guarded hformed hsees fun ⟨_, hi, _⟩ =>
      absurd hi not_mem_nil
    exact ⟨⟨hentry', hguarded⟩, fun hmem => absurd hmem not_mem_nil⟩

end guarded

/-! ### The definitions of programs -/

theorem start_targeted : Context.start.draft.Targeted := by
  have hnone : targets Context.start.draft.code = [] := rfl
  exact ⟨hnone ▸ nodup_nil, fun _ hmem => absurd (hnone ▸ hmem) not_mem_nil⟩

theorem Draft.Targeted.headed {function : String} {params : List (String × Ty)} {returns : Ty}
    {entry : Instruction} {pops : List Instruction} (h : d.Targeted) (hd : d.Formed)
    (hparams : (params.map Prod.fst).Nodup) (hentry : entry.Bounds .functionBegin d.size function)
    (hpops : Pops d.size params pops) : (d.headed function params returns (entry :: pops)).Targeted := by
  have hnew : targets (entry :: pops) = (params.map Prod.fst).reverse.map (Meaning.storageName · d.size) := by
    rw [targets_eq, hpops.entry_deeds hentry, filterMap_map, ← map_reverse, map_map]
    exact congrFun filterMap_eq_map _
  have hcode : targets (d.headed function params returns (entry :: pops)).code =
      targets d.code ++ (params.map Prod.fst).reverse.map (Meaning.storageName · d.size) := by
    rw [← hnew]
    exact targets_append _ _
  constructor
  · rw [hcode]
    refine nodup_append.2 ⟨h.nodup, ?_, ?_⟩
    · exact (nodup_reverse.2 hparams).map fun _ _ heq => (storageName_inj heq).1
    · rintro target htarget _ htarget' rfl
      obtain ⟨name, owner, heq, howner, -⟩ := h.declared target htarget
      obtain ⟨param, -, heq'⟩ := mem_map.1 htarget'
      exact absurd (storageName_inj (heq'.trans heq)).2 (Nat.ne_of_gt howner)
  · intro target htarget
    rw [hcode] at htarget
    rcases mem_append.1 htarget with htarget | htarget
    · obtain ⟨name, owner, heq, howner, role, hrole⟩ := h.declared target htarget
      exact ⟨name, owner, heq, Nat.lt_of_lt_of_le howner (Nat.le_add_right _ 2), role,
        extends_headed.names owner howner hrole⟩
    · obtain ⟨name, hname, rfl⟩ := mem_map.1 htarget
      obtain ⟨⟨_, base⟩, hparam, rfl⟩ := mem_map.1 (mem_reverse.1 hname)
      obtain ⟨index, hindex⟩ := mem_iff_getElem?.1 hparam
      refine ⟨_, d.size, rfl, Nat.lt_succ_of_lt (Nat.lt_succ_self _), ⟨.parameter index, base⟩, ?_⟩
      rw [headed_names_header hd]
      exact ⟨index, base, hindex, rfl⟩

theorem Composes.targeted (h : Composes parts d) : d.Targeted := by
  refine h.preserves (P := Draft.Targeted) start_targeted (fun hd hbody => hbody.targeted hd) ?_ ?_
  · intro d name params returns entry pops hsound _ _ _ _ hparams hentry hpops h
    exact h.headed hsound.formed hparams hentry hpops
  · intro d header fin _ _ _ _ hfin h
    have hfin' : OnePass.deeds [fin] = [] :=
      filterMap_cons_none (by rw [Instruction.deed?, hfin.1.1])
    exact h.write Draft.extends_ended rfl fun _ hmem => absurd (hfin' ▸ hmem) not_mem_nil

theorem start_covered : Context.start.draft.Covered := by
  have hnone : ∀ owner < 11, Context.start.draft.outermost? owner = none := by decide +kernel
  intro owner hlt name _ _ loop hloop
  rw [hnone owner (start_size ▸ hlt)] at hloop
  cases hloop

theorem Composes.covered (h : Composes parts d) : d.Covered := by
  refine h.preserves (P := Draft.Covered) start_covered (fun hd hbody => hbody.covered hd) ?_ ?_
  · intro d name params returns entry pops hsound _ _ _ _ _ _ _ h
    refine h.extend hsound.formed Draft.extends_headed (fun h => h.append _)
      fun owner howner var base hvar => .inl ?_
    -- a function declares no variables before its body
    by_cases hroot : owner = ScopeTree.root
    · rw [hroot, Draft.headed_names_root] at hvar
      rcases hvar with heq | hvar
      · cases congrArg Prod.snd heq
      · exact ⟨hroot ▸ hsound.formed.size_pos, hroot ▸ hvar⟩
    · by_cases hheader : owner = d.size
      · rw [hheader, Draft.headed_names_header hsound.formed] at hvar
        obtain ⟨_, _, -, hrole⟩ := hvar
        cases hrole
      · by_cases hbody : owner = d.size + 1
        · rw [hbody, Draft.headed_names_body] at hvar
          exact absurd hvar (Set.notMem_empty _)
        · rw [Draft.headed_names_of_ne hroot hheader hbody] at hvar
          have howner' : owner < d.size + 2 := howner
          exact ⟨by omega, hvar⟩
  · intro d header fin hd _ _ _ _ h
    exact h.extend hd Draft.extends_ended (fun h => h.append _) fun owner hlt var base hvar =>
      .inl ⟨hlt, hvar⟩

/-! ### Accepted programs -/

theorem Accepted.define_once (h : Accepted c p) (body : Option Nat) {later : Nat} {target : String}
    (hplace : deedAt (bodyCode body p.stream.code) place = some (.define target))
    (hlater : deedAt (bodyCode body p.stream.code) later = some (.define target)) : place = later := by
  obtain ⟨parts, hparts⟩ := h.composed.composes
  have hnodup : (targets p.stream.code).Nodup := by
    rw [targets_eq, h.trims.deeds, ← targets_eq]
    exact hparts.targeted.nodup
  have hbody : (targets (bodyCode body p.stream.code)).Nodup :=
    hnodup.sublist ((bodyFrom_sublist body none p.stream.code).filterMap _)
  obtain ⟨i, hi, hdeed⟩ := Option.bind_eq_some_iff.1 hplace
  obtain ⟨j, hj, hdeed'⟩ := Option.bind_eq_some_iff.1 hlater
  refine filterMap_once hbody hi hj (b := target) ?_ ?_
  · rw [hdeed]
    rfl
  · rw [hdeed']
    rfl

theorem Accepted.header_le (h : Accepted c p) {header : Nat}
    (hheader : (c.scopes.enclosingFunction scope).toOption = some header) : header ≤ scope := by
  obtain ⟨parts, hparts⟩ := h.composed.composes
  unfold ScopeTree.enclosingFunction at hheader
  split at hheader
  · rename_i found hfind
    cases hheader
    have hmem := mem_of_find?_eq_some hfind
    rw [ScopeTree.ancestors_eq] at hmem
    exact le_of_mem_ancestorsBy hparts.sound.1.formed.rooted hmem
  · cases hheader

theorem Accepted.guarded (h : Accepted c p) {name : String}
    (hbody : body = (c.scopes.enclosingFunction scope).toOption)
    (huse : deedAt (bodyCode body p.stream.code) place = some (.use (Meaning.storageName name scope))) :
    ¬ Avoids (bodyCode body p.stream.code)
      (fun i => i.deed? = some (.define (Meaning.storageName name scope))) 0 place := by
  obtain ⟨parts, codes, hparts, hcodes, hcode⟩ := h.lays
  rw [hcode] at huse ⊢
  have hguarded : (bodyFlow body parts).Guarded (.define (Meaning.storageName name scope))
      (.use (Meaning.storageName name scope)) False := by
    cases body with
    | none => exact hparts.guarded_main.1
    | some header => exact guarded_bodyFlow (hparts.guarded_function (h.header_le hbody.symm))
  exact (lays_body hcodes body).guarded (hparts.marksOnce_body hcodes body) hguarded huse

theorem Accepted.covers (h : Accepted c p) {loop : Nat} {name : String} {symbol : Symbol}
    (hsymbol : (c.scopes.scope scope).table.get? name = some symbol) (hsort : symbol.sort = .variable)
    (hloop : c.scopes.outermostWhile? scope = some loop) :
    Covers p.stream.code loop (Meaning.storageName name scope) := by
  obtain ⟨hfit, parts, hparts⟩ := h.composed
  have hname : (name, symbol.role) ∈ c.draft.names scope :=
    SymbolTable.mem_names_of_get? (hfit.scopes scope) hsymbol
  have hrole : symbol.role = ⟨.variable, symbol.role.base⟩ := by
    rw [← hsort, ← symbol.sort_role]
  have hlt : scope < c.draft.size := by
    by_contra hge
    rw [ScopeTree.scope_of_le (Nat.le_of_not_lt hge)] at hsymbol
    cases hsymbol
  replace hloop : c.draft.outermost? scope = some loop := (c.sheet.outermost?_draft scope).symm.trans hloop
  rw [hrole] at hname
  exact (hparts.covered scope hlt name _ hname loop hloop).trim h.trims

theorem Accepted.define_behind (h : Accepted c p) (body : Option Nat) {later : Nat}
    {target : String} (hplace : deedAt (bodyCode body p.stream.code) place = some (.define target))
    (hpath : Relation.TransGen (Steps (bodyCode body p.stream.code)) place later) : place < later := by
  obtain ⟨parts, codes, hparts, hcodes, hcode⟩ := h.lays
  rw [hcode] at hplace hpath
  exact (lays_body hcodes body).define_behind (hparts.marksOnce_body hcodes body)
    (settled_bodyFlow hparts.settled body) hplace hpath

theorem Accepted.exists_target (h : Accepted c p) {i : Instruction} (hi : i ∈ p.stream.code)
    (hkind : i.kind = .defineVariable ∨ i.kind = .paramPop) :
    ∃ target, i.deed? = some (.define target) := by
  obtain ⟨target, htarget⟩ := (h.renderable i hi).1 (by rcases hkind with hkind | hkind <;> rw [hkind] <;> rfl)
  refine ⟨target, ?_⟩
  rcases hkind with hkind | hkind <;> rw [Instruction.deed?, hkind, htarget] <;> rfl

/-- Hoisting is correct. In the jump graph of a body no definition is on a cycle, and no path leads from
a definition of a variable to another one. No path leads from the entry to a use of a variable of the
body without its definition. A variable of a loop is defined among the definitions directly in front of
the outermost loop around it. -/
theorem hoisting_correct {source : String} {p : Program}
    (h : (Program.ofFeed (.ofSource source)).result = .ok p) :
    (∀ (body : Option Nat) (place : Nat) (i : Instruction), (bodyCode body p.stream.code)[place]? = some i →
      i.kind = .defineVariable ∨ i.kind = .paramPop →
      ¬ Relation.TransGen (Steps (bodyCode body p.stream.code)) place place) ∧
    (∀ (body : Option Nat) (place later : Nat) (target : String),
      deedAt (bodyCode body p.stream.code) place = some (.define target) →
      deedAt (bodyCode body p.stream.code) later = some (.define target) →
      ¬ Relation.TransGen (Steps (bodyCode body p.stream.code)) place later) ∧
    (∀ (scope place : Nat) (name : String) (body : Option Nat),
      body = (p.scopes.enclosingFunction scope).toOption →
      deedAt (bodyCode body p.stream.code) place = some (.use (Meaning.storageName name scope)) →
      ¬ Avoids (bodyCode body p.stream.code)
        (fun i => i.deed? = some (.define (Meaning.storageName name scope))) 0 place) ∧
    (∀ (scope loop : Nat) (name : String) (symbol : Symbol),
      (p.scopes.scope scope).table.get? name = some symbol → symbol.sort = .variable →
      p.scopes.outermostWhile? scope = some loop →
      Covers p.stream.code loop (Meaning.storageName name scope)) := by
  obtain ⟨c, haccepted, -⟩ := accepted_of_ok h
  rw [haccepted.scopes]
  refine ⟨?_, ?_, ?_, ?_⟩
  · intro body place i hi hkind hcycle
    have hmem : i ∈ p.stream.code :=
      (bodyFrom_sublist body none _).subset (mem_of_getElem? hi)
    obtain ⟨target, htarget⟩ := haccepted.exists_target hmem hkind
    have hdeed : deedAt (bodyCode body p.stream.code) place = some (.define target) := by
      rw [deedAt, hi]
      exact htarget
    exact Nat.lt_irrefl _ (haccepted.define_behind body hdeed hcycle)
  · intro body place later target hplace hlater hpath
    have hlt := haccepted.define_behind body hplace hpath
    exact Nat.ne_of_lt hlt (haccepted.define_once body hplace hlater)
  · intro scope place name body hbody huse
    exact haccepted.guarded hbody huse
  · intro scope loop name symbol hsymbol hsort hloop
    exact haccepted.covers hsymbol hsort hloop

/-- The variable of the inner loop is defined in front of the outer one. -/
theorem hoisting_correct_nested : ∃ p, (Program.ofFeed (.ofSource
        "var n = 1\nwhile n < 9 \x7b\n while n < 5 \x7b\n  var a = n\n  n = a + 1\n \x7d\n\x7d\n")).result = .ok p ∧
      p.scopes.outermostWhile? 12 = some 11 ∧
      Covers p.stream.code 11 (Meaning.storageName "a" 12) := by
  refine exists_ok_of_any (fun p => ((p.scopes.scope 12).table.get? "a").any (·.sort = .variable) ∧
      p.scopes.outermostWhile? 12 = some 11) (by decide +kernel) fun p hok ⟨hsymbol, hloop⟩ => ?_
  obtain ⟨symbol, hsymbol, hsort⟩ := (Option.any_eq_true _ _).1 hsymbol
  obtain ⟨-, -, -, hcovers⟩ := hoisting_correct hok
  exact ⟨hloop, hcovers 12 11 "a" symbol hsymbol (of_decide_eq_true hsort) hloop⟩

end OnePass
