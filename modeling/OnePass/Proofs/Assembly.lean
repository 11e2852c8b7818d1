import OnePass.Proofs.Composition
import OnePass.Proofs.Drafting

/-!
# Functions and programs on sheets

The definition of a function writes its head, its body and its end.  With this a sheet that has been
filled item by item is known to hold the draft of a program.

Main results:

* `Sheet.Begins.headed` — the head of a function;
* `Sheet.Defines.composes` — a function is one part of a program;
* `Fills.composes` — **the items of a program compose its draft**.
-/

namespace OnePass

open List

/-- A new scope below the current one becomes the current one. -/
def Draft.entering (d : Draft) (kind : ScopeKind) (name : String) : Draft :=
  { d with
    size := d.size + 1
    current := d.size
    outlines := Function.update
      (Function.update d.outlines d.size ((d.outlines d.current).below d.current kind name))
      d.current
      { d.outlines d.current with children := (d.outlines d.current).children ++ [d.size] }
    names := Function.update d.names d.size ∅ }

/-- The parameters of a function so far. -/
def Draft.taking (d : Draft) (name : String) (params : List (String × Ty)) : Draft :=
  { d.entering .functionHeader name with
    names := Function.update d.names d.size (paramNames params) }

theorem Draft.entering_taking {d : Draft} (hroot : ScopeTree.root < d.size)
    (hd : d.current = ScopeTree.root) (name : String) (params : List (String × Ty)) (returns : Ty)
    (code : List Instruction) :
    Draft.entering
      { d.taking name params with
        outlines := Function.update (d.taking name params).outlines d.size
          { (d.taking name params).outlines d.size with parameters := params.length }
        names := Function.update (d.taking name params).names ScopeTree.root
          (insert (name, ⟨.function false, returns⟩) ((d.taking name params).names ScopeTree.root))
        code := d.code ++ code } .functionBody name = d.headed name params returns code := by
  have hheader : d.size ≠ ScopeTree.root := Nat.ne_of_gt hroot
  have hbody : d.size + 1 ≠ ScopeTree.root := Nat.succ_ne_zero _
  refine Draft.ext rfl rfl (funext fun id => ?_) (funext fun id => ?_) rfl rfl
  · by_cases hid : id = ScopeTree.root
    · subst hid
      simp [entering, taking, headed, hd, hheader.symm, hbody.symm]
    · by_cases hid' : id = d.size
      · subst hid'
        simp [entering, taking, headed, header, Scope.below, hd, hheader]
      · by_cases hid'' : id = d.size + 1
        · subst hid''
          simp [entering, taking, headed, header, Scope.below, hbody]
        · simp [entering, taking, headed, hd, hid, hid', hid'']
  · by_cases hid : id = ScopeTree.root
    · subst hid
      simp [entering, taking, headed, hheader.symm, hbody.symm]
    · by_cases hid' : id = d.size
      · subst hid'
        simp [entering, taking, headed, hheader]
      · by_cases hid'' : id = d.size + 1
        · subst hid''
          simp [entering, taking, headed, hbody]
        · simp [entering, taking, headed, hid, hid', hid'']

theorem paramNames_nil : paramNames [] = ∅ := by
  ext entry
  simp [paramNames]

theorem paramNames_concat (params : List (String × Ty)) (param : String × Ty) :
    paramNames (params ++ [param]) =
      insert (param.1, ⟨.parameter params.length, param.2⟩) (paramNames params) := by
  ext ⟨name, role⟩
  simp only [paramNames, Set.mem_insert_iff, Prod.mk.injEq, List.getElem?_append]
  constructor
  · rintro ⟨index, base, hname, rfl⟩
    split at hname
    · exact .inr ⟨index, base, hname, rfl⟩
    · rename_i hlt
      obtain ⟨hindex, hparam⟩ := List.getElem?_eq_some_iff.1 hname
      simp only [length_singleton] at hindex
      obtain rfl : index = params.length := by omega
      simp only [Nat.sub_self, getElem_cons_zero] at hparam
      subst hparam
      exact .inl ⟨rfl, rfl⟩
  · rintro (⟨rfl, rfl⟩ | ⟨index, base, hname, rfl⟩)
    · exact ⟨params.length, param.2, by simp, rfl⟩
    · obtain ⟨hlt, -⟩ := List.getElem?_eq_some_iff.1 hname
      exact ⟨index, base, by rw [if_pos hlt]; exact hname, rfl⟩

namespace Sheet

variable {w w' : Sheet}

theorem Fit.enter (h : w.Fit) (hlt : w.scopes.current < w.scopes.size) (kind : ScopeKind) (name : String) :
    (w.onScopes fun t => (t.enter kind name).1).Fit ∧
      (w.onScopes fun t => (t.enter kind name).1).draft = w.draft.entering kind name :=
  ⟨(h.createChild _ kind name).goTo w.scopes.size, Draft.ext (ScopeTree.size_createChild kind name) rfl
    (ScopeTree.outlines_createChild hlt kind name) (ScopeTree.names_createChild hlt kind name) rfl rfl⟩

theorem Takes.taking {index : Nat} {later : List Phrase.Param} (h : w.Takes index later w') {d : Draft}
    {name : String} (params : List (String × Ty)) (hindex : index = params.length) (hw : w.Fit)
    (hdraft : w.draft = d.taking name params) (hnodup : (params.map Prod.fst).Nodup) :
    w'.Fit ∧ ∃ all : List (String × Ty), all.length = params.length + later.length ∧
      w'.draft = d.taking name all ∧ (all.map Prod.fst).Nodup := by
  induction h generalizing params with
  | nil => exact ⟨hw, params, rfl, hdraft, hnodup⟩
  | @cons w w₁ w₂ index param later hfirst _ ih =>
    have hcurrent : w.scopes.current = d.size := congrArg Draft.current hdraft
    have hsize : w.scopes.size = d.size + 1 := congrArg Draft.size hdraft
    have hnames : w.scopes.names d.size = paramNames params := by
      rw [show w.scopes.names = _ from congrArg Draft.names hdraft]
      exact Function.update_self ..
    have hfresh := hfirst.fresh hw.scopes
    obtain ⟨hfit₁, hdraft₁⟩ := hfirst.fit hw (by rw [hcurrent, hsize]; exact Nat.lt_succ_self _)
    rw [hcurrent] at hdraft₁ hfresh
    rw [hnames] at hfresh
    have hnext : w₁.draft = d.taking name
        (params ++ [(param.name.getD s!"_${index}", param.ty.unwrapped)]) := by
      rw [hdraft₁, show w.draft.names d.size = _ from hnames, Draft.taking, paramNames_concat, hdraft]
      simp [Draft.taking, Symbol.role, hindex]
    have hdistinct : ((params ++ [(param.name.getD s!"_${index}", param.ty.unwrapped)]).map
        Prod.fst).Nodup := by
      rw [map_append]
      refine nodup_append.2 ⟨hnodup, nodup_singleton _, ?_⟩
      rintro key hkey _ hsingle rfl
      obtain rfl := mem_singleton.1 hsingle
      obtain ⟨⟨_, base⟩, hparam, rfl⟩ := mem_map.1 hkey
      obtain ⟨position, hposition⟩ := mem_iff_getElem?.1 hparam
      exact hfresh ⟨.parameter position, base⟩ ⟨position, base, hposition, rfl⟩
    obtain ⟨hfit₂, all, hall, hrest⟩ := ih _ (by simp [hindex]) hfit₁ hnext hdistinct
    refine ⟨hfit₂, all, ?_, hrest⟩
    rw [hall, length_append, length_singleton, length_cons]
    omega

theorem exists_parameter {params : List (String × Ty)} {index header : Nat} (hindex : index < params.length)
    (hnames : w.scopes.names header = paramNames params) :
    ∃ symbol, (w.scopes.scope header).table.parameterAt? index = some symbol ∧
      symbol.name = params[index].1 := by
  have hmem : (params[index].1, ⟨.parameter index, params[index].2⟩) ∈ w.scopes.names header := by
    rw [hnames]
    exact ⟨index, _, List.getElem?_eq_getElem hindex, rfl⟩
  obtain ⟨symbol, hsymbol⟩ := SymbolTable.exists_parameterAt? hmem
  refine ⟨symbol, hsymbol, ?_⟩
  obtain ⟨hsort, hfound⟩ := SymbolTable.role_of_parameterAt? hsymbol
  replace hfound : (symbol.name, symbol.role) ∈ w.scopes.names header := hfound
  rw [hnames] at hfound
  obtain ⟨position, base, hposition, hrole⟩ := hfound
  dsimp only at hposition hrole
  rw [hrole] at hsort
  cases hsort
  rw [List.getElem?_eq_getElem hindex] at hposition
  rw [Option.some.inj hposition]

theorem Pops.pops {n : Nat} {code : List Instruction} (h : Pops w.scopes n code)
    {params : List (String × Ty)} (hn : n ≤ params.length)
    (hnames : w.scopes.names w.scopes.current = paramNames params) :
    OnePass.Pops w.scopes.current (params.take n) code := by
  induction h with
  | zero => exact ⟨rfl, forall_mem_nil _⟩
  | @succ index symbol code hsymbol _ ih =>
    obtain ⟨found, hfound, hname⟩ := exists_parameter hn hnames
    cases hsymbol.symm.trans hfound
    obtain ⟨hpops, hkinds⟩ := ih (Nat.le_of_succ_le hn)
    refine ⟨?_, forall_mem_cons.2 ⟨⟨rfl, rfl⟩, hkinds⟩⟩
    rw [map_cons, hpops, take_succ_eq_append_getElem hn, reverse_append]
    simp [hname, Instruction.name?, ScopeTree.named]

theorem Takes.declared {w₁ w₂ : Sheet} {name : String} {params : List Phrase.Param} {returns : Ty}
    {place : Location} (h : Takes (w.onScopes fun t => (t.enter .functionHeader name).1) 0 params w₁)
    (hsymbol : (w₁.onScopes fun t => t.modify w.scopes.size fun scope =>
      { scope with parameters := params.length }).Declares ScopeTree.root
        { name, kind := .function returns false, location := some place } w₂)
    (hw : w.Fit) (hlt : w.scopes.current < w.scopes.size) : w₂.Fit ∧ ∃ all : List (String × Ty),
      all.length = params.length ∧ (all.map Prod.fst).Nodup ∧
      w₂.scopes.names w.scopes.size = paramNames all ∧ w₂.draft = { w.draft.taking name all with
        outlines := Function.update (w.draft.taking name all).outlines w.draft.size
          { (w.draft.taking name all).outlines w.draft.size with parameters := all.length }
        names := Function.update (w.draft.taking name all).names ScopeTree.root
          (insert (name, ⟨.function false, returns⟩) ((w.draft.taking name all).names ScopeTree.root)) } := by
  obtain ⟨hentered, hdraft⟩ := hw.enter hlt .functionHeader name
  obtain ⟨hfit₁, all, hall, hdraft₁, hnodup⟩ := h.taking (d := w.draft) [] rfl hentered
    (by rw [hdraft, Draft.taking, paramNames_nil]; rfl) nodup_nil
  rw [length_nil, Nat.zero_add] at hall
  have hsize : w₁.scopes.size = w.scopes.size + 1 := congrArg Draft.size hdraft₁
  have hsize_lt : w.scopes.size < w₁.scopes.size := hsize ▸ Nat.lt_succ_self _
  obtain ⟨hfit₂, hdraft₂⟩ := hsymbol.fit (hfit₁.modify rfl)
    (Nat.lt_of_lt_of_eq (hsize ▸ Nat.succ_pos _) (ScopeTree.size_modify ..).symm)
  have hmodified : (w₁.onScopes fun t => t.modify w.scopes.size fun scope =>
      { scope with parameters := params.length }).draft = { w.draft.taking name all with
        outlines := Function.update (w.draft.taking name all).outlines w.draft.size
          { (w.draft.taking name all).outlines w.draft.size with parameters := all.length } } := by
    rw [hall, ← hdraft₁]
    exact Draft.ext (ScopeTree.size_modify ..) rfl (ScopeTree.outlines_modify hsize_lt _)
      (ScopeTree.names_modify_of_table hsize_lt rfl) rfl rfl
  rw [hmodified] at hdraft₂
  refine ⟨hfit₂, all, hall, hnodup, ?_, hdraft₂⟩
  rw [show w₂.scopes.names = _ from congrArg Draft.names hdraft₂]
  exact (Function.update_of_ne (Nat.ne_of_gt (Nat.lt_of_le_of_lt (Nat.zero_le _) hlt)) _ _).trans
    (Function.update_self ..)

theorem Begins.headed {f : Phrase.Function} (h : w.Begins f w') (hw : w.Fit)
    (hd : w.draft.Formed) (hcurrent : w.draft.current = ScopeTree.root) :
    w'.Fit ∧ (∀ role, (f.name, role) ∉ w.draft.names ScopeTree.root) ∧
      ∃ (params : List (String × Ty)) (entry : Instruction) (pops : List Instruction),
        (params.map Prod.fst).Nodup ∧ entry.Bounds .functionBegin w.draft.size f.name ∧
        OnePass.Pops w.draft.size params pops ∧
        w'.draft = w.draft.headed f.name params f.returns (entry :: pops) := by
  cases h with
  | @intro w₁ w₂ pops hfresh hparams hsymbol hpops =>
    obtain ⟨hfit₂, params, hlength, hnodup, hnames, hdraft₂⟩ := hparams.declared hsymbol hw hd.current_lt
    have hhere : w₂.scopes.current = w.draft.size := congrArg Draft.current hdraft₂
    have hpops' := hpops.pops (Nat.le_of_eq hlength.symm) (hhere ▸ hnames)
    rw [← hlength, take_length, hhere] at hpops'
    let entry : Instruction :=
      { w₂.scopes.mark .functionBegin w.scopes.size with payload := some (.name f.name) }
    have hsize₂ : w₂.scopes.size = w.draft.size + 1 := congrArg Draft.size hdraft₂
    obtain ⟨hfit, hdraft⟩ := (hfit₂.write (entry :: pops)).enter
      (by rw [scopes_write, hhere, hsize₂]; exact Nat.lt_succ_self _) .functionBody f.name
    refine ⟨hfit, not_contains_iff hw |>.1 hfresh, params, entry, pops, hnodup, ⟨⟨rfl, rfl⟩, rfl⟩, hpops', ?_⟩
    rw [hdraft, draft_write, hdraft₂]
    exact Draft.entering_taking hd.size_pos hcurrent f.name params f.returns _

end Sheet

theorem Sheet.Defines.composes {w w' : Sheet} {f : Phrase.Function} (h : w.Defines f w') (hw : w.Fit)
    (hname : IsName f.name) {parts : List Part} (hparts : Composes parts w.draft) :
    w'.Fit ∧ ∃ parts, Composes parts w'.draft := by
  obtain ⟨hsound, hcurrent, -⟩ := hparts.sound
  cases h with
  | @intro w₁ w₂ hbegin hbody =>
    obtain ⟨hfit₁, hfresh, params, entry, pops, hnodup, hentry, hpops, hdraft₁⟩ :=
      hbegin.headed hw hsound.formed hcurrent
    obtain ⟨hfit₂, H, T, hT⟩ := hbody.elaborates hfit₁
      (hdraft₁ ▸ hsound.formed.headed)
    rw [hdraft₁] at hT
    let fin : Instruction :=
      { w₂.scopes.mark .functionEnd w.scopes.size with payload := some (.name f.name) }
    have hfin : fin.Bounds .functionEnd w.draft.size f.name := ⟨⟨rfl, rfl⟩, rfl⟩
    refine ⟨(hfit₂.goTo _).write _, _, Eq.mpr (congrArg (Composes _) ?_)
      (hparts.function hname hfresh hnodup hentry hpops hT hfin)⟩
    rw [draft_write, Draft.ended, ← hcurrent]
    rfl

theorem Fills.composes {w w' : Sheet} {items : List Phrase.Item} (h : Fills w items w') (hw : w.Fit)
    (hitems : ∀ item ∈ items, item.Within .ofSources) {parts : List Part} (hparts : Composes parts w.draft) :
    w'.Fit ∧ ∃ parts, Composes parts w'.draft := by
  induction h generalizing parts with
  | nil => exact ⟨hw, parts, hparts⟩
  | statement hfirst _ ih =>
    obtain ⟨hfit₁, H, T, hT⟩ := hfirst.elaborates hw hparts.sound.1.formed
    exact ih hfit₁ (forall_mem_of_forall_mem_cons hitems) (hparts.statement hT)
  | function hfirst _ ih =>
    obtain ⟨hfit₁, parts₁, hparts₁⟩ := hfirst.composes hw (forall_mem_cons.1 hitems).1.1 hparts
    exact ih hfit₁ (forall_mem_of_forall_mem_cons hitems) hparts₁

end OnePass
