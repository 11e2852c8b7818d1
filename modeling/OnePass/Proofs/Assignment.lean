import OnePass.Proofs.JumpGraph
import OnePass.Proofs.Storage
import Mathlib.Data.List.Find

/-!
# Places of variables

Every variable has one place, which is defined once, and every parameter of a function is taken once into
its place.  Instructions on variables aim at places of variables in sight.

Main results:

* `Sheet.Moves.assigned` — **every move keeps places assigned one to one**;
* `Sheet.Moves.housed` — every move keeps code in its function.
-/

namespace OnePass

open List

variable {code : List Instruction}

open Meaning (storageName)

/-! ### Sorts of names -/

def SymbolKind.sort : SymbolKind → SymbolSort
  | var .. => .variable
  | function _ builtin => .function builtin
  | parameter index _ _ => .parameter index

namespace ScopeTree

variable {t t' : ScopeTree} {id : Nat} {name : String}

/-- What a name of a scope stands for, apart from all that may change. -/
def sort? (t : ScopeTree) (id : Nat) (name : String) : Option SymbolSort :=
  (t.sense? id name).map SymbolKind.sort

theorem sort?_of_symbol? {symbol : Symbol} (h : t.symbol? id name = some symbol) :
    t.sort? id name = some symbol.sort := by
  rw [sort?, sense?, h]
  rcases symbol with ⟨_, _ | _ | _, _⟩ <;> rfl

theorem sort?_eq_none_iff : t.sort? id name = none ↔ t.sense? id name = none := Option.map_eq_none_iff

theorem lt_of_sort? {sort : SymbolSort} (h : t.sort? id name = some sort) : id < t.size := by
  by_contra hle
  rw [sort?, sense?, symbol?_of_le (Nat.le_of_not_lt hle)] at h
  cases h

/-- The header of a function of the program. -/
def IsOwn (t : ScopeTree) (id : Nat) : Prop :=
  (t.scope id).kind = .functionHeader ∧ t.sort? root (t.scope id).name = some (.function false)

/-- An instruction aims at a variable or at a parameter. -/
def Aiming (t : ScopeTree) (i : Instruction) : Prop :=
  ∃ name owner sort, t.sort? owner name = some sort ∧ (∀ builtin, sort ≠ .function builtin) ∧
    t.Aims i name owner

theorem Reads.aiming {calls : Calls} {i : Instruction} (h : t.Reads calls i) : t.Aiming i := by
  obtain ⟨-, name, owner, kind, hsense, hfunction, haims, -⟩ := h
  refine ⟨name, owner, kind.sort, by rw [sort?, hsense]; rfl, fun builtin hsort => ?_, haims⟩
  cases kind <;> cases hsort
  cases hfunction

end ScopeTree

/-! ### Places -/

/-- The variable or parameter that an instruction gives a place. -/
def Instruction.placed? (i : Instruction) : Option String :=
  match i.kind with
  | .defineVariable | .paramPop => i.name?
  | _ => none

/-- The variables and parameters that code gives places. -/
def placed (code : List Instruction) : List String := code.filterMap Instruction.placed?

theorem placed_append (first second : List Instruction) :
    placed (first ++ second) = placed first ++ placed second := filterMap_append

theorem Trims.placed {l m : List Instruction} (h : Trims l m) : placed m = OnePass.placed l := by
  refine h.filterMap (fun hi => ?_) fun hi => ?_
  · rw [Instruction.placed?, Instruction.placed?, hi.fields.1, hi.fields.2.2.2.2]
  · rw [Instruction.placed?, hi]

theorem mem_placed {target : String} (h : target ∈ placed code) :
    ∃ i ∈ code, i.kind.isAccess ∧ i.name? = some target := by
  obtain ⟨i, hi, hplaced⟩ := mem_filterMap.1 h
  unfold Instruction.placed? at hplaced
  split at hplaced
  · rename_i hkind
    exact ⟨i, hi, by rw [hkind]; rfl, hplaced⟩
  · rename_i hkind
    exact ⟨i, hi, by rw [hkind]; rfl, hplaced⟩
  · cases hplaced

namespace Sheet

variable {w w' : Sheet}
variable {name : String} {id : Nat} {f : Phrase.Function}

/-- Places are those of variables and of parameters, one for each, and instructions aim at them. -/
structure Assigned (w : Sheet) : Prop where
  nodup : (placed w.code).Nodup
  aiming : ∀ i ∈ w.code, i.kind.isAccess → w.scopes.Aiming i
  defines : ∀ i ∈ w.code, i.kind = .defineVariable → ∃ name owner,
    w.scopes.sort? owner name = some .variable ∧ w.scopes.Aims i name owner
  defined : ∀ owner name, w.scopes.sort? owner name = some .variable →
    ∃ i ∈ w.code, i.kind = .defineVariable ∧ w.scopes.Aims i name owner
  takes : ∀ i ∈ w.code, i.kind = .paramPop → ∃ name owner index, w.scopes.IsOwn owner ∧
    w.scopes.sort? owner name = some (.parameter index) ∧ w.scopes.Aims i name owner
  taken : ∀ owner name index, w.scopes.IsOwn owner → w.scopes.sort? owner name = some (.parameter index) →
      ∃ i ∈ w.code, i.kind = .paramPop ∧ w.scopes.Aims i name owner
  /-- the names of functions are taken -/
  headers : ∀ id, (w.scopes.scope id).kind = .functionHeader →
    w.scopes.sort? ScopeTree.root (w.scopes.scope id).name ≠ none
  parameters : ∀ owner name index, w.scopes.sort? owner name = some (.parameter index) →
    (w.scopes.scope owner).kind = .functionHeader

theorem Assigned.notMem_placed (h : w.Assigned) {owner : Nat} (hnone : w.scopes.sort? owner name = none) :
    storageName name owner ∉ placed w.code := by
  intro hmem
  obtain ⟨i, hi, haccess, hname⟩ := mem_placed hmem
  obtain ⟨name', owner', sort, hsort, -, haims⟩ := h.aiming i hi haccess
  obtain ⟨rfl, rfl⟩ := storageName_inj (Option.some.inj (hname.symm.trans haims.target))
  cases hnone.symm.trans hsort

theorem SameHeaders.scope (h : w.SameHeaders w') (hgrows : w.scopes.Grows w'.scopes)
    (hkind : (w'.scopes.scope id).kind = .functionHeader) :
    (w.scopes.scope id).kind = .functionHeader ∧ (w'.scopes.scope id).name = (w.scopes.scope id).name := by
  have hlt : id < w.scopes.size := by
    by_contra hle
    exact h id (Nat.le_of_not_lt hle) hkind
  exact ⟨(hgrows.alike id hlt).kind.symm.trans hkind, (hgrows.alike id hlt).name⟩

theorem Assigned.grow (h : w.Assigned) (hw : w.scopes.Formed) (hgrows : w.scopes.Grows w'.scopes)
    (hnodup : (placed w'.code).Nodup) (hsub : w.code ⊆ w'.code)
    (hcode : ∀ i ∈ w'.code, i ∈ w.code ∨ (i.kind.isAccess → w'.scopes.Aiming i) ∧
      (i.kind = .defineVariable → ∃ name owner, w'.scopes.sort? owner name = some .variable ∧
        w'.scopes.Aims i name owner) ∧
      (i.kind = .paramPop → ∃ name owner index, w'.scopes.IsOwn owner ∧
        w'.scopes.sort? owner name = some (.parameter index) ∧ w'.scopes.Aims i name owner))
    (hkept : ∀ {id name sort}, w.scopes.sort? id name = some sort → w'.scopes.sort? id name = some sort)
    (hnew : ∀ {id name sort}, w'.scopes.sort? id name = some sort → w.scopes.sort? id name = some sort ∨
      (sort = .variable → ∃ i ∈ w'.code, i.kind = .defineVariable ∧ w'.scopes.Aims i name id) ∧
      ∀ index, sort = .parameter index → (w'.scopes.scope id).kind = .functionHeader ∧
        ∃ i ∈ w'.code, i.kind = .paramPop ∧ w'.scopes.Aims i name id)
    (hheaders : ∀ {id}, (w'.scopes.scope id).kind = .functionHeader →
      ((w.scopes.scope id).kind = .functionHeader ∧ (w'.scopes.scope id).name = (w.scopes.scope id).name ∧
        (w'.scopes.sort? ScopeTree.root (w.scopes.scope id).name = some (.function false) →
          w.scopes.sort? ScopeTree.root (w.scopes.scope id).name = some (.function false))) ∨
      w.scopes.size ≤ id ∧ w'.scopes.sort? ScopeTree.root (w'.scopes.scope id).name ≠ none) :
    w'.Assigned := by
  refine ⟨hnodup, fun i hi haccess => ?_, fun i hi hkind => ?_, fun owner name hvariable => ?_,
    fun i hi hkind => ?_, fun owner name index hown hparameter => ?_, fun id hkind => ?_,
    fun owner name index hparameter => ?_⟩
  · rcases hcode i hi with hi | ⟨haiming, -, -⟩
    · obtain ⟨name, owner, sort, hfound, hvalue, haims⟩ := h.aiming i hi haccess
      exact ⟨name, owner, sort, hkept hfound, hvalue, haims.grow hw hgrows⟩
    · exact haiming haccess
  · rcases hcode i hi with hi | ⟨-, hdefines, -⟩
    · obtain ⟨name, owner, hvariable, haims⟩ := h.defines i hi hkind
      exact ⟨name, owner, hkept hvariable, haims.grow hw hgrows⟩
    · exact hdefines hkind
  · rcases hnew hvariable with hold | ⟨hdefined, -⟩
    · obtain ⟨i, hi, hkind, haims⟩ := h.defined owner name hold
      exact ⟨i, hsub hi, hkind, haims.grow hw hgrows⟩
    · exact hdefined rfl
  · rcases hcode i hi with hi | ⟨-, -, htakes⟩
    · obtain ⟨name, owner, index, ⟨hheader, hfunction⟩, hparameter, haims⟩ := h.takes i hi hkind
      have halike := hgrows.alike owner (ScopeTree.lt_of_sort? hparameter)
      refine ⟨name, owner, index, ⟨halike.kind.trans hheader, ?_⟩, hkept hparameter, haims.grow hw hgrows⟩
      rw [halike.name]
      exact hkept hfunction
    · exact htakes hkind
  · rcases hnew hparameter with hold | ⟨-, htaken⟩
    · rcases hheaders hown.1 with ⟨hkind, hname, hback⟩ | ⟨hle, -⟩
      · obtain ⟨i, hi, hkind', haims⟩ := h.taken owner name index ⟨hkind, hback (hname ▸ hown.2)⟩ hold
        exact ⟨i, hsub hi, hkind', haims.grow hw hgrows⟩
      · exact absurd (ScopeTree.lt_of_sort? hold) (Nat.not_lt.2 hle)
    · exact (htaken index rfl).2
  · rcases hheaders hkind with ⟨hkind', hname, -⟩ | ⟨-, hne⟩
    · obtain ⟨sort, hfound⟩ := Option.ne_none_iff_exists'.1 (h.headers id hkind')
      rw [hname, hkept hfound]
      exact nofun
    · exact hne
  · rcases hnew hparameter with hold | ⟨-, htaken⟩
    · exact (hgrows.alike owner (ScopeTree.lt_of_sort? hold)).kind.trans (h.parameters owner name index hold)
    · exact (htaken index rfl).1

theorem Assigned.extend (h : w.Assigned) (hw : w.scopes.Formed) (hgrows : w.scopes.Grows w'.scopes)
    (hheaders : w.SameHeaders w') (hsort : ∀ id name, w'.scopes.sort? id name = w.scopes.sort? id name)
    (hcode : w'.code = w.code ++ code)
    (haiming : ∀ i ∈ code, i.kind.isAccess →
      (i.kind ≠ .defineVariable ∧ i.kind ≠ .paramPop) ∧ w.scopes.Aiming i) : w'.Assigned := by
  have hkinds : ∀ i ∈ code, i.kind ≠ .defineVariable ∧ i.kind ≠ .paramPop := by
    intro i hi
    refine ⟨fun hkind => ?_, fun hkind => ?_⟩
    · exact (haiming i hi (by rw [hkind]; rfl)).1.1 hkind
    · exact (haiming i hi (by rw [hkind]; rfl)).1.2 hkind
  have hplaced : placed code = [] := by
    refine filterMap_eq_nil_iff.2 fun i hi => ?_
    unfold Instruction.placed?
    split
    · exact absurd ‹_› (hkinds i hi).1
    · exact absurd ‹_› (hkinds i hi).2
    · rfl
  refine h.grow hw hgrows ?_ (hcode ▸ subset_append_left _ _) (fun i hi => ?_) (hsort _ _).trans
    (fun hfound => .inl ((hsort _ _).symm.trans hfound)) fun hkind => ?_
  · rw [hcode, placed_append, hplaced, append_nil]
    exact h.nodup
  · rcases mem_append.1 (hcode ▸ hi) with hi | hi
    · exact .inl hi
    · refine .inr ⟨fun haccess => ?_, fun h => absurd h (hkinds i hi).1, fun h => absurd h (hkinds i hi).2⟩
      obtain ⟨-, name, owner, sort, hfound, hvalue, haims⟩ := haiming i hi haccess
      exact ⟨name, owner, sort, (hsort _ _).trans hfound, hvalue, haims.grow hw hgrows⟩
  · obtain ⟨hkind', hname⟩ := hheaders.scope hgrows hkind
    exact .inl ⟨hkind', hname, (hsort _ _).symm.trans⟩

theorem Assigned.declare (h : w.Assigned) (hw : w.scopes.Formed) (hgrows : w.scopes.Grows w'.scopes)
    (hheaders : w.SameHeaders w') (hfresh : w.scopes.sort? w.scopes.current name = none)
    (hsort : ∀ id key, w'.scopes.sort? id key =
      if id = w.scopes.current ∧ key = name then some .variable else w.scopes.sort? id key)
    {pre post : List Instruction} (hcode : w.code = pre ++ post)
    (hcode' : w'.code = pre ++ w.scopes.named .defineVariable name w.scopes.current :: post) :
    w'.Assigned := by
  have haims : w'.scopes.Aims (w.scopes.named .defineVariable name w.scopes.current) name
      w.scopes.current :=
    (ScopeTree.aims_named hw (w.scopes.mem_ancestors_self _)).grow hw hgrows
  have hnew : w'.scopes.sort? w.scopes.current name = some .variable :=
    (hsort _ _).trans (if_pos ⟨rfl, rfl⟩)
  have hmem : ∀ i, i ∈ w'.code ↔ i = w.scopes.named .defineVariable name w.scopes.current ∨ i ∈ w.code := by
    intro i
    rw [hcode', hcode, mem_append, mem_append, mem_cons]
    exact or_left_comm
  refine h.grow hw hgrows ?_ (fun i hi => (hmem i).2 (.inr hi)) (fun i hi => ?_)
    (fun {id key sort} hfound => ?_) (fun {id key sort} hfound => ?_) fun hkind => ?_
  · have hperm : (placed w'.code).Perm (storageName name w.scopes.current :: placed w.code) := by
      rw [hcode', hcode, placed_append, placed_append]
      exact perm_middle
    exact hperm.nodup_iff.2 (nodup_cons.2 ⟨h.notMem_placed hfresh, h.nodup⟩)
  · rcases (hmem i).1 hi with rfl | hi
    · exact .inr ⟨fun _ => ⟨name, _, .variable, hnew, nofun, haims⟩, fun _ => ⟨name, _, hnew, haims⟩, nofun⟩
    · exact .inl hi
  · rw [hsort, if_neg, hfound]
    rintro ⟨rfl, rfl⟩
    cases hfresh.symm.trans hfound
  · rw [hsort] at hfound
    split at hfound
    · rename_i hsame
      rw [hsame.1, hsame.2]
      cases hfound
      exact .inr ⟨fun _ => ⟨_, (hmem _).2 (.inl rfl), rfl, haims⟩, nofun⟩
    · exact .inl hfound
  · obtain ⟨hkind', hname⟩ := hheaders.scope hgrows hkind
    refine .inl ⟨hkind', hname, fun hfunction => ?_⟩
    rw [hsort] at hfunction
    split at hfunction
    · cases hfunction
    · exact hfunction

theorem Heads.sort? (h : w.Heads f w') {sort : SymbolSort} :
    w'.scopes.sort? id name = some sort ↔ w.scopes.sort? id name = some sort ∨
      id = ScopeTree.root ∧ name = f.name ∧ sort = .function false ∨
      id = w.scopes.size ∧ w'.scopes.sort? id name = some sort ∧ ∃ index, sort = .parameter index := by
  have hempty : w.scopes.sort? w.scopes.size name = none :=
    ScopeTree.sort?_eq_none_iff.2
      (ScopeTree.sense?_eq_none_iff.2 (w.scopes.symbol?_of_le (Nat.le_refl _) name))
  have hfresh : w.scopes.sort? ScopeTree.root f.name = none := ScopeTree.sort?_eq_none_iff.2 h.fresh
  have hfunction : w'.scopes.sort? ScopeTree.root f.name = some (.function false) := by
    rw [ScopeTree.sort?, h.function]
    rfl
  by_cases hheader : id = w.scopes.size
  · subst hheader
    constructor
    · intro hfound
      obtain ⟨kind, hsense, rfl⟩ := Option.map_eq_some_iff.1 hfound
      obtain ⟨index, param, -, -, rfl⟩ := (h.params name kind).1 hsense
      exact .inr (.inr ⟨rfl, hfound, index, rfl⟩)
    · rintro (hold | ⟨hroot, rfl, rfl⟩ | ⟨-, hfound, -⟩)
      · cases hempty.symm.trans hold
      · rw [hroot]
        exact hfunction
      · exact hfound
  · by_cases hroot : id = ScopeTree.root ∧ name = f.name
    · obtain ⟨rfl, rfl⟩ := hroot
      rw [hfunction, hfresh]
      simp [hheader, eq_comm]
    · have hsame : w'.scopes.sort? id name = w.scopes.sort? id name :=
        congrArg (Option.map SymbolKind.sort) (h.others id name hheader hroot)
      rw [hsame]
      constructor
      · exact .inl
      · rintro (hold | ⟨rfl, rfl, -⟩ | ⟨hid, -⟩)
        · exact hold
        · exact absurd ⟨rfl, rfl⟩ hroot
        · exact absurd hid hheader

theorem Heads.aims (h : w.Heads f w') (name : String) :
    w'.scopes.Aims ⟨.paramPop, w.scopes.size, .local, 0, some (.name (storageName name w.scopes.size))⟩ name
      w.scopes.size where
  target := rfl
  frame := h.header.frame.symm
  sight := w'.scopes.mem_ancestors_self _
  scope_lt := by
    rw [h.size]
    exact Nat.lt_add_of_pos_right Nat.two_pos

theorem Heads.of_header (hhead : w.Heads f w') (h : w.Assigned) (hgrows : w.scopes.Grows w'.scopes)
    (hkind : (w'.scopes.scope id).kind = .functionHeader) :
    id = w.scopes.size ∨ (w.scopes.scope id).kind = .functionHeader ∧
      (w'.scopes.scope id).name = (w.scopes.scope id).name ∧ (w.scopes.scope id).name ≠ f.name := by
  by_cases hlt : id < w.scopes.size
  · have halike := hgrows.alike id hlt
    have hkind' := halike.kind.symm.trans hkind
    refine .inr ⟨hkind', halike.name, fun hname => h.headers id hkind' ?_⟩
    rw [hname]
    exact ScopeTree.sort?_eq_none_iff.2 hhead.fresh
  · by_cases hnew : id = w.scopes.size
    · exact .inl hnew
    · rcases Nat.lt_or_eq_of_le (show w.scopes.size + 1 ≤ id by omega) with hlt | rfl
      · rw [ScopeTree.scope_of_le (by rw [hhead.size]; exact hlt)] at hkind
        cases hkind
      · rw [hhead.body.kind] at hkind
        cases hkind

theorem Assigned.nodup_pops (h : w.Assigned) {pops : List Instruction}
    (hnodup : (pops.map Instruction.name?).Nodup)
    (hpops : ∀ i ∈ pops, i.kind = .paramPop ∧ ∃ name, i.name? = some (storageName name w.scopes.size)) :
    (placed w.code ++ placed pops).Nodup := by
  have hplaced : (placed pops).map some = pops.map Instruction.name? := by
    clear hnodup
    induction pops with
    | nil => rfl
    | cons i pops ih =>
      obtain ⟨⟨hkind, name, hname⟩, hrest⟩ := forall_mem_cons.1 hpops
      have hi : i.placed? = some (storageName name w.scopes.size) := by
        rw [Instruction.placed?, hkind]
        exact hname
      rw [placed, filterMap_cons_some hi, map_cons, map_cons, hname]
      exact congrArg _ (ih hrest)
  refine List.Nodup.append h.nodup (List.Nodup.of_map some (hplaced ▸ hnodup)) ?_
  intro target hold hnew
  obtain ⟨i, hi, -, hname⟩ := mem_placed hnew
  obtain ⟨-, name, hname'⟩ := hpops i hi
  obtain rfl := Option.some.inj (hname.symm.trans hname')
  refine h.notMem_placed ?_ hold
  exact ScopeTree.sort?_eq_none_iff.2
    (ScopeTree.sense?_eq_none_iff.2 (w.scopes.symbol?_of_le (Nat.le_refl _) name))

theorem Assigned.head (h : w.Assigned) (hw : w.scopes.Formed) (hgrows : w.scopes.Grows w'.scopes)
    (hhead : w.Heads f w') : w'.Assigned := by
  obtain ⟨entry, pops, hentry, -, hcode, hnodup, hpops⟩ := hhead.code
  have hown : w'.scopes.IsOwn w.scopes.size := by
    refine ⟨hhead.header.kind, ?_⟩
    rw [hhead.header.name]
    exact hhead.sort?.2 (.inr (.inl ⟨rfl, rfl, rfl⟩))
  have hpop : ∀ i ∈ pops, ∃ name index, w'.scopes.sort? w.scopes.size name = some (.parameter index) ∧
      i.kind = .paramPop ∧ w'.scopes.Aims i name w.scopes.size := by
    intro i hi
    obtain ⟨name, hsome, rfl⟩ := (hpops i).1 hi
    obtain ⟨kind, hsense⟩ := Option.isSome_iff_exists.1 hsome
    obtain ⟨index, param, -, -, rfl⟩ := (hhead.params name kind).1 hsense
    exact ⟨name, index, by rw [ScopeTree.sort?, hsense]; rfl, rfl, hhead.aims name⟩
  refine h.grow hw hgrows ?_ (hcode ▸ subset_append_left _ _) (fun i hi => ?_)
    (fun hfound => hhead.sort?.2 (.inl hfound)) (fun {id name sort} hfound => ?_) fun {id} hkind => ?_
  · have hskip : placed (entry :: pops) = placed pops := by
      refine filterMap_cons_none ?_
      rw [Instruction.placed?, hentry]
    rw [hcode, placed_append, hskip]
    refine h.nodup_pops hnodup fun i hi => ?_
    obtain ⟨name, -, -, hkind, haims⟩ := hpop i hi
    exact ⟨hkind, name, haims.target⟩
  · rcases mem_append.1 (hcode ▸ hi) with hi | hi
    · exact .inl hi
    · right
      rcases mem_cons.1 hi with rfl | hi
      · rw [hentry]
        exact ⟨nofun, nofun, nofun⟩
      · obtain ⟨name, index, hfound, hkind, haims⟩ := hpop i hi
        rw [hkind]
        exact ⟨fun _ => ⟨name, _, _, hfound, nofun, haims⟩, nofun, fun _ => ⟨name, _, index, hown, hfound, haims⟩⟩
  · rcases hhead.sort?.1 hfound with hold | ⟨-, -, rfl⟩ | ⟨rfl, -, index, rfl⟩
    · exact .inl hold
    · exact .inr ⟨nofun, nofun⟩
    · obtain ⟨kind, hsense, -⟩ := Option.map_eq_some_iff.1 hfound
      refine .inr ⟨nofun, fun _ _ => ⟨hhead.header.kind, _, ?_, rfl, hhead.aims name⟩⟩
      rw [hcode]
      exact mem_append_right _ (mem_cons_of_mem _ ((hpops _).2 ⟨name, by rw [hsense]; rfl, rfl⟩))
  · rcases hhead.of_header h hgrows hkind with rfl | ⟨hkind', hname, hne⟩
    · refine .inr ⟨Nat.le_refl _, ?_⟩
      rw [hown.2]
      exact nofun
    · refine .inl ⟨hkind', hname, fun hfunction => ?_⟩
      rcases hhead.sort?.1 hfunction with hfunction | ⟨-, hsame, -⟩ | ⟨hroot, -⟩
      · exact hfunction
      · exact absurd hsame hne
      · exact absurd hroot (Nat.ne_of_lt hw.size_pos)

theorem Moves.assigned (hmove : w.Moves w') (hw : w.scopes.Formed) (h : w.Assigned) : w'.Assigned := by
  obtain ⟨hgrows, hw'⟩ := hmove.formed hw
  have hsorts : ∀ {id name}, w'.scopes.sense? id name = w.scopes.sense? id name →
      w'.scopes.sort? id name = w.scopes.sort? id name := fun hsense => congrArg (Option.map _) hsense
  have hreads : ∀ {w' : Sheet} {code : List Instruction}, w.Reading w' code → ∀ i ∈ code,
      i.kind.isAccess → (i.kind ≠ .defineVariable ∧ i.kind ≠ .paramPop) ∧ w.scopes.Aiming i := by
    intro w' code hreading i hi haccess
    have hread := hreading i hi haccess
    refine ⟨?_, hread.aiming⟩
    obtain ⟨hkind | hkind, -⟩ := hread <;>
    · rw [hkind]
      exact ⟨nofun, nofun⟩
  cases hmove.shifts hw with
  | quiet hquiet =>
    obtain ⟨code, hcode, hreading⟩ := hquiet.code
    exact h.extend hw hgrows hquiet.headers (fun id name => hsorts (hquiet.sense id name)) hcode
      (hreads hreading)
  | @declare name isMutable defined pre post code hsize hfresh hsense _ hcode hcode' hreading =>
    have hsort : ∀ id key, w'.scopes.sort? id key =
        if id = w.scopes.current ∧ key = name then some .variable else w.scopes.sort? id key := by
      intro id key
      rw [ScopeTree.sort?, hsense]
      split <;> rfl
    have hdefined : ({ w' with code := pre ++ w.scopes.named .defineVariable name w.scopes.current :: post }
        : Sheet).Assigned :=
      h.declare hw hgrows (sameHeaders_of_size hsize) (ScopeTree.sort?_eq_none_iff.2 hfresh) hsort hcode rfl
    -- behind the definition, the initial value and the store
    refine hdefined.extend hw' (.refl _) (sameHeaders_of_size rfl) (fun _ _ => rfl) hcode' fun i hi haccess => ?_
    rcases mem_append.1 hi with hi | hi
    · obtain ⟨hkinds, key, owner, sort, hfound, hvalue, haims⟩ := hreads hreading i hi haccess
      refine ⟨hkinds, key, owner, sort, ?_, hvalue, haims.grow hw hgrows⟩
      refine (hsort owner key).trans ?_
      rw [if_neg, hfound]
      rintro ⟨rfl, rfl⟩
      cases (ScopeTree.sort?_eq_none_iff.2 hfresh).symm.trans hfound
    · split at hi
      · rw [mem_singleton.1 hi]
        refine ⟨⟨nofun, nofun⟩, name, w.scopes.current, .variable, ?_, nofun, ?_⟩
        · exact (hsort _ _).trans (if_pos ⟨rfl, rfl⟩)
        · exact (ScopeTree.aims_named hw (w.scopes.mem_ancestors_self _)).grow hw hgrows
      · cases hi
  | @store name owner isMutable defined hsize hheld _ hsight hsense _ hcode =>
    refine h.extend hw hgrows (sameHeaders_of_size hsize) (fun id key => ?_) hcode
      (forall_mem_singleton.2 fun _ => ⟨⟨nofun, nofun⟩, name, owner, .variable, ?_, nofun,
        ScopeTree.aims_named hw hsight⟩)
    · rw [ScopeTree.sort?, hsense, ScopeTree.sort?]
      split
      · rename_i hsame
        rw [hsame.1, hsame.2, hheld]
        rfl
      · rfl
    · rw [ScopeTree.sort?, hheld]
      rfl
  | head hhead => exact h.head hw hgrows hhead

end Sheet

/-! ### Functions around code -/

/-- Whether an instruction stays where it is written, in a block: definitions go in front of loops, and
brackets bound blocks and functions. -/
def InstructionKind.isSteady (kind : InstructionKind) : Bool :=
  !kind.isBracket && kind != .defineVariable

theorem InstructionKind.isBound_of_isSteady {kind : InstructionKind} (h : kind.isSteady) :
    kind.isBound = false := by
  revert h
  cases kind <;> decide

/-- The function that is open behind some code. -/
def region : Option Nat → List Instruction → Option Nat
  | inside, [] => inside
  | inside, i :: later =>
      region (if i.kind = .functionEnd then none
        else if i.kind = .functionBegin then some i.scope else inside) later

theorem region_append (inside : Option Nat) (first second : List Instruction) :
    region inside (first ++ second) = region (region inside first) second := by
  induction first generalizing inside with
  | nil => rfl
  | cons i first ih => exact ih _

theorem region_inner {inside : Option Nat} (h : Inner code) : region inside code = inside := by
  induction code with
  | nil => rfl
  | cons i code ih =>
    obtain ⟨hi, hrest⟩ := forall_mem_cons.1 h
    have hkinds : i.kind ≠ .functionEnd ∧ i.kind ≠ .functionBegin := by
      constructor <;>
      · intro hkind
        rw [hkind] at hi
        cases hi
    rw [region, if_neg hkinds.1, if_neg hkinds.2, ih hrest]

theorem exists_region_of_mem {body inside : Option Nat} {i : Instruction}
    (h : i ∈ bodyFrom body inside code) (hi : i.kind.isBound = false) :
    ∃ pre post, code = pre ++ i :: post ∧ region inside pre = body := by
  induction code generalizing inside with
  | nil => cases h
  | cons j later ih =>
    rw [bodyFrom] at h
    have hlater : i ∈ bodyFrom body (if j.kind = .functionEnd then none
        else if j.kind = .functionBegin then some j.scope else inside) later →
        ∃ pre post, j :: later = pre ++ i :: post ∧ region inside pre = body := by
      intro h
      obtain ⟨pre, post, rfl, hregion⟩ := ih h
      exact ⟨j :: pre, post, rfl, hregion⟩
    by_cases hhere : (if j.kind = .functionBegin then some j.scope else inside) = body
    · rw [if_pos hhere] at h
      rcases mem_cons.1 h with rfl | h
      · have hkind : i.kind ≠ .functionBegin := by
          intro hkind
          rw [hkind] at hi
          cases hi
        rw [if_neg hkind] at hhere
        exact ⟨[], later, rfl, hhere⟩
      · exact hlater h
    · rw [if_neg hhere] at h
      exact hlater h

namespace ScopeTree

variable {t t' : ScopeTree}
variable {id : Nat}

/-- The header of the function around a scope. -/
def home (t : ScopeTree) (id : Nat) : Option Nat :=
  (t.ancestors id).find? fun id => (t.scope id).kind == .functionHeader

theorem Formed.home_child (ht : t.Formed) {above : Nat} {kind : ScopeKind}
    (h : Child t.scope above id kind) (hkind : kind ≠ .functionHeader) : t.home id = t.home above := by
  rw [home, ht.ancestors_of_child h, List.find?_cons_of_neg, home]
  rw [h.1]
  simpa using hkind

theorem home_header (h : (t.scope id).kind = .functionHeader) : t.home id = some id := by
  have hself : t.ancestors id = id :: (t.ancestors id).tail := by
    unfold ancestors
    rfl
  rw [home, hself, List.find?_cons_of_pos]
  rw [h]
  rfl

theorem Formed.ancestors_root (ht : t.Formed) : t.ancestors root = [root] := by
  have hparent : (t.scope root).parent = none := by
    have hfitting := ht.fitting root ht.size_pos
    unfold Fitting at hfitting
    rw [ht.global] at hfitting
    exact hfitting.2.1
  rw [ancestors_eq]
  exact ancestorsBy_of_none hparent

theorem Formed.home_root (ht : t.Formed) : t.home root = none := by
  rw [home, ht.ancestors_root, List.find?_cons_of_neg]
  · rfl
  · rw [ht.global]
    exact nofun

theorem Formed.home_grow (ht : t.Formed) (hgrows : t.Grows t') (hlt : id < t.size) :
    t'.home id = t.home id := by
  rw [home, home, hgrows.ancestors ht hlt]
  refine List.find?_congr fun other hother => ?_
  rw [(hgrows.alike other (ht.lt_of_mem_ancestors hlt hother)).kind]

theorem Formed.home_of_mem (ht : t.Formed) {other : Nat} (hlt : id < t.size) (h : other ∈ t.ancestors id)
    (hother : (t.scope other).kind ≠ .global) : t.home other = t.home id := by
  induction id using Nat.strong_induction_on with
  | _ id ih =>
    have hfitting := ht.fitting id hlt
    -- all scopes but the global one and headers are in the function of the scope around them
    have hstep : ∀ above, above < id → (t.scope id).parent = some above →
        (t.scope id).kind ≠ .functionHeader → t.home other = t.home id := by
      intro above hless hparent hkind
      have hchild : Child t.scope above id (t.scope id).kind := ⟨rfl, hparent⟩
      rw [ht.ancestors_of_child hchild] at h
      rcases mem_cons.1 h with rfl | h
      · rfl
      · rw [ih above hless (Nat.lt_trans hless hlt) h, ht.home_child hchild hkind]
    unfold Fitting at hfitting
    split at hfitting
    · obtain ⟨rfl, -⟩ := hfitting
      rw [ht.ancestors_root, mem_singleton] at h
      rw [h]
    · rename_i hkind
      rw [ht.ancestors_of_child ⟨hkind, hfitting.2.1⟩, ht.ancestors_root] at h
      rcases mem_cons.1 h with rfl | h
      · rfl
      · rw [mem_singleton.1 h, ht.global] at hother
        exact absurd rfl hother
    · rename_i hkind
      obtain ⟨above, hless, hparent, -⟩ := hfitting
      exact hstep above hless hparent (by rw [hkind]; exact nofun)
    · rename_i hheader _
      obtain ⟨above, hless, hparent, -⟩ := hfitting
      exact hstep above hless hparent hheader

/-- An instruction of the current scope that stays where it is written. -/
def Local (t : ScopeTree) (i : Instruction) : Prop := i.scope = t.current ∧ i.kind.isSteady

theorem isSteady_of_takes {kind : InstructionKind} (h : kind.takes = 2) : kind.isSteady := by
  cases kind <;> first | rfl | cases h

theorem Local.inner {i : Instruction} (h : t.Local i) : i.scope = t.current ∧ i.kind.isBound = false :=
  ⟨h.1, InstructionKind.isBound_of_isSteady h.2⟩

theorem Literal.local {i : Instruction} {payload : Payload} (h : t.Literal i payload) : t.Local i :=
  ⟨h.scope, by rw [h.kind]; rfl⟩

theorem Evaluates.local {e : Phrase.Expr} (h : t.Evaluates e code) : ∀ i ∈ code, t.Local i := by
  induction h with
  | literal _ hi => exact forall_mem_singleton.2 hi.local
  | «variable» => exact forall_mem_singleton.2 ⟨rfl, rfl⟩
  | binary _ _ htakes hscope ih ih' =>
    exact forall_mem_append.2 ⟨ih, forall_mem_append.2 ⟨ih',
      forall_mem_singleton.2 ⟨hscope, isSteady_of_takes htakes⟩⟩⟩
  | unwrap _ hkind hscope ih | convert _ hkind hscope ih =>
    exact forall_mem_append.2 ⟨ih, forall_mem_singleton.2 ⟨hscope, by rw [hkind]; rfl⟩⟩

theorem Passes.local {variadic : Bool} {args : List Phrase.Arg}
    {arguments : List Argument} (h : t.Passes variadic args code arguments) : ∀ i ∈ code, t.Local i := by
  induction h with
  | nil => exact forall_mem_nil _
  | concat _ hlast ih =>
    refine forall_mem_append.2 ⟨ih, forall_mem_cons.2 ⟨?_, ?_⟩⟩
    · cases hlast with
      | literal _ hi => exact hi.local
      | «variable» => exact ⟨rfl, rfl⟩
    · split
      · exact forall_mem_singleton.2 ⟨rfl, rfl⟩
      · exact forall_mem_nil _

theorem mem_ancestors_of_outermostWhile? {loop : Nat} (h : t.outermostWhile? id = some loop) :
    loop ∈ t.ancestors id ∧ (t.scope loop).kind = .whileBody := by
  obtain ⟨hmem, hkind⟩ := mem_filter.1 (mem_of_getLast? h)
  exact ⟨hmem, eq_of_beq hkind⟩

end ScopeTree

namespace Sheet

variable {w w' : Sheet}
variable {ty : Ty} {code : List Instruction}

/-- Code stands in the function in which its scopes are, and so does what is written next. -/
structure Housed (w : Sheet) : Prop where
  here : region none w.code = w.scopes.home w.scopes.current
  each : ∀ pre i post, w.code = pre ++ i :: post → i.kind.isBound = false →
    i.scope < w.scopes.size ∧ region none pre = w.scopes.home i.scope

theorem Requests.local {callee : String} {args : List Phrase.Arg} {target : Option Ty}
    (h : w.Requests callee args target w') :
    ∃ code, w'.code = w.code ++ code ∧ ∀ i ∈ code, w.scopes.Local i := by
  cases h with
  | intro hargs =>
    refine ⟨_, rfl, forall_mem_append.2 ⟨hargs.local, ?_⟩⟩
    unfold callCode
    split
    · exact forall_mem_nil _
    · refine forall_mem_cons.2 ⟨⟨rfl, rfl⟩, ?_⟩
      split
      · exact forall_mem_singleton.2 ⟨rfl, rfl⟩
      · exact forall_mem_nil _

theorem Supplies.local {side : Phrase.RightSide} (h : w.Supplies ty side w') :
    ∃ code, w'.code = w.code ++ code ∧ ∀ i ∈ code, w.scopes.Local i := by
  cases h with
  | expression hvalue => exact ⟨_, rfl, hvalue.local⟩
  | call hcall => exact hcall.local

theorem Initializes.local {isMutable defined : Bool} {init : Option Phrase.RightSide}
    (h : w.Initializes ty isMutable init defined w') :
    ∃ code, w'.code = w.code ++ code ∧ ∀ i ∈ code, w.scopes.Local i := by
  cases h with
  | side hside => exact hside.local
  | absent hi => exact ⟨_, rfl, forall_mem_singleton.2 hi.local⟩
  | waiting => exact ⟨[], (append_nil _).symm, forall_mem_nil _⟩

theorem Housed.grow (h : w.Housed) (hw : w.scopes.Formed) {t : ScopeTree} (hgrows : w.scopes.Grows t) :
    ∀ pre i post, w.code = pre ++ i :: post → i.kind.isBound = false →
      i.scope < t.size ∧ region none pre = t.home i.scope := by
  intro pre i post hcode hi
  obtain ⟨hlt, hregion⟩ := h.each pre i post hcode hi
  exact ⟨Nat.lt_of_lt_of_le hlt hgrows.size_le, by rw [hw.home_grow hgrows hlt, hregion]⟩

theorem Housed.append (h : w.Housed) (hw : w.scopes.Formed) (hgrows : w.scopes.Grows w'.scopes)
    (hcode : w'.code = w.code ++ code)
    (hnew : ∀ pre i post, code = pre ++ i :: post → i.kind.isBound = false →
      i.scope < w'.scopes.size ∧ region (w.scopes.home w.scopes.current) pre = w'.scopes.home i.scope)
    (hend : region (w.scopes.home w.scopes.current) code = w'.scopes.home w'.scopes.current) :
    w'.Housed := by
  constructor
  · rw [hcode, region_append, h.here, hend]
  · intro pre i post hsplit hi
    rw [hcode] at hsplit
    rcases append_eq_append_iff.1 hsplit with ⟨between, rfl, hrest⟩ | ⟨between, hpre, hrest⟩
    · rw [region_append, h.here]
      exact hnew between i post hrest hi
    · cases between with
      | nil =>
        rw [append_nil] at hpre
        rw [← hpre, h.here]
        exact hnew [] i post hrest.symm hi
      | cons first between =>
        cases hrest
        exact h.grow hw hgrows pre i between hpre hi

theorem Housed.write (h : w.Housed) (hw : w.scopes.Formed) (hgrows : w.scopes.Grows w'.scopes)
    (hcode : w'.code = w.code ++ code)
    (hnew : ∀ i ∈ code, i.kind.isBound = false ∧ i.scope < w'.scopes.size ∧
      w'.scopes.home i.scope = w.scopes.home w.scopes.current)
    (hcurrent : w'.scopes.home w'.scopes.current = w.scopes.home w.scopes.current) : w'.Housed := by
  have hinner : Inner code := fun i hi => (hnew i hi).1
  refine h.append hw hgrows hcode (fun pre i post hsplit _ => ?_) ?_
  · obtain ⟨-, hlt, hhome⟩ := hnew i (hsplit ▸ mem_append_right _ mem_cons_self)
    have hpre : Inner pre := fun j hj => hinner j (hsplit ▸ mem_append_left _ hj)
    rw [region_inner hpre, hhome]
    exact ⟨hlt, rfl⟩
  · rw [region_inner hinner, hcurrent]

theorem Housed.add (h : w.Housed) (hw : w.scopes.Formed) (hgrows : w.scopes.Grows w'.scopes)
    (hcode : w'.code = w.code ++ code)
    (hlocal : ∀ i ∈ code, i.scope = w.scopes.current ∧ i.kind.isBound = false)
    (hcurrent : w'.scopes.current = w.scopes.current) : w'.Housed := by
  have hhome := hw.home_grow hgrows hw.current_lt
  refine h.write hw hgrows hcode (fun i hi => ?_) (by rw [hcurrent, hhome])
  obtain ⟨hscope, hkind⟩ := hlocal i hi
  rw [hscope]
  exact ⟨hkind, Nat.lt_of_lt_of_le hw.current_lt hgrows.size_le, hhome⟩

theorem Reserves.housed {name : String} (hreserve : w.Reserves name w') (hw : w.scopes.Formed)
    (h : w.Housed) : w'.Housed := by
  cases hreserve with
  | here => exact h.add hw (.refl _) rfl (forall_mem_singleton.2 ⟨rfl, rfl⟩) rfl
  | @before loop pre post label hloop hcode hkind hscope =>
    obtain ⟨hmem, hwhile⟩ := ScopeTree.mem_ancestors_of_outermostWhile? hloop
    obtain ⟨-, hlabel⟩ := h.each pre label post hcode (by rw [hkind]; rfl)
    have hpre : region none pre = w.scopes.home w.scopes.current := by
      rw [hlabel, hscope]
      exact hw.home_of_mem hw.current_lt hmem (by rw [hwhile]; exact nofun)
    -- the definition leaves the open function as it is
    have hskip : ∀ rest, region none (pre ++ w.scopes.named .defineVariable name w.scopes.current :: rest) =
        region none (pre ++ rest) := fun rest => by
      rw [region_append, region_append]
      rfl
    constructor
    · show region none (pre ++ w.scopes.named .defineVariable name w.scopes.current :: label :: post) = _
      rw [hskip, ← hcode]
      exact h.here
    · intro pre' i post' hsplit hi
      replace hsplit : pre ++ w.scopes.named .defineVariable name w.scopes.current :: label :: post =
          pre' ++ i :: post' := hsplit
      rcases append_eq_append_iff.1 hsplit with ⟨between, rfl, hrest⟩ | ⟨between, rfl, hrest⟩
      · cases between with
        | nil =>
          cases hrest
          rw [append_nil]
          exact ⟨hw.current_lt, hpre⟩
        | cons first between =>
          obtain ⟨rfl, hlater⟩ := List.cons.inj (hrest.trans cons_append)
          rw [hskip]
          exact h.each _ i post' (by rw [hcode, hlater, append_assoc]) hi
      · cases between with
        | nil =>
          cases hrest
          rw [append_nil] at hpre
          exact ⟨hw.current_lt, hpre⟩
        | cons first between =>
          obtain ⟨rfl, -⟩ := List.cons.inj hrest
          exact h.each pre' i (between ++ label :: post) (by rw [hcode, append_assoc]; rfl) hi

theorem Introduces.housed {isMutable defined : Bool} {name : String} {init : Option Phrase.RightSide}
    (hdeclare : w.Introduces isMutable name ty init defined w') (hw : w.scopes.Formed) (h : w.Housed) :
    w'.Housed := by
  cases hdeclare with
  | @intro w₁ w₂ w₃ place _ _ hreserve hinit hdeclare =>
    have hscopes₁ := hreserve.scopes.1
    have hscopes₂ := hinit.scopes
    have hw₁ : w₁.scopes.Formed := hscopes₁ ▸ hw
    have hw₂ : w₂.scopes.Formed := hscopes₂ ▸ hw₁
    obtain ⟨code, hcode, hlocal⟩ := hinit.local
    have h₂ : w₂.Housed :=
      (hreserve.housed hw h).add hw₁ (hscopes₂ ▸ .refl _) hcode (fun i hi => (hlocal i hi).inner)
        (congrArg _ hscopes₂)
    obtain ⟨hgrows, hcurrent, -, hsame, -⟩ := hdeclare.grows
    cases defined with
    | true => exact h₂.add hw₂ hgrows hsame (forall_mem_singleton.2 ⟨rfl, rfl⟩) hcurrent
    | false =>
      exact h₂.add hw₂ hgrows (hsame.trans (append_nil _).symm) (forall_mem_nil _) hcurrent

theorem Heads.housed {f : Phrase.Function} (hhead : w.Heads f w') (hw : w.scopes.Formed)
    (hw' : w'.scopes.Formed) (hgrows : w.scopes.Grows w'.scopes)
    (hcurrent : w'.scopes.current = w.scopes.size + 1) (h : w.Housed) : w'.Housed := by
  obtain ⟨entry, pops, hentry, hscope, hcode, -, hpops⟩ := hhead.code
  have hbody : w'.scopes.home w'.scopes.current = some w.scopes.size := by
    have hchild : Child w'.scopes.scope w.scopes.size (w.scopes.size + 1) .functionBody :=
      hhead.body.child rfl
    rw [hcurrent, hw'.home_child hchild nofun, ScopeTree.home_header hhead.header.kind]
  have hpop : ∀ i ∈ pops, i.kind.isBound = false ∧ i.scope = w.scopes.size := by
    intro i hi
    obtain ⟨name, -, rfl⟩ := (hpops i).1 hi
    exact ⟨rfl, rfl⟩
  have hinner : Inner pops := fun i hi => (hpop i hi).1
  have hopen : ∀ code, region (w.scopes.home w.scopes.current) (entry :: code) =
      region (some w.scopes.size) code := by
    intro code
    rw [region, if_neg (by rw [hentry]; exact nofun), if_pos hentry, hscope]
  refine h.append hw hgrows hcode (fun pre i post hsplit hi => ?_) (by rw [hopen, region_inner hinner, hbody])
  rcases cons_eq_append_iff.1 hsplit with ⟨rfl, hrest⟩ | ⟨before, rfl, hrest⟩
  · obtain ⟨rfl, -⟩ := List.cons.inj hrest
    rw [hentry] at hi
    cases hi
  · have hbefore : Inner before := fun j hj => hinner j (hrest ▸ mem_append_left _ hj)
    rw [(hpop i (hrest ▸ mem_append_right _ mem_cons_self)).2, hopen, region_inner hbefore,
      ScopeTree.home_header hhead.header.kind, hhead.size]
    exact ⟨by omega, rfl⟩

theorem Moves.housed (hmove : w.Moves w') (hw : w.scopes.Formed) (h : w.Housed) : w'.Housed := by
  obtain ⟨hgrows, hw'⟩ := hmove.formed hw
  -- where a mark goes, and where a move leads
  have hkept : ∀ {id}, id < w.scopes.size → w.scopes.home id = w.scopes.home w.scopes.current →
      id < w'.scopes.size ∧ w'.scopes.home id = w.scopes.home w.scopes.current :=
    fun hid hhome => ⟨Nat.lt_of_lt_of_le hid hgrows.size_le, (hw.home_grow hgrows hid).trans hhome⟩
  have hhere := hkept hw.current_lt rfl
  have habove : ∀ {parent id kind}, id < w.scopes.size → Child w.scopes.scope parent id kind →
      kind ≠ .functionHeader → w.scopes.home id = w.scopes.home w.scopes.current →
      w'.scopes.home parent = w.scopes.home w.scopes.current := by
    intro parent id kind hid hchild hkind hhome
    have hless := Nat.lt_trans ((hw.fitting id hid).lt hchild.2) hid
    exact (hkept hless ((hw.home_child hchild hkind).symm.trans hhome)).2
  cases hmove with
  | evaluate hvalue => exact h.add hw hgrows rfl (fun i hi => (hvalue.local i hi).inner) rfl
  | request hcall =>
    obtain ⟨code, hcode, hlocal⟩ := hcall.local
    exact h.add hw hgrows hcode (fun i hi => (hlocal i hi).inner) (congrArg _ hcall.scopes)
  | declare hdeclare => exact hdeclare.housed hw h
  | store =>
    exact h.add hw hgrows rfl (forall_mem_singleton.2 ⟨rfl, rfl⟩) (ScopeTree.current_modifyVisible ..)
  | giveBack => exact h.add hw hgrows rfl (forall_mem_singleton.2 ⟨rfl, rfl⟩) rfl
  | note => exact h.add hw hgrows (append_nil _).symm (forall_mem_nil _) rfl
  | label hid hchild =>
    exact h.write hw hgrows rfl (forall_mem_singleton.2 ⟨rfl, hkept hid (hw.home_child hchild nofun)⟩)
      rfl
  | @test test kind id hid hchild htest =>
    have hhome := hkept hid (hw.home_child hchild (by rcases htest with ⟨-, rfl⟩ | ⟨-, rfl⟩ <;> exact nofun))
    refine h.write hw hgrows rfl (forall_mem_singleton.2 ⟨?_, hhome⟩) hhome.2
    rcases htest with ⟨rfl, -⟩ | ⟨rfl, -⟩ <;> rfl
  | present hid hchild =>
    have hhome := hkept hid (hw.home_child hchild nofun)
    exact h.write hw hgrows rfl (forall_mem_singleton.2 ⟨rfl, hhome⟩) hhome.2
  | retype => exact h.add hw hgrows (append_nil _).symm (forall_mem_nil _) rfl
  | close hchild =>
    exact h.write hw hgrows rfl (forall_mem_cons.2 ⟨⟨rfl, hhere⟩,
      forall_mem_singleton.2 ⟨rfl, hhere⟩⟩) (habove hw.current_lt hchild nofun rfl)
  | @switch parent hchild =>
    have hsecond : Child ((w.scopes.goTo parent).alternative w.scopes.current).scope parent w.scopes.size
        .elseBranch := ((w.scopes.goTo parent).alike_alternative w.scopes.current).child rfl
    have hhome := (hw'.home_child hsecond nofun).trans (habove hw.current_lt hchild nofun rfl)
    exact h.write hw hgrows rfl (forall_mem_singleton.2 ⟨rfl, hhere⟩) hhome
  | @endIf id parent hid hchild hother =>
    have hless := Nat.lt_trans hid hw.current_lt
    have hhome := (hw.home_child hchild nofun).trans (hw.home_child hother nofun).symm
    exact h.write hw hgrows rfl (forall_mem_singleton.2 ⟨rfl, hkept hless hhome⟩)
      (habove hw.current_lt hother nofun rfl)
  | endWhile hchild =>
    exact h.write hw hgrows rfl (forall_mem_singleton.2 ⟨rfl, hhere⟩)
      (habove hw.current_lt hchild nofun rfl)
  | begin _ hbegin => exact (hbegin.heads hw).housed hw hw' hgrows hbegin.grows.2.1 h
  | finish =>
    refine h.append hw hgrows rfl (fun pre i post hsplit hi => ?_) hw'.home_root.symm
    rcases cons_eq_append_iff.1 hsplit with ⟨rfl, hrest⟩ | ⟨before, rfl, hrest⟩
    · obtain ⟨rfl, -⟩ := List.cons.inj hrest
      cases hi
    · exact absurd hrest (by simp)

end Sheet

end OnePass
