import OnePass.Proofs.Lexical

/-!
# Places in programs

The code of an accepted program has one place for each of its variables and for each parameter of its
functions.  Functions work in their own frames and on global variables, the main program on global
variables only, and names mean what is nearest in the text.

Main results:

* `Accepted.allocated` — the places of accepted programs, from those of their sheets;
* `storage_assigned` — **storage is assigned one to one, and frames never mix**.
-/

namespace OnePass

open Meaning (storageName)

/-! ### Trimmed code -/

theorem Trims.of_append_cons {l pre' post' : List Instruction} {j : Instruction}
    (h : Trims l (pre' ++ j :: post')) :
    ∃ pre i post, l = pre ++ i :: post ∧ Trims pre pre' ∧ i.Becomes j := by
  generalize hcode : pre' ++ j :: post' = code at h
  induction h generalizing pre' with
  | nil => cases pre' <;> cases hcode
  | @keep i j' l m hi h ih =>
    cases pre' with
    | nil =>
      cases hcode
      exact ⟨[], i, l, rfl, .nil, hi⟩
    | cons first pre' =>
      obtain ⟨rfl, hrest⟩ := List.cons.inj (List.cons_append.symm.trans hcode)
      obtain ⟨pre, k, post, rfl, hpre, hk⟩ := ih hrest
      exact ⟨i :: pre, k, post, rfl, .keep hi hpre, hk⟩
  | @drop i l m hi h ih =>
    obtain ⟨pre, k, post, rfl, hpre, hk⟩ := ih hcode
    exact ⟨i :: pre, k, post, rfl, .drop hi hpre, hk⟩

theorem Trims.region {l m : List Instruction} (h : Trims l m) (inside : Option Nat) :
    region inside m = OnePass.region inside l := by
  induction h generalizing inside with
  | nil => rfl
  | keep hi _ ih =>
    rw [OnePass.region, OnePass.region, hi.fields.1, hi.fields.2.1]
    exact ih _
  | drop hi _ ih =>
    rw [ih]
    rw [OnePass.region, hi]
    rfl

theorem eq_of_placed? {code : List Instruction} (h : (placed code).Nodup) {k m : Nat} {i j : Instruction}
    {target : String} (hi : code[k]? = some i) (hj : code[m]? = some j) (hplaced : i.placed? = some target)
    (hplaced' : j.placed? = some target) : k = m := by
  have hpairwise := List.pairwise_filterMap.1 h
  rw [List.pairwise_iff_getElem] at hpairwise
  obtain ⟨hk, rfl⟩ := List.getElem?_eq_some_iff.1 hi
  obtain ⟨hm, rfl⟩ := List.getElem?_eq_some_iff.1 hj
  rcases Nat.lt_trichotomy k m with hlt | heq | hlt
  · exact absurd rfl (hpairwise k m hk hm hlt target hplaced target hplaced')
  · exact heq
  · exact absurd rfl (hpairwise m k hm hk hlt target hplaced' target hplaced)

/-! ### Frames -/

namespace ScopeTree

theorem Formed.frame_eq {t : ScopeTree} (ht : t.Formed) {id : Nat} (hlt : id < t.size) :
    (t.scope id).frame = if (t.home id).isSome then .local else .global := by
  induction id using Nat.strong_induction_on with
  | _ id ih =>
    have hfitting := ht.fitting id hlt
    unfold Fitting at hfitting
    split at hfitting
    · obtain ⟨rfl, -, hframe⟩ := hfitting
      rw [hframe, ht.home_root]
      rfl
    · rename_i hkind
      rw [hfitting.2.2, home_header hkind]
      rfl
    · rename_i hkind
      obtain ⟨header, hless, hparent, hheader, hframe⟩ := hfitting
      rw [hframe, ht.home_child ⟨hkind, hparent⟩ nofun, home_header hheader]
      rfl
    · rename_i hheader _
      obtain ⟨above, hless, hparent, -, hframe⟩ := hfitting
      have hchild : Child t.scope above id (t.scope id).kind := ⟨rfl, hparent⟩
      rw [hframe, ih above hless (Nat.lt_trans hless hlt), ht.home_child hchild hheader]

/-- An instruction is on what a name of a scope stands for, in the frame of the scope. -/
def IsOn (t : ScopeTree) (i : Instruction) (name : String) (owner : Nat) : Prop :=
  i.name? = some (storageName name owner) ∧ i.frame = (t.scope owner).frame

theorem Aims.isOn {t : ScopeTree} {i j : Instruction} {name : String} {owner : Nat}
    (h : t.Aims i name owner) (hbecomes : i.Becomes j) : t.IsOn j name owner := by
  obtain ⟨-, -, hframe, -, hname⟩ := hbecomes.fields
  exact ⟨hname.trans h.target, hframe.trans h.frame⟩

end ScopeTree

/-! ### Places of accepted programs -/

/-- The places of variables in the code of a program. -/
structure Program.Allocated (p : Program) : Prop where
  /-- every variable is defined by one instruction -/
  defined : ∀ s x, p.scopes.sort? s x = some .variable → ∃! k : Nat, ∃ i, p.stream.code[k]? = some i ∧
    i.kind = .defineVariable ∧ p.scopes.IsOn i x s
  /-- every definition is that of one variable -/
  definitions : ∀ i ∈ p.stream.code, i.kind = .defineVariable → ∃! q : Nat × String,
    p.scopes.sort? q.1 q.2 = some .variable ∧ p.scopes.IsOn i q.2 q.1
  /-- every parameter of a function of the program is taken by one instruction -/
  taken : ∀ s x index, p.scopes.IsOwn s → p.scopes.sort? s x = some (.parameter index) →
    ∃! k : Nat, ∃ i, p.stream.code[k]? = some i ∧ i.kind = .paramPop ∧ p.scopes.IsOn i x s
  /-- what is taken is one parameter of a function of the program -/
  takings : ∀ i ∈ p.stream.code, i.kind = .paramPop → ∃! q : Nat × String, p.scopes.IsOwn q.1 ∧
    (∃ index, p.scopes.sort? q.1 q.2 = some (.parameter index)) ∧ p.scopes.IsOn i q.2 q.1
  /-- no two of them have the same place -/
  distinct : (placed p.stream.code).Nodup
  /-- a function works on its own variables and parameters, and on variables of the global scope -/
  inside : ∀ header, ∀ i ∈ bodyCode (some header) p.stream.code, i.kind.isAccess →
    (i.frame = .local ∧ ∃ s x sort, p.scopes.sort? s x = some sort ∧
      (∀ builtin, sort ≠ .function builtin) ∧ header ∈ p.scopes.ancestors s ∧
      i.name? = some (storageName x s)) ∨
    i.frame = .global ∧ ∃ x, p.scopes.sort? ScopeTree.root x = some .variable ∧
      i.name? = some (storageName x ScopeTree.root)
  /-- code outside of functions works on global variables -/
  outside : ∀ i ∈ bodyCode none p.stream.code, i.kind.isAccess → i.frame = .global ∧
    ∃ s x, p.scopes.sort? s x = some .variable ∧ i.name? = some (storageName x s)

theorem ScopeTree.IsOn.eq {t : ScopeTree} {i : Instruction} {x y : String} {r s : Nat}
    (h : t.IsOn i x s) (h' : t.IsOn i y r) : (r, y) = (s, x) := by
  obtain ⟨rfl, rfl⟩ := storageName_inj (Option.some.inj (h.1.symm.trans h'.1))
  rfl

section

variable {c : Context} {p : Program}

theorem Accepted.existsUnique_place (haccepted : Accepted c p) (hassigned : c.sheet.Assigned)
    {i : Instruction} {x : String} {s : Nat} {kind : InstructionKind} (hi : i ∈ c.stream.code)
    (hkind : i.kind = kind) (hplaces : kind = .defineVariable ∨ kind = .paramPop)
    (haims : c.scopes.Aims i x s) : ∃! k : Nat, ∃ i, p.stream.code[k]? = some i ∧ i.kind = kind ∧
      p.scopes.IsOn i x s := by
  have hnodup : (OnePass.placed p.stream.code).Nodup := haccepted.trims.placed ▸ hassigned.nodup
  have hplaced : ∀ {j : Instruction}, j.kind = kind → p.scopes.IsOn j x s →
      j.placed? = some (storageName x s) := by
    intro j hj hon
    rw [Instruction.placed?, hj]
    rcases hplaces with rfl | rfl <;> exact hon.1
  obtain ⟨j, hj, hbecomes⟩ := haccepted.trims.becomes_of_mem hi (by
    rw [hkind]
    rcases hplaces with rfl | rfl <;> decide)
  obtain ⟨k, hk⟩ := List.mem_iff_getElem?.1 hj
  have hon : p.scopes.IsOn j x s := by
    rw [haccepted.scopes]
    exact haims.isOn hbecomes
  have hjkind := hbecomes.fields.1.trans hkind
  refine ⟨k, ⟨j, hk, hjkind, hon⟩, ?_⟩
  rintro m ⟨j', hm, hkind', hon'⟩
  exact eq_of_placed? hnodup hm hk (hplaced hkind' hon') (hplaced hjkind hon)

theorem Accepted.exists_aims_at (haccepted : Accepted c p) (hc : c.scopes.Formed)
    (hassigned : c.sheet.Assigned) (hhoused : c.sheet.Housed) {pre' post' : List Instruction}
    {j : Instruction} (hcode : p.stream.code = pre' ++ j :: post') (haccess : j.kind.isAccess) :
    ∃ s x sort, c.scopes.sort? s x = some sort ∧ (∀ builtin, sort ≠ .function builtin) ∧
      c.scopes.IsOn j x s ∧ (s = ScopeTree.root ∨ c.scopes.home s = region none pre') := by
  have hbound : j.kind.isBound = false := by
    revert haccess
    cases j.kind <;> first | exact fun _ => rfl | exact fun h => nomatch h
  obtain ⟨pre, i, post, hsplit, hpre, hbecomes⟩ := (hcode ▸ haccepted.trims).of_append_cons
  have hkind := hbecomes.fields.1
  obtain ⟨hlt, hhome⟩ := hhoused.each pre i post hsplit (hkind ▸ hbound)
  rw [← hpre.region] at hhome
  obtain ⟨x, s, sort, hsort, hvalue, haims⟩ := hassigned.aiming i
    (show i ∈ c.stream.code by rw [hsplit]; exact List.mem_append_right _ List.mem_cons_self) (hkind ▸ haccess)
  refine ⟨s, x, sort, hsort, hvalue, haims.isOn hbecomes, ?_⟩
  by_cases hglobal : (c.scopes.scope s).kind = .global
  · have hfitting := hc.fitting s (ScopeTree.lt_of_sort? hsort)
    unfold ScopeTree.Fitting at hfitting
    rw [hglobal] at hfitting
    exact .inl hfitting.1
  · exact .inr ((hc.home_of_mem hlt haims.sight hglobal).trans hhome.symm)

theorem Accepted.exists_aims (haccepted : Accepted c p) (hc : c.scopes.Formed)
    (hassigned : c.sheet.Assigned) (hhoused : c.sheet.Housed) {body : Option Nat} {j : Instruction}
    (hj : j ∈ bodyCode body p.stream.code) (haccess : j.kind.isAccess) :
    ∃ s x sort, c.scopes.sort? s x = some sort ∧ (∀ builtin, sort ≠ .function builtin) ∧
      c.scopes.IsOn j x s ∧ (s = ScopeTree.root ∨ c.scopes.home s = body) := by
  have hbound : j.kind.isBound = false := by
    revert haccess
    cases j.kind <;> first | exact fun _ => rfl | exact fun h => nomatch h
  obtain ⟨pre, post, hcode, hregion⟩ := exists_region_of_mem hj hbound
  rw [← hregion]
  exact haccepted.exists_aims_at hc hassigned hhoused hcode haccess

theorem Accepted.allocated (haccepted : Accepted c p) (hc : c.scopes.Formed)
    (hassigned : c.sheet.Assigned) (hhoused : c.sheet.Housed) : p.Allocated := by
  have hscopes := haccepted.scopes
  have hback : ∀ {j}, j ∈ p.stream.code → ∃ i ∈ c.stream.code, i.Becomes j :=
    fun hj => haccepted.trims.exists_becomes hj
  refine ⟨fun s x hsort => ?_, fun j hj hkind => ?_, fun s x index hown hsort => ?_, fun j hj hkind => ?_,
    haccepted.trims.placed ▸ hassigned.nodup, fun header j hj haccess => ?_, fun j hj haccess => ?_⟩
  · rw [hscopes] at hsort
    obtain ⟨i, hi, hkind, haims⟩ := hassigned.defined s x hsort
    exact haccepted.existsUnique_place hassigned hi hkind (.inl rfl) haims
  · obtain ⟨i, hi, hbecomes⟩ := hback hj
    obtain ⟨x, s, hsort, haims⟩ := hassigned.defines i hi (hbecomes.fields.1 ▸ hkind)
    rw [hscopes]
    exact ⟨(s, x), ⟨hsort, haims.isOn hbecomes⟩, fun q hq => (haims.isOn hbecomes).eq hq.2⟩
  · rw [hscopes] at hown hsort
    obtain ⟨i, hi, hkind, haims⟩ := hassigned.taken s x index hown hsort
    exact haccepted.existsUnique_place hassigned hi hkind (.inr rfl) haims
  · obtain ⟨i, hi, hbecomes⟩ := hback hj
    obtain ⟨x, s, index, hown, hsort, haims⟩ := hassigned.takes i hi (hbecomes.fields.1 ▸ hkind)
    rw [hscopes]
    exact ⟨(s, x), ⟨hown, ⟨index, hsort⟩, haims.isOn hbecomes⟩, fun q hq => (haims.isOn hbecomes).eq hq.2.2⟩
  · obtain ⟨s, x, sort, hsort, hvalue, hon, hplace⟩ := haccepted.exists_aims hc hassigned hhoused hj haccess
    have hlt := ScopeTree.lt_of_sort? hsort
    rw [hscopes, hon.2, hc.frame_eq hlt]
    rcases hplace with rfl | hhome
    · rw [hc.home_root]
      refine .inr ⟨rfl, x, ?_, hon.1⟩
      cases sort with
      | «variable» => exact hsort
      | function builtin => exact absurd rfl (hvalue builtin)
      | parameter index => exact nomatch hc.global.symm.trans (hassigned.parameters _ x index hsort)
    · rw [hhome]
      exact .inl ⟨rfl, s, x, sort, hsort, hvalue, List.mem_of_find?_eq_some hhome, hon.1⟩
  · obtain ⟨s, x, sort, hsort, hvalue, hon, hplace⟩ := haccepted.exists_aims hc hassigned hhoused hj haccess
    have hlt := ScopeTree.lt_of_sort? hsort
    have hhome : c.scopes.home s = none := by
      rcases hplace with rfl | hhome
      · exact hc.home_root
      · exact hhome
    rw [hscopes, hon.2, hc.frame_eq hlt, hhome]
    refine ⟨rfl, s, x, ?_, hon.1⟩
    cases sort with
    | «variable» => exact hsort
    | function builtin => exact absurd rfl (hvalue builtin)
    | parameter index =>
      have hheader := ScopeTree.home_header (hassigned.parameters s x index hsort)
      exact nomatch hhome.symm.trans hheader

end

/-! ### The beginning -/

theorem ScopeTree.withBuiltins_sort? {id : Nat} {name : String} {sort : SymbolSort}
    (h : withBuiltins.sort? id name = some sort) : id < 11 ∧
      (id = root ∧ sort = .function true ∨ (withBuiltins.scope id).kind = .functionHeader ∧
        ∃ index, sort = .parameter index) := by
  have hall : ∀ id < 11, ∀ symbol ∈ (withBuiltins.scope id).table.toList,
      (id = root ∧ symbol.sort = .function true) ∨ (withBuiltins.scope id).kind = .functionHeader ∧
        ∃ index < 3, symbol.sort = .parameter index := by decide +kernel
  have hlt := lt_of_sort? h
  rw [start_size] at hlt
  obtain ⟨kind, hsense, rfl⟩ := Option.map_eq_some_iff.1 h
  obtain ⟨symbol, hsymbol, rfl⟩ := Option.map_eq_some_iff.1 hsense
  have hsort := Option.some.inj (h.symm.trans (sort?_of_symbol? hsymbol))
  have hmem := ((SymbolTable.get?_eq_some_iff (withBuiltins_formed.ordered id)).1 hsymbol).1
  rw [hsort]
  refine ⟨hlt, (hall id hlt symbol hmem).imp_right ?_⟩
  rintro ⟨hkind, index, -, hindex⟩
  exact ⟨hkind, index, hindex⟩

theorem Sheet.start_assigned : Context.start.sheet.Assigned := by
  have hquiet : ∀ i ∈ Context.start.sheet.code, i.kind.isAccess = false :=
    List.forall_mem_singleton.2 rfl
  have hnone : ∀ {i : Instruction}, i ∈ Context.start.sheet.code → i.kind.isAccess → False := by
    intro i hi haccess
    rw [hquiet i hi] at haccess
    cases haccess
  refine ⟨?_, fun i hi haccess => (hnone hi haccess).elim, fun i hi hkind => ?_, fun owner name hsort => ?_,
    fun i hi hkind => ?_, fun owner name index hown => ?_, fun id hkind => ?_, fun owner name index hsort => ?_⟩
  · have hplaced : placed Context.start.sheet.code = [] := rfl
    rw [hplaced]
    exact List.nodup_nil
  · exact (hnone hi (by rw [hkind]; rfl)).elim
  · rcases (ScopeTree.withBuiltins_sort? hsort).2 with ⟨-, hother⟩ | ⟨-, _, hother⟩ <;> cases hother
  · exact (hnone hi (by rw [hkind]; rfl)).elim
  · rcases (ScopeTree.withBuiltins_sort? hown.2).2 with ⟨-, hother⟩ | ⟨-, _, hother⟩ <;> cases hother
  · have hall : ∀ id < 11, (ScopeTree.withBuiltins.scope id).kind = .functionHeader →
        (ScopeTree.withBuiltins.scope ScopeTree.root).table.contains (ScopeTree.withBuiltins.scope id).name := by
      decide +kernel
    have hlt : id < 11 := by
      by_contra hle
      have hblank : (ScopeTree.withBuiltins.scope id).kind = .functionHeader := hkind
      rw [ScopeTree.scope_of_le (by rw [start_size]; exact Nat.le_of_not_lt hle)] at hblank
      cases hblank
    rw [ne_eq, ScopeTree.sort?_eq_none_iff]
    exact (ScopeTree.contains_iff_sense? ..).1 (hall id hlt hkind)
  · rcases (ScopeTree.withBuiltins_sort? hsort).2 with ⟨-, hother⟩ | ⟨hkind, -⟩
    · cases hother
    · exact hkind

theorem Sheet.start_housed : Context.start.sheet.Housed := by
  have hcode : ∃ i, Context.start.sheet.code = [i] ∧ i.kind.isBound = false ∧ i.scope = ScopeTree.root :=
    ⟨_, rfl, rfl, rfl⟩
  obtain ⟨first, hcode, hkind, hscope⟩ := hcode
  have hformed : Context.start.sheet.scopes.Formed := ScopeTree.withBuiltins_formed
  have hcurrent : Context.start.sheet.scopes.current = ScopeTree.root := ScopeTree.withBuiltins_current
  constructor
  · rw [hcurrent, hformed.home_root, hcode]
    exact region_inner (List.forall_mem_singleton.2 hkind)
  · intro pre i post hsplit _
    rw [hcode] at hsplit
    rcases List.cons_eq_append_iff.1 hsplit with ⟨rfl, hrest⟩ | ⟨before, rfl, hrest⟩
    · obtain ⟨rfl, -⟩ := List.cons.inj hrest
      rw [hscope, hformed.home_root]
      exact ⟨hformed.size_pos, rfl⟩
    · exact absurd hrest (by simp)

/-- Storage is assigned one to one, frames never mix, and names mean what is nearest in the text. -/
theorem storage_assigned {source : String} {p : Program}
    (h : (Program.ofFeed (.ofSource source)).result = .ok p) :
    p.Allocated ∧ ∃ items,
      (parse (.ofSource source)).events.filter Event.isSpoken = items.flatMap Phrase.Item.events ∧
      references p.stream.code = Phrase.usesOf Sight.start items := by
  obtain ⟨c, haccepted, hc, hassigned, hhoused⟩ :=
    accepted_of_moves (P := fun w => w.Assigned ∧ w.Housed) ⟨Sheet.start_assigned, Sheet.start_housed⟩
      (fun hw hmove hkept => ⟨hmove.assigned hw hkept.1, hmove.housed hw hkept.2⟩) h
  constructor
  · exact haccepted.allocated hc hassigned hhoused
  · obtain ⟨items, c, hevents, hfills, haccepted⟩ := accepted_of_fills h
    refine ⟨items, hevents, ?_⟩
    have hstart : references Context.start.sheet.code = [] := rfl
    have huses := hfills.references ScopeTree.withBuiltins_formed ScopeTree.withBuiltins_current Sheet.start_sees
    rw [hstart, List.nil_append] at huses
    exact haccepted.trims.references.trans huses

/-- A name that three scopes declare, one of them in a function: each has its own place, and the initial
value of the last one is that of the first. -/
theorem storage_assigned_shadowed : ∃ p, (Program.ofFeed (.ofSource
      "var a = 1\nfunc f(_ n: Int) -> Int \x7b\nvar a = n\nwhile a < 3 \x7b\na = a + 1\n\x7d\nreturn a\n\x7d\nif a == 1 \x7b\nlet a = a\nwrite(a)\n\x7d")).result =
        .ok p ∧
    (∃! k : Nat, ∃ i, p.stream.code[k]? = some i ∧ i.kind = .defineVariable ∧ p.scopes.IsOn i "a" 14) ∧
    (∃! k : Nat, ∃ i, p.stream.code[k]? = some i ∧ i.kind = .paramPop ∧ p.scopes.IsOn i "n" 11) ∧
    (placed p.stream.code).Nodup ∧
    ∃ items, (parse (.ofSource
        "var a = 1\nfunc f(_ n: Int) -> Int \x7b\nvar a = n\nwhile a < 3 \x7b\na = a + 1\n\x7d\nreturn a\n\x7d\nif a == 1 \x7b\nlet a = a\nwrite(a)\n\x7d")).events.filter
          Event.isSpoken = items.flatMap Phrase.Item.events ∧
      Phrase.usesOf Sight.start items = [(.popVariable, some "a$0"), (.pushVariable, some "n$11"),
      (.popVariable, some "a$12"), (.pushVariable, some "a$12"), (.pushVariable, some "a$12"),
      (.popVariable, some "a$12"), (.pushVariable, some "a$12"), (.pushVariable, some "a$0"),
      (.pushVariable, some "a$0"), (.popVariable, some "a$14"), (.pushVariable, some "a$14")] := by
  refine exists_ok_of_any (fun p => p.scopes.sort? 14 "a" = some .variable ∧
      p.scopes.sort? 11 "n" = some (.parameter 0) ∧ (p.scopes.scope 11).kind = .functionHeader ∧
      p.scopes.sort? ScopeTree.root (p.scopes.scope 11).name = some (.function false) ∧
      references p.stream.code = [(.popVariable, some "a$0"), (.pushVariable, some "n$11"),
        (.popVariable, some "a$12"), (.pushVariable, some "a$12"), (.pushVariable, some "a$12"),
        (.popVariable, some "a$12"), (.pushVariable, some "a$12"), (.pushVariable, some "a$0"),
        (.pushVariable, some "a$0"), (.popVariable, some "a$14"), (.pushVariable, some "a$14")])
    (by decide +kernel) fun p hok ⟨hlast, hparam, hheader, hfunction, hreferences⟩ => ?_
  obtain ⟨hallocated, items, hevents, huses⟩ := storage_assigned hok
  exact ⟨hallocated.defined 14 "a" hlast, hallocated.taken 11 "n" 0 ⟨hheader, hfunction⟩ hparam,
    hallocated.distinct, items, hevents, huses.symm.trans hreferences⟩

end OnePass
