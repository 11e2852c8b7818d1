import OnePass.Proofs.Storage
import Mathlib.Data.List.Find

/-!
# Statements restore the scopes

What a name stands for in a scope is settled by its declaration.  A statement may give a value to a
variable, and it may narrow a type for the length of a block, but in the end every symbol stands for
what it stood for before.  New symbols appear where the statement stands, for functions in the global
scope, and in scopes that it has made.

Main results:

* `ScopeTree.Keeps.unnarrow` — **a narrowed type is restored**, whatever the block has declared;
* `Adds.keeps`, `Sheet.Defines.keeps` — statements and functions keep the symbols;
* `Fills.restores` — a program restores its scopes, item by item.
-/

namespace OnePass

variable {w w' : Sheet}

/-! ### Symbols -/

/-- A symbol after a statement: as before, or a variable that has got its value. -/
def Symbol.Settles (symbol later : Symbol) : Prop :=
  later = symbol ∨ later = symbol.withDefined true

namespace Symbol

variable {s s' s'' : Symbol}

theorem Settles.refl (s : Symbol) : s.Settles s := .inl rfl

theorem withDefined_withDefined (s : Symbol) :
    (s.withDefined true).withDefined true = s.withDefined true := by
  rcases s with ⟨_, _ | _ | _, _⟩ <;> rfl

theorem withTy_withDefined (s : Symbol) (ty : Ty) :
    (s.withDefined true).withTy ty = (s.withTy ty).withDefined true := by
  rcases s with ⟨_, _ | _ | _, _⟩ <;> rfl

theorem withTy_withTy_self (s : Symbol) (ty : Ty) : (s.withTy ty).withTy s.ty = s := by
  rcases s with ⟨_, _ | _ | _, _⟩ <;> rfl

theorem Settles.trans (h : s.Settles s') (h' : s'.Settles s'') : s.Settles s'' := by
  rcases h with rfl | rfl
  · exact h'
  · rcases h' with rfl | rfl
    · exact .inr rfl
    · exact .inr (withDefined_withDefined s)

theorem Settles.withTy {ty : Ty} (h : (s.withTy ty).Settles s') : s.Settles (s'.withTy s.ty) := by
  rcases h with rfl | rfl
  · exact .inl (withTy_withTy_self s ty)
  · rw [withTy_withDefined, withTy_withTy_self]
    exact .inr rfl

end Symbol

/-! ### Trees of scopes -/

namespace ScopeTree

variable {t t' t'' : ScopeTree} {free free' : Nat → Prop}
variable {id : Nat}

/-- Every symbol is as before, up to its having a value, and new symbols are in free scopes only. -/
structure Keeps (t : ScopeTree) (free : Nat → Prop) (t' : ScopeTree) : Prop where
  grows : t.Grows t'
  kept : ∀ id name symbol, t.symbol? id name = some symbol →
    ∃ later, t'.symbol? id name = some later ∧ symbol.Settles later
  new : ∀ id name symbol, t.symbol? id name = none → t'.symbol? id name = some symbol → free id

theorem Keeps.mono (h : t.Keeps free t') (hfree : ∀ id, free id → free' id) : t.Keeps free' t' :=
  ⟨h.grows, h.kept, fun id name symbol hnone hsome => hfree id (h.new id name symbol hnone hsome)⟩

theorem Grows.keeps (h : t.Grows t') (hsymbols : ∀ id name, t'.symbol? id name = t.symbol? id name) :
    t.Keeps free t' where
  grows := h
  kept id name symbol hsome := ⟨symbol, (hsymbols id name).trans hsome, .refl symbol⟩
  new id name symbol hnone hsome := by
    rw [hsymbols, hnone] at hsome
    cases hsome

theorem Keeps.refl (t : ScopeTree) : t.Keeps free t := (Grows.refl t).keeps fun _ _ => rfl

theorem Keeps.trans (h : t.Keeps free t') (h' : t'.Keeps free t'') : t.Keeps free t'' where
  grows := h.grows.trans h'.grows
  kept id name symbol hsome := by
    obtain ⟨later, hlater, hsettles⟩ := h.kept id name symbol hsome
    obtain ⟨last, hlast, hsettles'⟩ := h'.kept id name later hlater
    exact ⟨last, hlast, hsettles.trans hsettles'⟩
  new id name symbol hnone hsome := by
    cases hmiddle : t'.symbol? id name with
    | none => exact h'.new id name symbol hmiddle hsome
    | some found => exact h.new id name found hnone hmiddle

theorem Keeps.goTo (h : t.Keeps free t') (id : Nat) : t.Keeps free (t'.goTo id) :=
  h.trans ((grows_goTo t' id).keeps fun _ _ => rfl)

theorem keeps_setTable (hordered : t.Ordered) (hid : id < t.size) {symbol : Symbol}
    {table : SymbolTable} (hinsert : (t.scope id).table.insert symbol = .ok table)
    (hfree : free id) : t.Keeps free (t.setTable id table) where
  grows := grows_modify (fun _ => by exact ⟨rfl, rfl, rfl, rfl⟩) t id
  kept other name found hfound := by
    refine ⟨found, ?_, .refl found⟩
    rw [symbol?_setTable hordered hid hinsert, if_neg ?_, hfound]
    rintro ⟨rfl, rfl⟩
    -- a name can be taken only once
    have hnone : (t.scope other).table.get? symbol.name = none := SymbolTable.get?_of_insert hinsert
    cases hnone.symm.trans hfound
  new other name found hnone hfound := by
    rw [symbol?_setTable hordered hid hinsert] at hfound
    split at hfound
    · rename_i hsame
      cases hfound
      exact hsame.1 ▸ hfree
    · cases hnone.symm.trans hfound

theorem keeps_modifyVisible (t : ScopeTree) (id : Nat) (name : String) :
    t.Keeps free (t.modifyVisible id name (·.withDefined true)) where
  grows := grows_modifyVisible ..
  kept other key symbol hsome := by
    rw [symbol?_modifyVisible _ _ _ (Symbol.name_withDefined _)]
    split
    · rw [hsome]
      exact ⟨_, rfl, .inr rfl⟩
    · exact ⟨symbol, hsome, .refl symbol⟩
  new other key symbol hnone hsome := by
    rw [symbol?_modifyVisible _ _ _ (Symbol.name_withDefined _), hnone] at hsome
    split at hsome <;> cases hsome

/-! ### Narrowing -/

theorem Grows.owner? (h : t.Grows t') (ht : t.Formed) (hid : id < t.size) {name : String}
    (hsymbols : ∀ other ≤ id, t'.symbol? other name = none ↔ t.symbol? other name = none) :
    t'.owner? id name = t.owner? id name := by
  rw [ScopeTree.owner?, ScopeTree.owner?, h.ancestors ht hid]
  refine List.find?_congr fun other hother => ?_
  rw [ancestors_eq] at hother
  have hle := le_of_mem_ancestorsBy ht.rooted hother
  have hnone := hsymbols other hle
  rw [Bool.eq_iff_iff, SymbolTable.contains, SymbolTable.contains, Option.isSome_iff_ne_none,
    Option.isSome_iff_ne_none]
  exact not_congr hnone

/-- **A narrowed type is restored.**  Back in the scope where a variable was narrowed its name means the
same variable, since the block has declared nothing in the scopes around it. -/
theorem Keeps.unnarrow {name : String} {owner : Nat} {symbol : Symbol} {ty : Ty} (ht : t.Formed)
    (hmeans : t.Denotes name owner symbol)
    (h : ((t.retyped (some (name, ty))).goTo id).Keeps free t')
    (hfree : ∀ other, free other → t.current < other) :
    t.Keeps free ((t'.goTo t.current).retyped (some (name, symbol.ty))) := by
  have hnarrowed : ∀ other key, (t.retyped (some (name, ty))).symbol? other key =
      if other = owner ∧ key = name then some (symbol.withTy ty) else t.symbol? other key := by
    intro other key
    rw [retyped, symbol?_modifyVisible _ _ _ (Symbol.name_withTy _), hmeans.found]
    by_cases hsame : other = owner ∧ key = name
    · rw [if_pos ⟨congrArg some hsame.1.symm, hsame.2⟩, if_pos hsame, hsame.1, hsame.2, hmeans.held]
      rfl
    · rw [if_neg fun h => hsame ⟨(Option.some.inj h.1).symm, h.2⟩, if_neg hsame]
  have hgrows : t.Grows t' := (grows_retyped t _).trans ((grows_goTo _ id).trans h.grows)
  have howner : (t'.goTo t.current).owner? t.current name = some owner := by
    rw [← hmeans.found]
    refine (hgrows.goTo t.current).owner? ht ht.current_lt fun other hle => ?_
    rw [symbol?_goTo]
    have hother := hnarrowed other name
    cases hsymbol : t.symbol? other name with
    | none =>
      have hne : ¬ (other = owner ∧ name = name) := by
        rintro ⟨rfl, -⟩
        cases hsymbol.symm.trans hmeans.held
      rw [if_neg hne, hsymbol] at hother
      -- what the block has declared is in scopes of its own
      have hnone : t'.symbol? other name = none := by
        cases hlater : t'.symbol? other name with
        | none => rfl
        | some later =>
          have hlt := hfree other (h.new other name later hother hlater)
          omega
      exact iff_of_true hnone rfl
    | some found =>
      have hsome : ∃ narrowed, ((t.retyped (some (name, ty))).goTo id).symbol? other name = some narrowed := by
        rw [symbol?_goTo, hother]
        split
        · exact ⟨_, rfl⟩
        · exact ⟨found, hsymbol⟩
      obtain ⟨narrowed, hnarrowed'⟩ := hsome
      obtain ⟨later, hlater, -⟩ := h.kept other name narrowed hnarrowed'
      rw [hlater]
      simp
  have hback : ∀ other key, ((t'.goTo t.current).retyped (some (name, symbol.ty))).symbol? other key =
      if other = owner ∧ key = name then (t'.symbol? other key).map (·.withTy symbol.ty)
      else t'.symbol? other key := by
    intro other key
    rw [retyped, symbol?_modifyVisible _ _ _ (Symbol.name_withTy _), current_goTo, howner]
    by_cases hsame : other = owner ∧ key = name
    · rw [if_pos ⟨congrArg some hsame.1.symm, hsame.2⟩, if_pos hsame]
      rfl
    · rw [if_neg fun h => hsame ⟨(Option.some.inj h.1).symm, h.2⟩, if_neg hsame]
      rfl
  refine ⟨(hgrows.goTo t.current).trans (grows_retyped _ _), ?_, ?_⟩
  · intro other key found hfound
    rw [hback]
    by_cases hsame : other = owner ∧ key = name
    · obtain ⟨rfl, rfl⟩ := hsame
      cases hfound.symm.trans hmeans.held
      have hsome : ((t.retyped (some (key, ty))).goTo id).symbol? other key = some (symbol.withTy ty) := by
        rw [symbol?_goTo, hnarrowed, if_pos ⟨rfl, rfl⟩]
      obtain ⟨later, hlater, hsettles⟩ := h.kept other key _ hsome
      rw [if_pos ⟨rfl, rfl⟩, hlater]
      exact ⟨_, rfl, hsettles.withTy⟩
    · rw [if_neg hsame]
      refine h.kept other key found ?_
      rw [symbol?_goTo, hnarrowed, if_neg hsame, hfound]
  · intro other key found hnone hfound
    have hne : ¬ (other = owner ∧ key = name) := by
      rintro ⟨rfl, rfl⟩
      cases hnone.symm.trans hmeans.held
    rw [hback, if_neg hne] at hfound
    refine h.new other key found ?_ hfound
    rw [symbol?_goTo, hnarrowed, if_neg hne, hnone]

end ScopeTree

/-! ### Statements -/

/-- A statement may declare where it stands, and in new scopes. -/
def ScopeTree.Inner (t : ScopeTree) (id : Nat) : Prop := id = t.current ∨ t.size ≤ id

/-- A block may declare in new scopes only. -/
def ScopeTree.Beyond (t : ScopeTree) (id : Nat) : Prop := t.size ≤ id

theorem Sheet.Enters.keeps {w₁ w₂ : Sheet} {condition : Phrase.Condition}
    {narrowed : Option (String × Ty)} (h : w.Enters condition narrowed w₁) (hw : w.scopes.Formed)
    (hbody : w₁.scopes.Keeps w₁.scopes.Inner w₂.scopes) :
    w.scopes.Keeps w.scopes.Beyond (w₂.halfway w.scopes.size w.scopes.current narrowed).scopes := by
  have hnoted : (w.scopes.noted .thenBranch).Formed := hw.noted (.inl rfl)
  have hblock : w.scopes.Keeps w.scopes.Beyond (w.scopes.noted .thenBranch) :=
    (w.scopes.grows_noted _).keeps fun _ _ => ScopeTree.symbol?_noted ..
  obtain ⟨-, hcurrent, hsize⟩ := h.grows
  have hbody' : w₁.scopes.Keeps w.scopes.Beyond w₂.scopes := by
    refine hbody.mono fun id hinner => ?_
    unfold ScopeTree.Inner at hinner
    show w.scopes.size ≤ id
    omega
  cases h with
  | comparison => exact hblock.trans (((ScopeTree.grows_goTo _ _).keeps fun _ _ => rfl).trans (hbody'.goTo _))
  | present hmeans =>
    refine hblock.trans (hbody'.unnarrow hnoted hmeans fun other hle => ?_)
    exact Nat.lt_of_lt_of_le hw.current_lt hle

theorem Adds.keeps {s : Phrase.Statement} (h : Adds w s w') (hw : w.scopes.Formed) :
    w.scopes.Keeps w.scopes.Inner w'.scopes := by
  induction h with
  | skip => exact .refl _
  | @seq w w₁ w₂ _ _ hfirst _ ih ih' =>
    obtain ⟨hgrows, hcurrent⟩ := hfirst.grows
    refine (ih hw).trans ((ih' (Sheet.Reaches.formed hfirst.reaches hw)).mono fun id hinner => ?_)
    have hle := hgrows.size_le
    unfold ScopeTree.Inner at hinner ⊢
    omega
  | declare _ hreserve hinit hdeclare =>
    obtain ⟨place, table, hinsert, hscopes⟩ := (Sheet.Introduces.intro hreserve hinit hdeclare).scopes
    rw [hscopes]
    exact ScopeTree.keeps_setTable hw.ordered hw.current_lt hinsert (.inl rfl)
  | assign _ _ _ hvalue =>
    rw [← hvalue.scopes]
    exact ScopeTree.keeps_modifyVisible ..
  | call hcall =>
    rw [hcall.scopes]
    exact .refl _
  | giveBack =>
    refine (ScopeTree.grows_modify (fun _ => by exact ⟨rfl, rfl, rfl, rfl⟩) _ _).keeps fun id name => ?_
    exact ScopeTree.symbol?_modify (fun _ => by rfl) ..
  | ifThen hcondition _ ih =>
    exact (hcondition.keeps hw (ih (Sheet.Reaches.formed hcondition.reaches hw))).mono fun _ hle => .inr hle
  | @ifElse w w₁ w₂ w₃ _ _ _ narrowed hcondition hbody hother ih ih' =>
    have hw₁ := Sheet.Reaches.formed hcondition.reaches hw
    have hw₂ := Sheet.Reaches.formed hbody.reaches hw₁
    have hhalf := hcondition.keeps hw (ih hw₁)
    have hsecond := ih' (Sheet.Reaches.formed (hcondition.switching hbody) hw₂)
    have halternative : (w₂.halfway w.scopes.size w.scopes.current narrowed).scopes.Keeps w.scopes.Beyond
        ((w₂.halfway w.scopes.size w.scopes.current narrowed).scopes.alternative w.scopes.size) :=
      (ScopeTree.grows_alternative ..).keeps fun _ _ => ScopeTree.symbol?_alternative ..
    have hsize := hhalf.grows.size_le
    refine ((hhalf.trans (halternative.trans (hsecond.mono fun id hinner => ?_))).goTo _).mono
      fun _ hle => .inr hle
    simp only [ScopeTree.Inner, Sheet.scopes_onScopes, ScopeTree.current_alternative,
      ScopeTree.size_alternative] at hinner
    show w.scopes.size ≤ id
    omega
  | @loop w w₁ _ _ _ code hcondition hbody ih =>
    have hblock : w.scopes.Keeps w.scopes.Beyond ((w.scopes.noted .whileBody).goTo w.scopes.size) :=
      ((w.scopes.grows_noted _).goTo _).keeps fun _ _ => ScopeTree.symbol?_noted ..
    have hinside := ih (Sheet.Reaches.formed (w.reaches_loop hcondition) hw)
    refine ((hblock.trans (hinside.mono fun id hinner => ?_)).goTo _).mono fun _ hle => .inr hle
    have hinner' : id = w.scopes.size ∨ (w.scopes.noted .whileBody).size ≤ id := hinner
    rw [ScopeTree.size_noted] at hinner'
    show w.scopes.size ≤ id
    omega

/-! ### Functions and programs -/

namespace Sheet

variable {w w' : Sheet} {free : Nat → Prop}

theorem Declares.keeps {id : Nat} {symbol : Symbol} (h : w.Declares id symbol w')
    (hordered : w.scopes.Ordered) (hid : id < w.scopes.size) (hfree : free id) :
    w.scopes.Keeps free w'.scopes := by
  obtain ⟨table, hinsert, rfl⟩ := h
  exact ScopeTree.keeps_setTable hordered hid hinsert hfree

theorem Takes.keeps {index : Nat} {params : List Phrase.Param} (h : w.Takes index params w')
    (hordered : w.scopes.Ordered) (hcurrent : w.scopes.current < w.scopes.size)
    (hfree : free w.scopes.current) : w.scopes.Keeps free w'.scopes := by
  induction h with
  | nil => exact .refl _
  | cons hfirst _ ih =>
    obtain ⟨-, hsame, hsize, -⟩ := hfirst.grows
    refine (hfirst.keeps hordered hcurrent hfree).trans (ih (hfirst.ordered hordered) ?_ ?_)
    · rw [hsame, hsize]
      exact hcurrent
    · rw [hsame]
      exact hfree

theorem Begins.keeps {f : Phrase.Function} (h : w.Begins f w') (hw : w.scopes.Formed)
    (hroot : free ScopeTree.root) (hnew : ∀ id, w.scopes.size ≤ id → free id) :
    w.scopes.Keeps free w'.scopes := by
  cases h with
  | @intro w₁ w₂ pops _ hparams hsymbol _ =>
    obtain ⟨hgrows₁, hcurrent₁, hsize₁, -⟩ := w.scopes.enter_spec .functionHeader f.name (.inl rfl)
    obtain ⟨-, hcurrent₂, hsize₂, -⟩ := hparams.grows
    have hordered : (w.scopes.enter .functionHeader f.name).1.Ordered := hw.ordered.createChild _ _
    have hordered₁ := hparams.ordered hordered
    have hheader : w.scopes.Keeps free (w.scopes.enter .functionHeader f.name).1 :=
      hgrows₁.keeps fun _ _ => ScopeTree.symbol?_enter ..
    have htakes : (w.scopes.enter .functionHeader f.name).1.Keeps free w₁.scopes := by
      refine hparams.keeps hordered ?_ (hnew _ (Nat.le_of_eq hcurrent₁.symm))
      show (w.scopes.enter .functionHeader f.name).1.current < _
      rw [hcurrent₁]
      exact Nat.lt_of_lt_of_eq (Nat.lt_succ_self _) hsize₁.symm
    have hcount : w₁.scopes.Keeps free (w₁.scopes.modify w.scopes.size fun scope =>
        { scope with parameters := f.params.length }) :=
      (ScopeTree.grows_modify (fun _ => by exact ⟨rfl, rfl, rfl, rfl⟩) _ _).keeps fun _ _ =>
        ScopeTree.symbol?_modify (fun _ => by rfl) ..
    have hpos : ScopeTree.root < (w₁.scopes.modify w.scopes.size fun scope =>
        { scope with parameters := f.params.length }).size := by
      rw [ScopeTree.size_modify, hsize₂]
      exact Nat.lt_of_lt_of_le hw.size_pos hgrows₁.size_le
    have hdeclare := hsymbol.keeps (hordered₁.modify (hordered₁ _)) hpos hroot
    have hbody : w₂.scopes.Keeps free (w₂.scopes.enter .functionBody f.name).1 :=
      (w₂.scopes.enter_spec .functionBody f.name (.inr rfl)).1.keeps fun _ _ =>
        ScopeTree.symbol?_enter ..
    exact hheader.trans (htakes.trans (hcount.trans (hdeclare.trans hbody)))

theorem Defines.keeps {f : Phrase.Function} (h : w.Defines f w') (hw : w.scopes.Formed)
    (hglobal : w.scopes.current = ScopeTree.root) : w.scopes.Keeps w.scopes.Inner w'.scopes := by
  cases h with
  | @intro w₁ w₂ hbegin hbody =>
    obtain ⟨-, hcurrent, hsize, -⟩ := hbegin.grows
    have hw₁ := ((Moves.begin hglobal hbegin).formed hw).2
    have hhead : w.scopes.Keeps w.scopes.Inner w₁.scopes :=
      hbegin.keeps hw (.inl hglobal.symm) fun _ hle => .inr hle
    refine (hhead.trans ((hbody.keeps hw₁).mono fun id hinner => ?_)).goTo _
    unfold ScopeTree.Inner at hinner ⊢
    omega

end Sheet

theorem Fills.keeps {items : List Phrase.Item} (h : Fills w items w')
    (hw : w.scopes.Formed) (hglobal : w.scopes.current = ScopeTree.root) :
    w.scopes.Keeps w.scopes.Inner w'.scopes ∧ w'.scopes.current = ScopeTree.root := by
  induction h with
  | nil => exact ⟨.refl _, hglobal⟩
  | @statement w w₁ w₂ content later hfirst _ ih =>
    obtain ⟨hgrows, hcurrent⟩ := hfirst.grows
    have hle := hgrows.size_le
    obtain ⟨hrest, hglobal'⟩ := ih (Sheet.Reaches.formed hfirst.reaches hw) (hcurrent.trans hglobal)
    refine ⟨(hfirst.keeps hw).trans (hrest.mono fun id hinner => ?_), hglobal'⟩
    unfold ScopeTree.Inner at hinner ⊢
    omega
  | @function w w₁ w₂ content later hfirst _ ih =>
    obtain ⟨hreaches, hcurrent⟩ := hfirst.reaches hglobal
    have hkeeps := hfirst.keeps hw hglobal
    have hle := hkeeps.grows.size_le
    obtain ⟨hrest, hglobal'⟩ := ih (Sheet.Reaches.formed hreaches hw) hcurrent
    refine ⟨hkeeps.trans (hrest.mono fun id hinner => ?_), hglobal'⟩
    unfold ScopeTree.Inner at hinner ⊢
    omega

/-! ### What a statement leaves -/

/-- What a statement leaves of the scopes: the current one is the same, every symbol stands for what it
stood for, apart from variables that have got a value, and new symbols are in the current scope or in
new ones. -/
structure ScopeTree.Restores (t t' : ScopeTree) : Prop where
  current : t'.current = t.current
  kept : ∀ id name symbol, t.symbol? id name = some symbol →
    t'.symbol? id name = some symbol ∨ t'.symbol? id name = some (symbol.withDefined true)
  new : ∀ id name symbol, t.symbol? id name = none → t'.symbol? id name = some symbol →
    id = t.current ∨ t.size ≤ id

theorem ScopeTree.Keeps.restores {t t' : ScopeTree} (h : t.Keeps t.Inner t')
    (hcurrent : t'.current = t.current) : t.Restores t' where
  current := hcurrent
  kept id name symbol hsome := by
    obtain ⟨later, hlater, rfl | rfl⟩ := h.kept id name symbol hsome
    · exact .inl hlater
    · exact .inr hlater
  new := h.new

/-- **A statement restores the scopes.** -/
theorem Adds.restores {s : Phrase.Statement} (h : Adds w s w') (hw : w.scopes.Formed) :
    w.scopes.Restores w'.scopes :=
  (h.keeps hw).restores h.grows.2

theorem Fills.restores {items : List Phrase.Item} (h : Fills w items w')
    (hw : w.scopes.Formed) (hglobal : w.scopes.current = ScopeTree.root) :
    w.scopes.Restores w'.scopes := by
  obtain ⟨hkeeps, hcurrent⟩ := h.keeps hw hglobal
  exact hkeeps.restores (hcurrent.trans hglobal.symm)

end OnePass
