import OnePass.Proofs.Naming
import OnePass.Proofs.Sheet

/-!
# How sheets grow

Scopes are added and never dropped.  What a scope is (its kind, its name, its parent, its frame) is
settled when it is added.  What a name stands for is settled when it is declared, apart from two
things: a variable may get a value later, and its type may be narrowed for the length of a block.

Main results:

* `Adds.grows`, `Sheet.Begins.grows` — statements and heads of functions keep the scopes that there
  are;
* `ScopeTree.sense?_setTable`, `ScopeTree.sense?_modifyVisible` — **senses change by declarations and
  stores only**.
-/

namespace OnePass

/-! ### Scopes -/

/-- Two scopes are the same one, whatever has happened in it. -/
structure Scope.Alike (s s' : Scope) : Prop where
  kind : s'.kind = s.kind
  name : s'.name = s.name
  parent : s'.parent = s.parent
  frame : s'.frame = s.frame

theorem Scope.Alike.refl (s : Scope) : s.Alike s := ⟨rfl, rfl, rfl, rfl⟩

theorem Scope.Alike.trans {s s' s'' : Scope} (h : s.Alike s') (h' : s'.Alike s'') : s.Alike s'' :=
  ⟨h'.kind.trans h.kind, h'.name.trans h.name, h'.parent.trans h.parent, h'.frame.trans h.frame⟩

namespace ScopeTree

variable {t t' t'' : ScopeTree}

/-- A tree has more scopes than another one. -/
structure Grows (t t' : ScopeTree) : Prop where
  size_le : t.size ≤ t'.size
  alike : ∀ id < t.size, (t.scope id).Alike (t'.scope id)

theorem Grows.refl (t : ScopeTree) : t.Grows t := ⟨Nat.le_refl _, fun _ _ => .refl _⟩

theorem Grows.trans (h : t.Grows t') (h' : t'.Grows t'') : t.Grows t'' where
  size_le := Nat.le_trans h.size_le h'.size_le
  alike id hid := (h.alike id hid).trans (h'.alike id (Nat.lt_of_lt_of_le hid h.size_le))

theorem scope_modify (t : ScopeTree) (id other : Nat) (change : Scope → Scope) :
    (t.modify id change).scope other =
      if other = id ∧ id < t.size then change (t.scope id) else t.scope other := by
  by_cases hne : other = id
  · subst hne
    by_cases hlt : other < t.size
    · rw [if_pos ⟨rfl, hlt⟩, scope_modify_self hlt]
    · have hle := Nat.le_of_not_lt hlt
      rw [if_neg (fun h => hlt h.2), scope_of_le (by simpa using hle), scope_of_le hle]
  · rw [if_neg (fun h => hne h.1), scope_modify_of_ne hne]

theorem alike_modify {change : Scope → Scope} (h : ∀ s : Scope, s.Alike (change s)) (t : ScopeTree)
    (id other : Nat) : (t.scope other).Alike ((t.modify id change).scope other) := by
  rw [scope_modify]
  split
  · rename_i hother
    rw [hother.1]
    exact h _
  · exact .refl _

theorem grows_modify {change : Scope → Scope} (h : ∀ s : Scope, s.Alike (change s)) (t : ScopeTree)
    (id : Nat) : t.Grows (t.modify id change) :=
  ⟨Nat.le_of_eq (size_modify ..).symm, fun other _ => alike_modify h t id other⟩

theorem grows_goTo (t : ScopeTree) (id : Nat) : t.Grows (t.goTo id) :=
  ⟨Nat.le_refl _, fun _ _ => .refl _⟩

theorem Grows.goTo (h : t.Grows t') (id : Nat) : t.Grows (t'.goTo id) := h.trans (grows_goTo t' id)

theorem alike_createChild (t : ScopeTree) (parent : Nat) (kind : ScopeKind) (name : String) (id : Nat) :
    Scope.Alike (if id = t.size then
        { kind, name, parent := some parent, frame := t.frameOf parent kind } else t.scope id)
      ((t.createChild parent kind name).1.scope id) := by
  have hnew := scope_push t { kind, name, parent := some parent, frame := t.frameOf parent kind } id
  rw [← hnew]
  exact alike_modify (fun _ => by exact ⟨rfl, rfl, rfl, rfl⟩) _ parent id

theorem grows_createChild (t : ScopeTree) (parent : Nat) (kind : ScopeKind) (name : String) :
    t.Grows (t.createChild parent kind name).1 where
  size_le := by
    rw [size_createChild]
    exact Nat.le_succ _
  alike id hid := by
    have hkept := alike_createChild t parent kind name id
    rwa [if_neg (Nat.ne_of_lt hid)] at hkept

theorem grows_modifyVisible (t : ScopeTree) (id : Nat) (name : String) (change : Symbol → Symbol) :
    t.Grows (t.modifyVisible id name change) := by
  unfold modifyVisible
  split
  · exact grows_modify (fun _ => by exact ⟨rfl, rfl, rfl, rfl⟩) t _
  · exact .refl t

/-! ### Blocks -/

@[simp] theorem size_noted (t : ScopeTree) (kind : ScopeKind) : (t.noted kind).size = t.size + 1 := by
  rw [noted, size_createChild, size_nextConditionalName]

@[simp] theorem current_noted (t : ScopeTree) (kind : ScopeKind) : (t.noted kind).current = t.current :=
  rfl

theorem grows_noted (t : ScopeTree) (kind : ScopeKind) : t.Grows (t.noted kind) :=
  (grows_modify (fun _ => by exact ⟨rfl, rfl, rfl, rfl⟩) t t.current).trans (grows_createChild ..)

theorem alike_noted (t : ScopeTree) {kind : ScopeKind} (hkind : kind = .thenBranch ∨ kind = .whileBody) :
    Scope.Alike
      { kind, name := (t.nextConditionalName kind).2, parent := some t.current
        frame := (t.scope t.current).frame }
      ((t.noted kind).scope t.size) := by
  have hkept := alike_createChild (t.nextConditionalName kind).1 t.current kind
    (t.nextConditionalName kind).2 t.size
  rw [size_nextConditionalName, if_pos rfl] at hkept
  have hframe : (t.nextConditionalName kind).1.frameOf t.current kind = (t.scope t.current).frame := by
    rcases hkind with rfl | rfl <;>
      exact (alike_modify (fun _ => by exact ⟨rfl, rfl, rfl, rfl⟩) t t.current t.current).frame
  rw [hframe] at hkept
  exact hkept

theorem size_alternative (t : ScopeTree) (id : Nat) : (t.alternative id).size = t.size + 1 := by
  rw [alternative, size_goTo, size_modify, size_createChild]

@[simp] theorem current_alternative (t : ScopeTree) (id : Nat) : (t.alternative id).current = t.size := rfl

theorem grows_alternative (t : ScopeTree) (id : Nat) : t.Grows (t.alternative id) :=
  ((grows_createChild ..).trans (grows_modify (fun _ => by exact ⟨rfl, rfl, rfl, rfl⟩) _ id)).goTo _

theorem alike_alternative (t : ScopeTree) (id : Nat) : Scope.Alike
      { kind := .elseBranch, name := (t.scope id).name ++ "$else", parent := some t.current
        frame := (t.scope t.current).frame }
      ((t.alternative id).scope t.size) := by
  have hkept := alike_createChild t t.current .elseBranch ((t.scope id).name ++ "$else") t.size
  rw [if_pos rfl] at hkept
  exact hkept.trans (alike_modify (fun _ => by exact ⟨rfl, rfl, rfl, rfl⟩) _ id t.size)

@[simp] theorem size_retyped (t : ScopeTree) (narrowed : Option (String × Ty)) :
    (t.retyped narrowed).size = t.size := by
  cases narrowed with
  | none => rfl
  | some _ => exact size_modifyVisible ..

@[simp] theorem current_retyped (t : ScopeTree) (narrowed : Option (String × Ty)) :
    (t.retyped narrowed).current = t.current := by
  cases narrowed with
  | none => rfl
  | some _ => exact current_modifyVisible ..

theorem grows_retyped (t : ScopeTree) (narrowed : Option (String × Ty)) : t.Grows (t.retyped narrowed) := by
  cases narrowed with
  | none => exact .refl t
  | some _ => exact grows_modifyVisible ..

theorem enter_spec (t : ScopeTree) (kind : ScopeKind) (name : String)
    (hkind : kind = .functionHeader ∨ kind = .functionBody) :
    t.Grows (t.enter kind name).1 ∧ (t.enter kind name).1.current = t.size ∧
      (t.enter kind name).1.size = t.size + 1 ∧
      Scope.Alike { kind, name, parent := some t.current, frame := .local }
        ((t.enter kind name).1.scope t.size) := by
  refine ⟨(t.grows_createChild ..).goTo _, rfl, t.size_createChild .., ?_⟩
  have hnew := t.alike_createChild t.current kind name t.size
  rw [if_pos rfl] at hnew
  rcases hkind with rfl | rfl <;> exact hnew

end ScopeTree

/-! ### Symbols -/

/-- What a symbol stands for, apart from its type. -/
def Symbol.untyped (symbol : Symbol) : SymbolKind := (symbol.withTy .void).kind

theorem Symbol.untyped_withTy (symbol : Symbol) (ty : Ty) : (symbol.withTy ty).untyped = symbol.untyped := by
  rcases symbol with ⟨_, _ | _ | _, _⟩ <;> rfl

namespace ScopeTree

variable {t : ScopeTree} {id : Nat} {symbol : Symbol}

/-- What a name of a scope stands for, apart from its type. -/
def sense? (t : ScopeTree) (id : Nat) (name : String) : Option SymbolKind :=
  (t.symbol? id name).map Symbol.untyped

theorem symbol?_of_le (h : t.size ≤ id) (name : String) : t.symbol? id name = none := by
  rw [symbol?, scope_of_le h]
  rfl

theorem symbol?_congr {t' : ScopeTree} (h : (t'.scope id).table = (t.scope id).table)
    (name : String) : t'.symbol? id name = t.symbol? id name := by
  rw [symbol?, h, symbol?]

@[simp] theorem symbol?_goTo (t : ScopeTree) (id other : Nat) (name : String) :
    (t.goTo id).symbol? other name = t.symbol? other name := rfl

theorem symbol?_modify {change : Scope → Scope} (h : ∀ s : Scope, (change s).table = s.table)
    (t : ScopeTree) (id other : Nat) (name : String) :
    (t.modify id change).symbol? other name = t.symbol? other name := by
  refine symbol?_congr ?_ name
  rw [scope_modify]
  split
  · rename_i hother
    rw [h, hother.1]
  · rfl

theorem symbol?_createChild (t : ScopeTree) (parent : Nat) (kind : ScopeKind) (childName : String)
    (id : Nat) (name : String) :
    (t.createChild parent kind childName).1.symbol? id name = t.symbol? id name := by
  refine (symbol?_modify (fun _ => by rfl) _ parent id name).trans ?_
  by_cases hid : id = t.size
  · subst hid
    rw [symbol?_of_le (Nat.le_refl _), symbol?, scope_push, if_pos rfl]
    rfl
  · refine symbol?_congr ?_ name
    rw [scope_push, if_neg hid]

@[simp] theorem symbol?_noted (t : ScopeTree) (kind : ScopeKind) (id : Nat) (name : String) :
    (t.noted kind).symbol? id name = t.symbol? id name :=
  (symbol?_createChild ..).trans (symbol?_modify (fun _ => by rfl) t t.current id name)

@[simp] theorem symbol?_alternative (t : ScopeTree) (scope id : Nat) (name : String) :
    (t.alternative scope).symbol? id name = t.symbol? id name :=
  (symbol?_modify (fun _ => by rfl) _ scope id name).trans (symbol?_createChild ..)

@[simp] theorem symbol?_enter (t : ScopeTree) (kind : ScopeKind) (scopeName : String) (id : Nat)
    (name : String) : (t.enter kind scopeName).1.symbol? id name = t.symbol? id name :=
  symbol?_createChild ..

theorem symbol?_setTable (hordered : t.Ordered) (hid : id < t.size)
    {table : SymbolTable} (hinsert : (t.scope id).table.insert symbol = .ok table)
    (other : Nat) (name : String) :
    (t.setTable id table).symbol? other name =
      if other = id ∧ name = symbol.name then some symbol else t.symbol? other name := by
  rw [symbol?, setTable, scope_modify]
  by_cases hother : other = id
  · subst hother
    rw [if_pos ⟨rfl, hid⟩]
    refine (SymbolTable.get?_insert (hordered other) hinsert name).trans ?_
    simp only [true_and]
    rfl
  · rw [if_neg fun h => hother h.1, if_neg fun h => hother h.1]
    rfl

theorem symbol?_modifyVisible (t : ScopeTree) (id : Nat) (name : String) {change : Symbol → Symbol}
    (hname : ∀ s, (change s).name = s.name) (other : Nat) (key : String) :
    (t.modifyVisible id name change).symbol? other key =
      if t.owner? id name = some other ∧ key = name then (t.symbol? other key).map change
      else t.symbol? other key := by
  unfold modifyVisible
  cases howner : t.owner? id name with
  | none => simp
  | some owner =>
    by_cases hother : owner = other
    · subst hother
      by_cases hlt : owner < t.size
      · rw [symbol?, scope_modify, if_pos ⟨rfl, hlt⟩]
        refine (SymbolTable.get?_modify _ name hname key).trans ?_
        simp only [true_and]
        rfl
      · have hle := Nat.le_of_not_lt hlt
        rw [symbol?_of_le (by simpa using hle), symbol?_of_le hle]
        simp
    · rw [symbol?, scope_modify, if_neg fun h => hother h.1.symm,
        if_neg fun h => hother (Option.some.inj h.1)]
      rfl

theorem sense?_eq_none_iff {name : String} :
    t.sense? id name = none ↔ t.symbol? id name = none := Option.map_eq_none_iff

@[simp] theorem sense?_retyped (t : ScopeTree) (narrowed : Option (String × Ty)) (id : Nat) (name : String) :
    (t.retyped narrowed).sense? id name = t.sense? id name := by
  cases narrowed with
  | none => rfl
  | some narrowed =>
    rw [sense?, retyped, symbol?_modifyVisible _ _ _ (Symbol.name_withTy _)]
    split
    · rw [Option.map_map, Function.comp_def]
      simp only [Symbol.untyped_withTy]
      rfl
    · rfl

theorem sense?_setTable (hordered : t.Ordered) (hid : id < t.size)
    {table : SymbolTable} (hinsert : (t.scope id).table.insert symbol = .ok table)
    (other : Nat) (name : String) :
    (t.setTable id table).sense? other name =
      if other = id ∧ name = symbol.name then some symbol.untyped else t.sense? other name := by
  rw [sense?, symbol?_setTable hordered hid hinsert]
  split <;> rfl

theorem sense?_modifyVisible {name : String} {owner : Nat}
    (hmeans : t.Denotes name owner symbol) (other : Nat) (key : String) :
    (t.modifyVisible t.current name (·.withDefined true)).sense? other key =
      if other = owner ∧ key = name then some (symbol.withDefined true).untyped
      else t.sense? other key := by
  rw [sense?, symbol?_modifyVisible _ _ _ (Symbol.name_withDefined _), hmeans.found]
  by_cases hsame : other = owner ∧ key = name
  · rw [if_pos ⟨congrArg some hsame.1.symm, hsame.2⟩, if_pos hsame, hsame.1, hsame.2, hmeans.held]
    rfl
  · rw [if_neg fun h => hsame ⟨(Option.some.inj h.1).symm, h.2⟩, if_neg hsame]
    rfl

end ScopeTree

/-! ### Statements -/

namespace Sheet

variable {w w' : Sheet}

theorem Declares.grows {id : Nat} {symbol : Symbol} (h : w.Declares id symbol w') :
    w.scopes.Grows w'.scopes ∧ w'.scopes.current = w.scopes.current ∧
      w'.scopes.size = w.scopes.size ∧ w'.code = w.code ∧ w'.calls = w.calls := by
  obtain ⟨table, -, rfl⟩ := h
  exact ⟨ScopeTree.grows_modify (fun _ => by exact ⟨rfl, rfl, rfl, rfl⟩) _ id, rfl,
    ScopeTree.size_modify .., rfl, rfl⟩

theorem Takes.grows {index : Nat} {params : List Phrase.Param} (h : w.Takes index params w') :
    w.scopes.Grows w'.scopes ∧ w'.scopes.current = w.scopes.current ∧
      w'.scopes.size = w.scopes.size ∧ w'.code = w.code ∧ w'.calls = w.calls := by
  induction h with
  | nil => exact ⟨.refl _, rfl, rfl, rfl, rfl⟩
  | cons hfirst _ ih =>
    obtain ⟨hgrows, hcurrent, hsize, hcode, hcalls⟩ := hfirst.grows
    obtain ⟨hgrows', hcurrent', hsize', hcode', hcalls'⟩ := ih
    exact ⟨hgrows.trans hgrows', hcurrent'.trans hcurrent, hsize'.trans hsize, hcode'.trans hcode,
      hcalls'.trans hcalls⟩

theorem Reserves.scopes {name : String} (h : w.Reserves name w') :
    w'.scopes = w.scopes ∧ w'.calls = w.calls := by
  cases h <;> exact ⟨rfl, rfl⟩

theorem Requests.scopes {callee : String} {args : List Phrase.Arg} {target : Option Ty}
    (h : w.Requests callee args target w') : w'.scopes = w.scopes := by
  cases h
  rfl

theorem Supplies.scopes {ty : Ty} {side : Phrase.RightSide} (h : w.Supplies ty side w') :
    w'.scopes = w.scopes := by
  cases h with
  | expression => rfl
  | call hcall => exact hcall.scopes

theorem Initializes.scopes {ty : Ty} {isMutable defined : Bool} {init : Option Phrase.RightSide}
    (h : w.Initializes ty isMutable init defined w') : w'.scopes = w.scopes := by
  cases h with
  | side hside => exact hside.scopes
  | absent | waiting => rfl

theorem Enters.grows {condition : Phrase.Condition} {narrowed : Option (String × Ty)}
    (h : w.Enters condition narrowed w') :
    (w.scopes.noted .thenBranch).Grows w'.scopes ∧ w'.scopes.current = w.scopes.size ∧
      w'.scopes.size = w.scopes.size + 1 := by
  cases h with
  | comparison => exact ⟨ScopeTree.grows_goTo _ _, rfl, ScopeTree.size_noted ..⟩
  | present =>
    refine ⟨(ScopeTree.grows_retyped _ _).goTo _, rfl, ?_⟩
    simp only [scopes_onScopes, scopes_write, ScopeTree.size_goTo, ScopeTree.size_retyped,
      ScopeTree.size_noted]

theorem grows_halfway (w : Sheet) (id parent : Nat) (narrowed : Option (String × Ty)) :
    w.scopes.Grows (w.halfway id parent narrowed).scopes :=
  (ScopeTree.grows_goTo _ _).trans (ScopeTree.grows_retyped _ _)

@[simp] theorem current_halfway (w : Sheet) (id parent : Nat) (narrowed : Option (String × Ty)) :
    (w.halfway id parent narrowed).scopes.current = parent :=
  ScopeTree.current_retyped ..

@[simp] theorem size_halfway (w : Sheet) (id parent : Nat) (narrowed : Option (String × Ty)) :
    (w.halfway id parent narrowed).scopes.size = w.scopes.size :=
  ScopeTree.size_retyped ..

theorem Begins.grows {f : Phrase.Function} (h : w.Begins f w') :
    w.scopes.Grows w'.scopes ∧ w'.scopes.current = w.scopes.size + 1 ∧ w'.scopes.size = w.scopes.size + 2 ∧
      Scope.Alike
        { kind := .functionHeader, name := f.name, parent := some w.scopes.current, frame := .local }
        (w'.scopes.scope w.scopes.size) ∧
      Scope.Alike { kind := .functionBody, name := f.name, parent := some w.scopes.size, frame := .local }
        (w'.scopes.scope (w.scopes.size + 1)) := by
  cases h with
  | @intro w₁ w₂ pops _ hparams hsymbol hpops =>
    obtain ⟨hgrows₁, hcurrent₁, hsize₁, halike₁⟩ := w.scopes.enter_spec .functionHeader f.name (.inl rfl)
    obtain ⟨hgrows₂, hcurrent₂, hsize₂, -⟩ := hparams.grows
    obtain ⟨hgrows₃, hcurrent₃, hsize₃, -⟩ := hsymbol.grows
    obtain ⟨hgrows₄, hcurrent₄, hsize₄, halike₄⟩ := w₂.scopes.enter_spec .functionBody f.name (.inr rfl)
    have hcurrent : w₂.scopes.current = w.scopes.size := hcurrent₃.trans (hcurrent₂.trans hcurrent₁)
    have hsize : w₂.scopes.size = w.scopes.size + 1 :=
      hsize₃.trans ((ScopeTree.size_modify ..).trans (hsize₂.trans hsize₁))
    have hlater := hgrows₂.trans ((ScopeTree.grows_modify (fun _ => by exact ⟨rfl, rfl, rfl, rfl⟩) _ _).trans
      (hgrows₃.trans hgrows₄))
    rw [hsize, hcurrent] at halike₄
    have hlt : w.scopes.size < (w.scopes.enter .functionHeader f.name).1.size := by
      rw [hsize₁]
      exact Nat.lt_succ_self _
    exact ⟨hgrows₁.trans hlater, hcurrent₄.trans hsize, hsize₄.trans (congrArg (· + 1) hsize),
      halike₁.trans (hlater.alike _ hlt), halike₄⟩

end Sheet

theorem Adds.grows {w w' : Sheet} {s : Phrase.Statement} (h : Adds w s w') :
    w.scopes.Grows w'.scopes ∧ w'.scopes.current = w.scopes.current := by
  induction h with
  | skip => exact ⟨.refl _, rfl⟩
  | seq _ _ ih ih' => exact ⟨ih.1.trans ih'.1, ih'.2.trans ih.2⟩
  | @declare w w₁ w₂ w₃ _ name _ _ _ _ defined _ hreserve hinit hdeclare =>
    have hscopes : w₂.scopes = w.scopes := hinit.scopes.trans hreserve.scopes.1
    obtain ⟨hgrows, hcurrent, -⟩ := hdeclare.grows
    have hpop : (if defined then w₂.write [w₂.scopes.named .popVariable name w₂.scopes.current]
        else w₂).scopes = w.scopes := by
      split <;> exact hscopes
    rw [hpop] at hgrows hcurrent
    exact ⟨hgrows, hcurrent⟩
  | assign _ _ _ hvalue =>
    have hscopes := hvalue.scopes
    refine ⟨?_, (ScopeTree.current_modifyVisible ..).trans (congrArg _ hscopes)⟩
    rw [← hscopes]
    exact ScopeTree.grows_modifyVisible ..
  | call hcall => exact ⟨hcall.scopes ▸ .refl _, congrArg _ hcall.scopes⟩
  | giveBack => exact ⟨ScopeTree.grows_modify (fun _ => by exact ⟨rfl, rfl, rfl, rfl⟩) _ _, rfl⟩
  | @ifThen w _ w₂ _ _ narrowed hcondition _ ih =>
    have hbody := ((ScopeTree.grows_noted _ _).trans hcondition.grows.1).trans ih.1
    exact ⟨hbody.trans (w₂.grows_halfway w.scopes.size _ narrowed),
      w₂.current_halfway w.scopes.size _ narrowed⟩
  | @ifElse w _ w₂ w₃ _ _ _ narrowed hcondition _ _ ih ih' =>
    have hbody := ((ScopeTree.grows_noted _ _).trans hcondition.grows.1).trans ih.1
    have hhalfway := w₂.grows_halfway w.scopes.size w.scopes.current narrowed
    have hother := ((w₂.halfway w.scopes.size w.scopes.current narrowed).scopes.grows_alternative
      w.scopes.size).trans ih'.1
    exact ⟨((hbody.trans hhalfway).trans hother).goTo _, rfl⟩
  | loop _ _ ih => exact ⟨(((ScopeTree.grows_noted _ _).goTo _).trans ih.1).goTo _, rfl⟩

theorem Sheet.Begins.parents {w w₁ w₂ : Sheet} {f : Phrase.Function} {s : Phrase.Statement}
    (h : w.Begins f w₁) (hbody : Adds w₁ s w₂) :
    (w₂.scopes.scope w₂.scopes.current).parent = some w.scopes.size ∧
      (w₂.scopes.scope w.scopes.size).parent = some w.scopes.current := by
  obtain ⟨-, hcurrent, hsize, hheader, hinner⟩ := h.grows
  obtain ⟨hgrows, hcurrent'⟩ := hbody.grows
  rw [hcurrent', hcurrent]
  exact ⟨(hinner.trans (hgrows.alike _ (by rw [hsize]; exact Nat.lt_succ_self _))).parent,
    (hheader.trans (hgrows.alike _ (by rw [hsize]; exact Nat.lt_add_of_pos_right Nat.two_pos))).parent⟩

end OnePass
