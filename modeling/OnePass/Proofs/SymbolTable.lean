import OnePass.SymbolTable
import Mathlib.Data.Set.Insert
import Mathlib.Tactic.Tauto

/-!
# Symbol tables as sets of names

The view of a symbol table is the list of its symbols in the order of their names.  Rotations keep
the list, an insertion adds to it, and a change of a symbol maps over it.  From outside only the
names matter and the role of each one; whether a variable has a value or may be absent comes and goes.

Main results:

* `SymbolTree.get?_eq_some_iff` — a search finds exactly the symbols of the list;
* `SymbolTable.names_insert`, `SymbolTable.names_modify` — an insertion adds one name, and a change
  that keeps names and roles adds none.
-/

namespace OnePass

open List

namespace SymbolTree

attribute [local simp] toList

variable {tree : SymbolTree}

/-! ### The list of a tree -/

@[simp] theorem toList_join (left : SymbolTree) (symbol : Symbol) (right : SymbolTree) :
    (join left symbol right).toList = left.toList ++ symbol :: right.toList := rfl

@[simp] theorem toList_rotateRight (tree : SymbolTree) : tree.rotateRight.toList = tree.toList := by
  unfold rotateRight
  split <;> simp

@[simp] theorem toList_rotateLeft (tree : SymbolTree) : tree.rotateLeft.toList = tree.toList := by
  unfold rotateLeft
  split <;> simp

theorem toList_rebalance (name : String) (left : SymbolTree) (symbol : Symbol) (right : SymbolTree) :
    (rebalance name left symbol right).toList = left.toList ++ symbol :: right.toList := by
  unfold rebalance
  simp only
  split
  · rw [toList_rotateRight, toList_join]
    split <;> simp
  · split
    · rw [toList_rotateLeft, toList_join]
      split <;> simp
    · simp

theorem mem_toList_insert (entry symbol : Symbol) (tree : SymbolTree) :
    symbol ∈ (tree.insert entry).toList ↔ symbol = entry ∨ symbol ∈ tree.toList := by
  induction tree with
  | leaf => simp [insert, join]
  | node left root height right ihl ihr =>
    rw [insert]
    split <;> simp only [toList_rebalance, toList, mem_append, mem_cons, ihl, ihr]
    · rw [or_assoc]
    · rw [or_left_comm (a := symbol = entry), or_left_comm (a := symbol = entry)]

/-! ### Order -/

/-- The names are in strict order. -/
def Ordered (tree : SymbolTree) : Prop := tree.toList.Pairwise fun a b => a.name < b.name

theorem ordered_leaf : leaf.Ordered := List.Pairwise.nil

theorem ordered_node {left : SymbolTree} {symbol : Symbol} {height : Int} {right : SymbolTree} :
    (node left symbol height right).Ordered ↔
      left.Ordered ∧ right.Ordered ∧ (∀ a ∈ left.toList, a.name < symbol.name) ∧
        ∀ b ∈ right.toList, symbol.name < b.name := by
  unfold Ordered
  rw [toList, pairwise_append, pairwise_cons]
  constructor
  · rintro ⟨hl, ⟨hr, hright⟩, hleft⟩
    exact ⟨hl, hright, fun a ha => hleft a ha symbol mem_cons_self, hr⟩
  · rintro ⟨hl, hright, hleft, hr⟩
    refine ⟨hl, ⟨hr, hright⟩, fun a ha b hb => ?_⟩
    rcases mem_cons.1 hb with rfl | hb
    · exact hleft a ha
    · exact String.lt_trans (hleft a ha) (hr b hb)

theorem ordered_congr {other : SymbolTree} (h : tree.toList = other.toList) :
    tree.Ordered ↔ other.Ordered := by
  unfold Ordered
  rw [h]

theorem ordered_insert {entry : Symbol} (h : tree.Ordered) (hnew : ∀ s ∈ tree.toList, s.name ≠ entry.name) :
    (tree.insert entry).Ordered := by
  induction tree with
  | leaf => exact pairwise_singleton _ _
  | node left root height right ihl ihr =>
    obtain ⟨hl, hr, hleft, hright⟩ := ordered_node.1 h
    have hroot : root.name ≠ entry.name := hnew root (by simp)
    rw [insert]
    split
    · rename_i hlt
      refine (ordered_congr (show _ = (node (left.insert entry) root height right).toList from
        toList_rebalance _ _ _ _)).2 (ordered_node.2 ⟨ihl hl ?_, hr, ?_, hright⟩)
      · exact fun s hs => hnew s (by simp [hs])
      · intro a ha
        rcases (mem_toList_insert _ _ _).1 ha with rfl | ha
        · exact hlt
        · exact hleft a ha
    · rename_i hlt
      have hgt : root.name < entry.name :=
        ((Std.lt_trichotomy entry.name root.name).resolve_left hlt).resolve_left hroot.symm
      refine (ordered_congr (show _ = (node left root height (right.insert entry)).toList from
        toList_rebalance _ _ _ _)).2 (ordered_node.2 ⟨hl, ihr hr ?_, hleft, ?_⟩)
      · exact fun s hs => hnew s (by simp [hs])
      · intro b hb
        rcases (mem_toList_insert _ _ _).1 hb with rfl | hb
        · exact hgt
        · exact hright b hb

theorem get?_eq_some_iff (h : tree.Ordered) {name : String} {symbol : Symbol} :
    tree.get? name = some symbol ↔ symbol ∈ tree.toList ∧ symbol.name = name := by
  induction tree with
  | leaf => simp [get?]
  | node left root height right ihl ihr =>
    obtain ⟨hl, hr, hleft, hright⟩ := ordered_node.1 h
    simp only [get?, toList, mem_append, mem_cons]
    split
    · rename_i heq
      subst heq
      constructor
      · rintro ⟨⟩
        exact ⟨.inr (.inl rfl), rfl⟩
      · rintro ⟨hmem | rfl | hmem, hname⟩
        · exact absurd (hname ▸ hleft symbol hmem) (String.lt_irrefl _)
        · rfl
        · exact absurd (hname ▸ hright symbol hmem) (String.lt_irrefl _)
    · rename_i hne
      split
      · rename_i hlt
        rw [ihl hl]
        constructor
        · rintro ⟨hmem, hname⟩
          exact ⟨.inl hmem, hname⟩
        · rintro ⟨hmem | rfl | hmem, hname⟩
          · exact ⟨hmem, hname⟩
          · exact absurd hname.symm hne
          · exact absurd hlt (String.lt_asymm (hname ▸ hright symbol hmem))
      · rename_i hlt
        rw [ihr hr]
        constructor
        · rintro ⟨hmem, hname⟩
          exact ⟨.inr (.inr hmem), hname⟩
        · rintro ⟨hmem | rfl | hmem, hname⟩
          · exact absurd (hname ▸ hleft symbol hmem) hlt
          · exact absurd hname.symm hne
          · exact ⟨hmem, hname⟩

theorem toList_modify (h : tree.Ordered) (name : String) (change : Symbol → Symbol) :
    (tree.modify name change).toList = tree.toList.map fun s => if name = s.name then change s else s := by
  have hkeep : ∀ l : List Symbol, (∀ s ∈ l, name ≠ s.name) →
      l.map (fun s => if name = s.name then change s else s) = l := fun l hl =>
    (map_congr_left fun s hs => if_neg (hl s hs)).trans (map_id l)
  induction tree with
  | leaf => rfl
  | node left root height right ihl ihr =>
    obtain ⟨hl, hr, hleft, hright⟩ := ordered_node.1 h
    simp only [modify]
    split
    · rename_i heq
      subst heq
      rw [toList, toList, map_append, map_cons, if_pos rfl, hkeep, hkeep]
      · exact fun s hs heq => absurd (heq ▸ hright s hs) (String.lt_irrefl _)
      · exact fun s hs heq => absurd (heq ▸ hleft s hs) (String.lt_irrefl _)
    · rename_i hne
      split
      · rename_i hlt
        rw [toList, toList, map_append, map_cons, if_neg hne, ihl hl, hkeep right.toList]
        exact fun s hs heq => absurd hlt (String.lt_asymm (heq ▸ hright s hs))
      · rename_i hlt
        rw [toList, toList, map_append, map_cons, if_neg hne, ihr hr, hkeep left.toList]
        exact fun s hs heq => absurd (heq ▸ hleft s hs) hlt

end SymbolTree

/-! ### Names and their sorts -/

/-- What a name stands for, without its type. -/
inductive SymbolSort where
  | variable
  | function (builtin : Bool)
  | parameter (index : Nat)
deriving DecidableEq

/-- The sort of a symbol. -/
def Symbol.sort (symbol : Symbol) : SymbolSort :=
  match symbol.kind with
  | .var .. => .variable
  | .function _ builtin => .function builtin
  | .parameter index _ _ => .parameter index

theorem Ty.unwrapped_unwrapped (ty : Ty) : ty.unwrapped.unwrapped = ty.unwrapped := by
  cases ty <;> rfl

/-- What never changes of a symbol: its sort, and its type apart from the option of being absent; of a
function, the type of its result. -/
structure Role where
  sort : SymbolSort
  base : Ty
deriving DecidableEq

/-- The role of a symbol. -/
def Symbol.role (symbol : Symbol) : Role :=
  match symbol.kind with
  | .var _ ty _ => ⟨.variable, ty.unwrapped⟩
  | .function returns builtin => ⟨.function builtin, returns⟩
  | .parameter index _ ty => ⟨.parameter index, ty.unwrapped⟩

namespace Symbol

variable {symbol : Symbol}

theorem sort_role (symbol : Symbol) : symbol.role.sort = symbol.sort := by
  rcases symbol with ⟨_, _ | _ | _, _⟩ <;> rfl

@[simp] theorem name_withTy (ty : Ty) (symbol : Symbol) : (symbol.withTy ty).name = symbol.name := by
  unfold withTy
  split <;> rfl

theorem role_withTy {ty : Ty} (hfunction : symbol.isFunction = false)
    (hty : ty.unwrapped = symbol.role.base) : (symbol.withTy ty).role = symbol.role := by
  rcases symbol with ⟨_, _ | _ | _, _⟩
  · exact congrArg (Role.mk .variable) hty
  · cases hfunction
  · exact congrArg (Role.mk (.parameter _)) hty

theorem base_role (hfunction : symbol.isFunction = false) : symbol.role.base = symbol.ty.unwrapped := by
  rcases symbol with ⟨_, _ | _ | _, _⟩
  · rfl
  · cases hfunction
  · rfl

@[simp] theorem name_withDefined (defined : Bool) (symbol : Symbol) :
    (symbol.withDefined defined).name = symbol.name := by
  unfold withDefined
  split <;> rfl

@[simp] theorem role_withDefined (defined : Bool) (symbol : Symbol) :
    (symbol.withDefined defined).role = symbol.role := by
  rcases symbol with ⟨_, _ | _ | _, _⟩ <;> rfl

theorem isFunction_iff : symbol.isFunction = true ↔ ∃ builtin, symbol.role.sort = .function builtin := by
  rcases symbol with ⟨_, _ | _ | _, _⟩ <;> simp [isFunction, role]

theorem isParameterAt_iff {index : Nat} :
    symbol.isParameterAt index = true ↔ symbol.role.sort = .parameter index := by
  rcases symbol with ⟨_, _ | _ | _, _⟩ <;> simp [isParameterAt, role]

end Symbol

namespace SymbolTable

variable {table grown : SymbolTable} {name : String} {symbol : Symbol} {change : Symbol → Symbol}

/-- The names of a table, each with its role. -/
def names (table : SymbolTable) : Set (String × Role) :=
  {entry | ∃ symbol ∈ table.toList, (symbol.name, symbol.role) = entry}

/-- The table can be searched. -/
def Ordered (table : SymbolTable) : Prop := table.tree.Ordered

theorem ordered_empty : ({} : SymbolTable).Ordered := SymbolTree.ordered_leaf

@[simp] theorem names_empty : ({} : SymbolTable).names = ∅ := by
  ext entry
  simp [names, toList, SymbolTree.toList]

theorem get?_eq_some_iff (h : table.Ordered) :
    table.get? name = some symbol ↔ symbol ∈ table.toList ∧ symbol.name = name :=
  SymbolTree.get?_eq_some_iff h

theorem mem_names_of_get? (h : table.Ordered) (hget : table.get? name = some symbol) :
    (name, symbol.role) ∈ table.names := by
  obtain ⟨hmem, rfl⟩ := (get?_eq_some_iff h).1 hget
  exact ⟨symbol, hmem, rfl⟩

theorem contains_iff (h : table.Ordered) :
    table.contains name = true ↔ ∃ role, (name, role) ∈ table.names := by
  rw [contains, Option.isSome_iff_exists]
  constructor
  · rintro ⟨symbol, hget⟩
    exact ⟨symbol.role, mem_names_of_get? h hget⟩
  · rintro ⟨role, symbol, hmem, heq⟩
    exact ⟨symbol, (get?_eq_some_iff h).2 ⟨hmem, congrArg Prod.fst heq⟩⟩

theorem names_insert (h : table.Ordered) (hinsert : table.insert symbol = .ok grown) :
    grown.Ordered ∧ grown.names = Insert.insert (symbol.name, symbol.role) table.names ∧
      ∀ role, (symbol.name, role) ∉ table.names := by
  unfold insert at hinsert
  split at hinsert
  · cases hinsert
  · rename_i hnone
    cases hinsert
    have hnew : ∀ s ∈ table.toList, s.name ≠ symbol.name := by
      intro s hs heq
      rw [(get?_eq_some_iff h).2 ⟨hs, heq⟩] at hnone
      cases hnone
    refine ⟨SymbolTree.ordered_insert h hnew, ?_, ?_⟩
    · ext entry
      simp only [names, toList, SymbolTree.mem_toList_insert, Set.mem_ofPred_eq, Set.mem_insert_iff]
      constructor
      · rintro ⟨s, rfl | hs, rfl⟩
        · exact .inl rfl
        · exact .inr ⟨s, hs, rfl⟩
      · rintro (rfl | ⟨s, hs, rfl⟩)
        · exact ⟨symbol, .inl rfl, rfl⟩
        · exact ⟨s, .inr hs, rfl⟩
    · rintro role ⟨s, hs, heq⟩
      exact hnew s hs (congrArg Prod.fst heq)

theorem role_unique (h : table.Ordered) {role role' : Role} (hrole : (name, role) ∈ table.names)
    (hrole' : (name, role') ∈ table.names) : role = role' := by
  obtain ⟨symbol, hmem, heq⟩ := hrole
  obtain ⟨symbol', hmem', heq'⟩ := hrole'
  have hget := (get?_eq_some_iff h).2 ⟨hmem, congrArg Prod.fst heq⟩
  have hget' := (get?_eq_some_iff h).2 ⟨hmem', congrArg Prod.fst heq'⟩
  cases hget.symm.trans hget'
  exact (congrArg Prod.snd heq).symm.trans (congrArg Prod.snd heq')

theorem names_modify (h : table.Ordered) (name : String) (hname : ∀ s, (change s).name = s.name)
    (hrole : ∀ s, table.get? name = some s → (change s).role = s.role) :
    (table.modify name change).Ordered ∧ (table.modify name change).names = table.names := by
  have hlist := SymbolTree.toList_modify h name change
  have hkept : ∀ s ∈ table.toList, (if name = s.name then change s else s).role = s.role ∧
      (if name = s.name then change s else s).name = s.name := by
    intro s hs
    split
    · rename_i heq
      exact ⟨hrole s ((get?_eq_some_iff h).2 ⟨hs, heq.symm⟩), hname s⟩
    · exact ⟨rfl, rfl⟩
  constructor
  · unfold Ordered SymbolTree.Ordered modify
    rw [hlist, pairwise_map]
    refine List.Pairwise.imp (fun hab => ?_) h
    split <;> split <;> simpa only [hname] using hab
  · ext entry
    simp only [names, toList, modify, hlist, mem_map, Set.mem_ofPred_eq]
    constructor
    · rintro ⟨_, ⟨s, hs, rfl⟩, rfl⟩
      obtain ⟨hsame, hsame'⟩ := hkept s hs
      exact ⟨s, hs, by rw [hsame, hsame']⟩
    · rintro ⟨s, hs, rfl⟩
      obtain ⟨hsame, hsame'⟩ := hkept s hs
      exact ⟨_, ⟨s, hs, rfl⟩, by rw [hsame, hsame']⟩

/-! ### Searching changed tables -/

theorem get?_of_insert (hinsert : table.insert symbol = .ok grown) : table.get? symbol.name = none := by
  unfold insert at hinsert
  split at hinsert
  · cases hinsert
  · assumption

theorem get?_insert (h : table.Ordered) (hinsert : table.insert symbol = .ok grown) (name : String) :
    grown.get? name = if name = symbol.name then some symbol else table.get? name := by
  have hnone := get?_of_insert hinsert
  have hgrown := (names_insert h hinsert).1
  unfold insert at hinsert
  rw [hnone] at hinsert
  cases hinsert
  ext found
  rw [get?_eq_some_iff hgrown, toList, SymbolTree.mem_toList_insert]
  split
  · rename_i hname
    rw [Option.some_inj]
    constructor
    · rintro ⟨rfl | hmem, hfound⟩
      · rfl
      · have hget : table.get? symbol.name = some found :=
          (get?_eq_some_iff h).2 ⟨hmem, hfound.trans hname⟩
        cases hnone.symm.trans hget
    · rintro rfl
      exact ⟨.inl rfl, hname.symm⟩
  · rename_i hname
    rw [get?_eq_some_iff h]
    constructor
    · rintro ⟨rfl | hmem, hfound⟩
      · exact absurd hfound.symm hname
      · exact ⟨hmem, hfound⟩
    · rintro ⟨hmem, hfound⟩
      exact ⟨.inr hmem, hfound⟩

theorem Ordered.modify (h : table.Ordered) (name : String) (hname : ∀ s, (change s).name = s.name) :
    (table.modify name change).Ordered := by
  unfold Ordered SymbolTree.Ordered SymbolTable.modify
  rw [SymbolTree.toList_modify h, pairwise_map]
  refine List.Pairwise.imp (fun hab => ?_) h
  split <;> split <;> simpa only [hname] using hab

theorem get?_modify (table : SymbolTable) (name : String) (hname : ∀ s, (change s).name = s.name)
    (other : String) :
    (table.modify name change).get? other =
      if other = name then (table.get? other).map change else table.get? other := by
  have htree : ∀ tree : SymbolTree, (tree.modify name change).get? other =
      if other = name then (tree.get? other).map change else tree.get? other := by
    intro tree
    induction tree with
    | leaf => simp [SymbolTree.modify, SymbolTree.get?]
    | node left symbol height right ihl ihr =>
      by_cases hother : other = name
      · subst hother
        rw [if_pos rfl] at ihl ihr ⊢
        unfold SymbolTree.modify
        split_ifs with heq hlt
        · simp [SymbolTree.get?, hname, heq]
        · simp [SymbolTree.get?, heq, hlt, ihl]
        · simp [SymbolTree.get?, heq, hlt, ihr]
      · rw [if_neg hother] at ihl ihr ⊢
        unfold SymbolTree.modify
        split_ifs with heq hlt
        · have hne : other ≠ symbol.name := heq ▸ hother
          simp [SymbolTree.get?, hname, hne]
        · simp [SymbolTree.get?, ihl]
        · simp [SymbolTree.get?, ihr]
  exact htree table.tree

theorem role_of_parameterAt? {index : Nat} (h : table.parameterAt? index = some symbol) :
    symbol.role.sort = .parameter index ∧ (symbol.name, symbol.role) ∈ table.names :=
  ⟨Symbol.isParameterAt_iff.1 (List.find?_some h), symbol, mem_of_find?_eq_some h, rfl⟩

theorem exists_parameterAt? {index : Nat} {base : Ty} (h : (name, ⟨.parameter index, base⟩) ∈ table.names) :
    ∃ symbol, table.parameterAt? index = some symbol := by
  obtain ⟨symbol, hmem, heq⟩ := h
  refine Option.isSome_iff_exists.1 (List.find?_isSome.2 ⟨symbol, hmem, ?_⟩)
  exact Symbol.isParameterAt_iff.2 (congrArg (fun entry : String × Role => entry.2.sort) heq)

end SymbolTable

end OnePass
