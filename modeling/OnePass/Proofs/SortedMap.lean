import OnePass.Proofs.ByteOrder
import OnePass.Proofs.SymbolTable
import Mathlib.Data.Nat.Fib.Basic

/-!
# Symbol tables as sorted maps

A symbol is inserted below the leaves of a search tree, and on the way back every node above it restores
its balance.  Whether one rotation is needed or two is read off the name that was inserted: a subtree that
has grown is heavy on the side of the name.  So the balance is right after every insertion, and what a
table holds is what has been inserted and changed, whatever the shape of its tree.  Whether a tree is balanced
and in order is what its check says, also of trees that have been made in another way.

Main results:

* `SymbolTree.Balanced.insert` — **an insertion keeps the balance**, and leans to the side of its name
  where it makes the tree higher;
* `SymbolTree.Balanced.fib_le` — a balanced tree is not high;
* `SymbolTree.isBalanced_iff` — **the check of a tree is exact**;
* `SymbolTable.edited_records` — **after any edits a table is a balanced sorted map**.
-/

namespace OnePass

open List

namespace SymbolTree

variable {tree : SymbolTree}

/-! ### Balanced trees -/

/-- The number of nodes on a longest way down. -/
def depth : SymbolTree → Nat
  | leaf => 0
  | node left _ _ right => 1 + max left.depth right.depth

/-- Every node stores its true height, and the heights of its subtrees differ by one at most. -/
def Balanced : SymbolTree → Prop
  | leaf => True
  | node left _ height right =>
      left.Balanced ∧ right.Balanced ∧ height = 1 + max left.depth right.depth ∧
        left.depth ≤ right.depth + 1 ∧ right.depth ≤ left.depth + 1

@[simp] theorem depth_leaf : leaf.depth = 0 := rfl

@[simp] theorem depth_node (left : SymbolTree) (symbol : Symbol) (height : Int) (right : SymbolTree) :
    (node left symbol height right).depth = 1 + max left.depth right.depth := rfl

@[simp] theorem depth_join (left : SymbolTree) (symbol : Symbol) (right : SymbolTree) :
    (join left symbol right).depth = 1 + max left.depth right.depth := rfl

theorem Balanced.height_eq (h : tree.Balanced) : tree.height = tree.depth := by
  cases tree with
  | leaf => rfl
  | node left symbol height right =>
    obtain ⟨-, -, hheight, -, -⟩ := h
    simp [SymbolTree.height, hheight]

theorem Balanced.join {left right : SymbolTree} (hl : left.Balanced) (hr : right.Balanced)
    (hle : left.depth ≤ right.depth + 1) (hge : right.depth ≤ left.depth + 1) (symbol : Symbol) :
    (join left symbol right).Balanced := by
  refine ⟨hl, hr, ?_, hle, hge⟩
  rw [hl.height_eq, hr.height_eq]
  omega

theorem exists_node_of_depth (h : 0 < tree.depth) :
    ∃ left symbol height right, tree = node left symbol height right := by
  cases tree with
  | leaf => simp at h
  | node left symbol height right => exact ⟨left, symbol, height, right, rfl⟩

theorem Balanced.fib_le (h : tree.Balanced) : Nat.fib (tree.depth + 2) ≤ tree.toList.length + 1 := by
  induction tree with
  | leaf => simp [toList]
  | node left symbol height right ihl ihr =>
    obtain ⟨hl, hr, -, hle, hge⟩ := h
    have hleft := ihl hl
    have hright := ihr hr
    rw [depth_node, toList, length_append, length_cons]
    rcases Nat.le_total left.depth right.depth with hcase | hcase
    · have hsum : Nat.fib (right.depth + 3) = Nat.fib (right.depth + 1) + Nat.fib (right.depth + 2) :=
        Nat.fib_add_two
      have hmono : Nat.fib (right.depth + 1) ≤ Nat.fib (left.depth + 2) := Nat.fib_mono (by omega)
      rw [Nat.max_eq_right hcase, show 1 + right.depth + 2 = right.depth + 3 by omega]
      omega
    · have hsum : Nat.fib (left.depth + 3) = Nat.fib (left.depth + 1) + Nat.fib (left.depth + 2) :=
        Nat.fib_add_two
      have hmono : Nat.fib (left.depth + 1) ≤ Nat.fib (right.depth + 2) := Nat.fib_mono (by omega)
      rw [Nat.max_eq_left hcase, show 1 + left.depth + 2 = left.depth + 3 by omega]
      omega

theorem depth_modify (name : String) (change : Symbol → Symbol) (tree : SymbolTree) :
    (tree.modify name change).depth = tree.depth := by
  induction tree with
  | leaf => rfl
  | node left symbol height right ihl ihr =>
    unfold modify
    split_ifs <;> simp [ihl, ihr]

theorem Balanced.modify (h : tree.Balanced) (name : String) (change : Symbol → Symbol) :
    (tree.modify name change).Balanced := by
  induction tree with
  | leaf => exact h
  | node left symbol height right ihl ihr =>
    obtain ⟨hl, hr, hheight, hle, hge⟩ := h
    unfold SymbolTree.modify
    split_ifs
    · exact ⟨hl, hr, hheight, hle, hge⟩
    · exact ⟨ihl hl, hr, by rwa [depth_modify], by rwa [depth_modify], by rwa [depth_modify]⟩
    · exact ⟨hl, ihr hr, by rwa [depth_modify], by rwa [depth_modify], by rwa [depth_modify]⟩

/-! ### Restoring the balance -/

/-- The subtree on the side of a name is the higher one. -/
def Leans (name : String) : SymbolTree → Prop
  | leaf => False
  | node left symbol _ right =>
      name < symbol.name ∧ left.depth = right.depth + 1 ∨ symbol.name < name ∧ right.depth = left.depth + 1

variable {name : String} {left right : SymbolTree} {symbol : Symbol}

theorem rebalance_even (hl : left.Balanced) (hr : right.Balanced) (hle : left.depth ≤ right.depth + 1)
    (hge : right.depth ≤ left.depth + 1) :
    rebalance name left symbol right = join left symbol right := by
  unfold rebalance
  rw [hl.height_eq, hr.height_eq]
  simp only
  rw [if_neg (by omega), if_neg (by omega)]

theorem Balanced.rebalance_left (hl : left.Balanced) (hr : right.Balanced)
    (hdepth : left.depth = right.depth + 2) (hleans : left.Leans name) :
    (rebalance name left symbol right).Balanced ∧
      (rebalance name left symbol right).depth = right.depth + 2 := by
  have hslope : 1 < left.height - right.height := by
    rw [hl.height_eq, hr.height_eq]
    omega
  obtain ⟨outer, pivot, height, inner, rfl⟩ := exists_node_of_depth (show 0 < left.depth by omega)
  obtain ⟨houter, hinner, -, -, -⟩ := hl
  rw [depth_node] at hdepth
  rw [rebalance, if_pos hslope]
  rcases hleans with ⟨hlt, hheavy⟩ | ⟨hlt, hheavy⟩
  · -- the name went to the outer side: one rotation
    rw [if_neg (by simpa [rootName] using String.lt_asymm hlt), SymbolTree.join, rotateRight]
    have hlow : (SymbolTree.join inner symbol right).Balanced :=
      hinner.join hr (by omega) (by omega) symbol
    refine ⟨houter.join hlow ?_ ?_ pivot, ?_⟩ <;> simp only [depth_join] <;> omega
  · -- the name went to the inner side, whose root is lifted twice
    obtain ⟨first, middle, height', second, rfl⟩ := exists_node_of_depth (show 0 < inner.depth by omega)
    obtain ⟨hfirst, hsecond, -, hle, hge⟩ := hinner
    rw [depth_node] at hdepth hheavy
    rw [if_pos (by simpa [rootName] using hlt), SymbolTree.rotateLeft, SymbolTree.join, SymbolTree.join,
      rotateRight]
    have hlower : (SymbolTree.join outer pivot first).Balanced :=
      houter.join hfirst (by omega) (by omega) pivot
    have hupper : (SymbolTree.join second symbol right).Balanced :=
      hsecond.join hr (by omega) (by omega) symbol
    refine ⟨hlower.join hupper ?_ ?_ middle, ?_⟩ <;> simp only [depth_join] <;> omega

theorem Balanced.rebalance_right (hl : left.Balanced) (hr : right.Balanced)
    (hdepth : right.depth = left.depth + 2) (hleans : right.Leans name) :
    (rebalance name left symbol right).Balanced ∧
      (rebalance name left symbol right).depth = left.depth + 2 := by
  have hslope : ¬ 1 < left.height - right.height ∧ left.height - right.height < -1 := by
    rw [hl.height_eq, hr.height_eq]
    omega
  obtain ⟨inner, pivot, height, outer, rfl⟩ := exists_node_of_depth (show 0 < right.depth by omega)
  obtain ⟨hinner, houter, -, -, -⟩ := hr
  rw [depth_node] at hdepth
  rw [rebalance, if_neg hslope.1, if_pos hslope.2]
  rcases hleans with ⟨hlt, hheavy⟩ | ⟨hlt, hheavy⟩
  · obtain ⟨first, middle, height', second, rfl⟩ := exists_node_of_depth (show 0 < inner.depth by omega)
    obtain ⟨hfirst, hsecond, -, hle, hge⟩ := hinner
    rw [depth_node] at hdepth hheavy
    rw [if_pos (by simpa [rootName] using hlt), SymbolTree.rotateRight, SymbolTree.join, SymbolTree.join,
      rotateLeft]
    have hlower : (SymbolTree.join left symbol first).Balanced :=
      hl.join hfirst (by omega) (by omega) symbol
    have hupper : (SymbolTree.join second pivot outer).Balanced :=
      hsecond.join houter (by omega) (by omega) pivot
    refine ⟨hlower.join hupper ?_ ?_ middle, ?_⟩ <;> simp only [depth_join] <;> omega
  · rw [if_neg (by simpa [rootName] using String.lt_asymm hlt), SymbolTree.join, rotateLeft]
    have hlow : (SymbolTree.join left symbol inner).Balanced :=
      hl.join hinner (by omega) (by omega) symbol
    refine ⟨hlow.join houter ?_ ?_ pivot, ?_⟩ <;> simp only [depth_join] <;> omega

/-- What an insertion does to a balanced tree: it stays balanced, and where it becomes higher it leans to
the side of the new name, unless it had no symbol before. -/
structure Grows (name : String) (tree grown : SymbolTree) : Prop where
  balanced : grown.Balanced
  depth : grown.depth = tree.depth ∨ grown.depth = tree.depth + 1 ∧ (tree.depth = 0 ∨ grown.Leans name)

theorem Balanced.insert {entry : Symbol} (h : tree.Balanced)
    (hnew : ∀ s ∈ tree.toList, s.name ≠ entry.name) : Grows entry.name tree (tree.insert entry) := by
  induction tree with
  | leaf => exact ⟨⟨trivial, trivial, rfl, by simp, by simp⟩, .inr ⟨rfl, .inl rfl⟩⟩
  | node left symbol height right ihl ihr =>
    obtain ⟨hl, hr, -, hle, hge⟩ := h
    simp only [toList, mem_append, mem_cons] at hnew
    rw [SymbolTree.insert]
    split
    · rename_i hlt
      obtain ⟨hgrown, hdepth⟩ := ihl hl fun s hs => hnew s (.inl hs)
      rcases Nat.lt_or_ge (right.depth + 1) (left.insert entry).depth with hhigh | hlow
      · have hleans : (left.insert entry).Leans entry.name := by
          rcases hdepth with hsame | ⟨hmore, hzero | hleans⟩
          · omega
          · omega
          · exact hleans
        obtain ⟨hbalanced, hrestored⟩ : (rebalance entry.name (left.insert entry) symbol right).Balanced ∧ _ :=
          hgrown.rebalance_left hr (by omega) hleans
        refine ⟨hbalanced, .inl ?_⟩
        rw [hrestored, depth_node]
        omega
      · rw [rebalance_even hgrown hr hlow (by omega)]
        refine ⟨hgrown.join hr hlow (by omega) symbol, ?_⟩
        rw [depth_join, depth_node]
        rcases Nat.lt_or_ge right.depth (left.insert entry).depth with hmore | hless
        · by_cases hsame : (left.insert entry).depth = left.depth
          · exact .inl (by omega)
          · exact .inr ⟨by omega, .inr (.inl ⟨hlt, by omega⟩)⟩
        · exact .inl (by omega)
    · rename_i hlt
      have hgt : symbol.name < entry.name :=
        ((Std.lt_trichotomy entry.name symbol.name).resolve_left hlt).resolve_left
          (hnew symbol (.inr (.inl rfl))).symm
      obtain ⟨hgrown, hdepth⟩ := ihr hr fun s hs => hnew s (.inr (.inr hs))
      rcases Nat.lt_or_ge (left.depth + 1) (right.insert entry).depth with hhigh | hlow
      · have hleans : (right.insert entry).Leans entry.name := by
          rcases hdepth with hsame | ⟨hmore, hzero | hleans⟩
          · omega
          · omega
          · exact hleans
        obtain ⟨hbalanced, hrestored⟩ : (rebalance entry.name left symbol (right.insert entry)).Balanced ∧ _ :=
          hl.rebalance_right hgrown (by omega) hleans
        refine ⟨hbalanced, .inl ?_⟩
        rw [hrestored, depth_node]
        omega
      · rw [rebalance_even hl hgrown (by omega) hlow]
        refine ⟨hl.join hgrown (by omega) hlow symbol, ?_⟩
        rw [depth_join, depth_node]
        rcases Nat.lt_or_ge left.depth (right.insert entry).depth with hmore | hless
        · by_cases hsame : (right.insert entry).depth = right.depth
          · exact .inl (by omega)
          · exact .inr ⟨by omega, .inr (.inr ⟨hgt, by omega⟩)⟩
        · exact .inl (by omega)

theorem length_toList_insert (entry : Symbol) (tree : SymbolTree) :
    (tree.insert entry).toList.length = tree.toList.length + 1 := by
  induction tree with
  | leaf => rfl
  | node left symbol height right ihl ihr =>
    rw [insert]
    split <;> simp only [toList_rebalance, toList, length_append, length_cons, ihl, ihr] <;> omega

theorem length_toList_modify (name : String) (change : Symbol → Symbol) (tree : SymbolTree) :
    (tree.modify name change).toList.length = tree.toList.length := by
  induction tree with
  | leaf => rfl
  | node left symbol height right ihl ihr =>
    unfold modify
    split_ifs <;> simp [toList, ihl, ihr]

/-! ### The check of a tree -/

/-- The names of a list lie strictly between two bounds, where there are bounds. -/
def Within (lower upper : Option String) (symbols : List Symbol) : Prop :=
  ∀ s ∈ symbols, (∀ l ∈ lower, l < s.name) ∧ ∀ u ∈ upper, s.name < u

/-- A sequence is in order between two bounds if its parts before and behind a symbol are in order
between the bounds and the symbol. -/
theorem within_ordered_iff {lower upper : Option String} {first second : List Symbol} {symbol : Symbol} :
    Within lower upper (first ++ symbol :: second) ∧
        (first ++ symbol :: second).Pairwise (fun a b => a.name < b.name) ↔
      Within lower upper [symbol] ∧
        (Within lower (some symbol.name) first ∧ first.Pairwise fun a b => a.name < b.name) ∧
        Within (some symbol.name) upper second ∧ second.Pairwise fun a b => a.name < b.name := by
  simp only [Within, pairwise_append, pairwise_cons, mem_append, mem_cons, not_mem_nil, or_false,
    forall_eq, Option.mem_some_iff, forall_eq']
  constructor
  · rintro ⟨hwithin, hfirst, ⟨hsymbol, hsecond⟩, hacross⟩
    refine ⟨hwithin symbol (.inr (.inl rfl)), ⟨fun s hs => ?_, hfirst⟩, fun s hs => ?_, hsecond⟩
    · exact ⟨(hwithin s (.inl hs)).1, hacross s hs symbol (.inl rfl)⟩
    · exact ⟨hsymbol s hs, (hwithin s (.inr (.inr hs))).2⟩
  · rintro ⟨⟨hlower, hupper⟩, ⟨hleft, hfirst⟩, hright, hsecond⟩
    refine ⟨?_, hfirst, ⟨fun s hs => (hright s hs).1, hsecond⟩, ?_⟩
    · rintro s (hs | rfl | hs)
      · exact ⟨(hleft s hs).1, fun u hu => String.lt_trans (hleft s hs).2 (hupper u hu)⟩
      · exact ⟨hlower, hupper⟩
      · exact ⟨fun l hl => String.lt_trans (hlower l hl) (hright s hs).1, (hright s hs).2⟩
    · rintro s hs t (rfl | ht)
      · exact (hleft s hs).2
      · exact String.lt_trans (hleft s hs).2 (hright t ht).1

theorem check_eq_some_iff {lower upper : Option String} {height : Int} :
    tree.check lower upper = some height ↔
      (Within lower upper tree.toList ∧ tree.toList.Pairwise fun a b => a.name < b.name) ∧
        tree.Balanced ∧ height = tree.depth := by
  induction tree generalizing lower upper height with
  | leaf =>
    constructor
    · rintro ⟨⟩
      exact ⟨⟨nofun, .nil⟩, trivial, rfl⟩
    · rintro ⟨-, -, rfl⟩
      rfl
  | node left symbol stored right ihl ihr =>
    have hbounds : (lower.any (symbol.name ≤ ·) || upper.any (· ≤ symbol.name)) = false ↔
        Within lower upper [symbol] := by
      cases lower <;> cases upper <;> simp [Within]
    rw [toList, within_ordered_iff, ← hbounds, check]
    constructor
    · intro h
      split at h
      · cases h
      rename_i hin
      split at h
      · rename_i leftHeight rightHeight hl hr
        obtain ⟨hleft, hbl, rfl⟩ := ihl.1 hl
        obtain ⟨hright, hbr, rfl⟩ := ihr.1 hr
        simp only [Bool.or_eq_true, decide_eq_true_eq, bne_iff_ne, Option.ite_none_left_eq_some, not_or,
          not_lt, ne_eq, not_not, Option.some.injEq] at h
        obtain ⟨⟨hslope, hstored⟩, rfl⟩ := h
        exact ⟨⟨Bool.eq_false_iff.2 hin, hleft, hright⟩, ⟨hbl, hbr, by omega, by omega, by omega⟩,
          by rw [depth_node]; omega⟩
      · cases h
    · rintro ⟨⟨hin, hleft, hright⟩, ⟨hbl, hbr, hstored, hle, hge⟩, rfl⟩
      rw [if_neg (Bool.eq_false_iff.1 hin), ihl.2 ⟨hleft, hbl, rfl⟩, ihr.2 ⟨hright, hbr, rfl⟩]
      have hslope : ¬ 1 < ((left.depth : Int) - right.depth).natAbs := by omega
      have hmax : ((max left.depth right.depth : Nat) : Int) = max (left.depth : Int) right.depth := by omega
      simp [hslope, hstored, hmax]

/-- The check of a tree is exact: it passes if and only if the names are in strict order from left to right,
every node stores its true height, and nowhere do the heights of two subtrees differ by more than one. -/
theorem isBalanced_iff (tree : SymbolTree) :
    tree.isBalanced ↔ (tree.toList.map Symbol.name).Pairwise (· < ·) ∧ tree.Balanced := by
  rw [isBalanced, Option.isSome_iff_exists, pairwise_map]
  constructor
  · rintro ⟨height, hcheck⟩
    obtain ⟨⟨-, hordered⟩, hbalanced, -⟩ := check_eq_some_iff.1 hcheck
    exact ⟨hordered, hbalanced⟩
  · rintro ⟨hordered, hbalanced⟩
    exact ⟨tree.depth, check_eq_some_iff.2 ⟨⟨fun s _ => by simp, hordered⟩, hbalanced, rfl⟩⟩

end SymbolTree

/-! ### Edits -/

/-- An insertion, or a change of what is found under a name. -/
inductive TableEdit where
  | insert (symbol : Symbol)
  | setTy (name : String) (ty : Ty)
  | setDefined (name : String) (defined : Bool)

namespace TableEdit

/-- What an edit does to the symbol of a name that is in the table. -/
def change (name : String) (edit : TableEdit) (symbol : Symbol) : Symbol :=
  match edit with
  | .insert _ => symbol
  | .setTy target ty => if target = name then symbol.withTy ty else symbol
  | .setDefined target defined => if target = name then symbol.withDefined defined else symbol

/-- The symbol that has first been inserted under a name, with all later changes to the name. -/
def symbolOf (name : String) : List TableEdit → Option Symbol
  | [] => none
  | .insert symbol :: later =>
      if symbol.name = name then some (later.foldl (fun symbol edit => edit.change name symbol) symbol)
      else symbolOf name later
  | _ :: later => symbolOf name later

/-- The symbol that an edit brings for a name that is not in the table. -/
def brings (name : String) : TableEdit → Option Symbol
  | .insert symbol => if symbol.name = name then some symbol else none
  | _ => none

theorem symbolOf_concat (name : String) (edits : List TableEdit) (edit : TableEdit) :
    symbolOf name (edits ++ [edit]) = match symbolOf name edits with
      | some symbol => some (edit.change name symbol)
      | none => edit.brings name := by
  induction edits with
  | nil =>
    cases edit with
    | insert symbol => rfl
    | setTy target ty => rfl
    | setDefined target defined => rfl
  | cons first edits ih =>
    cases first with
    | insert symbol =>
      simp only [cons_append, symbolOf, ih]
      by_cases hname : symbol.name = name
      · simp only [if_pos hname, foldl_append, foldl_cons, foldl_nil]
      · simp only [if_neg hname]
    | setTy target ty => exact ih
    | setDefined target defined => exact ih

theorem symbolOf_isSome_iff (name : String) (edits : List TableEdit) :
    (symbolOf name edits).isSome ↔ ∃ symbol, .insert symbol ∈ edits ∧ symbol.name = name := by
  induction edits with
  | nil => simp [symbolOf]
  | cons edit edits ih =>
    cases edit with
    | insert symbol =>
      simp only [symbolOf, mem_cons, insert.injEq]
      by_cases hname : symbol.name = name
      · simp [hname]
      · simp only [if_neg hname, ih]
        constructor
        · rintro ⟨found, hmem, hfound⟩
          exact ⟨found, .inr hmem, hfound⟩
        · rintro ⟨found, rfl | hmem, hfound⟩
          · exact absurd hfound hname
          · exact ⟨found, hmem, hfound⟩
    | setTy target ty => simpa [symbolOf] using ih
    | setDefined target defined => simpa [symbolOf] using ih

end TableEdit

namespace SymbolTable

variable {table : SymbolTable} {symbol : Symbol}

/-- A table after an edit.  An insertion that fails leaves the table as it is. -/
def edit (table : SymbolTable) : TableEdit → SymbolTable
  | .insert symbol =>
      match table.insert symbol with
      | .ok grown => grown
      | .error _ => table
  | .setTy name ty => table.modify name (·.withTy ty)
  | .setDefined name defined => table.modify name (·.withDefined defined)

/-- A table after some edits of the empty one. -/
def edited (edits : List TableEdit) : SymbolTable := edits.foldl edit {}

theorem edited_concat (edits : List TableEdit) (last : TableEdit) :
    edited (edits ++ [last]) = (edited edits).edit last := by
  rw [edited, edited, foldl_append, foldl_cons, foldl_nil]

/-! ### What every edit keeps -/

/-- The tree can be searched and is balanced, and its symbols are counted. -/
structure Sound (table : SymbolTable) : Prop where
  ordered : table.Ordered
  balanced : table.tree.Balanced
  size : table.size = table.toList.length

theorem sound_empty : ({} : SymbolTable).Sound := ⟨ordered_empty, trivial, rfl⟩

theorem insert_of_none (h : table.get? symbol.name = none) :
    table.insert symbol = .ok { tree := table.tree.insert symbol, size := table.size + 1 } := by
  unfold insert
  rw [h]

theorem insert_of_some {earlier : Symbol} (h : table.get? symbol.name = some earlier) :
    table.insert symbol = .error ⟨.symbolRedefined earlier.kind.text symbol.name, symbol.location⟩ := by
  unfold insert
  rw [h]

theorem Sound.insert {grown : SymbolTable} (h : table.Sound) (hinsert : table.insert symbol = .ok grown) :
    grown.Sound := by
  have hnone := get?_of_insert hinsert
  have hnew : ∀ s ∈ table.toList, s.name ≠ symbol.name := by
    intro s hs hname
    have hget : table.get? symbol.name = some s := (get?_eq_some_iff h.ordered).2 ⟨hs, hname⟩
    cases hnone.symm.trans hget
  have hordered := (names_insert h.ordered hinsert).1
  rw [insert_of_none hnone] at hinsert
  cases hinsert
  refine ⟨hordered, (h.balanced.insert hnew).balanced, ?_⟩
  rw [toList, SymbolTree.length_toList_insert, h.size]
  rfl

theorem Sound.modify (h : table.Sound) (name : String) {change : Symbol → Symbol}
    (hname : ∀ s, (change s).name = s.name) : (table.modify name change).Sound := by
  refine ⟨h.ordered.modify name hname, h.balanced.modify name change, ?_⟩
  rw [toList, SymbolTable.modify, SymbolTree.length_toList_modify, h.size]
  rfl

theorem Sound.edit (h : table.Sound) (edit : TableEdit) : (table.edit edit).Sound := by
  cases edit with
  | insert symbol =>
    rw [SymbolTable.edit]
    split
    · rename_i grown hinsert
      exact h.insert hinsert
    · exact h
  | setTy name ty => exact h.modify name (Symbol.name_withTy ty)
  | setDefined name defined => exact h.modify name (Symbol.name_withDefined defined)

theorem Sound.get?_edit (h : table.Sound) (edit : TableEdit) (name : String) : (table.edit edit).get? name =
      match table.get? name with
      | some symbol => some (edit.change name symbol)
      | none => edit.brings name := by
  cases edit with
  | insert symbol =>
    cases hfound : table.get? symbol.name with
    | some earlier =>
      simp only [SymbolTable.edit, insert_of_some hfound, TableEdit.change, TableEdit.brings]
      cases hget : table.get? name with
      | some found => rfl
      | none =>
        have hname : symbol.name ≠ name := by
          rintro rfl
          cases hfound.symm.trans hget
        simp [hname]
    | none =>
      have hinsert := insert_of_none hfound
      simp only [SymbolTable.edit, hinsert, get?_insert h.ordered hinsert, TableEdit.change,
        TableEdit.brings, eq_comm (a := name)]
      split
      · rename_i hname
        subst hname
        rw [hfound]
      · cases table.get? name <;> rfl
  | setTy target ty =>
    simp only [SymbolTable.edit, get?_modify _ _ (Symbol.name_withTy ty), TableEdit.change,
      TableEdit.brings, eq_comm (a := name)]
    split <;> cases table.get? name <;> rfl
  | setDefined target defined =>
    simp only [SymbolTable.edit, get?_modify _ _ (Symbol.name_withDefined defined), TableEdit.change,
      TableEdit.brings, eq_comm (a := name)]
    split <;> cases table.get? name <;> rfl

theorem edited_sound (edits : List TableEdit) : (edited edits).Sound := by
  induction edits using List.reverseRecOn with
  | nil => exact sound_empty
  | append_singleton edits edit ih =>
    rw [edited_concat]
    exact ih.edit edit

theorem get?_edited (edits : List TableEdit) (name : String) :
    (edited edits).get? name = TableEdit.symbolOf name edits := by
  induction edits using List.reverseRecOn with
  | nil => rfl
  | append_singleton edits edit ih =>
    rw [edited_concat, (edited_sound edits).get?_edit, TableEdit.symbolOf_concat, ih]

/-! ### Sorted maps -/

/-- A table is the balanced sorted map that some edits make. -/
structure Records (table : SymbolTable) (edits : List TableEdit) : Prop where
  /-- stored heights are right, and nowhere do the heights of two subtrees differ by more than one -/
  balanced : table.tree.Balanced
  height : table.tree.height = table.tree.depth
  /-- the names are in the strict order of their bytes -/
  sorted : table.toList.Pairwise fun a b => Text.bytes a.name < Text.bytes b.name
  /-- the symbols are those that have been inserted, with the changes since then -/
  listed : ∀ symbol, symbol ∈ table.toList ↔ TableEdit.symbolOf symbol.name edits = some symbol
  size : table.size = table.toList.length
  /-- the tree is not high -/
  size_ge : Nat.fib (table.tree.depth + 2) - 1 ≤ table.size
  found : ∀ name, table.get? name = TableEdit.symbolOf name edits
  /-- an insertion fails exactly if the name has been inserted before -/
  refuses : ∀ symbol, (∃ diagnostic, table.insert symbol = .error diagnostic) ↔
    ∃ earlier, TableEdit.insert earlier ∈ edits ∧ earlier.name = symbol.name
  /-- and then it changes nothing -/
  unchanged : ∀ symbol diagnostic, table.insert symbol = .error diagnostic →
    table.edit (.insert symbol) = table

/-- After any edits a table is the balanced sorted map that the edits make. -/
theorem edited_records (edits : List TableEdit) : (edited edits).Records edits := by
  have hsound := edited_sound edits
  have hfound := get?_edited edits
  refine ⟨hsound.balanced, hsound.balanced.height_eq, ?_, ?_, hsound.size, ?_, hfound, ?_, ?_⟩
  · exact List.Pairwise.imp Text.lt_iff_bytes_lt.1 hsound.ordered
  · intro symbol
    rw [← hfound, get?_eq_some_iff hsound.ordered]
    exact ⟨fun h => ⟨h, rfl⟩, fun h => h.1⟩
  · have hfib := hsound.balanced.fib_le
    have hsize : (edited edits).size = (edited edits).tree.toList.length := hsound.size
    omega
  · intro symbol
    rw [← TableEdit.symbolOf_isSome_iff, ← hfound]
    cases hget : (edited edits).get? symbol.name with
    | some earlier => simp [insert_of_some hget]
    | none => simp [insert_of_none hget]
  · intro symbol diagnostic hinsert
    rw [edit, hinsert]

end SymbolTable

end OnePass
