import OnePass.Meaning.Context
import OnePass.Proofs.Growth

/-!
# Scope trees are trees

Scopes stand in one array and know their parents and children by number, while any scope may be made the
current one.  Whatever is done, parents and children fit together: the scopes form one tree below the global
scope, and everything that is looked up is found on the way from a scope to this root.

Main results:

* `ScopeTree.Built.linked` — every operation keeps the invariant;
* `ScopeTree.Built.grounded` — **the scopes form a tree, and lookups go along the way to its root**.
-/

namespace OnePass

/-- The first number on a way that has a property, if there is one. -/
def IsFirst (way : List Nat) (P : Nat → Prop) : Option Nat → Prop
  | some id => ∃ before after, way = before ++ id :: after ∧ P id ∧ ∀ other ∈ before, ¬ P other
  | none => ∀ id ∈ way, ¬ P id

theorem isFirst_find? (way : List Nat) (p : Nat → Bool) : IsFirst way (p · = true) (way.find? p) := by
  cases hfound : way.find? p with
  | none => simpa [IsFirst] using hfound
  | some id =>
    obtain ⟨hp, before, after, hway, hbefore⟩ := List.find?_eq_some_iff_append.1 hfound
    exact ⟨before, after, hway, hp, by simpa using hbefore⟩

namespace ScopeTree

/-- The trees that sequences of operations lead to.  Tables may be filled in any way meanwhile. -/
inductive Built : ScopeTree → Prop where
  | start : Built start
  | withBuiltins : Built withBuiltins
  | createChild {t : ScopeTree} {parent : Nat} (h : Built t) (hparent : parent < t.size)
      (kind : ScopeKind) (name : String) : Built (t.createChild parent kind name).1
  | enter {t : ScopeTree} (h : Built t) (kind : ScopeKind) (name : String) : Built (t.enter kind name).1
  | goTo {t : ScopeTree} {id : Nat} (h : Built t) (hid : id < t.size) : Built (t.goTo id)
  | leave {t t' : ScopeTree} (h : Built t) (hleave : t.leave = .ok t') : Built t'
  | nextConditionalName {t : ScopeTree} (h : Built t) (kind : ScopeKind) :
      Built (t.nextConditionalName kind).1
  | setTable {t : ScopeTree} (h : Built t) (id : Nat) (table : SymbolTable) : Built (t.setTable id table)

/-! ### The invariant -/

/-- Parents, children and frames fit together. -/
structure Linked (t : ScopeTree) : Prop where
  current_lt : t.current < t.size
  global : (t.scope root).kind = .global ∧ (t.scope root).parent = none
  parent : ∀ id < t.size, id ≠ root → ∃ above < id, (t.scope id).parent = some above
  sorted : ∀ id, (t.scope id).children.Pairwise (· < ·)
  children : ∀ above id, id ∈ (t.scope above).children ↔ id < t.size ∧ (t.scope id).parent = some above
  frame : ∀ id < t.size, (t.scope id).frame =
    (t.scope id).parent.elim .global fun above => t.frameOf above (t.scope id).kind

variable {t t' : ScopeTree}

theorem Linked.rooted (h : t.Linked) : Rooted fun id => (t.scope id).parent := by
  intro id above hparent
  by_cases hlt : id < t.size
  · by_cases hroot : id = root
    · subst hroot
      cases h.global.2.symm.trans hparent
    · obtain ⟨other, hother, heq⟩ := h.parent id hlt hroot
      cases hparent.symm.trans heq
      exact hother
  · simp only [scope_of_le (Nat.le_of_not_lt hlt)] at hparent
    cases hparent

theorem Linked.start : start.Linked := by
  have hscope : ∀ id, id ≠ 0 → ScopeTree.start.scope id = default := fun id hid =>
    scope_of_le (Nat.pos_of_ne_zero hid)
  refine ⟨by decide, ⟨rfl, rfl⟩, fun id hid hne => absurd (Nat.lt_one_iff.1 hid) hne, fun id => ?_,
    fun above id => ?_, fun id hid => ?_⟩
  · rcases Nat.eq_zero_or_pos id with rfl | hpos
    · exact .nil
    · rw [hscope id hpos.ne']
      exact .nil
  · refine iff_of_false (fun hmem => ?_) fun ⟨hid, hparent⟩ => ?_
    · rcases Nat.eq_zero_or_pos above with rfl | hpos
      · cases hmem
      · rw [hscope above hpos.ne'] at hmem
        cases hmem
    · rw [Nat.lt_one_iff.1 hid] at hparent
      cases hparent
  · rw [Nat.lt_one_iff.1 hid]
    rfl

theorem Linked.keep (h : t.Linked) (hsize : t'.size = t.size) (hcurrent : t'.current < t.size)
    (halike : ∀ id, (t.scope id).Alike (t'.scope id))
    (hchildren : ∀ id, (t'.scope id).children = (t.scope id).children) : t'.Linked where
  current_lt := hsize ▸ hcurrent
  global := ⟨(halike _).kind.trans h.global.1, (halike _).parent.trans h.global.2⟩
  parent id hid hne := by
    rw [(halike id).parent]
    exact h.parent id (hsize ▸ hid) hne
  sorted id := hchildren id ▸ h.sorted id
  children above id := by
    rw [hchildren, hsize, (halike id).parent]
    exact h.children above id
  frame id hid := by
    have hframe : ∀ above kind, t'.frameOf above kind = t.frameOf above kind := fun above kind => by
      unfold frameOf
      rw [(halike above).frame]
    simp only [(halike id).frame, (halike id).parent, (halike id).kind, hframe]
    exact h.frame id (hsize ▸ hid)

theorem Linked.modify (h : t.Linked) (id : Nat) {change : Scope → Scope}
    (hchange : ∀ s : Scope, s.Alike (change s)) (hchildren : ∀ s, (change s).children = s.children) :
    (t.modify id change).Linked := by
  refine h.keep (size_modify ..) h.current_lt (alike_modify hchange t id) fun other => ?_
  rw [scope_modify]
  split
  · rename_i hother
    rw [hchildren, hother.1]
  · rfl

theorem children_createChild {parent : Nat} (hparent : parent < t.size) (kind : ScopeKind) (name : String)
    (id : Nat) : ((t.createChild parent kind name).1.scope id).children =
      if id = parent then (t.scope id).children ++ [t.size] else (t.scope id).children := by
  have hpushed : ∀ scope : Scope, scope.children = [] →
      (({ t with scopes := t.scopes.push scope } : ScopeTree).scope id).children = (t.scope id).children := by
    intro scope hscope
    rw [scope_push]
    split
    · rename_i hid
      rw [hscope, hid, scope_of_le (Nat.le_refl _)]
      rfl
    · rfl
  simp only [createChild]
  rw [scope_modify]
  by_cases hid : id = parent
  · subst hid
    rw [if_pos ⟨rfl, by simpa [size] using Nat.lt_succ_of_lt hparent⟩, if_pos rfl]
    exact congrArg (· ++ [t.size]) (hpushed _ rfl)
  · rw [if_neg fun h => hid h.1, if_neg hid]
    exact hpushed _ rfl

theorem Linked.createChild (h : t.Linked) {parent : Nat} (hparent : parent < t.size) (kind : ScopeKind)
    (name : String) : (t.createChild parent kind name).1.Linked := by
  have halike := t.alike_createChild parent kind name
  have hnew := halike t.size
  rw [if_pos rfl] at hnew
  have hold : ∀ id, id ≠ t.size → (t.scope id).Alike ((t.createChild parent kind name).1.scope id) := by
    intro id hid
    have hkept := halike id
    rwa [if_neg hid] at hkept
  have hroot := hold root (Nat.ne_of_lt (Nat.zero_lt_of_lt hparent))
  have hframe : ∀ above < t.size, ∀ kind',
      (t.createChild parent kind name).1.frameOf above kind' = t.frameOf above kind' := fun above habove kind' => by
    unfold frameOf
    rw [(hold above (Nat.ne_of_lt habove)).frame]
  refine ⟨?_, ⟨hroot.kind.trans h.global.1, hroot.parent.trans h.global.2⟩, fun id hid hne => ?_, fun id => ?_,
    fun above id => ?_, fun id hid => ?_⟩
  · rw [size_createChild]
    exact Nat.lt_succ_of_lt h.current_lt
  · rw [size_createChild] at hid
    rcases Nat.lt_succ_iff_lt_or_eq.1 hid with hlt | rfl
    · rw [(hold id (Nat.ne_of_lt hlt)).parent]
      exact h.parent id hlt hne
    · exact ⟨parent, hparent, hnew.parent⟩
  · rw [children_createChild hparent]
    split
    · refine List.pairwise_append.2 ⟨h.sorted id, List.pairwise_singleton .., fun child hchild last hlast => ?_⟩
      rw [List.mem_singleton.1 hlast]
      exact ((h.children id child).1 hchild).1
    · exact h.sorted id
  · rw [children_createChild hparent, size_createChild]
    by_cases hid : id = t.size
    · subst hid
      rw [hnew.parent]
      have hnot : t.size ∉ (t.scope above).children := fun hmem =>
        Nat.lt_irrefl _ ((h.children above _).1 hmem).1
      by_cases habove : above = parent
      · simp [habove]
      · simp [habove, hnot, Ne.symm habove]
    · rw [(hold id hid).parent, Nat.lt_succ_iff_lt_or_eq, or_iff_left hid, ← h.children above id]
      split
      · simp [hid]
      · rfl
  · rw [size_createChild] at hid
    rcases Nat.lt_succ_iff_lt_or_eq.1 hid with hlt | rfl
    · have hkept := hold id (Nat.ne_of_lt hlt)
      rw [hkept.frame, hkept.parent, hkept.kind, h.frame id hlt]
      cases habove : (t.scope id).parent with
      | none => rfl
      | some above => exact (hframe above (Nat.lt_trans (h.rooted id above habove) hlt) _).symm
    · rw [hnew.frame, hnew.parent, hnew.kind]
      exact (hframe parent hparent kind).symm

theorem Linked.goTo (h : t.Linked) {id : Nat} (hid : id < t.size) : (t.goTo id).Linked :=
  h.keep rfl hid (fun _ => .refl _) fun _ => rfl

theorem Linked.setTable (h : t.Linked) (id : Nat) (table : SymbolTable) : (t.setTable id table).Linked :=
  h.modify id (fun _ => ⟨rfl, rfl, rfl, rfl⟩) fun _ => rfl

theorem Linked.register (h : t.Linked) (builtins : List Builtin) : (register builtins t).2.Linked := by
  induction builtins generalizing t with
  | nil => exact h
  | cons builtin later ih =>
    rw [ScopeTree.register]
    split
    · rename_i table _
      have htable := h.setTable root table
      have hroot := Nat.zero_lt_of_lt htable.current_lt
      exact ih ((htable.createChild hroot .functionHeader builtin.name).modify _
        (fun _ => ⟨rfl, rfl, rfl, rfl⟩) fun _ => rfl)
    · exact h

theorem Linked.leave_eq (h : t.Linked) :
    (t.current = root ∧ t.leave = .error { fault := .leavingGlobalScope }) ∨
      ∃ above, above < t.current ∧ (t.scope t.current).parent = some above ∧
        t.leave = .ok (t.goTo above) := by
  unfold leave
  by_cases hroot : t.current = root
  · rw [hroot, h.global.2]
    exact .inl ⟨rfl, rfl⟩
  · obtain ⟨above, hlt, hparent⟩ := h.parent _ h.current_lt hroot
    rw [hparent]
    exact .inr ⟨above, hlt, rfl, rfl⟩

theorem Built.linked (h : t.Built) : t.Linked := by
  induction h with
  | start => exact .start
  | withBuiltins => exact Linked.start.register Builtin.all
  | createChild _ hparent kind name ih => exact ih.createChild hparent kind name
  | enter _ kind name ih =>
    refine (ih.createChild ih.current_lt kind name).goTo ?_
    rw [size_createChild]
    exact Nat.lt_succ_self _
  | goTo _ hid ih => exact ih.goTo hid
  | leave _ hleave ih =>
    rcases ih.leave_eq with ⟨-, hfails⟩ | ⟨above, hlt, -, hleaves⟩
    · cases hfails.symm.trans hleave
    · cases hleaves.symm.trans hleave
      exact ih.goTo (Nat.lt_trans hlt ih.current_lt)
  | nextConditionalName _ kind ih => exact ih.modify _ (fun _ => ⟨rfl, rfl, rfl, rfl⟩) fun _ => rfl
  | setTable _ id table ih => exact ih.setTable id table

/-! ### Ways to the root -/

theorem Linked.ancestors_eq (h : t.Linked) (id : Nat) :
    t.ancestors id = id :: (t.scope id).parent.elim [] t.ancestors := by
  rw [ScopeTree.ancestors_eq]
  cases hparent : (t.scope id).parent with
  | none => exact ancestorsBy_of_none hparent
  | some above =>
    rw [Option.elim_some, ScopeTree.ancestors_eq]
    exact ancestorsBy_of_some h.rooted hparent

/-- What holds of the root and passes from each scope to its children holds of all scopes. -/
theorem Linked.induction (h : t.Linked) {P : Nat → Prop} (hroot : P root)
    (hstep : ∀ id above, id < t.size → (t.scope id).parent = some above → P above → P id) :
    ∀ id < t.size, P id := by
  intro id
  induction id using Nat.strong_induction_on with
  | _ id ih =>
    intro hid
    by_cases hne : id = root
    · exact hne ▸ hroot
    · obtain ⟨above, hlt, hparent⟩ := h.parent id hid hne
      exact hstep id above hid hparent (ih above hlt (Nat.lt_trans hlt hid))

theorem Linked.ancestors_root (h : t.Linked) : t.ancestors root = [root] := by
  rw [h.ancestors_eq, h.global.2]
  rfl

theorem Linked.way (h : t.Linked) : ∀ id < t.size, (t.ancestors id).head? = some id ∧
    (t.ancestors id).IsChain (fun id above => (t.scope id).parent = some above) ∧
    (t.ancestors id).getLast? = some root := by
  refine h.induction ?_ fun id above hid hparent hway => ?_
  · rw [h.ancestors_root]
    exact ⟨rfl, .singleton _, rfl⟩
  · obtain ⟨-, hchain, hlast⟩ := hway
    rw [h.ancestors_eq id, hparent, Option.elim_some]
    refine ⟨rfl, ?_, ?_⟩
    · rw [h.ancestors_eq above] at hchain ⊢
      exact .cons_cons hparent hchain
    · rw [List.getLast?_cons, hlast]
      rfl

theorem Linked.frame_local_iff (h : t.Linked) : ∀ id < t.size, ((t.scope id).frame = .local ↔
    ∃ s ∈ t.ancestors id, (t.scope s).kind = .functionHeader ∨ (t.scope s).kind = .functionBody) := by
  refine h.induction ?_ fun id above hid hparent hway => ?_
  · have hframe := h.frame root (Nat.zero_lt_of_lt h.current_lt)
    rw [h.global.2] at hframe
    rw [h.ancestors_root, hframe]
    simp [h.global.1]
  · have hframe := h.frame id hid
    rw [hparent] at hframe
    rw [h.ancestors_eq id, hparent, Option.elim_some, List.exists_mem_cons_iff, ← hway, hframe]
    cases (t.scope id).kind <;> simp [frameOf]

theorem Linked.loops_eq (h : t.Linked) (id : Nat) : t.loops id =
    (if (t.scope id).kind = .whileBody then [id] else []) ++ (t.scope id).parent.elim [] t.loops := by
  rw [loops, h.ancestors_eq id, List.filter_cons]
  cases (t.scope id).parent <;> by_cases hkind : (t.scope id).kind = .whileBody <;> simp [hkind, loops]

theorem Linked.outermostWhile?_eq (h : t.Linked) (id : Nat) :
    t.outermostWhile? id = (t.enclosingWhile? id).bind fun loop =>
      ((t.scope loop).parent.bind t.outermostWhile?).or (some loop) := by
  induction id using Nat.strong_induction_on with
  | _ id ih =>
    rw [outermostWhile?, enclosingWhile?, h.loops_eq id]
    by_cases hkind : (t.scope id).kind = .whileBody
    · rw [if_pos hkind, List.singleton_append, List.getLast?_cons, List.head?_cons, Option.bind_some]
      cases (t.scope id).parent with
      | none => rfl
      | some above =>
        rw [Option.elim_some, Option.bind_some, outermostWhile?]
        cases (t.loops above).getLast? <;> rfl
    · rw [if_neg hkind, List.nil_append]
      cases hparent : (t.scope id).parent with
      | none => rfl
      | some above => exact ih above (h.rooted id above hparent)

/-! ### The whole tree -/

/-- The scopes form a tree, and what is looked up from a scope is found on its way to the root. -/
structure Grounded (t : ScopeTree) : Prop where
  parent : ∀ id < t.size, id ≠ root → ∃ above < id, (t.scope id).parent = some above
  /-- children are listed once, in the order of their numbers -/
  sorted : ∀ id, (t.scope id).children.Pairwise (· < ·)
  /-- every scope but the root is a child of its parent, and of no other scope -/
  child : ∀ above id, id ∈ (t.scope above).children ↔ id < t.size ∧ (t.scope id).parent = some above
  /-- the way from a scope follows the parents, downwards in their numbers, and ends at the root -/
  way : ∀ id < t.size, (t.ancestors id).head? = some id ∧
    (t.ancestors id).IsChain (fun id above => (t.scope id).parent = some above) ∧
    (t.ancestors id).Pairwise (· > ·) ∧ (t.ancestors id).getLast? = some root
  frame : ∀ id < t.size, ((t.scope id).frame = .local ↔
    ∃ s ∈ t.ancestors id, (t.scope s).kind = .functionHeader ∨ (t.scope s).kind = .functionBody)
  /-- only the root cannot be left, and trying so changes nothing -/
  leave : ∀ c : Context, c.scopes = t → if t.current = root then
      Meaning.leaveScope.run.run c = (.error { fault := .leavingGlobalScope }, c)
    else ∃ above, (t.scope t.current).parent = some above ∧ t.leave = .ok (t.goTo above)
  owner : ∀ id name, IsFirst (t.ancestors id) (fun s => (t.scope s).table.contains name) (t.owner? id name)
  lookup : ∀ id name, t.lookup? id name = (t.owner? id name).bind (t.symbol? · name) ∧
    ((t.lookup? id name).isSome ↔ (t.owner? id name).isSome)
  /-- a change of a symbol goes to the place where it is found -/
  change : ∀ id name (change : Symbol → Symbol), (∀ s, (change s).name = s.name) → ∀ other key,
    (t.modifyVisible id name change).symbol? other key =
      if t.owner? id name = some other ∧ key = name then (t.symbol? other key).map change
      else t.symbol? other key
  outermost : ∀ id,
    IsFirst (t.ancestors id).reverse (fun s => (t.scope s).kind = .whileBody) (t.outermostWhile? id) ∧
    t.outermostWhile? id = (t.enclosingWhile? id).bind fun loop =>
      ((t.scope loop).parent.bind t.outermostWhile?).or (some loop)
  function : ∀ id, IsFirst (t.ancestors id) (fun s => (t.scope s).kind = .functionHeader)
    (t.enclosingFunction id).toOption

/-- Every tree that is built by operations is a tree of scopes below the global one, in which lookups go
along the way to the root. -/
theorem Built.grounded (h : t.Built) : t.Grounded := by
  have hlinked := h.linked
  refine ⟨hlinked.parent, hlinked.sorted, hlinked.children, fun id hid => ?_, hlinked.frame_local_iff,
    fun c hc => ?_, fun id name => isFirst_find? .., fun id name => ?_,
    fun id name _ => symbol?_modifyVisible t id name, fun id => ⟨?_, hlinked.outermostWhile?_eq id⟩, fun id => ?_⟩
  · obtain ⟨hhead, hchain, hlast⟩ := hlinked.way id hid
    have hdown : (t.ancestors id).IsChain (· > ·) := hchain.imp fun id above => hlinked.rooted id above
    exact ⟨hhead, hchain, List.isChain_iff_pairwise.1 hdown, hlast⟩
  · subst hc
    rcases hlinked.leave_eq with ⟨hroot, hleave⟩ | ⟨above, hlt, hparent, hleave⟩
    · rw [if_pos hroot]
      show (Meaning.orFail c.scopes.leave >>= _ : Meaning Unit).run.run c = _
      rw [hleave]
      rfl
    · have hne : c.scopes.current ≠ root := Nat.ne_of_gt (Nat.zero_lt_of_lt hlt)
      rw [if_neg hne]
      exact ⟨above, hparent, hleave⟩
  · refine ⟨rfl, ?_⟩
    have howner := isFirst_find? (t.ancestors id) fun s => (t.scope s).table.contains name
    rw [lookup?]
    cases hfound : t.owner? id name with
    | none => rfl
    | some owner =>
      rw [← owner?, hfound] at howner
      obtain ⟨-, -, -, hcontains, -⟩ := howner
      exact iff_of_true hcontains rfl
  · have hlast := isFirst_find? (t.ancestors id).reverse fun s => (t.scope s).kind == .whileBody
    rw [outermostWhile?, loops, List.getLast?_filter]
    simpa using hlast
  · have hfirst := isFirst_find? (t.ancestors id) fun s => (t.scope s).kind == .functionHeader
    unfold enclosingFunction
    split <;> rename_i hfound <;> rw [hfound] at hfirst <;> simpa [Except.toOption] using hfirst

/-- The loops around the innermost scope of a nest are searched up to the outermost one. -/
theorem grounded_nested_loop :
    let t := (((start.enter .whileBody "w").1.enter .thenBranch "i").1.enter .whileBody "v").1
    t.Built ∧ t.Grounded ∧ t.ancestors 3 = [3, 2, 1, 0] ∧ t.outermostWhile? 3 = some 1 := by
  have hbuilt := ((Built.start.enter .whileBody "w").enter .thenBranch "i").enter .whileBody "v"
  exact ⟨hbuilt, Built.grounded hbuilt, by decide +kernel, by decide +kernel⟩

end ScopeTree

end OnePass
