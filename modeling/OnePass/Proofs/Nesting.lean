import OnePass.Proofs.Composition

/-!
# Nested blocks and the tree of scopes

Conditionals, loops and functions are numbered in the order of their beginnings, so the scopes of a
piece of code are all numbers between two bounds.  Their nesting in the code is their nesting in the tree
of scopes.

Main results:

* `Elaborates.nests` — **statements span the scopes that they create**;
* `Nests.owned` — what is around the scope of a bracket;
* `Nests.marksOnce` — no bracket stands twice.
-/

namespace OnePass

open List

variable {outlines : Nat → Scope}

/-! ### Brackets -/

section kinds

variable {i : Instruction} {l m : List Instruction} {scope : Nat}

/-- Whether an instruction bounds a function. -/
def InstructionKind.isBound : InstructionKind → Bool
  | functionBegin | functionEnd => true
  | _ => false

/-- Code inside one body. -/
def Inner (code : List Instruction) : Prop := ∀ i ∈ code, i.kind.isBound = false

theorem InstructionKind.ne_of_isBound {kind : InstructionKind} (h : kind.isBound = false) :
    kind ≠ .functionBegin ∧ kind ≠ .functionEnd := by
  constructor <;> rintro rfl <;> cases h

theorem Inner.singleton (hi : i.kind.isBound = false) : Inner [i] :=
  forall_mem_singleton.2 hi

theorem Inner.append (hl : Inner l) (hm : Inner m) : Inner (l ++ m) :=
  fun i hi => (mem_append.1 hi).elim (hl i) (hm i)

theorem Inner.cons (hi : i.kind.isBound = false) (hl : Inner l) :
    Inner (i :: l) := forall_mem_cons.2 ⟨hi, hl⟩

theorem Instruction.Marks.inner {kind : InstructionKind} (h : i.Marks kind scope)
    (hkind : kind.isBound = false) : i.kind.isBound = false :=
  h.1 ▸ hkind

theorem Instruction.Tests.kinds (h : i.Tests scope) : i.kind ≠ .whileLabel ∧ i.kind.isBound = false := by
  rcases h with h | h <;> rw [h.1] <;> decide

end kinds

/-- Whether an instruction belongs to a conditional, to a loop or to the bounds of a function. -/
def InstructionKind.isBracket (kind : InstructionKind) : Bool := kind.isMark || kind.isBound

/-- The kind of scope that a bracket belongs to. -/
def InstructionKind.owner? : InstructionKind → Option ScopeKind
  | ifCondition | ifLetCondition | elseMark | endIf => some .thenBranch
  | whileLabel | whileCondition | endWhile => some .whileBody
  | functionBegin | functionEnd => some .functionHeader
  | _ => none

/-- The place of a bracket among those of its scope. -/
def InstructionKind.rank : InstructionKind → Nat
  | ifCondition | ifLetCondition | whileLabel | functionBegin => 0
  | elseMark | whileCondition => 1
  | _ => 2

theorem InstructionKind.isBracket_of_owner? {kind : InstructionKind} {scope : ScopeKind}
    (h : kind.owner? = some scope) : kind.isBracket := by
  cases kind <;> first | rfl | cases h

theorem Instruction.Marks.owner? {i : Instruction} {mark : InstructionKind} {kind : ScopeKind} {scope : Nat}
    (h : i.Marks mark scope) (hkind : mark.owner? = some kind) :
    i.scope = scope ∧ i.kind.owner? = some kind := ⟨h.2, h.1 ▸ hkind⟩

theorem Instruction.Tests.owner? {i : Instruction} {scope : Nat} (h : i.Tests scope) :
    i.scope = scope ∧ i.kind.owner? = some .thenBranch :=
  h.elim (·.owner? rfl) (·.owner? rfl)

/-- Code without brackets. -/
def Bare (code : List Instruction) : Prop := ∀ i ∈ code, i.kind.isBracket = false

/-- Code without the bounds of functions. -/
def inner (code : List Instruction) : List Instruction := code.filter fun i => !i.kind.isBound

@[simp] theorem inner_nil : inner [] = [] := rfl

@[simp] theorem inner_append (l m : List Instruction) : inner (l ++ m) = inner l ++ inner m := filter_append ..

theorem inner_cons {i : Instruction} {l : List Instruction} (h : i.kind.isBound = false) :
    inner (i :: l) = i :: inner l := filter_cons_of_pos (by rw [h]; rfl)

theorem Inner.inner_eq {l : List Instruction} (h : Inner l) : inner l = l :=
  filter_eq_self.2 fun i hi => by rw [h i hi]; rfl

theorem Straight.bare {code : List Instruction} (h : Straight code) : Bare (inner code) := by
  intro i hi
  obtain ⟨hmem, hbound⟩ := mem_filter.1 hi
  rw [InstructionKind.isBracket, h i hmem, Bool.eq_false_of_not_eq_true' hbound]
  rfl

/-! ### Scopes around a scope -/

/-- The scopes around a scope. -/
def around (outlines : Nat → Scope) (id : Nat) : List Nat :=
  ancestorsBy (fun id => (outlines id).parent) id

/-- A scope of some kind directly below another one. -/
def Child (outlines : Nat → Scope) (above id : Nat) (kind : ScopeKind) : Prop :=
  (outlines id).kind = kind ∧ (outlines id).parent = some above

/-- Around a scope is what is around another one, and scopes from some number on. -/
def Under (outlines : Nat → Scope) (low above id : Nat) : Prop :=
  ∃ new, around outlines id = new ++ around outlines above ∧ ∀ B ∈ new, low ≤ B

theorem Under.refl (low id : Nat) : Under outlines low id id := ⟨[], rfl, forall_mem_nil _⟩

theorem Under.trans {low low' above middle id : Nat} (h : Under outlines low above middle)
    (h' : Under outlines low' middle id) (hle : low ≤ low') : Under outlines low above id := by
  obtain ⟨new, heq, hnew⟩ := h
  obtain ⟨new', heq', hnew'⟩ := h'
  refine ⟨new' ++ new, by rw [heq', heq, append_assoc], forall_mem_append.2 ⟨fun B hB => ?_, hnew⟩⟩
  exact Nat.le_trans hle (hnew' B hB)

/-- The scopes of a piece of code are those from one number up to another one, below a scope. -/
structure Span where
  above : Nat
  low : Nat
  high : Nat

/-- The brackets of a block: its first one, maybe one between two pieces of code, and its last one.
The scopes of the two pieces are among those of the block. -/
inductive Brackets (outlines : Nat → Scope) :
    Span → Instruction → List Instruction → Instruction → Span → Span → Prop where
  | ifThen {above low high : Nat} {test els fin : Instruction}
      (hscope : Child outlines above low .thenBranch) (hnone : (outlines low).otherwise = none)
      (htest : test.Tests low) (hels : els.Marks .elseMark low) (hfin : fin.Marks .endIf low) :
      Brackets outlines ⟨above, low, high⟩ test [els] fin ⟨low, low + 1, high⟩ ⟨low, high, high⟩
  | ifElse {above low middle high : Nat} {test els fin : Instruction}
      (hscope : Child outlines above low .thenBranch)
      (hsome : (outlines low).otherwise = some middle)
      (hscope' : Child outlines above middle .elseBranch) (htest : test.Tests low)
      (hels : els.Marks .elseMark low) (hfin : fin.Marks .endIf low) :
      Brackets outlines ⟨above, low, high⟩ test [els] fin ⟨low, low + 1, middle⟩
        ⟨middle, middle + 1, high⟩
  | loop {above low high : Nat} {label test fin : Instruction}
      (hscope : Child outlines above low .whileBody) (hlabel : label.Marks .whileLabel low)
      (htest : test.Marks .whileCondition low) (hfin : fin.Marks .endWhile low) :
      Brackets outlines ⟨above, low, high⟩ label [test] fin ⟨low, low + 1, low + 1⟩ ⟨low, low + 1, high⟩
  | function {low high : Nat} {entry fin : Instruction}
      (hscope : Child outlines ScopeTree.root low .functionHeader)
      (hscope' : Child outlines low (low + 1) .functionBody)
      (hentry : entry.Marks .functionBegin low) (hfin : fin.Marks .functionEnd low) :
      Brackets outlines ⟨ScopeTree.root, low, high⟩ entry [] fin ⟨low + 1, low + 2, high⟩
        ⟨low + 1, high, high⟩

/-- The blocks of code are the scopes of a span, nested as in the tree. -/
inductive Nests (outlines : Nat → Scope) : Span → List Instruction → Prop where
  | bare {above low : Nat} {code : List Instruction} (hcode : Bare code) :
      Nests outlines ⟨above, low, low⟩ code
  | append {above low middle high : Nat} {l m : List Instruction}
      (hfirst : Nests outlines ⟨above, low, middle⟩ l)
      (hsecond : Nests outlines ⟨above, middle, high⟩ m) : Nests outlines ⟨above, low, high⟩ (l ++ m)
  | block {b p q : Span} {x z : Instruction} {l ys m : List Instruction}
      (h : Brackets outlines b x ys z p q) (hfirst : Nests outlines p l) (hsecond : Nests outlines q m) :
      Nests outlines b (x :: l ++ ys ++ m ++ [z])

/-- No bracket stands twice in the code. -/
def MarksOnce (code : List Instruction) : Prop :=
  code.Pairwise fun i j => i.kind.isBracket → j.kind.isBracket → i.scope = j.scope → i.kind.rank ≠ j.kind.rank

theorem MarksOnce.eq {code : List Instruction} {p q : Nat} {i j : Instruction} (h : MarksOnce code)
    (hi : code[p]? = some i) (hj : code[q]? = some j) (hbracket : i.kind.isBracket)
    (hbracket' : j.kind.isBracket) (hscope : i.scope = j.scope) (hrank : i.kind.rank = j.kind.rank) :
    p = q := by
  obtain ⟨hp, rfl⟩ := List.getElem?_eq_some_iff.1 hi
  obtain ⟨hq, rfl⟩ := List.getElem?_eq_some_iff.1 hj
  have hpairs := pairwise_iff_getElem.1 h
  rcases Nat.lt_trichotomy p q with hlt | heq | hlt
  · exact absurd hrank (hpairs p q hp hq hlt hbracket hbracket' hscope)
  · exact heq
  · exact absurd hrank.symm (hpairs q p hq hp hlt hbracket' hbracket hscope.symm)

section brackets

variable {b p q : Span} {x z : Instruction} {l ys m code : List Instruction}

theorem Brackets.bounds (h : Brackets outlines b x ys z p q) :
    b.low < p.low ∧ p.high ≤ q.low ∧ q.high = b.high := by
  cases h <;> simp

theorem Brackets.ranks (h : Brackets outlines b x ys z p q) :
    (x :: ys ++ [z]).Pairwise fun i j => i.kind.rank ≠ j.kind.rank := by
  cases h with
  | ifThen _ _ htest hels hfin | ifElse _ _ _ htest hels hfin =>
    rcases htest with htest | htest <;> simp [htest.1, hels.1, hfin.1, InstructionKind.rank]
  | loop _ hlabel htest hfin => simp [hlabel.1, htest.1, hfin.1, InstructionKind.rank]
  | function _ _ hentry hfin => simp [hentry.1, hfin.1, InstructionKind.rank]

theorem Brackets.marks (h : Brackets outlines b x ys z p q) : ∀ i ∈ x :: ys ++ [z],
    i.scope = b.low ∧ i.kind.owner? = some (outlines b.low).kind := by
  cases h with
  | ifThen hscope _ htest hels hfin | ifElse hscope _ _ htest hels hfin =>
    rw [hscope.1]
    exact forall_mem_cons.2 ⟨htest.owner?, forall_mem_cons.2 ⟨hels.owner? rfl,
      forall_mem_singleton.2 (hfin.owner? rfl)⟩⟩
  | loop hscope hlabel htest hfin =>
    rw [hscope.1]
    exact forall_mem_cons.2 ⟨hlabel.owner? rfl, forall_mem_cons.2 ⟨htest.owner? rfl,
      forall_mem_singleton.2 (hfin.owner? rfl)⟩⟩
  | function hscope _ hentry hfin =>
    rw [hscope.1]
    exact forall_mem_cons.2 ⟨hentry.owner? rfl, forall_mem_singleton.2 (hfin.owner? rfl)⟩

theorem Nests.le (h : Nests outlines b code) : b.low ≤ b.high := by
  induction h with
  | bare => exact Nat.le_refl _
  | append _ _ ih ih' => exact Nat.le_trans ih ih'
  | block h _ _ ih ih' =>
    obtain ⟨hlow, hmiddle, hhigh⟩ := h.bounds
    omega

theorem perm_block : x :: l ++ ys ++ m ++ [z] ~ x :: ys ++ [z] ++ (l ++ m) := by
  simp only [cons_append, append_assoc]
  refine .cons x ((perm_append_comm_assoc l ys _).trans (.append_left ys ?_))
  rw [← append_assoc]
  exact perm_append_comm

variable (hrooted : Rooted fun id => (outlines id).parent)

include hrooted

theorem Child.around {above id : Nat} {kind : ScopeKind} (h : Child outlines above id kind) :
    OnePass.around outlines id = id :: OnePass.around outlines above := ancestorsBy_of_some hrooted h.2

theorem Child.under {above id low : Nat} {kind : ScopeKind} (h : Child outlines above id kind)
    (hle : low ≤ id) : Under outlines low above id :=
  ⟨[id], h.around hrooted, forall_mem_singleton.2 hle⟩

theorem Brackets.under (h : Brackets outlines b x ys z p q) (hle : p.low ≤ p.high) :
    Under outlines b.low b.above b.low ∧ Under outlines b.low b.above p.above ∧
      Under outlines b.low b.above q.above := by
  cases h with
  | ifThen hscope | loop hscope =>
    have hunder := hscope.under hrooted (Nat.le_refl _)
    exact ⟨hunder, hunder, hunder⟩
  | ifElse hscope _ hscope' =>
    have hunder := hscope.under hrooted (Nat.le_refl _)
    exact ⟨hunder, hunder, hscope'.under hrooted (Nat.le_of_succ_le hle)⟩
  | function hscope hscope' =>
    have hunder := hscope.under hrooted (Nat.le_refl _)
    have hbody := hunder.trans (hscope'.under hrooted (Nat.le_succ _)) (Nat.le_refl _)
    exact ⟨hunder, hbody, hbody⟩

/-- The brackets of a piece of code belong to scopes of its own, and what is around them is of its own,
too, or around the piece. -/
structure Nests.Owned (outlines : Nat → Scope) (b : Span) (i : Instruction) : Prop where
  kind : i.kind.owner? = some (outlines i.scope).kind
  bounds : b.low ≤ i.scope ∧ i.scope < b.high
  under : Under outlines b.low b.above i.scope

omit hrooted in
theorem Nests.Owned.widen {i : Instruction} (h : Owned outlines p i) (hlow : b.low ≤ p.low)
    (hhigh : p.high ≤ b.high) (hunder : Under outlines b.low b.above p.above) : Owned outlines b i where
  kind := h.kind
  bounds := ⟨Nat.le_trans hlow h.bounds.1, Nat.lt_of_lt_of_le h.bounds.2 hhigh⟩
  under := hunder.trans h.under hlow

omit hrooted in
theorem Nests.Owned.mem_around {i : Instruction} (h : Owned outlines b i) :
    b.above ∈ OnePass.around outlines i.scope := by
  obtain ⟨new, heq, -⟩ := h.under
  rw [heq]
  exact mem_append_right _ (mem_ancestorsBy_self _)

theorem Nests.owned (h : Nests outlines b code) :
    ∀ i ∈ code, i.kind.isBracket → Owned outlines b i := by
  induction h with
  | bare hcode =>
    intro i hi hbracket
    cases (hcode i hi).symm.trans hbracket
  | append hfirst hsecond ih ih' =>
    exact forall_mem_append.2
      ⟨fun i hi hbracket => (ih i hi hbracket).widen (Nat.le_refl _) hsecond.le (.refl _ _),
        fun i hi hbracket => (ih' i hi hbracket).widen hfirst.le (Nat.le_refl _) (.refl _ _)⟩
  | block h hfirst hsecond ih ih' =>
    obtain ⟨hlow, hmiddle, hhigh⟩ := h.bounds
    have hle := hfirst.le
    have hle' := hsecond.le
    obtain ⟨hown, hunder, hunder'⟩ := h.under hrooted hle
    intro i hi hbracket
    rcases mem_append.1 (perm_block.mem_iff.1 hi) with hi | hi
    · obtain ⟨hscope, hkind⟩ := h.marks i hi
      exact ⟨hscope ▸ hkind, by omega, hscope ▸ hown⟩
    · rcases mem_append.1 hi with hi | hi
      · exact (ih i hi hbracket).widen hlow.le (by omega) hunder
      · exact (ih' i hi hbracket).widen (by omega) hhigh.le hunder'

theorem Nests.bare_of_le (h : Nests outlines b code) (hle : b.high ≤ b.low) : Bare code := by
  intro i hi
  by_contra hbracket
  have hbounds := (h.owned hrooted i hi (Bool.eq_true_of_not_eq_false hbracket)).bounds
  omega

theorem Nests.marksOnce (h : Nests outlines b code) : MarksOnce code := by
  have happend : ∀ {p q : Span} {l m : List Instruction}, Nests outlines p l → Nests outlines q m →
      p.high ≤ q.low → ∀ i ∈ l, ∀ j ∈ m, i.kind.isBracket → j.kind.isBracket → i.scope = j.scope →
        i.kind.rank ≠ j.kind.rank := by
    intro p q l m hfirst hsecond hle i hi j hj hbracket hbracket' heq
    have hbound := (hfirst.owned hrooted i hi hbracket).bounds.2
    have hbound' := (hsecond.owned hrooted j hj hbracket').bounds.1
    omega
  induction h with
  | bare hcode =>
    refine pairwise_of_forall_mem_list fun i hi j _ hbracket => ?_
    cases (hcode i hi).symm.trans hbracket
  | append hfirst hsecond ih ih' =>
    exact pairwise_append.2 ⟨ih, ih', happend hfirst hsecond (Nat.le_refl _)⟩
  | @block b p q x z l ys m h hfirst hsecond ih ih' =>
    obtain ⟨hlow, hmiddle, hhigh⟩ := h.bounds
    refine (perm_block.pairwise_iff fun h hbracket hbracket' heq => (h hbracket' hbracket heq.symm).symm).2 ?_
    refine pairwise_append.2 ⟨h.ranks.imp fun hne _ _ _ => hne,
      pairwise_append.2 ⟨ih, ih', happend hfirst hsecond hmiddle⟩, fun i hi j hj _ hbracket heq => ?_⟩
    -- the scopes inside come after the scope of the block
    have hscope := (h.marks i hi).1
    have hle := hfirst.le
    rcases mem_append.1 hj with hj | hj
    · have hbound := (hfirst.owned hrooted j hj hbracket).bounds.1
      omega
    · have hbound := (hsecond.owned hrooted j hj hbracket).bounds.1
      omega

theorem Nests.notMem_around (h : Nests outlines b code) {B : Nat} (habove : B ∉ OnePass.around outlines b.above)
    (hB : B < b.low ∨ b.high ≤ B) :
    ∀ i ∈ code, i.kind.isBracket → B ∉ OnePass.around outlines i.scope := by
  intro i hi hbracket hmem
  obtain ⟨-, hbounds, new, heq, hnew⟩ := h.owned hrooted i hi hbracket
  have hle : B ≤ i.scope := le_of_mem_ancestorsBy hrooted hmem
  rw [heq] at hmem
  rcases mem_append.1 hmem with hmem | hmem
  · have hlow := hnew B hmem
    omega
  · exact habove hmem

end brackets

/-! ### Statements -/

/-- What the nesting of scopes depends on. -/
def SameBlock (scope scope' : Scope) : Prop :=
  scope'.kind = scope.kind ∧ scope'.parent = scope.parent ∧ scope'.otherwise = scope.otherwise

theorem SameBlock.trans {s s' s'' : Scope} (h : SameBlock s s') (h' : SameBlock s' s'') : SameBlock s s'' :=
  ⟨h'.1.trans h.1, h'.2.1.trans h.2.1, h'.2.2.trans h.2.2⟩

namespace Draft

variable {d d₁ : Draft} {kind : ScopeKind} {code code' : List Instruction}

theorem Formed.otherwise (hd : d.Formed)
    (hd₁ : d₁.Formed) (h : (d.opened kind code).Keeps d₁) :
    (d₁.alternative d.size d.current code').Formed := by
  have hscope : d.size < d₁.size := h.size_le
  exact hd₁.alternative hscope (Nat.lt_trans hd.current_lt hscope) (Nat.ne_of_gt hd.current_lt)

theorem Keeps.sameBlock (h : d.Keeps d₁) {id : Nat} (hlt : id < d.size) :
    SameBlock (d.outlines id) (d₁.outlines id) := by
  by_cases hid : id = d.current
  · obtain ⟨_, _, _, heq⟩ := h.here
    rw [hid, heq]
    exact ⟨rfl, rfl, rfl⟩
  · rw [h.outlines id hlt hid]
    exact ⟨rfl, rfl, rfl⟩

theorem Keeps.child_opened (h : (d.opened kind code).Keeps d₁) (hd : d.Formed)
    (hlater : SameBlock (d₁.outlines d.size) (outlines d.size)) :
    Child outlines d.current d.size kind ∧ (outlines d.size).otherwise = none := by
  have hsame := (h.sameBlock (Nat.lt_succ_self d.size)).trans hlater
  rw [opened_new hd] at hsame
  exact ⟨⟨hsame.1, hsame.2.1⟩, hsame.2.2⟩

theorem Keeps.child_alternative {d₂ : Draft} (h : (d.opened kind code).Keeps d₁) (hd : d.Formed)
    (h' : (d₁.alternative d.size d.current code').Keeps d₂)
    (hlater : ∀ id, d.size ≤ id → id < d₂.size → SameBlock (d₂.outlines id) (outlines id)) :
    Child outlines d.current d.size kind ∧ (outlines d.size).otherwise = some d₁.size ∧
      Child outlines d.current d₁.size .elseBranch := by
  have hscope : d.size < d₁.size := h.size_le
  have hle : d₁.size + 1 ≤ d₂.size := h'.size_le
  have hne : d.size ≠ d.current := Nat.ne_of_gt hd.current_lt
  have hfirst := (h'.sameBlock (Nat.lt_succ_of_lt hscope)).trans (hlater _ (Nat.le_refl _) (by omega))
  have hsecond := (h'.sameBlock (Nat.lt_succ_self d₁.size)).trans (hlater _ hscope.le hle)
  rw [alternative_first hscope hne] at hfirst
  rw [alternative_new hscope (Nat.lt_trans hd.current_lt hscope)] at hsecond
  obtain ⟨⟨hkind, habove⟩, -⟩ := h.child_opened hd ⟨rfl, rfl, rfl⟩
  exact ⟨⟨hfirst.1.trans hkind, hfirst.2.1.trans habove⟩, hfirst.2.2, hsecond.1, hsecond.2.1⟩

end Draft

theorem Lays.straight_code {l : List Instruction} {deeds : List Deed} (h : Lays (.straight deeds) l) :
    Straight l := by
  cases h with
  | straight hcode => exact hcode

section lays

variable {S above high : Nat} {before : List Deed} {T U : Flow} {other : Option Nat} {l : List Instruction}

theorem Lays.nests_branch {p q : Span} (h : Lays (.branch S before T other U) l)
    (hblock : ∀ {test els fin : Instruction}, test.Tests S → els.Marks .elseMark S →
      fin.Marks .endIf S → Brackets outlines ⟨above, S, high⟩ test [els] fin p q)
    (hT : ∀ {l}, Lays T l → Nests outlines p (inner l))
    (hU : ∀ {l}, Lays U l → Nests outlines q (inner l)) : Nests outlines ⟨above, S, high⟩ (inner l) := by
  cases h with
  | branch hhead htest hbody hels hother hfin =>
    have hinside := Nests.block (hblock htest hels hfin) (hT hbody) (hU hother)
    simpa [inner_cons, htest.kinds.2, hels.inner rfl, hfin.inner rfl]
      using Nests.append (.bare hhead.bare) hinside

theorem Lays.nests_loop (h : Lays (.loop S before T) l) (hscope : Child outlines above S .whileBody)
    (hT : ∀ {l}, Lays T l → Nests outlines ⟨S, S + 1, high⟩ (inner l)) :
    Nests outlines ⟨above, S, high⟩ (inner l) := by
  cases h with
  | loop hlabel hhead htest hbody hfin =>
    simpa [inner_cons, hlabel.inner rfl, htest.inner rfl, hfin.inner rfl]
      using Nests.block (.loop hscope hlabel htest hfin) (.bare hhead.bare) (hT hbody)

end lays

theorem Elaborates.nests {d d' : Draft} {H l : List Instruction} {T : Flow} (h : Elaborates d H T d')
    (hd : d.Formed) (hlays : Lays T l)
    (hlater : ∀ id, d.size ≤ id → id < d'.size → SameBlock (d'.outlines id) (outlines id)) :
    Nests outlines ⟨d.current, d.size, d'.size⟩ (inner l) := by
  induction h generalizing l with
  | step hstep => exact hstep.size_eq ▸ .bare hlays.straight_code.bare
  | seq hfirst hsecond ih ih' =>
    obtain ⟨hd₁, hkeeps⟩ := hfirst.keeps hd
    obtain ⟨-, hkeeps'⟩ := hsecond.keeps hd₁
    cases hlays with
    | seq hlays hlays' =>
      rw [inner_append]
      refine .append (ih hd hlays fun id hle hlt => ?_)
        (hkeeps.current ▸ ih' hd₁ hlays' fun id hle => hlater id (Nat.le_trans hkeeps.size_le hle))
      exact (hkeeps'.sameBlock hlt).trans (hlater id hle (Nat.lt_of_lt_of_le hlt hkeeps'.size_le))
  | ifThen _ _ hbody _ _ ih =>
    obtain ⟨-, hkeeps⟩ := hbody.keeps hd.opened
    obtain ⟨hchild, hnone⟩ := hkeeps.child_opened hd (hlater _ (Nat.le_refl _) hkeeps.size_le)
    exact hlays.nests_branch (.ifThen hchild hnone)
      (fun hlays => ih hd.opened hlays fun id hle => hlater id (Nat.le_of_succ_le hle))
      fun hlays => .bare hlays.straight_code.bare
  | ifElse _ _ hbody _ hother _ ih ih' =>
    obtain ⟨hd₁, hkeeps⟩ := hbody.keeps hd.opened
    obtain ⟨-, hkeeps'⟩ := hother.keeps (hd.otherwise hd₁ hkeeps)
    obtain ⟨hchild, hsome, hchild'⟩ := hkeeps.child_alternative hd hkeeps' hlater
    have hle' : _ + 1 ≤ _ := hkeeps'.size_le
    refine hlays.nests_branch (.ifElse hchild hsome hchild')
      (fun hlays => ih hd.opened hlays fun id hle hlt => ?_)
      fun hlays => ih' (hd.otherwise hd₁ hkeeps) hlays fun id hle => hlater id ?_
    · -- the second block only changes the conditional itself and the scope around it
      have hle : _ + 1 ≤ id := hle
      have hcurrent := hd.current_lt
      have hold := hkeeps'.sameBlock (Nat.lt_succ_of_lt hlt)
      rw [Draft.alternative_of_ne (by omega) (by omega) (Nat.ne_of_lt hlt)] at hold
      exact hold.trans (hlater id (by omega) (Nat.lt_of_lt_of_le (Nat.lt_succ_of_lt hlt) hle'))
    · exact Nat.le_trans (Nat.le_of_succ_le hkeeps.size_le) (Nat.le_of_succ_le hle)
  | loop _ _ _ _ hbody _ ih =>
    obtain ⟨-, hkeeps⟩ := hbody.keeps hd.opened
    obtain ⟨hchild, -⟩ := hkeeps.child_opened hd (hlater _ (Nat.le_refl _) hkeeps.size_le)
    cases hlays with
    | seq hdefines hlays =>
      rw [inner_append]
      exact .append (.bare hdefines.straight_code.bare) (hlays.nests_loop hchild fun hlays =>
        ih hd.opened hlays fun id hle => hlater id (Nat.le_of_succ_le hle))
  | nested _ _ _ _ hbody _ ih =>
    obtain ⟨-, hkeeps⟩ := hbody.keeps hd.opened
    obtain ⟨hchild, -⟩ := hkeeps.child_opened hd (hlater _ (Nat.le_refl _) hkeeps.size_le)
    exact hlays.nests_loop hchild fun hlays =>
      ih hd.opened hlays fun id hle => hlater id (Nat.le_of_succ_le hle)

end OnePass
