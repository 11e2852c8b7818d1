import OnePass.Proofs.Parsing.Expression
import OnePass.Proofs.Parsing.Lockstep

/-!
# The precedence grammar

Reading an expression with a stack and a table of precedences is compared with a grammar.  The table only
looks at two terminals at a time, so the comparison is made between numbers: what a terminal on the stack
lets come, and what a terminal lets stand before it, are the operands of some level of the grammar and of all
tighter levels.

Main results:

* `Parse.carries_of_derives` — what is derived from a level is read where the stack asks for no more;
* `Parse.derives_of_verdict` — **whatever is read to its end is derived**;
* `Parse.follows_expressionFrom` — a run follows the verdict;
* `Parse.expression_exact` — **exactly the expressions of the grammar are read**, and they are reported as
  their only tree.
-/

namespace OnePass

open List

/-- The terminal of a token. -/
def Token.terminal (token : Token) : Terminal := Terminal.ofKind token.kind

/-! ### The grammar -/

section grammar

variable {n m : Nat} {v w : List Token} {t before after : Token} {e l r : Phrase.Expr} {op : Operator}

/-- The tokens `w` are derived from a nonterminal as the expression `e`. The nonterminals are numbered:

* 1 — `Coal := Cmp | Cmp '??' Coal`;
* 2 — `Cmp := Add | Cmp comparison Add`;
* 3 — `Add := Mul | Add ('+' | '-') Mul`;
* 4 — `Mul := Post | Mul ('*' | '/') Post`;
* 5 — `Post := operand | '(' Coal ')' | Post '!'`. -/
inductive Derives : Nat → List Token → Phrase.Expr → Prop where
  | coalesce {v w : List Token} {t : Token} {l r : Phrase.Expr} (hl : Derives 2 v l)
      (ht : t.terminal = .operator .coalesce) (hr : Derives 1 w r) :
      Derives 1 (v ++ t :: w) (.binary .coalesce t.location l r)
  | comparison {v w : List Token} {t : Token} {l r : Phrase.Expr} {op : Operator}
      (hop : op ∈ [.less, .greater, .lessEqual, .greaterEqual, .notEqual, .equal]) (hl : Derives 2 v l)
      (ht : t.terminal = .operator op) (hr : Derives 3 w r) :
      Derives 2 (v ++ t :: w) (.binary op t.location l r)
  | sum {v w : List Token} {t : Token} {l r : Phrase.Expr} {op : Operator} (hop : op ∈ [.add, .subtract])
      (hl : Derives 3 v l) (ht : t.terminal = .operator op) (hr : Derives 4 w r) :
      Derives 3 (v ++ t :: w) (.binary op t.location l r)
  | product {v w : List Token} {t : Token} {l r : Phrase.Expr} {op : Operator}
      (hop : op ∈ [.multiply, .divide]) (hl : Derives 4 v l) (ht : t.terminal = .operator op)
      (hr : Derives 5 w r) : Derives 4 (v ++ t :: w) (.binary op t.location l r)
  | operand {t : Token} (ht : t.terminal = .operand) : Derives 5 [t] (.operand t)
  | parenthesized {w : List Token} {e : Phrase.Expr} {before after : Token}
      (hbefore : before.terminal = .leftParen) (h : Derives 1 w e) (hafter : after.terminal = .rightParen) :
      Derives 5 (before :: (w ++ [after])) e
  | unwrap {w : List Token} {e : Phrase.Expr} {t : Token} (h : Derives 5 w e) (ht : t.terminal = .unwrap) :
      Derives 5 (w ++ [t]) (.unwrap t.location e)
  /-- a tighter nonterminal instead of the next looser one -/
  | tighter {n : Nat} {w : List Token} {e : Phrase.Expr} (hn : 1 ≤ n ∧ n ≤ 4) (h : Derives (n + 1) w e) :
      Derives n w e

/-- The tokens that an expression can extend over: the longest beginning without a token that is no terminal,
and without an operand or an opening parenthesis on a new line where an operand is complete. -/
def stretch (complete : Bool) : List Token → List Token
  | [] => []
  | t :: later =>
      if t.terminal = .stop ∨ (t.afterBreak ∧ t.terminal.startsOperand ∧ complete) then []
      else t :: stretch t.terminal.endsOperand later

namespace Operator

/-- The level of a left operand. -/
def left (op : Operator) : Nat := if op = .coalesce then 2 else op.strength

/-- The level of a right operand. -/
def right (op : Operator) : Nat := if op = .coalesce then 1 else op.strength + 1

theorem strength_bounds (op : Operator) :
    1 ≤ op.strength ∧ op.strength ≤ op.left ∧ op.strength ≤ op.right ∧ op.left ≤ 4 ∧ op.right ≤ 5 := by
  cases op <;> decide

theorem strength_eq_one : op.strength = 1 ↔ op = .coalesce := by
  cases op <;> decide

end Operator

namespace Derives

theorem bounds (h : Derives n w e) : 1 ≤ n ∧ n ≤ 5 := by
  cases h with
  | tighter hn => omega
  | _ => decide

theorem mono (h : Derives m w e) (hn : 1 ≤ n) (hm : n ≤ m) : Derives n w e := by
  obtain ⟨d, rfl⟩ := Nat.exists_eq_add_of_le hm
  induction d with
  | zero => exact h
  | succ d ih =>
    have hbound := h.bounds.2
    exact ih (.tighter (by omega) h) (Nat.le_add_right _ _)

theorem binary (hl : Derives op.left v l) (ht : t.terminal = .operator op) (hr : Derives op.right w r) :
    Derives op.strength (v ++ t :: w) (.binary op t.location l r) := by
  cases op with
  | multiply | divide => exact .product (by decide) hl ht hr
  | add | subtract => exact .sum (by decide) hl ht hr
  | coalesce => exact .coalesce hl ht hr
  | less | greater | lessEqual | greaterEqual | notEqual | equal => exact .comparison (by decide) hl ht hr

end Derives

end grammar

/-! ### The levels that terminals and stacks ask for -/

/-- The level of an operand that can stand before a terminal; none can stand before the start of another. -/
def Terminal.need : Terminal → Nat
  | .operator op => op.left
  | .unwrap => 5
  | .rightParen | .stop => 1
  | .operand | .leftParen => 6

/-- The level of an operand that can come on top of a stack; none can come after a complete one. -/
def Parse.floor : List Pending → Nat
  | [] | .opened :: _ => 1
  | .binary _ op _ :: _ => op.right
  | _ => 6

theorem Terminal.operator_reduce_iff {op : Operator} {next : Terminal} :
    (Terminal.operator op).relation next = .reduce ↔ next.need ≤ op.strength := by
  have hbounds := op.strength_bounds
  have hone := op.strength_eq_one
  cases next with
  | operator other =>
    have hother := other.strength_eq_one
    simp only [relation, between, need, Operator.left]
    split <;> split <;> grind
  | unwrap => simp [relation, need]; omega
  | leftParen => simp [relation, need]; omega
  | operand => simp [relation, need]; omega
  | rightParen => simpa [relation, need] using hbounds.1
  | stop => simpa [relation, need] using hbounds.1

theorem Pending.reduce_iff {p : Pending} {next : Terminal} (h : p.isOpen = false) :
    p.terminal.relation next = .reduce ↔ next.need ≤ 5 := by
  have hleft (op : Operator) : op.left ≤ 5 := Nat.le_succ_of_le op.strength_bounds.2.2.2.1
  cases p with
  | binary => cases h
  | opened => cases h
  | _ => cases next <;> simp [terminal, Terminal.relation, Terminal.need, hleft]

namespace Parse

variable {n m : Nat} {p q : List Pending} {top : Pending} {next : Terminal} {op : Operator} {t : Token}
  {v w : List Token} {e l r : Phrase.Expr} {value : Bool} {said : List Event} {out : Shelf}

theorem cases_of_floor (hp : floor p ≤ 5) : p = [] ∨ (∃ rest, p = .opened :: rest) ∨
    ∃ left op place rest, p = .binary left op place :: rest := by
  cases p with
  | nil => exact .inl rfl
  | cons top rest =>
    cases top with
    | opened => exact .inr (.inl ⟨rest, rfl⟩)
    | binary left op place => exact .inr (.inr ⟨left, op, place, rest, rfl⟩)
    | _ => exact absurd hp (by decide : ¬ 6 ≤ 5)

theorem floor_of_shift (h : out.top.relation next = .shift) : floor out.pending ≤ 5 := by
  obtain ⟨pending, value, complete⟩ := out
  cases pending with
  | nil => exact (by decide : 1 ≤ 5)
  | cons top rest =>
    have hopen : top.isOpen := Pending.isOpen_of_shift h
    cases top with
    | binary left op place => exact op.strength_bounds.2.2.2.2
    | opened => exact (by decide : 1 ≤ 5)
    | _ => cases hopen

theorem shift_of_floor (hp : floor out.pending ≤ 5) (h : next.startsOperand ∨ next = .unwrap) :
    out.top.relation next = .shift := by
  obtain ⟨pending, value, complete⟩ := out
  rcases h with h | rfl
  · rcases cases_of_floor hp with rfl | ⟨rest, rfl⟩ | ⟨left, op, place, rest, rfl⟩ <;>
      cases next <;> first | rfl | cases h
  · rcases cases_of_floor hp with rfl | ⟨rest, rfl⟩ | ⟨left, op, place, rest, rfl⟩ <;> rfl

theorem shift_operator_iff (hp : floor out.pending ≤ 5) :
    out.top.relation (.operator op) = .shift ↔ floor out.pending ≤ op.strength := by
  have hbounds := op.strength_bounds
  obtain ⟨pending, value, complete⟩ := out
  rcases cases_of_floor hp with rfl | ⟨rest, rfl⟩ | ⟨left, top, place, rest, rfl⟩
  · exact ⟨fun _ => hbounds.1, fun _ => rfl⟩
  · exact ⟨fun _ => hbounds.1, fun _ => rfl⟩
  · have htop := top.strength_eq_one
    simp only [Shelf.top, Pending.terminal, Terminal.relation, Terminal.between, floor, Operator.right]
    split <;> split <;> grind

/-! ### What reading tokens reports -/

/-- What reading one more token reports, and the stack that is left. -/
def taken (p : List Pending) (t : Token) : Option (List Event × List Pending) :=
  match Shelf.move { pending := p } t.terminal t with
  | (said, .taken shelf) => some (said, shelf.pending)
  | _ => none

/-- What reading tokens to the end of an expression reports. -/
def verdict : List Pending → List Token → Option (List Event)
  | p, [] =>
      if (Shelf.settle .stop p false).2.any fun out => out.pending.isEmpty && out.value then
        some (Shelf.settle .stop p false).1
      else none
  | p, t :: later => (taken p t).bind fun out => (verdict out.2 later).map (out.1 ++ ·)

theorem settle_of_shift (h : (Shelf.mk p value false).top.relation next = .shift) :
    Shelf.settle next p value = ([], some { pending := p, value }) := by
  cases p with
  | nil => rfl
  | cons top rest =>
    refine if_neg fun hreduce => ?_
    cases h.symm.trans hreduce

theorem settle_of_reduce (h : top.terminal.relation next = .reduce) (hsaid : top.complete value = some said) :
    Shelf.settle next (top :: p) value = (Shelf.settle next p true).map (said ++ ·) id := by
  rw [Shelf.settle, if_pos h, hsaid]

theorem settle_cons (h : (Shelf.settle next (top :: p) value).2 = some out) :
    out = { pending := top :: p, value } ∨
      top.terminal.relation next = .reduce ∧ (top.complete value).isSome ∧
        (Shelf.settle next p true).2 = some out := by
  rw [Shelf.settle] at h
  split at h
  · split at h
    · exact .inr ⟨‹_›, by simp [*], h⟩
    · cases h
  · exact .inl (Option.some.inj h).symm

theorem taken_of_settle (h : Shelf.settle t.terminal q false = (said, some out)) {shelf : Shelf}
    (hplace : out.place t.terminal t = .taken shelf) : taken q t = some (said, shelf.pending) := by
  have hmove : Shelf.move { pending := q } t.terminal t = (said, .taken shelf) := by
    rw [Shelf.move, h, ← hplace]
    rfl
  rw [taken, hmove]

theorem place_of_shift (h : (Shelf.mk p value false).top.relation next = .shift) :
    Shelf.place { pending := p, value } next t = .taken (Shelf.push { pending := p, value } t next) := by
  have hstop : next ≠ .stop := fun hstop => Terminal.relation_ne_shift (.inr hstop) h
  rw [Shelf.place, if_neg fun hend => hstop hend.2, h]

/-! ### What is derived is read -/

/-- From the stack `p`, the tokens of an expression of a level are read: what has been reported then, and what
the terminals that are pending on top of `p` still report, are the events of the expression. -/
def Carries (p : List Pending) (n : Nat) (w : List Token) (e : Phrase.Expr) : Prop :=
  ∃ q said due, said ++ due = e.events ∧
    (∀ later, verdict p (w ++ later) = (verdict q later).map (said ++ ·)) ∧
    ∀ next : Terminal, next.need ≤ n →
      Shelf.settle next q false = (Shelf.settle next p true).map (due ++ ·) id

theorem taken_of_startsOperand (hp : floor p ≤ 5) (h : t.terminal.startsOperand) :
    taken p t = some ([], (Shelf.push { pending := p } t t.terminal).pending) :=
  have hshift := shift_of_floor hp (.inl h)
  taken_of_settle (settle_of_shift hshift) (place_of_shift hshift)

theorem Carries.shift (h : Carries p n w e) (hneed : t.terminal.need ≤ n)
    (hshift : (Shelf.mk p true false).top.relation t.terminal = .shift) (later : List Token) :
    verdict p (w ++ t :: later) =
      (verdict (Shelf.push { pending := p, value := true } t t.terminal).pending later).map
        (e.events ++ ·) := by
  obtain ⟨q, said, due, hevents, hread, hsettled⟩ := h
  have hdue := hsettled _ hneed
  rw [settle_of_shift hshift, Prod.map_apply, append_nil] at hdue
  rw [hread, verdict, taken_of_settle hdue (place_of_shift hshift), Option.bind_some, Option.map_map, ← hevents]
  simp only [Function.comp_def, append_assoc]

theorem carries_operand (hp : floor p ≤ 5) (ht : t.terminal = .operand) : Carries p 5 [t] (.operand t) := by
  refine ⟨.operand t :: p, [], [.operand t], rfl, fun later => ?_, fun next hnext => ?_⟩
  · rw [singleton_append, verdict, taken_of_startsOperand hp (by rw [ht]; rfl), Option.bind_some, ht]
    rfl
  · exact settle_of_reduce ((Pending.reduce_iff rfl).2 hnext) rfl

theorem Carries.parenthesized {before after : Token} (hbefore : before.terminal = .leftParen)
    (h : Carries (.opened :: p) 1 w e) (hafter : after.terminal = .rightParen) (hp : floor p ≤ 5) :
    Carries p 5 (before :: (w ++ [after])) e := by
  refine ⟨.closed true :: p, e.events, [], append_nil _, fun later => ?_, fun next hnext => ?_⟩
  · obtain ⟨q, said, due, hevents, hread, hsettled⟩ := h
    have hdue := hsettled .rightParen (Nat.le_refl _)
    have hopened : Shelf.settle .rightParen (.opened :: p) true = ([], some ⟨.opened :: p, true, false⟩) := rfl
    rw [hopened, Prod.map_apply, append_nil] at hdue
    have hclose : taken q after = some (due, .closed true :: p) :=
      taken_of_settle (by rwa [hafter]) (by rw [hafter]; rfl)
    rw [cons_append, append_assoc, verdict, taken_of_startsOperand hp (by rw [hbefore]; rfl),
      Option.bind_some, hbefore]
    show (verdict (.opened :: p) (w ++ ([after] ++ later))).map _ = _
    rw [hread, singleton_append, verdict, hclose, Option.bind_some, ← hevents]
    simp only [Option.map_map, Function.comp_def, nil_append, append_assoc]
  · exact settle_of_reduce ((Pending.reduce_iff rfl).2 hnext) rfl

theorem Carries.unwrap (h : Carries p 5 w e) (ht : t.terminal = .unwrap) (hp : floor p ≤ 5) :
    Carries p 5 (w ++ [t]) (.unwrap t.location e) := by
  refine ⟨.unwrap true t.location :: p, e.events, [.unwrap t.location], rfl, fun later => ?_,
    fun next hnext => ?_⟩
  · rw [append_assoc, singleton_append,
      h.shift (by rw [ht]; decide) (shift_of_floor hp (.inr ht)), ht]
    rfl
  · exact settle_of_reduce ((Pending.reduce_iff rfl).2 hnext) rfl

theorem Carries.binary {k : Nat} (hlevels : (op.left, op.strength, op.right) = (m, n, k))
    (hl : ∀ p, floor p ≤ m → Carries p m v l) (ht : t.terminal = .operator op)
    (hr : ∀ p, floor p ≤ k → Carries p k w r) (hp : floor p ≤ n) :
    Carries p n (v ++ t :: w) (.binary op t.location l r) := by
  cases hlevels
  have hbounds := op.strength_bounds
  obtain ⟨q, said, due, hevents, hread, hsettled⟩ := hr (.binary true op t.location :: p) (Nat.le_refl _)
  refine ⟨q, l.events ++ said, due ++ [.binary op t.location], ?_, fun later => ?_, fun next hnext => ?_⟩
  · rw [Phrase.Expr.events, ← hevents]
    simp only [append_assoc]
  · have hfloor : floor p ≤ 5 := by omega
    have hshift : (Shelf.mk p true false).top.relation t.terminal = .shift := by
      rw [ht]
      exact (shift_operator_iff hfloor).2 hp
    rw [append_assoc, cons_append,
      (hl p (by omega)).shift (by rw [ht]; exact Nat.le_refl _) hshift, ht]
    show (verdict (.binary true op t.location :: p) (w ++ later)).map _ = _
    rw [hread, Option.map_map]
    simp only [Function.comp_def, append_assoc]
  · have hreduce : (Pending.binary true op t.location).terminal.relation next = .reduce :=
      Terminal.operator_reduce_iff.2 hnext
    rw [hsettled next (by omega), settle_of_reduce hreduce rfl]
    simp [Prod.map]

/-- **What is derived from a level is read** on top of every stack that lets the level come. -/
theorem carries_of_derives (h : Derives n w e) : ∀ p, floor p ≤ n → Carries p n w e := by
  induction h with
  | coalesce _ ht _ ihl ihr => exact fun p => .binary rfl ihl ht ihr
  | @comparison _ _ _ _ _ op hop _ ht _ ihl ihr =>
    have hlevels : (op.left, op.strength, op.right) = (2, 2, 3) := by revert hop; cases op <;> decide
    exact fun p => .binary hlevels ihl ht ihr
  | @sum _ _ _ _ _ op hop _ ht _ ihl ihr =>
    have hlevels : (op.left, op.strength, op.right) = (3, 3, 4) := by revert hop; cases op <;> decide
    exact fun p => .binary hlevels ihl ht ihr
  | @product _ _ _ _ _ op hop _ ht _ ihl ihr =>
    have hlevels : (op.left, op.strength, op.right) = (4, 4, 5) := by revert hop; cases op <;> decide
    exact fun p => .binary hlevels ihl ht ihr
  | operand ht => exact fun p hp => carries_operand hp ht
  | parenthesized hbefore _ hafter ih => exact fun p => .parenthesized hbefore (ih _ (Nat.le_refl _)) hafter
  | unwrap _ ht ih => exact fun p hp => (ih p hp).unwrap ht hp
  | tighter hn _ ih =>
    intro p hp
    obtain ⟨q, said, due, hevents, hread, hsettled⟩ := ih p (by omega)
    exact ⟨q, said, due, hevents, hread, fun next hnext => hsettled next (by omega)⟩

theorem verdict_of_derives (h : Derives 1 w e) : verdict [] w = some e.events := by
  obtain ⟨q, said, due, hevents, hread, hsettled⟩ := carries_of_derives h [] (Nat.le_refl _)
  have hend : Shelf.settle .stop q false = (due, some { value := true }) := by
    rw [hsettled .stop (Nat.le_refl _), Shelf.settle, Prod.map_apply, append_nil]
    rfl
  have hverdict : verdict q [] = some due := by
    rw [verdict, hend]
    rfl
  rw [← append_nil w, hread, hverdict, Option.map_some, hevents]

/-! ### What is read is derived -/

/-- The tokens that a stack stands for: the left operands of its operators are of the levels that the
operators ask for, and each terminal is where the ones below it let it come. -/
inductive Stands : List Pending → List Token → Prop where
  | nil : Stands [] []
  | complete {p : List Pending} {top : Pending} {w v : List Token} {e : Phrase.Expr} (h : Stands p w)
      (hp : floor p ≤ 5) (htop : top.isOpen = false) (hv : Derives 5 v e) : Stands (top :: p) (w ++ v)
  | opened {p : List Pending} {w : List Token} {t : Token} (h : Stands p w) (hp : floor p ≤ 5)
      (ht : t.terminal = .leftParen) : Stands (.opened :: p) (w ++ [t])
  | binary {p : List Pending} {w v : List Token} {e : Phrase.Expr} {t : Token} {op : Operator}
      (h : Stands p w) (hp : floor p ≤ op.strength) (hv : Derives op.left v e)
      (ht : t.terminal = .operator op) : Stands (.binary true op t.location :: p) (w ++ (v ++ [t]))

/-- The tokens of a stack and of an expression on top of it, which can stand before a terminal. -/
def StandsUnder (next : Terminal) (p : List Pending) (w : List Token) : Prop :=
  ∃ below above e n, w = below ++ above ∧ Stands p below ∧ Derives n above e ∧ floor p ≤ n ∧ next.need ≤ n

theorem StandsUnder.settle (h : StandsUnder next p w) (hsettle : (Shelf.settle next p true).2 = some out) :
    out.value = true ∧ StandsUnder next out.pending w := by
  induction p generalizing w with
  | nil =>
    cases hsettle
    exact ⟨rfl, h⟩
  | cons top rest ih =>
    rcases settle_cons hsettle with rfl | ⟨hreduce, hsome, hrest⟩
    · exact ⟨rfl, h⟩
    · obtain ⟨below, above, e, n, rfl, hstands, hderives, hfloor, -⟩ := h
      have hopen := cases_of_floor (Nat.le_trans hfloor hderives.bounds.2)
      cases hstands with
      | complete _ _ htop =>
        rcases hopen with h | ⟨rest', h⟩ | ⟨left, op, place, rest', h⟩ <;> cases h <;> cases htop
      | opened => cases hsome
      | @binary _ _ _ _ _ op hbelow hp hv ht =>
        have hright : 1 ≤ op.right := Nat.le_trans op.strength_bounds.1 op.strength_bounds.2.2.1
        exact ih ⟨_, _, _, op.strength, by simp, hbelow, .binary hv ht (hderives.mono hright hfloor), hp,
          Terminal.operator_reduce_iff.1 hreduce⟩ hrest

/-- Completing terminals leaves the stack as it is or a larger expression on top of what is left. -/
theorem Stands.settle (h : Stands p w) (hsettle : (Shelf.settle next p false).2 = some out) :
    out.value = false ∧ out.pending = p ∨ out.value = true ∧ StandsUnder next out.pending w := by
  cases p with
  | nil =>
    cases hsettle
    exact .inl ⟨rfl, rfl⟩
  | cons top rest =>
    rcases settle_cons hsettle with rfl | ⟨hreduce, hsome, hrest⟩
    · exact .inl ⟨rfl, rfl⟩
    · right
      cases h with
      | opened => cases hsome
      | binary => cases hsome
      | complete h hp htop hv =>
        exact StandsUnder.settle ⟨_, _, _, 5, rfl, h, hv, hp, (Pending.reduce_iff htop).1 hreduce⟩ hrest

/-- What waits on the stack lacks a value without which it can never be completed. -/
def lacks : Pending → Bool
  | .binary left _ _ => !left
  | .unwrap left _ => !left
  | .closed inner => !inner
  | _ => false

theorem mem_of_settle (htop : lacks top) (hmem : top ∈ p)
    (hsettle : (Shelf.settle next p value).2 = some out) : top ∈ out.pending := by
  induction p generalizing value with
  | nil => cases hmem
  | cons first rest ih =>
    rcases settle_cons hsettle with rfl | ⟨-, hsome, hrest⟩
    · exact hmem
    · rcases mem_cons.1 hmem with rfl | hmem
      · cases top <;> simp_all [lacks, Pending.complete]
      · exact ih hmem hrest

theorem taken_cases (h : taken p t = some (said, q)) : ∃ out, (Shelf.settle t.terminal p false).2 = some out ∧
      (out.top.relation t.terminal = .shift ∧ q = (out.push t t.terminal).pending ∨
        ∃ below, out.pending = .opened :: below ∧ t.terminal = .rightParen ∧
          q = .closed out.value :: below) := by
  rw [taken] at h
  split at h
  · rename_i said' shelf hmove
    cases h
    obtain ⟨out, hout, ⟨hshift, rfl⟩ | ⟨hmatching, rfl⟩⟩ := Shelf.settle_of_taken (congrArg Prod.snd hmove)
    · exact ⟨out, hout, .inl ⟨hshift, rfl⟩⟩
    · have htop := Terminal.eq_leftParen_of_matching hmatching
      refine ⟨out, hout, .inr ?_⟩
      obtain ⟨pending, value, complete⟩ := out
      cases pending with
      | nil => cases htop
      | cons first below =>
        obtain rfl : first = .opened := by cases first <;> first | rfl | cases htop
        exact ⟨below, rfl, Terminal.eq_rightParen_of_matching hmatching, rfl⟩
  · cases h

theorem lacks_of_taken (h : ∃ top ∈ p, lacks top) (htaken : taken p t = some (said, q)) :
    ∃ top ∈ q, lacks top := by
  obtain ⟨top, hmem, htop⟩ := h
  obtain ⟨out, hsettle, ⟨-, rfl⟩ | ⟨below, hout, -, rfl⟩⟩ := taken_cases htaken
  · exact ⟨top, mem_cons_of_mem _ (mem_of_settle htop hmem hsettle), htop⟩
  · have hmem' := mem_of_settle htop hmem hsettle
    rw [hout] at hmem'
    rcases mem_cons.1 hmem' with rfl | hbelow
    · cases htop
    · exact ⟨top, mem_cons_of_mem _ hbelow, htop⟩

theorem Stands.taken (h : Stands p w) (htaken : taken p t = some (said, q)) :
    (∃ top ∈ q, lacks top) ∨ Stands q (w ++ [t]) := by
  obtain ⟨⟨pending, value, complete⟩, hsettle, ⟨hshift, rfl⟩ | ⟨below, hout, ht, rfl⟩⟩ := taken_cases htaken
  · have hfloor : floor pending ≤ 5 := floor_of_shift hshift
    cases ht : t.terminal with
    | operand =>
      rcases h.settle hsettle with ⟨rfl, rfl⟩ | ⟨-, _, _, _, _, -, -, hderives, -, hneed⟩
      · exact .inr (.complete h hfloor rfl (.operand ht))
      · rw [ht] at hneed
        exact absurd (Nat.le_trans hneed hderives.bounds.2) (by decide)
    | leftParen =>
      rcases h.settle hsettle with ⟨rfl, rfl⟩ | ⟨-, _, _, _, _, -, -, hderives, -, hneed⟩
      · exact .inr (.opened h hfloor ht)
      · rw [ht] at hneed
        exact absurd (Nat.le_trans hneed hderives.bounds.2) (by decide)
    | operator op =>
      rcases h.settle hsettle with ⟨rfl, -⟩ | ⟨rfl, below, above, e, n, rfl, hstands, hderives, -, hneed⟩
      · exact .inl ⟨_, mem_cons_self, rfl⟩
      · rw [ht] at hneed hshift
        right
        rw [append_assoc]
        exact .binary hstands ((shift_operator_iff hfloor).1 hshift)
          (hderives.mono (Nat.le_trans op.strength_bounds.1 op.strength_bounds.2.1) hneed) ht
    | unwrap =>
      rcases h.settle hsettle with ⟨rfl, -⟩ | ⟨rfl, below, above, e, n, rfl, hstands, hderives, -, hneed⟩
      · exact .inl ⟨_, mem_cons_self, rfl⟩
      · rw [ht] at hneed
        right
        rw [append_assoc]
        exact .complete hstands hfloor rfl (.unwrap (hderives.mono (by decide) hneed) ht)
    | rightParen => exact absurd hshift (Terminal.relation_ne_shift (.inl ht))
    | stop => exact absurd hshift (Terminal.relation_ne_shift (.inr ht))
  · cases hout
    rcases h.settle hsettle with ⟨rfl, -⟩ | ⟨rfl, below', above, e, n, rfl, hstands, hderives, -⟩
    · exact .inl ⟨_, mem_cons_self, rfl⟩
    · cases hstands with
      | complete _ _ htop => cases htop
      | opened hbelow hp hopen =>
        right
        have hclosed : Stands (.closed true :: below) _ := .complete hbelow hp rfl
          (.parenthesized hopen (hderives.mono (Nat.le_refl _) hderives.bounds.1) ht)
        simpa using hclosed

/-- **Whatever is read to its end is derived.** -/
theorem derives_of_verdict (h : (∃ top ∈ p, lacks top) ∨ Stands p v) (hverdict : verdict p w = some said) :
    ∃ e, Derives 1 (v ++ w) e := by
  induction w generalizing p v said with
  | nil =>
    rw [verdict, Option.ite_none_right_eq_some, Option.any_eq_true] at hverdict
    obtain ⟨⟨⟨pending, value, complete⟩, hsettle, hend⟩, -⟩ := hverdict
    obtain ⟨hempty, rfl⟩ := Bool.and_eq_true_iff.1 hend
    obtain rfl := List.isEmpty_iff.1 hempty
    rcases h with ⟨top, hmem, htop⟩ | h
    · cases mem_of_settle htop hmem hsettle
    · rcases h.settle hsettle with ⟨hfalse, -⟩ | ⟨-, below, above, e, n, rfl, hstands, hderives, -⟩
      · cases hfalse
      · cases hstands
        exact ⟨e, by simpa using hderives.mono (Nat.le_refl _) hderives.bounds.1⟩
  | cons t later ih =>
    obtain ⟨⟨said', q⟩, htaken, hverdict⟩ := Option.bind_eq_some_iff.1 hverdict
    obtain ⟨rest, hrest, -⟩ := Option.map_eq_some_iff.1 hverdict
    have hnext : (∃ top ∈ q, lacks top) ∨ Stands q (v ++ [t]) := by
      rcases h with h | h
      · exact .inl (lacks_of_taken h htaken)
      · exact h.taken htaken
    simpa using ih hnext hrest

end Parse

/-! ### Runs -/

/-- The next tokens that a cursor comes to, the current one first. -/
def Cursor.Offers (k : Cursor) (tokens : List Token) : Prop :=
  ∃ later, tokens = k.current :: later ∧ k.rest.answers later.length = later.map .ok

namespace Parse

variable {k : Cursor} {t t' : Token} {tokens later after w : List Token} {shelf : Shelf} {said : List Event}
variable {proceed : Nat → Shelf → Parse Unit}

theorem advance_of_offers (h : k.Offers (t :: t' :: later)) : ∃ k' new, advance.run.run k = (.ok t, k') ∧
    k'.Offers (t' :: later) ∧ k'.events = new ++ k.events ∧ spoken new = [] := by
  obtain ⟨_, heq, hanswers⟩ := h
  cases heq
  obtain ⟨hnext, hanswers⟩ := List.cons.inj hanswers
  cases hahead : k.ahead with
  | some token =>
    rw [Cursor.next_rest hahead] at hnext hanswers
    cases hnext
    exact ⟨_, [.moved t'], advance_of_ahead hahead, ⟨later, rfl, hanswers⟩, rfl, rfl⟩
  | none =>
    rw [Cursor.rest_of_none hahead] at hnext hanswers
    have hrun := advance_run k
    rw [run_bind, peek_of_ok hahead hnext] at hrun
    exact ⟨_, [.moved t', .read t'], hrun.trans (advance_of_ahead rfl), ⟨later, rfl, hanswers⟩, rfl, rfl⟩

/-- A cursor after some reports. -/
def say (k : Cursor) (said : List Event) : Cursor := { k with events := said.reverse ++ k.events }

theorem run_forM_emit (said : List Event) (k : Cursor) :
    (said.forM emit).run.run k = (.ok (), say k said) := by
  induction said generalizing k with
  | nil => rfl
  | cons event later ih =>
    show (later.forM emit).run.run { k with events := event :: k.events } = _
    rw [ih, say, say, reverse_cons, append_assoc]
    rfl

theorem spoken_settle (next : Terminal) (p : List Pending) (value : Bool) :
    spoken (Shelf.settle next p value).1.reverse = (Shelf.settle next p value).1 := by
  rw [spoken, reverse_reverse, filter_eq_self]
  exact isSpoken_of_settle

/-- The outcome of runs that follow a verdict, whatever bound they have: they stop before the tokens `after`,
or they fail. -/
def Follows (f : Nat → Parse Unit) (k : Cursor) (after : List Token) : Option (List Event) → Prop
  | some said => ∃ k' new, (∀ n, (f n).run.run k = (.ok (), k')) ∧ k'.Offers after ∧
      k'.events = new ++ k.events ∧ spoken new = said
  | none => ∃ d k', (∀ n, (f n).run.run k = (.error d, k')) ∧ d.kind = .syntactic

theorem run_step (proceed : Shelf → Parse Unit) {move : Move}
    (h : shelf.move (shelf.next k.current) k.current = (said, move)) :
    (step shelf proceed).run.run k = (follow proceed move).run.run (say k said) := by
  show (List.forM _ emit >>= fun _ => follow proceed _).run.run k = _
  rw [run_bind, h, run_forM_emit]

theorem follows_of_stuck {fault : TokenKind → Fault}
    (h : shelf.move (shelf.next k.current) k.current = (said, .stuck fault)) :
    Follows (fun n => step shelf (proceed n)) k after none :=
  ⟨⟨fault k.current.kind, some k.current.location⟩, say k said, fun _ => run_step _ h,
    Shelf.kind_of_stuck (congrArg Prod.snd h) _⟩

theorem follows_of_stop (hvalue : shelf.value = false)
    (hoffers : k.Offers tokens) (hstop : shelf.next k.current = .stop) :
    Follows (fun n => step shelf (proceed n)) k tokens (verdict shelf.pending []) := by
  have hsettle : (shelf.move (shelf.next k.current) k.current).1 =
      (Shelf.settle .stop shelf.pending false).1 := by
    rw [hstop, ← hvalue]
    rfl
  cases houtcome : shelf.move (shelf.next k.current) k.current with
  | mk said move =>
    have hmove := congrArg Prod.snd houtcome
    rw [houtcome] at hsettle
    cases move with
    | ended =>
      obtain ⟨-, out, hout, hempty, hdone⟩ := Shelf.settle_of_ended hmove
      rw [hstop, hvalue] at hout
      rw [verdict, hout, if_pos (by simp [hempty, hdone]), ← hsettle]
      refine ⟨say k said, said.reverse, fun _ => run_step _ houtcome, hoffers, rfl, ?_⟩
      rw [show said = _ from hsettle]
      exact spoken_settle ..
    | taken later =>
      obtain ⟨out, -, ⟨hshift, -⟩ | ⟨hmatching, -⟩⟩ := Shelf.settle_of_taken hmove
      · exact absurd hshift (Terminal.relation_ne_shift (.inr hstop))
      · cases hstop.symm.trans (Terminal.eq_rightParen_of_matching hmatching)
    | stuck fault =>
      have hverdict : verdict shelf.pending [] = none := by
        rw [Shelf.move_eq, hstop, hvalue] at hmove
        refine if_neg fun hend => ?_
        obtain ⟨out, hout, hend⟩ := (Option.any_eq_true ..).1 hend
        obtain ⟨hempty, hdone⟩ := Bool.and_eq_true_iff.1 hend
        rw [hout, Option.elim_some, Shelf.place, if_pos ⟨hempty, rfl⟩, if_pos hdone] at hmove
        cases hmove
      rw [hverdict]
      exact follows_of_stuck houtcome

theorem follows_of_token {g : List Pending → Option (List Event)}
    (hvalue : shelf.value = false) (hoffers : k.Offers (t :: t' :: later)) (hnext : shelf.next t = t.terminal)
    (hstop : t.terminal ≠ .stop)
    (hproceed : ∀ (out : Shelf) (k' : Cursor), out.value = false → out.complete = t.terminal.endsOperand →
      k'.Offers (t' :: later) → Follows (fun n => proceed n out) k' after (g out.pending)) :
    Follows (fun n => step shelf (proceed n)) k after
      ((taken shelf.pending t).bind fun out => (g out.2).map (out.1 ++ ·)) := by
  obtain rfl : t = k.current := by
    obtain ⟨_, heq, -⟩ := hoffers
    exact (List.cons.inj heq).1
  have hmove : Shelf.move { pending := shelf.pending } k.current.terminal k.current =
      shelf.move (shelf.next k.current) k.current := by
    rw [hnext, Shelf.move, Shelf.move, hvalue]
  rw [taken, hmove]
  cases houtcome : shelf.move (shelf.next k.current) k.current with
  | mk said move =>
    have hout := congrArg Prod.snd houtcome
    cases move with
    | ended => exact absurd (hnext.symm.trans (Shelf.settle_of_ended hout).1) hstop
    | stuck fault => exact follows_of_stuck houtcome
    | taken out =>
      have hkept : out.value = false ∧ out.complete = k.current.terminal.endsOperand := by
        obtain ⟨shelf, -, ⟨-, rfl⟩ | ⟨hmatching, rfl⟩⟩ := Shelf.settle_of_taken hout
        · exact ⟨rfl, congrArg Terminal.endsOperand hnext⟩
        · rw [← hnext, Terminal.eq_rightParen_of_matching hmatching]
          exact ⟨rfl, rfl⟩
      obtain ⟨k', new, hadvance, hoffers', hevents, hnew⟩ := advance_of_offers (k := say k said) hoffers
      have hrun : ∀ n, (step shelf (proceed n)).run.run k = (proceed n out).run.run k' := by
        intro n
        rw [run_step _ houtcome]
        show (advance >>= fun _ => proceed n out).run.run _ = _
        rw [run_bind, hadvance]
      have hfollows := hproceed out k' hkept.1 hkept.2 hoffers'
      show Follows _ k after ((g out.pending).map (said ++ ·))
      cases hg : g out.pending with
      | none =>
        rw [hg] at hfollows
        obtain ⟨d, k'', herror, hkind⟩ := hfollows
        exact ⟨d, k'', fun n => (hrun n).trans (herror n), hkind⟩
      | some rest =>
        rw [hg] at hfollows
        obtain ⟨k'', further, hok, hafter, hfurther, hrest⟩ := hfollows
        refine ⟨k'', further ++ (new ++ said.reverse), fun n => (hrun n).trans (hok n), hafter, ?_, ?_⟩
        · rw [hfurther, hevents, say, append_assoc, append_assoc]
        · have hspoken := spoken_settle (shelf.next k.current) shelf.pending shelf.value
          rw [show (Shelf.settle (shelf.next k.current) shelf.pending shelf.value).1 = said from
            congrArg Prod.fst houtcome] at hspoken
          rw [spoken_append, spoken_append, hspoken, hnew, hrest, append_nil]

theorem stretch_cons (shelf : Shelf) (t : Token) (later : List Token) :
    (shelf.next t = .stop ∧ stretch shelf.complete (t :: later) = []) ∨
      shelf.next t = t.terminal ∧ t.terminal ≠ .stop ∧
        stretch shelf.complete (t :: later) = t :: stretch t.terminal.endsOperand later := by
  rw [stretch]
  unfold Shelf.next
  by_cases hbreak : t.afterBreak ∧ t.terminal.startsOperand ∧ shelf.complete
  · refine .inl ⟨if_pos ?_, if_pos (.inr hbreak)⟩
    rw [Token.terminal] at hbreak
    simp [hbreak]
  · have hnext : ¬(t.afterBreak && (Terminal.ofKind t.kind).startsOperand && shelf.complete) = true := by
      rw [Token.terminal] at hbreak
      simpa using hbreak
    simp only [if_neg hnext]
    by_cases hstop : t.terminal = .stop
    · exact .inl ⟨hstop, if_pos (.inl hstop)⟩
    · exact .inr ⟨rfl, hstop, if_neg fun h => h.elim hstop hbreak⟩

/-- How an expression goes on after a step. -/
def onwards : Nat → Shelf → Parse Unit
  | 0, _ => failHere .malformedExpression
  | n + 1, shelf => expressionFrom n shelf

theorem expressionFrom_eq (n : Nat) (shelf : Shelf) : expressionFrom n shelf = step shelf (onwards n) := by
  cases n <;> rfl

/-- **A run follows the verdict** on the tokens that the expression can extend over, whatever bound it has
beyond their number. -/
theorem follows_expressionFrom (hvalue : shelf.value = false) (hoffers : k.Offers tokens)
    (hend : ∃ t ∈ tokens, t.kind = .eof) :
    Follows (fun n => expressionFrom ((stretch shelf.complete tokens).length + n) shelf) k
      (tokens.drop (stretch shelf.complete tokens).length)
      (verdict shelf.pending (stretch shelf.complete tokens)) := by
  induction tokens generalizing shelf k with
  | nil =>
    obtain ⟨_, hmem, -⟩ := hend
    cases hmem
  | cons t later ih =>
    obtain rfl : t = k.current := by
      obtain ⟨_, heq, -⟩ := hoffers
      exact (List.cons.inj heq).1
    rcases stretch_cons shelf k.current later with ⟨hstop, hstretch⟩ | ⟨hnext, hterminal, hstretch⟩
    · simp only [hstretch, expressionFrom_eq]
      exact follows_of_stop hvalue hoffers hstop
    · have hend' : ∃ t ∈ later, t.kind = .eof := by
        obtain ⟨t, hmem, heof⟩ := hend
        rcases mem_cons.1 hmem with rfl | hmem
        · rw [Token.terminal, heof] at hterminal
          exact absurd rfl hterminal
        · exact ⟨t, hmem, heof⟩
      simp only [hstretch, expressionFrom_eq, length_cons, Nat.add_right_comm _ 1, verdict,
        drop_succ_cons]
      cases later with
      | nil =>
        obtain ⟨_, hmem, -⟩ := hend'
        cases hmem
      | cons t' later =>
        refine follows_of_token (g := fun q => verdict q _) hvalue hoffers hnext hterminal
          fun out k' hout hcomplete hoffers' => ?_
        rw [← hcomplete]
        exact ih hout hoffers' hend'

/-! ### One tree only -/

/-- The expressions that events in postfix order make, on top of others. -/
def rebuild : List Event → List Phrase.Expr → List Phrase.Expr
  | .operand t :: later, stack => rebuild later (.operand t :: stack)
  | .binary op place :: later, r :: l :: stack => rebuild later (.binary op place l r :: stack)
  | .unwrap place :: later, e :: stack => rebuild later (.unwrap place e :: stack)
  | _, stack => stack

theorem rebuild_events (e : Phrase.Expr) (later : List Event) (stack : List Phrase.Expr) :
    rebuild (e.events ++ later) stack = rebuild later (e :: stack) := by
  induction e generalizing later stack with
  | operand t => rfl
  | binary op place l r ihl ihr =>
    rw [Phrase.Expr.events, append_assoc, append_assoc, ihl, ihr]
    rfl
  | unwrap place e ih =>
    rw [Phrase.Expr.events, append_assoc, ih]
    rfl

theorem events_injective {e e' : Phrase.Expr} (h : e.events = e'.events) : e = e' := by
  have hrebuild (e : Phrase.Expr) : rebuild e.events [] = [e] := by
    rw [← append_nil e.events, rebuild_events]
    rfl
  have heq := congrArg (rebuild · []) h
  simp only [hrebuild] at heq
  exact (List.cons.inj heq).1

/-- **Exactly the precedence grammar is read.**  Of the tokens up to the end of the input, let `w` be those
that an expression can extend over.  Whatever the bound beyond their number, the outcome is the same.  If `w`
is derived, it is derived as one expression only, the events are the operands and operators of that expression
in postfix order, and reading stops at the token after `w`; if it is not, reading fails. -/
theorem expression_exact (hoffers : k.Offers tokens) (hend : ∃ t ∈ tokens, t.kind = .eof)
    (hw : w = stretch false tokens) :
    (∀ e, Derives 1 w e → (∀ e', Derives 1 w e' → e' = e) ∧
      ∃ k' new, (∀ bound, w.length ≤ bound → (expression bound).run.run k = (.ok (), k')) ∧
        k'.Offers (tokens.drop w.length) ∧ k'.events = new ++ k.events ∧ spoken new = e.events) ∧
    ((¬∃ e, Derives 1 w e) →
      ∃ d k', (∀ bound, w.length ≤ bound → (expression bound).run.run k = (.error d, k')) ∧
        d.kind = .syntactic) := by
  have hfollows : Follows (fun n => expressionFrom (w.length + n) {}) k (tokens.drop w.length)
      (verdict [] w) := by
    rw [hw]
    exact @follows_expressionFrom k tokens {} rfl hoffers hend
  have hbound {result : Except Diagnostic Unit × Cursor}
      (h : ∀ n, (expressionFrom (w.length + n) {}).run.run k = result) :
      ∀ bound, w.length ≤ bound → (expression bound).run.run k = result := by
    intro bound hle
    obtain ⟨n, rfl⟩ := Nat.exists_eq_add_of_le hle
    exact h n
  constructor
  · intro e he
    have hverdict := verdict_of_derives he
    rw [hverdict] at hfollows
    obtain ⟨k', new, hrun, hafter, hevents, hsaid⟩ := hfollows
    refine ⟨fun e' he' => events_injective ?_, k', new, hbound hrun, hafter, hevents, hsaid⟩
    exact Option.some.inj ((verdict_of_derives he').symm.trans hverdict)
  · intro hnone
    cases hverdict : verdict [] w with
    | some events => exact absurd (derives_of_verdict (.inr .nil) hverdict) hnone
    | none =>
      rw [hverdict] at hfollows
      obtain ⟨d, k', hrun, hkind⟩ := hfollows
      exact ⟨d, k', hbound hrun, hkind⟩

/-- The number 4 stands on a new line, so the expression before it is `1 - 2 - 3`, which groups to the left. -/
theorem expression_exact_difference :
    let token (kind : TokenKind) (afterBreak : Bool) : Token := ⟨kind, .start, afterBreak⟩
    let one := token (.intLiteral 1) false
    let minus := token (.mark .minus) false
    let two := token (.intLiteral 2) false
    let three := token (.intLiteral 3) false
    let rest := [token (.intLiteral 4) true, token .eof true]
    let k : Cursor := { current := one, feed := ⟨([minus, two, minus, three] ++ rest).map .ok, .start⟩ }
    ∃ k' new, (∀ bound, 5 ≤ bound → (expression bound).run.run k = (.ok (), k')) ∧ k'.Offers rest ∧
      k'.events = new ++ k.events ∧ spoken new = [.operand one, .operand two, .binary .subtract .start,
        .operand three, .binary .subtract .start] := by
  intro token one minus two three rest k
  have hderives : Derives 1 [one, minus, two, minus, three] (.binary .subtract .start
      (.binary .subtract .start (.operand one) (.operand two)) (.operand three)) :=
    .tighter (by decide) (.tighter (by decide) (.sum (v := [one, minus, two]) (by decide)
      (.sum (v := [one]) (by decide) (.tighter (by decide) (.tighter (by decide) (.operand rfl))) rfl
        (.tighter (by decide) (.operand rfl))) rfl (.tighter (by decide) (.operand rfl))))
  have hoffers : k.Offers ([one, minus, two, minus, three] ++ rest) := ⟨_, rfl, rfl⟩
  exact ((expression_exact hoffers ⟨token .eof true, by simp [rest], rfl⟩ rfl).1 _ hderives).2

end Parse

end OnePass
