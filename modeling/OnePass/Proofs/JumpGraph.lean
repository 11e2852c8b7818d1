import OnePass.Proofs.Layout
import Mathlib.Logic.Relation

/-!
# Jump graphs

The instructions of a body are the nodes of a graph.  Conditions go two ways, the marks of
conditionals and loops jump to one another, and everything else goes on to the next instruction, calls
included.  Code that lays out a flow has a graph that is as nested as the flow.

Main results:

* `Steps.of_branch`, `Steps.of_loop` — **the edges in conditionals and loops**;
* `lays_body` — the bodies of a program lay out the flows of their parts.
-/

namespace OnePass

open List

variable {kind : InstructionKind} {i : Instruction} {l : List Instruction} {T : Flow}
  {parts : List Part} {codes : List (List Instruction)} {header : Nat}
variable {scope : Nat}

/-! ### Bodies -/

/-- The instructions of a body, read from a place inside some body on. Bodies are named by the headers of
their functions; the main program has no header. -/
def bodyFrom (body : Option Nat) : Option Nat → List Instruction → List Instruction
  | _, [] => []
  | inside, i :: later =>
      let here := if i.kind = .functionBegin then some i.scope else inside
      let next := if i.kind = .functionEnd then none else here
      if here = body then i :: bodyFrom body next later else bodyFrom body next later

/-- The instructions of a body: of the main program, or of the function with a header. -/
def bodyCode (body : Option Nat) (code : List Instruction) : List Instruction :=
  bodyFrom body none code

/-! ### Edges -/

/-- The positions of the marks of a kind that belong to a scope. -/
def positions (code : List Instruction) (kind : InstructionKind) (scope : Nat) : List Nat :=
  (List.range code.length).filter fun place => code[place]?.any fun i => decide (i.Marks kind scope)

/-- Where control may go from a position: a condition that does not hold skips the block behind it, up
to the next mark of its conditional or loop. -/
def successors (code : List Instruction) (place : Nat) : List Nat :=
  match code[place]? with
  | none => []
  | some i =>
      match i.kind with
      | .ifCondition | .ifLetCondition =>
          (place + 1) :: (positions code .elseMark i.scope).map (· + 1)
      | .elseMark => positions code .endIf i.scope
      | .whileCondition => (place + 1) :: (positions code .endWhile i.scope).map (· + 1)
      | .endWhile => positions code .whileLabel i.scope
      | .returnValue | .functionEnd => []
      | _ => [place + 1]

/-- An edge of the jump graph. -/
def Steps (code : List Instruction) (p q : Nat) : Prop := q ∈ successors code p

/-- There is a path between two positions on which no instruction before the last one is of some
sort. -/
def Avoids (code : List Instruction) (P : Instruction → Prop) : Nat → Nat → Prop :=
  Relation.ReflTransGen fun p q => Steps code p q ∧ ∀ i, code[p]? = some i → ¬ P i

theorem mem_positions {code : List Instruction} {place : Nat} :
    place ∈ positions code kind scope ↔ ∃ i, code[place]? = some i ∧ i.Marks kind scope := by
  rw [positions, mem_filter, mem_range]
  constructor
  · rintro ⟨-, hany⟩
    obtain ⟨i, hi, hmarks⟩ := (Option.any_eq_true _ _).1 hany
    exact ⟨i, hi, of_decide_eq_true hmarks⟩
  · rintro ⟨i, hi, hmarks⟩
    refine ⟨(List.getElem?_eq_some_iff.1 hi).1, ?_⟩
    rw [hi]
    exact decide_eq_true hmarks

theorem MarksOnce.eq_of_mem {code : List Instruction} (h : MarksOnce code) {p q : Nat}
    (hi : code[p]? = some i) (hmarks : i.Marks kind scope) (hkind : kind.isMark)
    (hq : q ∈ positions code kind scope) : q = p := by
  obtain ⟨j, hj, hmarks'⟩ := mem_positions.1 hq
  have hbracket : kind.isBracket := by rw [InstructionKind.isBracket, hkind]; rfl
  exact h.eq hj hi (hmarks'.1 ▸ hbracket) (hmarks.1 ▸ hbracket) (hmarks'.2.trans hmarks.2.symm)
    (by rw [hmarks'.1, hmarks.1])

namespace Steps

variable {code : List Instruction} {p q scope : Nat} {i : Instruction}

theorem next (h : Steps code p q) (hi : code[p]? = some i)
    (hkind : i.kind.isMark = false ∨ i.kind = .endIf ∨ i.kind = .whileLabel) : q = p + 1 := by
  unfold Steps successors at h
  rw [hi] at h
  rcases hkind with hkind | hkind | hkind
  · cases hcase : i.kind <;> simp [hcase, InstructionKind.isMark] at h hkind <;> exact h
  · simpa [hkind] using h
  · simpa [hkind] using h

theorem of_test (h : Steps code p q) (hi : code[p]? = some i) (htest : i.Tests scope) :
    q = p + 1 ∨ ∃ e ∈ positions code .elseMark scope, q = e + 1 := by
  unfold Steps successors at h
  rw [hi] at h
  rcases htest with ⟨hkind, rfl⟩ | ⟨hkind, rfl⟩ <;> simpa [hkind, eq_comm] using h

theorem of_elseMark (h : Steps code p q) (hi : code[p]? = some i)
    (hmarks : i.Marks .elseMark scope) : q ∈ positions code .endIf scope := by
  unfold Steps successors at h
  rw [hi] at h
  obtain ⟨hkind, rfl⟩ := hmarks
  simpa [hkind] using h

theorem of_whileCondition (h : Steps code p q) (hi : code[p]? = some i)
    (hmarks : i.Marks .whileCondition scope) :
    q = p + 1 ∨ ∃ e ∈ positions code .endWhile scope, q = e + 1 := by
  unfold Steps successors at h
  rw [hi] at h
  obtain ⟨hkind, rfl⟩ := hmarks
  simpa [hkind, eq_comm] using h

theorem of_endWhile (h : Steps code p q) (hi : code[p]? = some i)
    (hmarks : i.Marks .endWhile scope) : q ∈ positions code .whileLabel scope := by
  unfold Steps successors at h
  rw [hi] at h
  obtain ⟨hkind, rfl⟩ := hmarks
  simpa [hkind] using h

theorem pos_or_mark (h : Steps code p q) :
    0 < q ∨ ∃ j, code[q]? = some j ∧ (j.kind = .endIf ∨ j.kind = .whileLabel) := by
  cases hi : code[p]? with
  | none =>
    rw [Steps, successors, hi] at h
    cases h
  | some i =>
    have hnext : q = p + 1 → 0 < q := fun hq => hq ▸ Nat.succ_pos p
    cases hkind : i.kind with
    | ifCondition | ifLetCondition =>
      have htest : i.Tests i.scope := by simp [Instruction.Tests, Instruction.Marks, hkind]
      rcases h.of_test hi htest with hq | ⟨e, -, rfl⟩
      · exact .inl (hnext hq)
      · exact .inl (Nat.succ_pos e)
    | elseMark =>
      obtain ⟨fin, hfin, hmarks⟩ := mem_positions.1 (h.of_elseMark hi ⟨hkind, rfl⟩)
      exact .inr ⟨fin, hfin, .inl hmarks.1⟩
    | whileCondition =>
      rcases h.of_whileCondition hi ⟨hkind, rfl⟩ with hq | ⟨e, -, rfl⟩
      · exact .inl (hnext hq)
      · exact .inl (Nat.succ_pos e)
    | endWhile =>
      obtain ⟨label, hlabel, hmarks⟩ := mem_positions.1 (h.of_endWhile hi ⟨hkind, rfl⟩)
      exact .inr ⟨label, hlabel, .inr hmarks.1⟩
    | _ => exact .inl (hnext (h.next hi (by simp [hkind, InstructionKind.isMark])))

theorem lt_length (h : Steps code p q) : p < code.length := by
  by_contra hge
  rw [Steps, successors, List.getElem?_eq_none (Nat.le_of_not_lt hge)] at h
  cases h

theorem kind_ne_functionEnd (h : Steps code p q) (hi : code[p]? = some i) : i.kind ≠ .functionEnd := by
  intro hkind
  rw [Steps, successors, hi] at h
  simp [hkind] at h

end Steps

/-! ### Pieces of code -/

section pieces

variable {code A l B : List Instruction}
variable {p : Nat} {head : List Instruction} {test fin : Instruction}
variable {q : Nat}

theorem getElem?_between (hcode : code = A ++ i :: B) (hp : p = A.length) : code[p]? = some i := by
  rw [hcode, hp, List.getElem?_append_right (Nat.le_refl _), Nat.sub_self, List.getElem?_cons_zero]

theorem getElem?_piece (hcode : code = A ++ l ++ B) {k : Nat} (hk : k < l.length) :
    code[A.length + k]? = l[k]? := by
  rw [hcode, append_assoc, List.getElem?_append_right (Nat.le_add_right _ _),
    Nat.add_sub_cancel_left, List.getElem?_append_left hk]

theorem exists_piece (hcode : code = A ++ l ++ B) (hp : A.length ≤ p) (hp' : p < A.length + l.length) :
    ∃ i ∈ l, code[p]? = some i := by
  obtain ⟨k, rfl⟩ := Nat.exists_eq_add_of_le hp
  have hk : k < l.length := Nat.lt_of_add_lt_add_left hp'
  exact ⟨l[k], getElem_mem hk, (getElem?_piece hcode hk).trans (List.getElem?_eq_getElem hk)⟩

theorem Steps.of_straight (hcode : code = A ++ l ++ B) (hl : Straight l) (h : Steps code p q)
    (hp : A.length ≤ p) (hp' : p < A.length + l.length) : q = p + 1 := by
  obtain ⟨i, hmem, hi⟩ := exists_piece hcode hp hp'
  exact h.next hi (.inl (hl i hmem))

theorem getElem?_loop {label : Instruction} (hcode : code = A ++ (label :: head ++ test :: l ++ [fin]) ++ B) :
    code[A.length]? = some label ∧ code[A.length + 1 + head.length]? = some test ∧
      code[A.length + 1 + head.length + 1 + l.length]? = some fin := by
  have hlabel : code = A ++ label :: (head ++ test :: l ++ [fin] ++ B) := by simp [hcode]
  have htest : code = (A ++ label :: head) ++ test :: (l ++ [fin] ++ B) := by simp [hcode]
  have hfin : code = (A ++ label :: head ++ test :: l) ++ fin :: B := by simp [hcode]
  refine ⟨getElem?_between hlabel rfl, getElem?_between htest ?_, getElem?_between hfin ?_⟩ <;>
    simp only [length_append, length_cons] <;> omega

theorem getElem?_branch {m : List Instruction} {els : Instruction}
    (hcode : code = A ++ (head ++ test :: l ++ els :: m ++ [fin]) ++ B) :
    code[A.length + head.length]? = some test ∧ code[A.length + head.length + 1 + l.length]? = some els ∧
      code[A.length + head.length + 1 + l.length + 1 + m.length]? = some fin := by
  rw [← length_append]
  have hcode' : code = (A ++ head) ++ (test :: l ++ els :: m ++ [fin]) ++ B := by simp [hcode]
  exact getElem?_loop hcode'

theorem Steps.of_branch {S t e f : Nat} {m : List Instruction} {els : Instruction}
    (hcode : code = A ++ (head ++ test :: l ++ els :: m ++ [fin]) ++ B) (honce : MarksOnce code)
    (hhead : Straight head) (htest : test.Tests S) (hels : els.Marks .elseMark S)
    (hfin : fin.Marks .endIf S) (ht : t = A.length + head.length) (he : e = t + 1 + l.length)
    (hf : f = e + 1 + m.length) (h : Steps code p q) (hp : A.length ≤ p) (hp' : p ≤ f) :
    (p < t ∧ q = p + 1) ∨ (p = t ∧ (q = t + 1 ∨ q = e + 1)) ∨ (t < p ∧ p < e) ∨ (p = e ∧ q = f) ∨
      (e < p ∧ p < f) ∨ (p = f ∧ q = f + 1) := by
  obtain ⟨htest', hels', hfin'⟩ := getElem?_branch hcode
  rw [← ht] at htest' hels' hfin'
  rw [← he] at hels' hfin'
  rw [← hf] at hfin'
  rcases Nat.lt_trichotomy p t with hlt | rfl | hgt
  · have hpiece : code = A ++ head ++ (test :: l ++ els :: m ++ [fin] ++ B) := by simp [hcode]
    exact .inl ⟨hlt, h.of_straight hpiece hhead hp (ht ▸ hlt)⟩
  · rcases h.of_test htest' htest with rfl | ⟨e', he', rfl⟩
    · exact .inr (.inl ⟨rfl, .inl rfl⟩)
    · rw [honce.eq_of_mem hels' hels rfl he']
      exact .inr (.inl ⟨rfl, .inr rfl⟩)
  · rcases Nat.lt_trichotomy p e with hlt | rfl | hgt'
    · exact .inr (.inr (.inl ⟨hgt, hlt⟩))
    · have hq := honce.eq_of_mem hfin' hfin rfl (h.of_elseMark hels' hels)
      exact .inr (.inr (.inr (.inl ⟨rfl, hq⟩)))
    · rcases Nat.lt_or_eq_of_le hp' with hlt | rfl
      · exact .inr (.inr (.inr (.inr (.inl ⟨hgt', hlt⟩))))
      · have hq := h.next hfin' (.inr (.inl hfin.1))
        exact .inr (.inr (.inr (.inr (.inr ⟨rfl, hq⟩))))

theorem Steps.of_loop {S t f : Nat} {label : Instruction}
    (hcode : code = A ++ (label :: head ++ test :: l ++ [fin]) ++ B) (honce : MarksOnce code)
    (hlabel : label.Marks .whileLabel S) (hhead : Straight head) (htest : test.Marks .whileCondition S)
    (hfin : fin.Marks .endWhile S) (ht : t = A.length + 1 + head.length) (hf : f = t + 1 + l.length)
    (h : Steps code p q) (hp : A.length ≤ p) (hp' : p ≤ f) :
    (p < t ∧ q = p + 1) ∨ (p = t ∧ (q = t + 1 ∨ q = f + 1)) ∨ (t < p ∧ p < f) ∨ (p = f ∧ q = A.length) := by
  obtain ⟨hlabel', htest', hfin'⟩ := getElem?_loop hcode
  rw [← ht] at htest' hfin'
  rw [← hf] at hfin'
  rcases Nat.lt_trichotomy p t with hlt | rfl | hgt
  · refine .inl ⟨hlt, ?_⟩
    rcases Nat.lt_or_eq_of_le hp with hgt | rfl
    · have hpiece : code = (A ++ [label]) ++ head ++ (test :: l ++ [fin] ++ B) := by simp [hcode]
      have hlength : (A ++ [label]).length = A.length + 1 := by simp
      exact h.of_straight hpiece hhead (hlength ▸ hgt) (hlength ▸ ht ▸ hlt)
    · exact h.next hlabel' (.inr (.inr hlabel.1))
  · rcases h.of_whileCondition htest' htest with rfl | ⟨e, he, rfl⟩
    · exact .inr (.inl ⟨rfl, .inl rfl⟩)
    · rw [honce.eq_of_mem hfin' hfin rfl he]
      exact .inr (.inl ⟨rfl, .inr rfl⟩)
  · rcases Nat.lt_or_eq_of_le hp' with hlt | rfl
    · exact .inr (.inr (.inl ⟨hgt, hlt⟩))
    · have hq := honce.eq_of_mem hlabel' hlabel rfl (h.of_endWhile hfin' hfin)
      exact .inr (.inr (.inr ⟨rfl, hq⟩))

end pieces

/-! ### The bodies of programs -/

theorem filterMap_once {α β : Type} {f : α → Option β} {l : List α} (h : (l.filterMap f).Nodup)
    {p q : Nat} {x y : α} {b : β} (hx : l[p]? = some x) (hy : l[q]? = some y) (hfx : f x = some b)
    (hfy : f y = some b) : p = q := by
  induction l generalizing p q with
  | nil => cases hx
  | cons first later ih =>
    have htail : (later.filterMap f).Nodup :=
      h.sublist ((sublist_cons_self first later).filterMap f)
    -- the first entry is none of the later ones
    have hfirst : ∀ {n : Nat} {z : α}, later[n]? = some z → f z = some b → f first ≠ some b := by
      intro n z hz hfz hff
      rw [filterMap_cons_some hff] at h
      exact (nodup_cons.1 h).1 (mem_filterMap.2 ⟨z, mem_of_getElem? hz, hfz⟩)
    cases p with
    | zero =>
      cases hx
      cases q with
      | zero => rfl
      | succ q => exact absurd hfx (hfirst hy hfy)
    | succ p =>
      cases q with
      | zero =>
        cases hy
        exact absurd hfy (hfirst hx hfx)
      | succ q => exact congrArg (· + 1) (ih htail hx hy)

/-- The flow of a body, part by part. -/
def bodyFlow (body : Option Nat) : List Part → Flow
  | [] => .straight []
  | part :: later =>
      if part.header = body then .seq part.flow (bodyFlow body later) else bodyFlow body later

theorem bodyFrom_inner (h : Inner l) (body inside : Option Nat) (later : List Instruction) :
    bodyFrom body inside (l ++ later) = (if inside = body then l else []) ++ bodyFrom body inside later := by
  induction l with
  | nil => simp
  | cons i l ih =>
    obtain ⟨hi, hl⟩ := forall_mem_cons.1 h
    obtain ⟨hbegin, hend⟩ := InstructionKind.ne_of_isBound hi
    rw [cons_append, bodyFrom]
    simp only [hbegin, hend, if_false, ih hl]
    split <;> rfl

theorem Part.Lays.bodyFrom {part : Part} (h : part.Lays l) (body : Option Nat) (later : List Instruction) :
    OnePass.bodyFrom body none (l ++ later) =
      (if part.header = body then l else []) ++ OnePass.bodyFrom body none later := by
  cases h with
  | main _ hinner => exact bodyFrom_inner hinner body none later
  | @function header T entry fin l _ hentry hinner hfin =>
    rw [append_assoc, cons_append, OnePass.bodyFrom]
    simp only [hentry.1, hentry.2, if_true, reduceCtorEq, if_false]
    rw [bodyFrom_inner hinner, cons_append, nil_append, OnePass.bodyFrom]
    simp only [hfin.1, if_true, reduceCtorEq, if_false]
    split <;> simp

theorem bodyFrom_sublist (body inside : Option Nat) (code : List Instruction) :
    (bodyFrom body inside code).Sublist code := by
  induction code generalizing inside with
  | nil => exact .slnil
  | cons i code ih =>
    rw [bodyFrom]
    generalize (if i.kind = .functionBegin then some i.scope else inside) = here
    by_cases hhere : here = body
    · exact (if_pos hhere).symm ▸ (ih _).cons_cons i
    · exact (if_neg hhere).symm ▸ (ih _).cons i

theorem lays_body (h : List.Forall₂ Part.Lays parts codes) (body : Option Nat) :
    Lays (bodyFlow body parts) (bodyCode body codes.flatten) := by
  induction h with
  | nil => exact .nil
  | @cons part l parts codes hpart _ ih =>
    rw [flatten_cons, bodyCode, hpart.bodyFrom, bodyFlow]
    split
    · exact .seq hpart.flow ih
    · exact ih

theorem Composes.marksOnce_body {d : Draft} (h : Composes parts d)
    (hcodes : List.Forall₂ Part.Lays parts codes) (body : Option Nat) :
    MarksOnce (bodyCode body codes.flatten) :=
  (h.marksOnce hcodes).sublist (bodyFrom_sublist body none _)

theorem bodyCode_eq_nil (h : List.Forall₂ Part.Lays parts codes)
    (hnot : ∀ part ∈ parts, part.header ≠ some header) : bodyCode (some header) codes.flatten = [] := by
  induction h with
  | nil => rfl
  | @cons first l later codes hfirst _ ih =>
    obtain ⟨hne, hlater⟩ := forall_mem_cons.1 hnot
    rw [flatten_cons, bodyCode, hfirst.bodyFrom, if_neg hne]
    exact ih hlater

theorem inner_main (h : List.Forall₂ Part.Lays parts codes) : Inner (bodyCode none codes.flatten) := by
  induction h with
  | nil => exact fun _ hi => absurd hi not_mem_nil
  | @cons part l later codes hpart _ ih =>
    rw [flatten_cons, bodyCode, hpart.bodyFrom]
    cases hpart with
    | main _ hinner => exact hinner.append ih
    | function => exact ih

theorem bodyCode_function (h : List.Forall₂ Part.Lays parts codes)
    (hnodup : (parts.filterMap Part.header).Nodup) {part : Part} (hpart : part ∈ parts)
    (hheader : part.header = some header) : part.Lays (bodyCode (some header) codes.flatten) := by
  induction h with
  | nil => cases hpart
  | @cons first l later codes hfirst hlater ih =>
    have hother : ∀ part ∈ later, first.header = some header → part.header ≠ some header := by
      intro part hpart hfirst heq
      rw [filterMap_cons_some hfirst] at hnodup
      exact (nodup_cons.1 hnodup).1 (mem_filterMap.2 ⟨part, hpart, heq⟩)
    rw [flatten_cons, bodyCode, hfirst.bodyFrom]
    rcases mem_cons.1 hpart with rfl | hpart
    · have hnil : bodyFrom (some header) none codes.flatten = [] :=
        bodyCode_eq_nil hlater fun part hpart => hother part hpart hheader
      rw [if_pos hheader, hnil, append_nil]
      exact hfirst
    · rw [if_neg fun heq => hother part hpart heq hheader]
      exact ih (hnodup.sublist ((sublist_cons_self _ _).filterMap _)) hpart

theorem bodyCode_bounds (h : List.Forall₂ Part.Lays parts codes)
    (hnodup : (parts.filterMap Part.header).Nodup) : bodyCode (some header) codes.flatten = [] ∨
      ∃ entry l fin, bodyCode (some header) codes.flatten = entry :: l ++ [fin] ∧
        entry.Marks .functionBegin header ∧ Inner l ∧ fin.Marks .functionEnd header := by
  by_cases hpart : ∃ part ∈ parts, part.header = some header
  · obtain ⟨part, hpart, hheader⟩ := hpart
    have hlays := bodyCode_function h hnodup hpart hheader
    generalize bodyCode (some header) codes.flatten = code at hlays ⊢
    cases hlays with
    | main => cases hheader
    | function _ hentry hinner hfin =>
      cases hheader
      exact .inr ⟨_, _, _, rfl, hentry, hinner, hfin⟩
  · exact .inl (bodyCode_eq_nil h fun part hpart' hheader => hpart ⟨part, hpart', hheader⟩)

/-- The header of the function that begins with an instruction. -/
def Instruction.begins? (i : Instruction) : Option Nat :=
  if i.kind = .functionBegin then some i.scope else none

theorem Inner.begins (h : Inner l) : l.filterMap Instruction.begins? = [] :=
  filterMap_eq_nil_iff.2 fun i hi => if_neg (InstructionKind.ne_of_isBound (h i hi)).1

theorem begins_flatten (h : List.Forall₂ Part.Lays parts codes) :
    codes.flatten.filterMap Instruction.begins? = parts.filterMap Part.header := by
  induction h with
  | nil => rfl
  | @cons part l later codes hpart _ ih =>
    rw [flatten_cons, filterMap_append, ih]
    cases hpart with
    | main _ hinner =>
      rw [hinner.begins]
      rfl
    | @function header _ entry fin l _ hentry hinner hfin =>
      have hfirst : entry.begins? = some header := by
        rw [Instruction.begins?, if_pos hentry.1, hentry.2]
      have hlast : fin.begins? = none := if_neg (by rw [hfin.1]; exact InstructionKind.noConfusion)
      rw [filterMap_append, filterMap_cons_some hfirst, hinner.begins,
        filterMap_cons_none hlast]
      rfl

theorem Composes.begins_nodup {d : Draft} (h : Composes parts d)
    (hcodes : List.Forall₂ Part.Lays parts codes) :
    (codes.flatten.filterMap Instruction.begins?).Nodup := by
  refine pairwise_filterMap.2 ((h.marksOnce hcodes).imp fun {i j} hne H hi H' hj heq => ?_)
  unfold Instruction.begins? at hi hj
  split at hi <;> cases hi
  split at hj <;> cases hj
  rename_i hkind hkind'
  exact hne (by rw [hkind]; rfl) (by rw [hkind']; rfl) heq (by rw [hkind, hkind'])

theorem Composes.headers_nodup {d : Draft} (h : Composes parts d)
    (hcodes : List.Forall₂ Part.Lays parts codes) : (parts.filterMap Part.header).Nodup :=
  begins_flatten hcodes ▸ h.begins_nodup hcodes

theorem exists_part (h : List.Forall₂ Part.Lays parts codes) (hi : i ∈ codes.flatten)
    (hmarks : i.Marks .functionBegin header) : ∃ part ∈ parts, part.header = some header := by
  induction h with
  | nil => cases hi
  | @cons part l later codes hpart _ ih =>
    rw [flatten_cons] at hi
    rcases mem_append.1 hi with hi | hi
    · refine ⟨part, mem_cons_self, ?_⟩
      cases hpart with
      | main _ hinner =>
        have hbound := hinner i hi
        rw [hmarks.1] at hbound
        cases hbound
      | function _ hentry hinner hfin =>
        rcases mem_append.1 hi with hi | hi
        · rcases mem_cons.1 hi with rfl | hi
          · rw [← hentry.2, hmarks.2]
          · have hbound := hinner i hi
            rw [hmarks.1] at hbound
            cases hbound
        · rw [mem_singleton.1 hi] at hmarks
          cases hmarks.1.symm.trans hfin.1
    · obtain ⟨part, hpart, hheader⟩ := ih hi
      exact ⟨part, mem_cons_of_mem _ hpart, hheader⟩

end OnePass
