import OnePass.Proofs.Calls
import OnePass.Proofs.Functions

/-!
# Balanced code

Every statement leaves the data stack as it finds it.  The code of a program is read from its beginning
to its end, and the number of values on the stack is counted on the way: a call takes the arguments of
its function and leaves a result if the function has one, and a function begins with its arguments.

Whether a call leaves a result is not known where its code is written, so the numbers of arguments and
results are those of the finished program, and the drops that are taken out in the end count as gone.

Main results:

* `Composes.balanced` — **the code of a program that agrees with a signature is balanced**.
-/

namespace OnePass

open List

/-- How many values functions take and how many they leave, by their names. -/
structure Signature where
  arity : String → Nat
  results : String → Nat

/-- The state of the count: the function that the code is in, whether it is still taking its parameters,
and the number of values on the stack. -/
structure Count where
  inside : Option String
  taking : Bool
  level : Nat

/-- The count at the beginning. -/
def Count.start : Count := ⟨none, false, 0⟩

/-- The instructions that complete a statement, or open or close a block. -/
def InstructionKind.completes : InstructionKind → Bool
  | programStart | defineVariable | popVariable | discardResult | write | returnValue | ifCondition
  | ifLetCondition | elseMark | endIf | whileLabel | whileCondition | endWhile | functionEnd => true
  | _ => false

namespace Signature

variable (σ : Signature)

/-- How many values an instruction takes in a function. A return takes the result of the function. -/
def takes (inside : Option String) (i : Instruction) : Nat :=
  match i.kind with
  | .call => (i.name?.map σ.arity).getD 0
  | .returnValue => (inside.map σ.results).getD 0
  | kind => kind.takes

/-- How many values an instruction leaves. -/
def leaves (i : Instruction) : Nat :=
  match i.kind with
  | .call => (i.name?.map σ.results).getD 0
  | kind => kind.leaves

/-- An instruction completes a statement, or opens or closes a block. A call does if it leaves nothing. -/
def completes (i : Instruction) : Prop :=
  i.kind.completes ∨ i.kind = .call ∧ σ.leaves i = 0

/-- The count behind an instruction. -/
def next (s : Count) (i : Instruction) : Count :=
  match i.kind with
  | .functionBegin => ⟨i.name?, true, (i.name?.map σ.arity).getD 0⟩
  | .functionEnd => ⟨none, false, s.level⟩
  | .paramPop => ⟨s.inside, s.taking, s.level - 1⟩
  | _ => ⟨s.inside, false, s.level - σ.takes s.inside i + σ.leaves i⟩

/-- An instruction finds what it takes, and nothing is left where a statement is complete. -/
structure Admits (s : Count) (i : Instruction) : Prop where
  enough : σ.takes s.inside i ≤ s.level
  begins : i.kind = .functionBegin → s.inside = none ∧ s.level = 0 ∧ i.name?.isSome
  pops : i.kind = .paramPop → s.taking
  taken : s.taking → i.kind ≠ .paramPop → s.level = 0
  returns : i.kind = .returnValue → s.inside.isSome
  complete : σ.completes i → (σ.next s i).level = 0

/-- Code leads from one count to another. -/
inductive Leads : Count → List Instruction → Count → Prop where
  | nil (s : Count) : Leads s [] s
  | cons {s s' : Count} {i : Instruction} {code : List Instruction} (hi : σ.Admits s i)
      (hcode : Leads (σ.next s i) code s') : Leads s (i :: code) s'

end Signature

namespace Signature.Leads

variable {σ : Signature} {s s₁ s₂ : Count} {i : Instruction} {code code' : List Instruction}

theorem single (h : σ.Admits s i) : σ.Leads s [i] (σ.next s i) := .cons h (.nil _)

theorem append (h : σ.Leads s code s₁) (h' : σ.Leads s₁ code' s₂) : σ.Leads s (code ++ code') s₂ := by
  induction h with
  | nil => exact h'
  | cons hi _ ih => exact .cons hi (ih h')

theorem split (h : σ.Leads s (code ++ code') s₂) : ∃ s₁, σ.Leads s code s₁ ∧ σ.Leads s₁ code' s₂ := by
  induction code generalizing s with
  | nil => exact ⟨s, .nil s, h⟩
  | cons i code ih =>
    cases h with
    | cons hi hcode =>
      obtain ⟨s₁, hfirst, hsecond⟩ := ih hcode
      exact ⟨s₁, .cons hi hfirst, hsecond⟩

theorem unique (h : σ.Leads s code s₁) (h' : σ.Leads s code s₂) : s₁ = s₂ := by
  induction h with
  | nil => cases h'; rfl
  | cons _ _ ih =>
    cases h' with
    | cons _ hcode => exact ih hcode

end Signature.Leads

theorem Becoming.leads {σ : Signature} {s s' : Count} {code code' : List Instruction}
    (h : Becoming code code') (hleads : σ.Leads s code s') : σ.Leads s code' s' := by
  induction h generalizing s with
  | nil => exact hleads
  | @cons i j code code' hi _ ih =>
    obtain ⟨hkind, -, -, -, hname⟩ := hi.fields
    have htakes : ∀ inside, σ.takes inside j = σ.takes inside i := fun inside => by
      simp only [Signature.takes, hkind, hname]
    have hleaves : σ.leaves j = σ.leaves i := by simp only [Signature.leaves, hkind, hname]
    have hnext : σ.next s j = σ.next s i := by
      simp only [Signature.next, hkind, hname, htakes, hleaves]
    cases hleads with
    | cons hadmits hrest =>
      obtain ⟨henough, hbegins, hpops, htaken, hreturns, hcomplete⟩ := hadmits
      refine .cons ⟨htakes _ ▸ henough, ?_, ?_, ?_, ?_, ?_⟩ (hnext ▸ ih hrest)
      · rw [hkind, hname]
        exact hbegins
      · rw [hkind]
        exact hpops
      · rw [hkind]
        exact htaken
      · rw [hkind]
        exact hreturns
      · rw [Signature.completes, hkind, hleaves, hnext]
        exact hcomplete

/-! ### Instructions one by one -/

/-- The instructions whose effect on the stack depends on no function. -/
def InstructionKind.isOrdinary : InstructionKind → Bool
  | call | returnValue | functionBegin | functionEnd | paramPop => false
  | _ => true

theorem InstructionKind.ordinary_of_leaves {kind : InstructionKind} (h : kind.leaves = 1) :
    kind.isOrdinary ∧ kind.completes = false := by
  revert h
  cases kind <;> simp [leaves, isOrdinary, completes]

namespace Signature

variable {σ : Signature} {i : Instruction} {inside : Option String} {taking : Bool} {level : Nat}

theorem effect_of_ordinary (h : i.kind.isOrdinary) : σ.takes inside i = i.kind.takes ∧
    (σ.completes i ↔ i.kind.completes) ∧
    σ.next ⟨inside, taking, level⟩ i = ⟨inside, false, level - i.kind.takes + i.kind.leaves⟩ := by
  unfold completes next leaves takes
  revert h
  cases i.kind <;> simp [InstructionKind.isOrdinary]

theorem Leads.ordinary {high : Nat} (hkind : i.kind.isOrdinary) (hlift : i.lift? level = some high)
    (htaking : taking → level = 0) (hcomplete : i.kind.completes → high = 0) :
    σ.Leads ⟨inside, taking, level⟩ [i] ⟨inside, false, high⟩ := by
  obtain ⟨htakes, hcompletes, hnext⟩ := @effect_of_ordinary σ i inside taking level hkind
  unfold Instruction.lift? at hlift
  split at hlift <;> cases hlift
  rename_i hle
  rw [← hnext]
  refine .single ⟨htakes ▸ hle, ?_, ?_, fun h _ => htaking h, ?_, fun h => ?_⟩
  · exact fun h => by rw [h] at hkind; cases hkind
  · exact fun h => by rw [h] at hkind; cases hkind
  · exact fun h => by rw [h] at hkind; cases hkind
  · rw [hnext]
    exact hcomplete (hcompletes.1 h)

theorem Leads.computing {code : List Instruction} {high : Nat} (h : ∀ i ∈ code, i.kind.leaves = 1)
    (hlevel : level? level code = some high) (htaking : taking → level = 0) :
    ∃ taking', σ.Leads ⟨inside, taking, level⟩ code ⟨inside, taking', high⟩ ∧ (taking' → high = 0) := by
  induction code generalizing taking level with
  | nil =>
    cases hlevel
    exact ⟨taking, .nil _, htaking⟩
  | cons i code ih =>
    obtain ⟨mid, hmid, hrest⟩ := Option.bind_eq_some_iff.1 hlevel
    obtain ⟨hi, hcode⟩ := forall_mem_cons.1 h
    obtain ⟨hordinary, hcompletes⟩ := InstructionKind.ordinary_of_leaves hi
    obtain ⟨taking', hleads, htaking'⟩ := @ih false mid hcode hrest Bool.noConfusion
    have hfirst : σ.Leads ⟨inside, taking, level⟩ [i] ⟨inside, false, mid⟩ :=
      .ordinary hordinary hmid htaking fun hsome => by cases hcompletes.symm.trans hsome
    exact ⟨taking', hfirst.append hleads, htaking'⟩

end Signature

/-! ### Pieces of code -/

/-- A piece of code leads from an empty stack to an empty stack, without the drops that are gone. -/
structure Signature.Balances (σ : Signature) (gone : Nat → Bool) (inside : Option String)
    (code : List Instruction) (inside' : Option String) : Prop where
  head : ∀ i ∈ code.head?, i.kind ≠ .discardResult
  leads : ∀ taking, ∃ taking', σ.Leads ⟨inside, taking, 0⟩ (pare gone code) ⟨inside', taking', 0⟩

section balances

variable {σ : Signature} {gone : Nat → Bool} {inside inside' : Option String} {d d' : Draft}
  {code : List Instruction} {i : Instruction} {level : Nat}

theorem Quiet.balances (h : Quiet code)
    (hleads : ∀ taking, ∃ taking', σ.Leads ⟨inside, taking, 0⟩ code ⟨inside', taking', 0⟩) :
    σ.Balances gone inside code inside' where
  head i hi := (h i (mem_of_mem_head? hi)).2
  leads taking := by
    rw [pare_of_quiet h]
    exact hleads taking

theorem Signature.Balances.append {between : Option String} {code' : List Instruction}
    (h : σ.Balances gone inside code between) (h' : σ.Balances gone between code' inside') :
    σ.Balances gone inside (code ++ code') inside' where
  head i hi := by
    rw [List.head?_append, Option.mem_def, Option.or_eq_some_iff] at hi
    rcases hi with hi | ⟨-, hi⟩
    · exact h.head i hi
    · exact h'.head i hi
  leads taking := by
    obtain ⟨taking₁, hleads⟩ := h.leads taking
    obtain ⟨taking₂, hleads'⟩ := h'.leads taking₁
    rw [pare_append h'.head]
    exact ⟨taking₂, hleads.append hleads'⟩

theorem Draft.Plains.leads (h : d.Plains code level) (σ : Signature) (inside : Option String)
    (taking : Bool) :
    ∃ taking', σ.Leads ⟨inside, taking, 0⟩ code ⟨inside, taking', level⟩ ∧ (taking' → level = 0) :=
  Signature.Leads.computing (fun i hi => (h.computes i hi).leaves) h.level fun _ => rfl

theorem Draft.Plains.balances (h : d.Plains code i.kind.takes) (hkind : i.kind.isOrdinary)
    (hleaves : i.kind.leaves = 0) (hquiet : Quiet [i]) : σ.Balances gone inside (code ++ [i]) inside := by
  refine (h.quiet.append hquiet).balances fun taking => ?_
  obtain ⟨taking', hleads, htaking'⟩ := h.leads σ inside taking
  refine ⟨false, hleads.append (.ordinary hkind ?_ htaking' fun _ => rfl)⟩
  rw [Instruction.lift?, if_pos (Nat.le_refl _), Nat.sub_self, hleaves]

theorem balances_of_idle (h : ∀ i ∈ code, i.kind.isOrdinary ∧ i.kind.takes = 0 ∧ i.kind.leaves = 0)
    (hquiet : Quiet code) : σ.Balances gone inside code inside := by
  refine hquiet.balances fun taking => ?_
  clear hquiet
  induction code generalizing taking with
  | nil => exact ⟨taking, .nil _⟩
  | cons i code ih =>
    obtain ⟨⟨hkind, htakes, hleaves⟩, hcode⟩ := forall_mem_cons.1 h
    obtain ⟨taking', hleads⟩ := ih hcode false
    have hlift : i.lift? 0 = some 0 := by
      rw [Instruction.lift?, htakes, hleaves]
      rfl
    exact ⟨taking', (Signature.Leads.ordinary hkind hlift (fun _ => rfl) fun _ => rfl).append hleads⟩

theorem Draft.Heads.balances {kind : ScopeKind} (h : d.Heads kind code) :
    σ.Balances gone inside code inside := by
  cases h with
  | @conditional head test hhead htest =>
    refine hhead.balances ?_ ?_ ?_
    all_goals rcases htest.tests with ⟨hkind, -⟩ | ⟨hkind, -⟩
    all_goals first | exact quiet_of_kind hkind nofun nofun | (rw [hkind]; rfl)
  | @loop head label test hlabel hhead htest =>
    have hfirst : σ.Balances gone inside [label] inside := by
      refine balances_of_idle (forall_mem_singleton.2 ?_) (quiet_of_kind hlabel.1 nofun nofun)
      rw [hlabel.1]
      exact ⟨rfl, rfl, rfl⟩
    have hrest : σ.Balances gone inside (head ++ [test]) inside := by
      refine hhead.balances ?_ ?_ (quiet_of_kind htest.1 nofun nofun) <;> rw [htest.1] <;> rfl
    exact hfirst.append hrest

theorem Ends.balances {kind : ScopeKind} {scope : Nat} (h : Ends kind scope code) :
    σ.Balances gone inside code inside := by
  refine balances_of_idle (fun i hi => ?_) h.quiet
  have hend := (h i hi).1
  revert hend
  cases i.kind <;>
    simp [InstructionKind.ends?, InstructionKind.isOrdinary, InstructionKind.takes, InstructionKind.leaves]

end balances

/-! ### Calls -/

/-- A recorded call agrees with a signature: it passes the right number of arguments, and its result is
received or dropped if there is one. -/
structure CallSite.Signed (σ : Signature) (gone : Nat → Bool) (site : CallSite) : Prop where
  written : Builtin.isVariadic site.name → site.target = none
  passed : Builtin.isVariadic site.name = false → site.arguments.length = σ.arity site.name
  received : Builtin.isVariadic site.name = false → site.target.isSome → σ.results site.name = 1
  dropped : Builtin.isVariadic site.name = false → site.scaffolded →
    σ.results site.name = if gone site.callId then 0 else 1

section calls

variable {σ : Signature} {gone : Nat → Bool} {inside : Option String} {taking : Bool} {d : Draft}
  {site : CallSite} {arguments : List Argument} {code after : List Instruction} {i : Instruction}

theorem Signature.Leads.call {name : String} (hkind : i.kind = .call) (hname : i.name? = some name)
    (htaking : taking → σ.arity name = 0) :
    σ.Leads ⟨inside, taking, σ.arity name⟩ [i] ⟨inside, false, σ.results name⟩ := by
  have htakes : σ.takes inside i = σ.arity name := by simp [Signature.takes, hkind, hname]
  have hleaves : σ.leaves i = σ.results name := by simp [Signature.leaves, hkind, hname]
  have hnext : σ.next ⟨inside, taking, σ.arity name⟩ i = ⟨inside, false, σ.results name⟩ := by
    simp [Signature.next, hkind, htakes, hleaves]
  rw [← hnext]
  refine .single ⟨Nat.le_of_eq htakes, ?_, ?_, fun h _ => htaking h, ?_, fun h => ?_⟩
  · exact fun h => by cases hkind.symm.trans h
  · exact fun h => by cases hkind.symm.trans h
  · exact fun h => by cases hkind.symm.trans h
  · rw [hnext]
    rcases h with h | ⟨-, h⟩
    · rw [hkind] at h
      cases h
    · exact hleaves.symm.trans h

theorem Draft.Pushes.leaves {argument : Argument} (h : d.Pushes argument i) :
    i.kind.leaves = 1 ∧ i.kind.takes = 0 := by
  cases h with
  | literal _ hkind => rw [hkind]; exact ⟨rfl, rfl⟩
  | «variable» _ hkind => rw [hkind]; exact ⟨rfl, rfl⟩

theorem Draft.Pushes.lift? {argument : Argument} (h : d.Pushes argument i) (level : Nat) :
    i.lift? level = some (level + 1) := by
  obtain ⟨hleaves, htakes⟩ := h.leaves
  rw [Instruction.lift?, htakes, hleaves]
  exact if_pos (Nat.zero_le _)

theorem Draft.Passes.level? (h : d.Passes false arguments code) (level : Nat) :
    OnePass.level? level code = some (level + arguments.length) := by
  induction h generalizing level with
  | nil => rfl
  | push _ hpush _ ih =>
    rw [OnePass.level?, hpush.lift?, Option.bind_some, ih, length_cons]
    exact congrArg some (by omega)
  | write hvariadic => cases hvariadic

theorem Draft.Passes.leads (h : d.Passes false arguments code) (σ : Signature)
    (inside : Option String) (taking : Bool) :
    ∃ taking', σ.Leads ⟨inside, taking, 0⟩ code ⟨inside, taking', arguments.length⟩ ∧
      (taking' → arguments.length = 0) := by
  have hleaves : ∀ i ∈ code, i.kind.leaves = 1 := by
    induction h with
    | nil => exact forall_mem_nil _
    | push _ hpush _ ih => exact forall_mem_cons.2 ⟨hpush.leaves.1, ih⟩
    | write hvariadic => cases hvariadic
  exact Signature.Leads.computing hleaves ((h.level? 0).trans (by rw [Nat.zero_add])) fun _ => rfl

theorem Draft.Passes.leads_written (h : d.Passes true arguments code) (taking : Bool) :
    ∃ taking', σ.Leads ⟨inside, taking, 0⟩ code ⟨inside, taking', 0⟩ := by
  induction h generalizing taking with
  | nil => exact ⟨taking, .nil _⟩
  | push hvariadic => cases hvariadic
  | @write argument arguments push write code _ hpush hkind _ ih =>
    obtain ⟨hordinary, hcompletes⟩ := InstructionKind.ordinary_of_leaves hpush.leaves.1
    have hfirst : σ.Leads ⟨inside, taking, 0⟩ [push] ⟨inside, false, 1⟩ :=
      .ordinary hordinary (hpush.lift? 0) (fun _ => rfl) fun h => by cases hcompletes.symm.trans h
    have hlift : write.lift? 1 = some 0 := by
      rw [Instruction.lift?, hkind]
      rfl
    have hsecond : σ.Leads ⟨inside, false, 1⟩ [write] ⟨inside, false, 0⟩ :=
      .ordinary (by rw [hkind]; rfl) hlift Bool.noConfusion fun _ => rfl
    obtain ⟨taking', hrest⟩ := ih false
    exact ⟨taking', hfirst.append (hsecond.append hrest)⟩

theorem Draft.Passes.balances (h : d.Passes false arguments code)
    (hhead : ∀ i ∈ after.head?, i.kind ≠ .discardResult)
    (hafter : ∀ taking : Bool, (taking → arguments.length = 0) →
      ∃ taking', σ.Leads ⟨inside, taking, arguments.length⟩ (pare gone after) ⟨inside, taking', 0⟩) :
    σ.Balances gone inside (code ++ after) inside where
  head i hi := by
    rw [List.head?_append, Option.mem_def, Option.or_eq_some_iff] at hi
    rcases hi with hi | ⟨-, hi⟩
    · exact (quiet_of_plain h.plain i (mem_of_mem_head? hi)).2
    · exact hhead i hi
  leads taking := by
    obtain ⟨taking₁, hpushes, htaking₁⟩ := h.leads σ inside taking
    obtain ⟨taking₂, hrest⟩ := hafter taking₁ htaking₁
    rw [(quiet_of_plain h.plain).pare_append]
    exact ⟨taking₂, hpushes.append hrest⟩

theorem Draft.Calling.balances (h : d.Calling site code) (hafter : d.Receives site after)
    (hsite : site.Signed σ gone) (hvoid : d.Results site.name .void → σ.results site.name = 0) :
    σ.Balances gone inside (code ++ after) inside := by
  have hcalls : ∀ {call : Instruction} {taking : Bool}, call.Invokes site →
      Builtin.isVariadic site.name = false → (taking → site.arguments.length = 0) →
      σ.Leads ⟨inside, taking, site.arguments.length⟩ [call] ⟨inside, false, σ.results site.name⟩ := by
    intro call taking hcall hvariadic htaking
    rw [hsite.passed hvariadic] at htaking ⊢
    exact .call hcall.1 hcall.2.1 htaking
  have hother : ∀ {call : Instruction}, call.Invokes site → call.kind ≠ .discardResult :=
    fun hcall => by rw [hcall.1]; exact InstructionKind.noConfusion
  cases h with
  | written hvariadic _ hcode =>
    cases hafter with
    | none =>
      rw [append_nil]
      exact (quiet_of_plain hcode.plain).balances hcode.leads_written
    | store htarget =>
      rw [hsite.written hvariadic] at htarget
      cases htarget
  | @kept pushes call hvariadic _ hpushes hcall hresult =>
    rw [append_assoc]
    refine hpushes.balances (fun i hi => ?_) fun taking htaking => ?_
    · cases Option.mem_some.1 hi
      exact hother hcall
    · cases hafter with
      | none htarget =>
        have hleads := hcalls hcall hvariadic htaking
        rw [hvoid (hresult htarget)] at hleads
        exact ⟨false, hleads⟩
      | @store pop htarget hpop =>
        have hleads := hcalls hcall hvariadic htaking
        rw [hsite.received hvariadic htarget] at hleads
        have hlift : pop.lift? 1 = some 0 := by
          rw [Instruction.lift?, hpop.kind]
          rfl
        have hpare : pare gone ([call] ++ [pop]) = [call] ++ [pop] :=
          pare_cons_of_head fun j hj => by
            cases Option.mem_some.1 hj
            rw [hpop.kind]
            exact InstructionKind.noConfusion
        rw [hpare]
        exact ⟨false, hleads.append (.ordinary (by rw [hpop.kind]; rfl) hlift Bool.noConfusion fun _ => rfl)⟩
  | @dropped pushes call drop hvariadic hdropped htarget hpushes hcall hdrop =>
    cases hafter with
    | store hsome =>
      rw [htarget] at hsome
      cases hsome
    | none =>
      rw [append_nil]
      refine hpushes.balances (fun i hi => ?_) fun taking htaking => ?_
      · cases Option.mem_some.1 hi
        exact hother hcall
      · have hleads := hcalls hcall hvariadic htaking
        rw [hsite.dropped hvariadic hdropped] at hleads
        rw [pare]
        by_cases hgone : gone site.callId
        · rw [if_pos hgone] at hleads
          rw [if_pos ⟨hcall.1, hcall.2.2 ▸ hgone, hdrop⟩]
          exact ⟨false, hleads⟩
        · rw [if_neg hgone] at hleads
          rw [if_neg fun h => hgone (hcall.2.2 ▸ h.2.1)]
          have hlift : drop.lift? 1 = some 0 := by
            rw [Instruction.lift?, hdrop]
            rfl
          exact ⟨false, hleads.append (.ordinary (by rw [hdrop]; rfl) hlift Bool.noConfusion fun _ => rfl)⟩

end calls

/-! ### Functions -/

section functions

variable {σ : Signature} {gone : Nat → Bool} {taking : Bool} {i : Instruction} {name : String}

theorem Signature.Leads.giveBack (hkind : i.kind = .returnValue) (htaking : taking → σ.results name = 0) :
    σ.Leads ⟨some name, taking, σ.results name⟩ [i] ⟨some name, false, 0⟩ := by
  have htakes : σ.takes (some name) i = σ.results name := by simp [Signature.takes, hkind]
  have hleaves : σ.leaves i = 0 := by simp [Signature.leaves, hkind, InstructionKind.leaves]
  have hnext : σ.next ⟨some name, taking, σ.results name⟩ i = ⟨some name, false, 0⟩ := by
    simp [Signature.next, hkind, htakes, hleaves]
  rw [← hnext]
  refine .single ⟨Nat.le_of_eq htakes, ?_, ?_, fun h _ => htaking h, fun _ => rfl, fun _ => ?_⟩
  · exact fun h => by cases hkind.symm.trans h
  · exact fun h => by cases hkind.symm.trans h
  · rw [hnext]

theorem Signature.Leads.pops {pops : List Instruction} (h : ∀ i ∈ pops, i.kind = .paramPop) :
    σ.Leads ⟨some name, true, pops.length⟩ pops ⟨some name, true, 0⟩ := by
  induction pops with
  | nil => exact .nil _
  | cons i pops ih =>
    obtain ⟨hi, hpops⟩ := forall_mem_cons.1 h
    have htakes : σ.takes (some name) i = 1 := by simp [Signature.takes, hi, InstructionKind.takes]
    have hnext : σ.next ⟨some name, true, (i :: pops).length⟩ i = ⟨some name, true, pops.length⟩ := by
      simp [Signature.next, hi]
    refine .cons ⟨?_, ?_, fun _ => rfl, fun _ hne => absurd hi hne, ?_, fun hcomplete => ?_⟩
      (hnext ▸ ih hpops)
    · rw [htakes]
      exact Nat.succ_le_succ (Nat.zero_le _)
    · exact fun h => by cases hi.symm.trans h
    · exact fun h => by cases hi.symm.trans h
    · rcases hcomplete with hcomplete | ⟨hcall, -⟩
      · rw [hi] at hcomplete
        cases hcomplete
      · cases hi.symm.trans hcall

theorem Pops.balances {header : Nat} {params : List (String × Ty)} {entry : Instruction}
    {pops : List Instruction} (hpops : Pops header params pops)
    (hentry : entry.Bounds .functionBegin header name) (harity : params.length = σ.arity name) :
    σ.Balances gone none (entry :: pops) (some name) := by
  refine Quiet.balances ((quiet_of_kind hentry.1.1 nofun nofun).append hpops.quiet) fun taking => ?_
  have hlength : σ.arity name = pops.length := by
    have hnames := congrArg List.length hpops.1
    simp only [length_map, length_reverse] at hnames
    exact harity.symm.trans hnames.symm
  have hnext : σ.next ⟨none, taking, 0⟩ entry = ⟨some name, true, pops.length⟩ := by
    simp [Signature.next, hentry.1.1, hentry.2, hlength]
  have htakes : σ.takes none entry = 0 := by simp [Signature.takes, hentry.1.1, InstructionKind.takes]
  refine ⟨true, .cons ⟨Nat.le_of_eq htakes, fun _ => ⟨rfl, rfl, ?_⟩, ?_, fun _ _ => rfl, ?_,
    fun hcomplete => ?_⟩ (hnext ▸ .pops fun i hi => (hpops.2 i hi).1)⟩
  · rw [hentry.2]
    rfl
  · exact fun h => by cases hentry.1.1.symm.trans h
  · exact fun h => by cases hentry.1.1.symm.trans h
  · rcases hcomplete with hcomplete | ⟨hcall, -⟩
    · rw [hentry.1.1] at hcomplete
      cases hcomplete
    · cases hentry.1.1.symm.trans hcall

theorem balances_functionEnd {inside : Option String} (hkind : i.kind = .functionEnd) :
    σ.Balances gone inside [i] none := by
  refine (quiet_of_kind hkind nofun nofun).balances fun taking => ⟨false, ?_⟩
  have hnext : σ.next ⟨inside, taking, 0⟩ i = ⟨none, false, 0⟩ := by simp [Signature.next, hkind]
  have htakes : σ.takes inside i = 0 := by simp [Signature.takes, hkind, InstructionKind.takes]
  rw [← hnext]
  refine .single ⟨Nat.le_of_eq htakes, ?_, ?_, fun _ _ => rfl, ?_, fun _ => by rw [hnext]⟩
  · exact fun h => by cases hkind.symm.trans h
  · exact fun h => by cases hkind.symm.trans h
  · exact fun h => by cases hkind.symm.trans h

end functions

/-! ### Drafts -/

namespace Draft

/-- The name of the function around. -/
def inside? (d : Draft) : Option String := d.function?.map fun header => (d.outlines header).name

/-- A draft agrees with a signature. -/
structure Signed (σ : Signature) (gone : Nat → Bool) (d : Draft) : Prop where
  results : ∀ name returns, d.Results name returns → σ.results name = if returns = .void then 0 else 1
  headers : ∀ id < d.size, (d.outlines id).kind = .functionHeader →
    (d.outlines id).parameters = σ.arity (d.outlines id).name
  sites : ∀ site ∈ d.calls.recorded, site.Signed σ gone

/-- The code of a draft is balanced. -/
def Balanced (σ : Signature) (gone : Nat → Bool) (d : Draft) : Prop :=
  ∃ taking, σ.Leads .start (pare gone d.code) ⟨d.inside?, taking, 0⟩

variable {σ : Signature} {gone : Nat → Bool} {d d' : Draft} {code : List Instruction}

theorem Signed.of_extends (h : d'.Signed σ gone) (hd : d.Formed) (hextends : d.Extends d')
    (hcalls : d.calls.recorded ⊆ d'.calls.recorded) : d.Signed σ gone where
  results name returns hresults := by
    obtain ⟨builtin, hrole⟩ := hresults
    exact h.results name returns ⟨builtin, hextends.names _ hd.size_pos hrole⟩
  headers id hid hkind := by
    obtain ⟨hkind', hname, -, hparameters⟩ := hextends.fixed id hid
    rw [← hparameters, ← hname]
    exact h.headers id (Nat.lt_of_lt_of_le hid hextends.size_le) (hkind'.trans hkind)
  sites site hsite := h.sites site (hcalls hsite)

theorem inside?_of_extends (hd : d.Formed) (hextends : d.Extends d') (hfunction : d'.function? = d.function?) :
    d'.inside? = d.inside? := by
  rw [inside?, inside?, hfunction]
  cases hheader : d.function? with
  | none => rfl
  | some header =>
    have hmem : header ∈ d.ancestors d.current := mem_of_find?_eq_some hheader
    have hlt : header < d.size :=
      Nat.lt_of_le_of_lt (le_of_mem_ancestorsBy hd.rooted hmem) hd.current_lt
    exact congrArg some (hextends.fixed header hlt).2.1

theorem Balanced.write {inside : Option String} (h : d.Balanced σ gone)
    (hcode : d'.code = d.code ++ code) (hbalances : σ.Balances gone d.inside? code inside)
    (hinside : d'.inside? = inside) : d'.Balanced σ gone := by
  obtain ⟨taking, hleads⟩ := h
  obtain ⟨taking', hleads'⟩ := hbalances.leads taking
  refine ⟨taking', ?_⟩
  rw [hcode, pare_append hbalances.head, hinside]
  exact hleads.append hleads'

theorem Balanced.insert {pre post : List Instruction} {define label : Instruction} {loop : Nat}
    (h : d.Balanced σ gone) (hcode : d.code = pre ++ label :: post)
    (hlabel : label.Marks .whileLabel loop) (hdefine : define.kind = .defineVariable)
    (hcode' : d'.code = pre ++ define :: label :: post) (hinside : d'.inside? = d.inside?) :
    d'.Balanced σ gone := by
  obtain ⟨taking, hleads⟩ := h
  refine ⟨taking, ?_⟩
  have hpare : ∀ {i : Instruction} {code : List Instruction}, i.kind ≠ .discardResult →
      pare gone (pre ++ i :: code) = pare gone pre ++ pare gone (i :: code) := fun hne =>
    pare_append (fun j hj => by cases Option.mem_some.1 hj; exact hne) _
  have hlabel' : label.kind ≠ .discardResult := hlabel.kind_ne (by decide)
  rw [hcode, hpare hlabel', pare_cons_of_ne_call (hlabel.kind_ne (by decide))] at hleads
  rw [hcode', hinside, hpare (by rw [hdefine]; decide), pare_cons_of_ne_call (by rw [hdefine]; decide),
    pare_cons_of_ne_call (hlabel.kind_ne (by decide))]
  obtain ⟨⟨inside, taking₁, level⟩, hfirst, hsecond⟩ := hleads.split
  cases hsecond with
  | cons hi hrest =>
    -- nothing is on the stack at a label
    have hordinary : label.kind.isOrdinary := by rw [hlabel.1]; rfl
    obtain ⟨-, hcompletes, hnext⟩ := @Signature.effect_of_ordinary σ label inside taking₁ level hordinary
    have hlevel : level = 0 := by
      have hcomplete := hi.complete (hcompletes.2 (by rw [hlabel.1]; rfl))
      rw [hnext, hlabel.1] at hcomplete
      exact hcomplete
    subst hlevel
    have hidle : ∀ i : Instruction, i.kind = .defineVariable ∨ i.kind = .whileLabel → ∀ taking,
        σ.Leads ⟨inside, taking, 0⟩ [i] ⟨inside, false, 0⟩ := by
      intro i hkind taking
      have hlift : i.lift? 0 = some 0 := by
        rcases hkind with hkind | hkind <;> rw [Instruction.lift?, hkind] <;> rfl
      refine .ordinary ?_ hlift (fun _ => rfl) fun _ => rfl
      rcases hkind with hkind | hkind <;> rw [hkind] <;> rfl
    rw [hnext, hlabel.1] at hrest
    exact hfirst.append ((hidle define (.inl hdefine) taking₁).append
      ((hidle label (.inr hlabel.1) false).append hrest))

end Draft

/-! ### Statements -/

section statements

variable {σ : Signature} {gone : Nat → Bool} {d d' : Draft} {H code : List Instruction}

theorem Step.calls_subset (h : Step d H code d') : d.calls.recorded ⊆ d'.calls.recorded := by
  cases h with
  | call => exact subset_cons_self _ _
  | _ => exact List.Subset.refl _

theorem Step.balanced (h : Step d H code d') (hd : d.Formed) (hsigned : d'.Signed σ gone)
    (hsettled : d.Balanced σ gone) : d'.Balanced σ gone := by
  have hold : d.Signed σ gone := hsigned.of_extends hd h.keeps.toExtends h.calls_subset
  have hinside : d'.inside? = d.inside? :=
    Draft.inside?_of_extends hd h.keeps.toExtends (h.keeps.function? hd)
  cases h with
  | skip => exact hsettled
  | @store value pop hvalue hpop =>
    have htakes : pop.kind.takes = 1 := by rw [hpop.kind]; rfl
    have hquiet : Quiet [pop] := hpop.plain.quiet
    refine hsettled.write rfl ((htakes ▸ hvalue).balances ?_ ?_ hquiet) hinside <;> rw [hpop.kind] <;>
      rfl
  | @call site code after _ hcode hafter =>
    have hsite : site.Signed σ gone := hsigned.sites site mem_cons_self
    exact hsettled.write rfl (hcode.balances hafter hsite fun h => hold.results _ _ h) hinside
  | @giveBack value i level hvalue hreturns hkind =>
    obtain ⟨header, returns, hheader, hresults, rfl⟩ := hreturns
    have hname : d.inside? = some (d.outlines header).name := by rw [Draft.inside?, hheader]; rfl
    rw [← hold.results _ _ hresults] at hvalue
    refine hsettled.write rfl ?_ hinside
    rw [hname]
    refine (hvalue.quiet.append (quiet_of_kind hkind nofun nofun)).balances fun taking => ?_
    obtain ⟨taking', hleads, htaking'⟩ := hvalue.leads σ (some (d.outlines header).name) taking
    exact ⟨false, hleads.append (.giveBack hkind htaking')⟩
  | declare _ _ hdefine =>
    refine hsettled.write rfl (balances_of_idle (forall_mem_singleton.2 ?_)
      (quiet_of_kind hdefine.1 nofun nofun)) hinside
    rw [hdefine.1]
    exact ⟨rfl, rfl, rfl⟩
  | hoist _ _ hdefine hcode hlabel => exact hsettled.insert hcode hlabel hdefine.1 rfl hinside

theorem Elaborates.balanced {T : Flow} (h : Elaborates d H T d') (hd : d.Formed)
    (hsettled : d.Signed σ gone → d.Balanced σ gone) : d'.Signed σ gone → d'.Balanced σ gone := by
  refine h.preserves (P := fun d => d.Signed σ gone → d.Balanced σ gone) ?_ ?_ ?_ ?_ hd hsettled
  · intro d d' H code hd hstep hP hsigned
    exact hstep.balanced hd hsigned (hP (hsigned.of_extends hd hstep.keeps.toExtends hstep.calls_subset))
  · intro d kind code hd hheads hP hsigned
    have hinside : (d.opened kind code).inside? = d.inside? :=
      Draft.inside?_of_extends hd Draft.extends_opened (Draft.function?_opened hd hheads.inner.2)
    exact (hP (hsigned.of_extends hd Draft.extends_opened (List.Subset.refl _))).write rfl hheads.balances
      hinside
  · intro d d' code els hd hd' hkeeps hels _ hP hsigned
    have hextends : d'.Extends (d'.alternative d.size d.current [els]) :=
      Draft.extends_alternative hkeeps.size_le (Nat.ne_of_gt hd.current_lt)
    have hfunction : (d'.alternative d.size d.current [els]).function? = d'.function? := by
      rw [hkeeps.function?_otherwise hd hd', hkeeps.function? hd.opened,
        Draft.function?_opened hd (by decide)]
    exact (hP (hsigned.of_extends hd' hextends (List.Subset.refl _))).write rfl (hels.ends rfl).balances
      (Draft.inside?_of_extends hd' hextends hfunction)
  · intro d d' kind code tail hd hd' hextends hfunction hends _ hP hsigned
    have hsame : (d'.closed d.current tail).function? = d'.function? :=
      ((Draft.extends_opened.trans hextends).function?_closed hd tail).trans hfunction.symm
    exact (hP (hsigned.of_extends hd' (Draft.extends_closed _) (List.Subset.refl _))).write rfl
      hends.balances (Draft.inside?_of_extends hd' (Draft.extends_closed _) hsame)

end statements

/-! ### Programs -/

theorem Composes.balanced {σ : Signature} {gone : Nat → Bool} {parts : List Part} {d : Draft}
    (h : Composes parts d) : d.Signed σ gone → d.Balanced σ gone := by
  refine h.preserves (P := fun d => d.Signed σ gone → d.Balanced σ gone) ?_ ?_ ?_ ?_
  · intro _
    have hinside : Context.start.draft.inside? = none := by
      rw [Draft.inside?, Draft.function?_of_root start_formed start_current start_root.1]
      rfl
    have hbalances : σ.Balances gone none Context.start.draft.code none := by
      refine balances_of_idle (fun i hi => ?_) fun i hi => ?_ <;> rw [start_kind i hi]
      · exact ⟨rfl, rfl, rfl⟩
      · exact ⟨by decide, by decide⟩
    obtain ⟨taking, hleads⟩ := hbalances.leads false
    exact ⟨taking, hinside ▸ hleads⟩
  · intro d d' H T hd helaborates hP
    exact helaborates.balanced hd hP
  · intro d name params returns entry pops hsound hcurrent hglobal _ _ _ hentry hpops hP hsigned
    have hmain : d.inside? = none := by
      rw [Draft.inside?, Draft.function?_of_root hsound.formed hcurrent hglobal]
      rfl
    have hfunction : (d.headed name params returns (entry :: pops)).inside? = some name := by
      rw [Draft.inside?, Draft.function?_headed hsound.formed, Option.map_some,
        Draft.headed_header hsound.formed]
      rfl
    have harity : params.length = σ.arity name := by
      have hheader := hsigned.headers d.size (Nat.lt_add_of_pos_right Nat.two_pos)
      rw [Draft.headed_header hsound.formed] at hheader
      exact hheader rfl
    exact (hP (hsigned.of_extends hsound.formed Draft.extends_headed (List.Subset.refl _))).write rfl
      (hmain ▸ hpops.balances hentry harity) hfunction
  · intro d header fin hd hglobal hlt hkind hfin hP hsigned
    have hended : (d.ended [fin]).Formed := ⟨hd.rooted, Nat.lt_of_le_of_lt (Nat.zero_le _) hlt⟩
    have hmain : (d.ended [fin]).inside? = none := by
      rw [Draft.inside?, Draft.function?_of_root hended rfl hglobal]
      rfl
    exact (hP (hsigned.of_extends hd Draft.extends_ended (List.Subset.refl _))).write rfl
      (balances_functionEnd hfin.1.1) hmain

end OnePass
