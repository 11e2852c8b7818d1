import OnePass.Proofs.Layout

/-!
# The deeds of statements

Expressions and conditions use variables in sight and do nothing else; definitions and returns stand
alone.

Main results:

* `Draft.Plains.reads`, `Draft.Heads.define_notMem` — the deeds of straight code and of conditions;
* `Draft.Calling.reads`, `Ends.define_notMem` — the deeds of calls, and of marks;
* `Pops.entry_deeds` — functions define their parameters first.
-/

namespace OnePass

open List

theorem Instruction.Marks.deed? {i : Instruction} {kind : InstructionKind} {scope : Nat}
    (h : i.Marks kind scope)
    (hkind : kind = .elseMark ∨ kind = .endIf ∨ kind = .whileLabel ∨ kind = .whileCondition ∨
      kind = .endWhile) : i.deed? = none := by
  rcases hkind with rfl | rfl | rfl | rfl | rfl <;> rw [Instruction.deed?, h.1]

/-- Deeds that only use variables in sight. -/
def Draft.Reads (d : Draft) (deeds : List Deed) : Prop :=
  ∀ deed ∈ deeds, ∃ name owner, deed = .use (Meaning.storageName name owner) ∧ d.Sees name owner

section deeds

variable {d d' : Draft} {head code H : List Instruction} {test : Instruction}
  {level scope : Nat}
variable {i : Instruction}

theorem Draft.Plain.reads (h : d.Plain i) : d.Reads (deeds [i]) := by
  intro deed hdeed
  obtain ⟨j, hj, heq⟩ := mem_filterMap.1 hdeed
  rw [mem_singleton.1 hj] at heq
  cases h with
  | literal hkind =>
    rw [Instruction.deed?, hkind] at heq
    cases heq
  | «variable» hkind hname hsees =>
    refine ⟨_, _, ?_, hsees⟩
    rcases hkind with hkind | hkind <;>
      · rw [Instruction.deed?, hkind, hname] at heq
        exact (Option.some.inj heq).symm
  | operation hkind =>
    have hnone : i.deed? = none := by
      rw [Instruction.deed?]
      revert hkind
      cases i.kind <;> simp [InstructionKind.isOperation]
    cases hnone.symm.trans heq

theorem Draft.Reads.append {first second : List Deed} (h : d.Reads first) (h' : d.Reads second) :
    d.Reads (first ++ second) :=
  fun deed hdeed => (mem_append.1 hdeed).elim (h deed) (h' deed)

theorem Draft.reads_of_forall (h : ∀ i ∈ code, d.Plain i ∨ i.deed? = none) : d.Reads (deeds code) := by
  intro deed hdeed
  obtain ⟨i, hi, heq⟩ := mem_filterMap.1 hdeed
  rcases h i hi with hplain | hnone
  · exact hplain.reads deed (mem_filterMap.2 ⟨i, mem_singleton_self i, heq⟩)
  · cases hnone.symm.trans heq

theorem Draft.Plains.reads (h : d.Plains code level) : d.Reads (deeds code) :=
  Draft.reads_of_forall fun i hi => .inl (h.plain i hi)

theorem Draft.Plains.reads_store {pop : Instruction} (h : d.Plains code level) (hpop : d.Stores pop) :
    d.Reads (deeds (code ++ [pop])) :=
  Draft.reads_of_forall fun i hi => .inl (h.store hpop i hi)

theorem Draft.Calling.reads {site : CallSite} {after : List Instruction} (h : d.Calling site code)
    (hafter : d.Receives site after) : d.Reads (deeds (code ++ after)) := by
  refine Draft.reads_of_forall fun i hi => ?_
  rcases h.of_mem_append hafter hi with hplain | ⟨hkind, -⟩ | hkind
  · exact .inl hplain
  · exact .inr (by rw [Instruction.deed?, hkind])
  · exact .inr (by rw [Instruction.deed?, hkind])

theorem deeds_giveBack {value : List Instruction} (hkind : i.kind = .returnValue) :
    deeds (value ++ [i]) = deeds value ++ [.giveBack] := by
  have hlast : deeds [i] = [.giveBack] :=
    filterMap_cons_some (by rw [Instruction.deed?, hkind])
  rw [deeds_append, hlast]

theorem Draft.Plains.reads_if (hhead : d.Plains head level) (htest : d.Conditions scope test) :
    d.Reads (deeds (head ++ [test])) := by
  rw [deeds_append]
  refine hhead.reads.append fun deed hdeed => ?_
  obtain ⟨j, hj, heq⟩ := mem_filterMap.1 hdeed
  rw [mem_singleton.1 hj] at heq
  rcases htest with ⟨hkind, -⟩ | ⟨⟨hkind, -⟩, name, owner, hname, hsees⟩
  · rw [Instruction.deed?, hkind] at heq
    cases heq
  · rw [Instruction.deed?, hkind, hname] at heq
    exact ⟨name, owner, (Option.some.inj heq).symm, hsees⟩

theorem Draft.Plains.reads_while (hhead : d.Plains head level) (htest : test.Marks .whileCondition scope) :
    d.Reads (deeds (head ++ [test])) := by
  have hnone : deeds [test] = [] := filterMap_cons_none (htest.deed? (by decide))
  rw [deeds_append, hnone, append_nil]
  exact hhead.reads

theorem Draft.Reads.define_notMem {deeds : List Deed} (h : d.Reads deeds) (target : String) :
    .define target ∉ deeds := by
  intro hmem
  obtain ⟨_, _, heq, -⟩ := h _ hmem
  cases heq

theorem Draft.Heads.define_notMem {kind : ScopeKind} (h : d.Heads kind code) (target : String) :
    .define target ∉ deeds code := by
  cases h with
  | conditional hhead htest => exact (hhead.reads_if htest).define_notMem target
  | @loop head label test hlabel hhead htest =>
    have hdeeds : deeds (label :: head ++ [test]) = deeds (head ++ [test]) :=
      filterMap_cons_none (hlabel.deed? (by decide))
    rw [hdeeds]
    exact (hhead.reads_while htest).define_notMem target

theorem Ends.define_notMem {kind : ScopeKind} (h : Ends kind scope code) (target : String) :
    .define target ∉ deeds code := by
  intro hmem
  obtain ⟨i, hi, hdeed⟩ := mem_filterMap.1 hmem
  have hend := (h i hi).1
  revert hdeed hend
  unfold Instruction.deed?
  cases i.kind <;> simp [InstructionKind.ends?]

theorem Instruction.Defines.deed? {target : String} (h : i.Defines target) :
    i.deed? = some (.define target) := by
  rw [Instruction.deed?, h.1, h.2]
  rfl

end deeds

theorem Pops.deeds {header : Nat} {params : List (String × Ty)} {pops : List Instruction}
    (h : Pops header params pops) : OnePass.deeds pops =
      params.reverse.map fun param => .define (Meaning.storageName param.1 header) := by
  obtain ⟨hnames, hmarks⟩ := h
  have hdeeds : ∀ i ∈ pops, i.deed? = i.name?.map .define := by
    intro i hi
    rw [Instruction.deed?, (hmarks i hi).1]
  have hmap : (pops.map Instruction.name?).filterMap (Option.map Deed.define) =
      pops.filterMap fun i => i.name?.map .define := filterMap_map ..
  rw [OnePass.deeds, filterMap_congr hdeeds, ← hmap, hnames, filterMap_map]
  exact congrFun filterMap_eq_map _

theorem Pops.entry_deeds {header : Nat} {name : String} {params : List (String × Ty)} {entry : Instruction}
    {pops : List Instruction} (h : Pops header params pops)
    (hentry : entry.Bounds .functionBegin header name) : OnePass.deeds (entry :: pops) =
      params.reverse.map fun param => .define (Meaning.storageName param.1 header) := by
  rw [← h.deeds]
  exact filterMap_cons_none (by rw [Instruction.deed?, hentry.1.1])

end OnePass
