import OnePass.Proofs.Layout

/-!
# Calls in the code

Every recorded call has one instruction in the code, unless its arguments are written one by one, and
the instructions come in the order of the record.  The results of some calls are dropped; the drops of
calls without results are taken out once the functions are known.

Main results:

* `Composes.counted` — **the calls in the code of a program are those that were recorded**;
* `pare_append` — code can be pared piece by piece;
* `pareEntries_delete` — the drops can be taken out one by one.
-/

namespace OnePass

open List

/-- The counter of an instruction that is a call. -/
def Instruction.callId? (i : Instruction) : Option Nat :=
  if i.kind = .call then some i.counter else none

/-- The recorded calls that have an instruction of their own. -/
def Calls.written (calls : Calls) : List CallSite :=
  calls.toList.filter fun site => !Builtin.isVariadic site.name

/-- Code without calls and without drops. -/
def Quiet (code : List Instruction) : Prop :=
  ∀ i ∈ code, i.kind ≠ .call ∧ i.kind ≠ .discardResult

section quiet

variable {d : Draft} {code code' : List Instruction} {i : Instruction} {kind : InstructionKind}
  {scope level : Nat}

theorem Quiet.append (h : Quiet code) (h' : Quiet code') : Quiet (code ++ code') :=
  forall_mem_append.2 ⟨h, h'⟩

theorem quiet_of_kind (hkind : i.kind = kind) (hcall : kind ≠ .call) (hdrop : kind ≠ .discardResult) :
    Quiet [i] :=
  forall_mem_singleton.2 (hkind ▸ ⟨hcall, hdrop⟩)

theorem Quiet.callIds (h : Quiet code) : code.filterMap Instruction.callId? = [] :=
  filterMap_eq_nil_iff.2 fun i hi => if_neg (h i hi).1

theorem Draft.Plain.quiet (h : d.Plain i) : Quiet [i] := by
  cases h with
  | literal hkind => exact quiet_of_kind hkind nofun nofun
  | «variable» hkind =>
    rcases hkind with hkind | hkind <;> exact quiet_of_kind hkind nofun nofun
  | operation hkind =>
    refine forall_mem_singleton.2 ?_
    revert hkind
    cases i.kind <;> simp [InstructionKind.isOperation]

theorem quiet_of_plain (h : ∀ i ∈ code, d.Plain i) : Quiet code := fun i hi =>
  (h i hi).quiet i (mem_singleton_self i)

theorem Draft.Plains.quiet (h : d.Plains code level) : Quiet code := quiet_of_plain h.plain

theorem Draft.Heads.quiet {kind : ScopeKind} (h : d.Heads kind code) : Quiet code := by
  cases h with
  | conditional hhead htest =>
    refine hhead.quiet.append ?_
    rcases htest with ⟨hkind, -⟩ | ⟨⟨hkind, -⟩, -⟩ <;> exact quiet_of_kind hkind nofun nofun
  | loop hlabel hhead htest =>
    exact ((quiet_of_kind hlabel.1 nofun nofun).append hhead.quiet).append (quiet_of_kind htest.1 nofun nofun)

theorem Ends.quiet {kind : ScopeKind} (h : Ends kind scope code) : Quiet code := by
  intro i hi
  have hend := (h i hi).1
  revert hend
  cases i.kind <;> simp [InstructionKind.ends?]

theorem Pops.quiet {header : Nat} {params : List (String × Ty)} (h : Pops header params code) :
    Quiet code := fun i hi => by
  rw [(h.2 i hi).1]
  exact ⟨nofun, nofun⟩

end quiet

/-! ### The record -/

/-- The calls in the code are those of the record. -/
def Draft.Counted (d : Draft) : Prop :=
  d.code.filterMap Instruction.callId? = d.calls.written.map (·.callId)

section counted

variable {d d' : Draft} {code code' : List Instruction}

theorem Draft.Counted.write (h : d.Counted) (hcode' : d'.code = d.code ++ code)
    (hcalls : d'.calls = d.calls) (hquiet : Quiet code) : d'.Counted := by
  rw [Draft.Counted, hcode', hcalls, filterMap_append, hquiet.callIds, append_nil]
  exact h

theorem Draft.Calling.callIds {site : CallSite} (h : d.Calling site code) :
    code.filterMap Instruction.callId? = if Builtin.isVariadic site.name then [] else [site.callId] := by
  cases h with
  | written hvariadic _ hcode =>
    rw [if_pos hvariadic]
    exact (quiet_of_plain hcode.plain).callIds
  | kept hvariadic _ hpushes hcall =>
    rw [if_neg (Bool.eq_false_iff.1 hvariadic), filterMap_append, (quiet_of_plain hpushes.plain).callIds]
    simp [Instruction.callId?, hcall.1, hcall.2.2]
  | dropped hvariadic _ _ hpushes hcall hdrop =>
    rw [if_neg (Bool.eq_false_iff.1 hvariadic), filterMap_append, (quiet_of_plain hpushes.plain).callIds]
    simp [Instruction.callId?, hcall.1, hcall.2.2, hdrop]

theorem Step.counted {H : List Instruction} (h : Step d H code d') (hd : d.Counted) : d'.Counted := by
  cases h with
  | skip => exact hd
  | store hvalue hpop => exact hd.write rfl rfl (quiet_of_plain (hvalue.store hpop))
  | @call site code after hid hcode hafter =>
    have hwritten : (d.calls.record site).written =
        d.calls.written ++ if Builtin.isVariadic site.name then [] else [site] := by
      cases hvariadic : Builtin.isVariadic site.name <;>
        simp [Calls.written, Calls.toList, Calls.record, hvariadic]
    show (d.code ++ (code ++ after)).filterMap _ = (d.calls.record site).written.map _
    rw [filterMap_append, filterMap_append, hd, hwritten, hcode.callIds,
      (quiet_of_plain hafter.plain).callIds, append_nil, map_append]
    split <;> rfl
  | giveBack hvalue _ hkind =>
    exact hd.write rfl rfl (hvalue.quiet.append (quiet_of_kind hkind nofun nofun))
  | declare _ _ hdefine => exact hd.write rfl rfl (quiet_of_kind hdefine.1 nofun nofun)
  | @hoist _ _ define label pre post _ _ _ hdefine hcode =>
    rw [Draft.Counted, hcode] at hd
    refine Eq.trans ?_ hd
    show (pre ++ define :: label :: post).filterMap _ = _
    have hnone : define.callId? = none := if_neg (by rw [hdefine.1]; nofun)
    rw [filterMap_append, filterMap_append, filterMap_cons_none hnone]

theorem Elaborates.counted {H : List Instruction} {T : Flow} (h : Elaborates d H T d')
    (hd : d.Formed) (hcounted : d.Counted) : d'.Counted :=
  h.preserves (P := Draft.Counted) (fun _ hstep => hstep.counted)
    (fun _ hheads hP => hP.write rfl rfl hheads.quiet)
    (fun _ _ _ hels _ hP => hP.write rfl rfl (quiet_of_kind hels.1 nofun nofun))
    (fun _ _ _ _ hends _ hP => hP.write rfl rfl hends.quiet) hd hcounted

theorem Composes.counted {parts : List Part} (h : Composes parts d) : d.Counted :=
  h.preserves (P := Draft.Counted) rfl (fun hd helaborates => helaborates.counted hd)
    (fun _ _ _ _ _ _ hentry hpops hP =>
      hP.write rfl rfl ((quiet_of_kind hentry.1.1 nofun nofun).append hpops.quiet))
    fun _ _ _ _ hfin hP => hP.write rfl rfl (quiet_of_kind hfin.1.1 nofun nofun)

end counted

/-! ### Code without drops -/

/-- Takes out the instructions that drop the results of some calls. -/
def pare (gone : Nat → Bool) : List Instruction → List Instruction
  | i :: j :: rest =>
      if i.kind = .call ∧ gone i.counter ∧ j.kind = .discardResult then i :: pare gone rest
      else i :: pare gone (j :: rest)
  | short => short

/-- A call and the drop of its result, if it is taken out. -/
abbrev Dropping (gone : Nat → Bool) (i j : Instruction) : Prop :=
  i.kind = .call ∧ gone i.counter ∧ j.kind = .discardResult

theorem induct_pairs {α : Type} {P : α → α → Prop} {motive : List α → Prop} (nil : motive [])
    (single : ∀ a, motive [a]) (drop : ∀ a b rest, P a b → motive rest → motive (a :: b :: rest))
    (keep : ∀ a b rest, ¬ P a b → motive (b :: rest) → motive (a :: b :: rest)) : ∀ l, motive l
  | [] => nil
  | [a] => single a
  | a :: b :: rest => by
    by_cases h : P a b
    · exact drop a b rest h (induct_pairs nil single drop keep rest)
    · exact keep a b rest h (induct_pairs nil single drop keep (b :: rest))

section pare

variable {gone gone' : Nat → Bool} {i j : Instruction} {l m : List Instruction}

theorem pare_drop (h : Dropping gone i j) (l : List Instruction) :
    pare gone (i :: j :: l) = i :: pare gone l := if_pos h

theorem pare_keep (h : ¬ Dropping gone i j) (l : List Instruction) :
    pare gone (i :: j :: l) = i :: pare gone (j :: l) := if_neg h

theorem pare_cons_of_ne_call (h : i.kind ≠ .call) (l : List Instruction) :
    pare gone (i :: l) = i :: pare gone l := by
  cases l with
  | nil => rfl
  | cons j l => exact pare_keep (fun hdrop => h hdrop.1) l

theorem pare_cons_of_head (h : ∀ j ∈ l.head?, j.kind ≠ .discardResult) :
    pare gone (i :: l) = i :: pare gone l := by
  cases l with
  | nil => rfl
  | cons j l => exact pare_keep (fun hdrop => h j rfl hdrop.2.2) l

theorem pare_append (h : ∀ j ∈ m.head?, j.kind ≠ .discardResult) (l : List Instruction) :
    pare gone (l ++ m) = pare gone l ++ pare gone m := by
  induction l using induct_pairs (P := Dropping gone) with
  | nil => rfl
  | single i => exact pare_cons_of_head h
  | drop i j rest hdrop ih =>
    rw [cons_append, cons_append, pare_drop hdrop, pare_drop hdrop, ih]
    rfl
  | keep i j rest hkept ih =>
    rw [cons_append, cons_append, pare_keep hkept, pare_keep hkept]
    exact congrArg (i :: ·) ih

theorem Quiet.pare_append (h : Quiet l) (m : List Instruction) : pare gone (l ++ m) = l ++ pare gone m := by
  induction l with
  | nil => rfl
  | cons i l ih =>
    obtain ⟨hi, hl⟩ := forall_mem_cons.1 h
    rw [cons_append, pare_cons_of_ne_call hi.1, ih hl]
    rfl

theorem pare_of_quiet (h : Quiet l) : pare gone l = l :=
  calc pare gone l = pare gone (l ++ []) := by rw [append_nil]
    _ = l ++ [] := h.pare_append []
    _ = l := append_nil l

theorem trims_pare (gone : Nat → Bool) (l : List Instruction) : Trims l (pare gone l) := by
  induction l using induct_pairs (P := Dropping gone) with
  | nil => exact .nil
  | single i => exact .refl _
  | drop i j rest hdrop ih =>
    rw [pare_drop hdrop]
    exact .keep (.inl rfl) (.drop hdrop.2.2 ih)
  | keep i j rest hkept ih =>
    rw [pare_keep hkept]
    exact .keep (.inl rfl) ih

/-- Code comes from other code instruction by instruction. -/
abbrev Becoming (l m : List Instruction) : Prop := List.Forall₂ Instruction.Becomes l m

theorem Becoming.split {k : List Instruction} (h : Becoming (l ++ m) k) :
    ∃ l' m', k = l' ++ m' ∧ Becoming l l' ∧ Becoming m m' := by
  induction l generalizing k with
  | nil => exact ⟨[], k, rfl, .nil, h⟩
  | cons i l ih =>
    cases h with
    | cons hi h =>
      obtain ⟨l', m', rfl, hl, hm⟩ := ih h
      exact ⟨_ :: l', m', rfl, .cons hi hl, hm⟩

theorem Becoming.callIds (h : Becoming l m) :
    m.filterMap Instruction.callId? = l.filterMap Instruction.callId? := by
  induction h with
  | nil => rfl
  | cons hi _ ih =>
    obtain ⟨hkind, -, -, hcounter, -⟩ := hi.fields
    rw [filterMap_cons, filterMap_cons, Instruction.callId?, Instruction.callId?, hkind,
      hcounter, ih]

theorem Becoming.trims (h : Becoming l m) : Trims l m := by
  induction h with
  | nil => exact .nil
  | cons hi _ ih => exact .keep hi ih

theorem callIds_pare (gone : Nat → Bool) (l : List Instruction) :
    (pare gone l).filterMap Instruction.callId? = l.filterMap Instruction.callId? := by
  induction l using induct_pairs (P := Dropping gone) with
  | nil | single => rfl
  | drop i j rest hdrop ih =>
    have hj : j.callId? = none := if_neg (by rw [hdrop.2.2]; nofun)
    rw [pare_drop hdrop, filterMap_cons, filterMap_cons, filterMap_cons_none hj, ih]
  | keep i j rest hkept ih =>
    rw [pare_keep hkept, filterMap_cons, filterMap_cons, ih]

end pare

/-! ### Numbered code without drops -/

/-- The same on numbered instructions. -/
def pareEntries (gone : Nat → Bool) : List Entry → List Entry
  | e :: e' :: rest =>
      if e.instruction.kind = .call ∧ gone e.instruction.counter ∧ e'.instruction.kind = .discardResult then
        e :: pareEntries gone rest
      else e :: pareEntries gone (e' :: rest)
  | short => short

section entries

variable {gone gone' : Nat → Bool} {e e' : Entry} {l : List Entry}

/-- The same on numbered instructions. -/
abbrev Entry.Dropping (gone : Nat → Bool) (e e' : Entry) : Prop :=
  OnePass.Dropping gone e.instruction e'.instruction

theorem pareEntries_drop (h : e.Dropping gone e') (l : List Entry) :
    pareEntries gone (e :: e' :: l) = e :: pareEntries gone l := if_pos h

theorem pareEntries_keep (h : ¬ e.Dropping gone e') (l : List Entry) :
    pareEntries gone (e :: e' :: l) = e :: pareEntries gone (e' :: l) := if_neg h

theorem map_pareEntries (gone : Nat → Bool) (l : List Entry) :
    (pareEntries gone l).map (·.instruction) = pare gone (l.map (·.instruction)) := by
  induction l using induct_pairs (P := Entry.Dropping gone) with
  | nil | single => rfl
  | drop e e' rest hdrop ih => rw [pareEntries_drop hdrop, map_cons, map_cons, map_cons, pare_drop hdrop, ih]
  | keep e e' rest hkept ih => rw [pareEntries_keep hkept, map_cons, map_cons, map_cons, pare_keep hkept, ih]; rfl

theorem pareEntries_sublist (gone : Nat → Bool) (l : List Entry) : (pareEntries gone l).Sublist l := by
  induction l using induct_pairs (P := Entry.Dropping gone) with
  | nil | single => exact List.Sublist.refl _
  | drop e e' rest hdrop ih =>
    rw [pareEntries_drop hdrop]
    exact (ih.cons e').cons_cons e
  | keep e e' rest hkept ih =>
    rw [pareEntries_keep hkept]
    exact ih.cons_cons e

theorem pareEntries_none (l : List Entry) : pareEntries (fun _ => false) l = l := by
  induction l using induct_pairs (P := Entry.Dropping fun _ => false) with
  | nil | single => rfl
  | drop e e' rest hdrop => cases hdrop.2.1
  | keep e e' rest hkept ih => rw [pareEntries_keep hkept, ih]

theorem pareEntries_cons (gone : Nat → Bool) (e : Entry) (l : List Entry) :
    ∃ rest, pareEntries gone (e :: l) = e :: rest := by
  cases l with
  | nil => exact ⟨[], rfl⟩
  | cons e' l =>
    rw [pareEntries]
    split <;> exact ⟨_, rfl⟩

theorem pareEntries_cons_of_ne_call {e : Entry} (h : e.instruction.kind ≠ .call) (l : List Entry) :
    pareEntries gone (e :: l) = e :: pareEntries gone l := by
  cases l with
  | nil => rfl
  | cons e' l => exact pareEntries_keep (fun hdrop => h hdrop.1) l

theorem pareEntries_congr (h : ∀ e ∈ l, e.instruction.kind = .call →
    gone e.instruction.counter = gone' e.instruction.counter) : pareEntries gone l = pareEntries gone' l := by
  induction l using induct_pairs (P := Entry.Dropping gone) with
  | nil | single => rfl
  | drop e e' rest hdrop ih =>
    obtain ⟨he, -, hrest⟩ := forall_mem_cons.1 h |>.imp_right forall_mem_cons.1
    rw [pareEntries_drop hdrop, pareEntries_drop ⟨hdrop.1, he hdrop.1 ▸ hdrop.2.1, hdrop.2.2⟩, ih hrest]
  | keep e e' rest hkept ih =>
    obtain ⟨he, hrest⟩ := forall_mem_cons.1 h
    rw [pareEntries_keep hkept, pareEntries_keep, ih hrest]
    rintro ⟨hcall, hgone, hdrop⟩
    exact hkept ⟨hcall, (he hcall).symm ▸ hgone, hdrop⟩

theorem pareEntries_delete {pre post : List Entry} {call drop : Entry}
    (hnodup : ((l.map (·.instruction)).filterMap Instruction.callId?).Nodup) (hcall : call.instruction.kind = .call)
    (hdrop : drop.instruction.kind = .discardResult) (hgone : gone call.instruction.counter = false)
    (h : pareEntries gone l = pre ++ call :: drop :: post) :
    pareEntries (Function.update gone call.instruction.counter true) l = pre ++ call :: post := by
  -- a call does not come again
  have honce : ∀ {e : Entry} {l : List Entry}, e.instruction.kind = .call →
      (((e :: l).map (·.instruction)).filterMap Instruction.callId?).Nodup →
      ∀ e' ∈ l, e'.instruction.kind = .call → e'.instruction.counter ≠ e.instruction.counter := by
    intro e l he hnodup e' hmem he' heq
    have hid : e.instruction.callId? = some e.instruction.counter := if_pos he
    rw [map_cons, filterMap_cons_some hid] at hnodup
    refine (nodup_cons.1 hnodup).1 (mem_filterMap.2 ⟨_, mem_map_of_mem hmem, ?_⟩)
    rw [← heq]
    exact if_pos he'
  induction l using induct_pairs (P := Entry.Dropping gone) generalizing pre with
  | nil | single =>
    have hlength := congrArg List.length h
    simp only [pareEntries, length_append, length_cons, length_nil] at hlength
    omega
  | drop e e' rest hpared ih =>
    have hgone' : Function.update gone call.instruction.counter true e.instruction.counter = true := by
      rcases eq_or_ne e.instruction.counter call.instruction.counter with heq | hne
      · rw [heq, Function.update_self]
      · rw [Function.update_of_ne hne]
        exact hpared.2.1
    rw [pareEntries_drop hpared] at h
    rw [pareEntries_drop ⟨hpared.1, hgone', hpared.2.2⟩]
    cases pre with
    | nil =>
      rw [(List.cons.inj h).1] at hpared
      cases hpared.2.1.symm.trans hgone
    | cons first pre =>
      rw [cons_append] at h ⊢
      obtain ⟨rfl, hrest⟩ := List.cons.inj h
      exact congrArg (e :: ·) (ih (((((sublist_cons_self e' rest).cons e).map _).filterMap _).nodup hnodup)
        hrest)
  | keep e e' rest hkept ih =>
    rw [pareEntries_keep hkept] at h
    cases pre with
    | nil =>
      obtain ⟨rfl, hrest⟩ := List.cons.inj h
      obtain ⟨later, hlater⟩ := pareEntries_cons gone e' rest
      obtain ⟨rfl, rfl⟩ := List.cons.inj (hlater.symm.trans hrest)
      have hne : e'.instruction.kind ≠ .call := by
        rw [hdrop]
        exact nofun
      rw [pareEntries_cons_of_ne_call hne] at hlater
      rw [pareEntries_drop ⟨hcall, Function.update_self .., hdrop⟩, ← List.cons.inj hlater |>.2]
      refine congrArg (e :: ·) (pareEntries_congr fun other hmem hother => Function.update_of_ne ?_ _ _)
      exact honce hcall hnodup other (mem_cons_of_mem _ hmem) hother
    | cons first pre =>
      rw [cons_append] at h ⊢
      obtain ⟨rfl, hrest⟩ := List.cons.inj h
      have hmem : call ∈ e' :: rest := (pareEntries_sublist gone _).subset (hrest ▸ by simp)
      have hkept' : ¬ e.Dropping (Function.update gone call.instruction.counter true) e' := by
        rintro ⟨hkind, hcounter, hdiscard⟩
        rw [Function.update_of_ne (honce hkind hnodup call hmem hcall).symm] at hcounter
        exact hkept ⟨hkind, hcounter, hdiscard⟩
      rw [pareEntries_keep hkept']
      exact congrArg (e :: ·) (ih ((((sublist_cons_self e (e' :: rest)).map _).filterMap _).nodup hnodup) hrest)

end entries

end OnePass
