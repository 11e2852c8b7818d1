import OnePass.Proofs.Calls
import OnePass.Proofs.Meaning.Reading

/-!
# Checked calls

The checks at the end of a program look up what the program has recorded: headers with their
parameters, and the instructions that drop results.  All of it is there.  The code changes in two
ways: the drops of calls without results go, and the literals of some arguments become doubles.

Main results:

* `Scaffolded.delete` — taking out one drop leaves the drops of the other calls in place;
* `Meaning.meets_checkCalls` — **checking the calls of a program trims its code**, and every call
  that passes agrees with its function.
-/

namespace OnePass

open List

variable {scopes : ScopeTree} {site : CallSite}

/-! ### Calls whose results are dropped -/

section convert

variable {entries : List Entry} {change : Entry → Entry}

theorem Scaffolded.convert (hchange : ∀ e : Entry, e.instruction.Becomes (change e).instruction)
    {callId : Nat} (h : Scaffolded (entries.map (·.instruction)) callId) :
    Scaffolded ((entries.map change).map (·.instruction)) callId := by
  obtain ⟨pre, call, drop, post, hcode, hcall, hcounter, hdrop⟩ := h
  obtain ⟨before, tail, rfl, -, htail⟩ := map_eq_append_iff.1 hcode
  obtain ⟨first, tail', rfl, rfl, htail'⟩ := map_eq_cons_iff.1 htail
  obtain ⟨second, later, rfl, rfl, -⟩ := map_eq_cons_iff.1 htail'
  obtain ⟨hkind, -, -, hcount, -⟩ := (hchange first).fields
  exact ⟨(before.map change).map (·.instruction), (change first).instruction,
    (change second).instruction, (later.map change).map (·.instruction), by simp,
    hkind.trans hcall, hcount.trans hcounter, (hchange second).fields.1.trans hdrop⟩

theorem becoming_map (hchange : ∀ e : Entry, e.instruction.Becomes (change e).instruction) :
    Becoming (entries.map (·.instruction)) ((entries.map change).map (·.instruction)) := by
  induction entries with
  | nil => exact .nil
  | cons entry entries ih => exact .cons (hchange entry) ih

end convert

theorem Scaffolded.delete {pre post : List Instruction} {call gone : Instruction} {callId : Nat}
    (h : Scaffolded (pre ++ call :: gone :: post) callId) (hcall : call.kind = .call)
    (hgone : gone.kind = .discardResult) (hne : call.counter ≠ callId) :
    Scaffolded (pre ++ call :: post) callId := by
  obtain ⟨before, other, drop, after, heq, hother, hcounter, hdrop⟩ := h
  rcases append_eq_append_iff.1 heq with ⟨between, rfl, hrest⟩ | ⟨between, rfl, hrest⟩
  · -- the other call comes later
    match between, hrest with
    | [], hrest =>
      cases hrest
      exact absurd hcounter hne
    | [_], hrest =>
      cases hrest
      rw [hgone] at hother
      cases hother
    | _ :: _ :: between, hrest =>
      cases hrest
      exact ⟨pre ++ call :: between, other, drop, after, by simp, hother, hcounter, hdrop⟩
  · -- the other call comes first
    match between, hrest with
    | [], hrest =>
      cases hrest
      exact absurd hcounter hne
    | [_], hrest =>
      cases hrest
      rw [hcall] at hdrop
      cases hdrop
    | _ :: _ :: between, hrest =>
      cases hrest
      exact ⟨before, other, drop, between ++ call :: post, by simp, hother, hcounter, hdrop⟩

namespace CallSite

theorem Stands.convert {entries : List Entry} {change : Entry → Entry}
    (h : site.Stands entries) (hid : ∀ e, (change e).id = e.id)
    (hchange : ∀ e : Entry, e.instruction.Becomes (change e).instruction) :
    site.Stands (entries.map change) := by
  obtain ⟨pre, pushes, call, post, rfl, hids, hpushes, hinvokes⟩ := h
  obtain ⟨hkind, -, -, hcounter, hname⟩ := (hchange call).fields
  refine ⟨pre.map change, pushes.map change, change call, post.map change, by simp, ?_, ?_, ?_⟩
  · rw [map_map, ← hids]
    exact map_congr_left fun e _ => hid e
  · intro e he
    obtain ⟨push, hpush, rfl⟩ := mem_map.1 he
    rw [Instruction.IsPush, (hchange push).fields.1]
    exact hpushes push hpush
  · exact ⟨hkind.trans hinvokes.1, hname.trans hinvokes.2.1, hcounter.trans hinvokes.2.2⟩

end CallSite

/-! ### Agreement -/

theorem Ty.not_accepts_void (ty : Ty) : ty.accepts .void = false := by
  cases ty <;> rfl

namespace Argument

/-- A literal becomes a double because the parameter at an index is one. -/
def Converts (header : Scope) (index : Nat) (argument : Argument) : Prop :=
  ∃ symbol, header.table.parameterAt? index = some symbol ∧ argument.literal ∧
    argument.ty = .int ∧ symbol.ty.unwrapped = .double

/-- An argument has the label of the parameter at an index, and a type that the parameter accepts, or
becomes a double. -/
def Fits (header : Scope) (index : Nat) (argument : Argument) : Prop :=
  ∃ symbol label ty, header.table.parameterAt? index = some symbol ∧
    symbol.kind = .parameter index label ty ∧ argument.label = label ∧
    (ty.accepts argument.ty ∨ argument.Converts header index)

end Argument

namespace CallSite

/-- A call agrees with the function that it calls, given by its header and its result. -/
structure Agrees (scopes : ScopeTree) (site : CallSite) (header : Nat) (returns : Ty) : Prop where
  callee : scopes.function? site.name = some header
  result : scopes.functionResult? site.name = some returns
  target : ∀ ty, site.target = some ty → ty.accepts returns
  initialized : ∀ argument ∈ site.arguments, argument.initialized
  count : Builtin.isVariadic site.name = false → site.arguments.length = (scopes.scope header).parameters
  passed : Builtin.isVariadic site.name = false → ∀ (index : Nat) (argument : Argument),
    site.arguments[index]? = some argument → argument.Fits (scopes.scope header) index

/-- The push of an argument that becomes a double. -/
def Converts (scopes : ScopeTree) (site : CallSite) (push : Nat) : Prop :=
  Builtin.isVariadic site.name = false ∧ ∃ (header index : Nat) (argument : Argument),
    scopes.function? site.name = some header ∧ site.arguments[index]? = some argument ∧
    argument.push = push ∧ argument.Converts (scopes.scope header) index

/-- Whether the result of a call is dropped although there is none. -/
def isVain (scopes : ScopeTree) (site : CallSite) : Bool :=
  site.scaffolded && scopes.functionResult? site.name == some .void

end CallSite

/-- The calls whose results are dropped although there are none. -/
def vain (scopes : ScopeTree) (sites : List CallSite) (callId : Nat) : Bool :=
  sites.any fun site => site.callId == callId && site.isVain scopes

theorem vain_cons_of_isVain (h : site.isVain scopes) (sites : List CallSite) :
    vain scopes (site :: sites) = Function.update (vain scopes sites) site.callId true := by
  funext callId
  rcases eq_or_ne callId site.callId with rfl | hne
  · simp [vain, h]
  · simp [vain, Function.update_of_ne hne, hne.symm]

theorem vain_cons_of_not (h : site.isVain scopes = false) (sites : List CallSite) :
    vain scopes (site :: sites) = vain scopes sites := by
  funext callId
  simp [vain, h]

theorem vain_of_mem {sites : List CallSite} (hnodup : (sites.map (·.callId)).Nodup) (hsite : site ∈ sites) :
    vain scopes sites site.callId = site.isVain scopes := by
  rw [Bool.eq_iff_iff, vain, any_eq_true]
  constructor
  · rintro ⟨other, hother, h⟩
    rw [Bool.and_eq_true, beq_iff_eq] at h
    rw [← inj_on_of_nodup_map hnodup hother hsite h.1]
    exact h.2
  · intro h
    exact ⟨site, hsite, by rw [beq_self_eq_true, h]; rfl⟩

/-! ### Trimmed code -/

/-- Code without the drops of some calls and with some literals as doubles. -/
structure Trimmed (c₀ c : Context) (gone : Nat → Bool) (pushes : List Nat) : Prop where
  scopes : c.scopes = c₀.scopes
  calls : c.calls = c₀.calls
  sound : c.stream.Sound
  list : c.stream.toList =
    (pareEntries gone c₀.stream.toList).map (Stream.changed pushes Instruction.toDouble)
  stands : ∀ site ∈ c₀.calls.recorded, Builtin.isVariadic site.name = false → site.Stands c.stream.toList

namespace Trimmed

variable {c₀ c : Context} {gone : Nat → Bool} {pushes : List Nat}

theorem refl (hfit : c.Fit) : Trimmed c c (fun _ => false) [] where
  scopes := rfl
  calls := rfl
  sound := hfit.rests.sound
  list := by
    rw [pareEntries_none]
    exact (map_id _).symm
  stands := hfit.rests.sites

theorem log (h : Trimmed c₀ c gone pushes) (log : List LogRecord) : Trimmed c₀ { c with log } gone pushes :=
  ⟨h.scopes, h.calls, h.sound, h.list, h.stands⟩

theorem becomes_changed (pushes : List Nat) (e : Entry) :
    e.instruction.Becomes (Stream.changed pushes Instruction.toDouble e).instruction := by
  unfold Stream.changed
  split
  · exact .inr rfl
  · exact .inl rfl

theorem changed_changed (push : Nat) (pushes : List Nat) (e : Entry) :
    Stream.changed [push] Instruction.toDouble (Stream.changed pushes Instruction.toDouble e) =
      Stream.changed (push :: pushes) Instruction.toDouble e := by
  by_cases hpushes : e.id ∈ pushes
  · rw [Stream.changed_of_mem hpushes, Stream.changed_of_mem (mem_cons_of_mem _ hpushes)]
    by_cases hpush : e.id ∈ [push]
    · rw [@Stream.changed_of_mem ⟨e.id, e.instruction.toDouble⟩ _ _ hpush, Instruction.toDouble_toDouble]
    · exact Stream.changed_of_notMem hpush
  · rw [Stream.changed_of_notMem hpushes]
    by_cases hpush : e.id ∈ [push]
    · rw [Stream.changed_of_mem hpush,
        Stream.changed_of_mem (mem_cons.2 (.inl (mem_singleton.1 hpush)))]
    · rw [Stream.changed_of_notMem hpush, Stream.changed_of_notMem fun hmem => ?_]
      exact (mem_cons.1 hmem).elim (fun h => hpush (mem_singleton.2 h)) hpushes

theorem convert (h : Trimmed c₀ c gone pushes) (push : Nat) :
    Trimmed c₀ { c with stream := c.stream.modify [push] Instruction.toDouble } gone (push :: pushes) := by
  have hlist := Stream.toList_modify c.stream [push] Instruction.toDouble
  refine ⟨h.scopes, h.calls, h.sound.modify _ _, ?_, fun site hsite hvariadic => ?_⟩
  · rw [hlist, h.list, map_map]
    exact map_congr_left fun e _ => changed_changed push pushes e
  · rw [hlist]
    exact (h.stands site hsite hvariadic).convert (Stream.changed_id _ _) (becomes_changed [push])

theorem delete (h : Trimmed c₀ c gone pushes) {stream : Stream} {pre post : List Entry}
    {call drop : Entry} (hnodup : (c₀.stream.code.filterMap Instruction.callId?).Nodup)
    (hsplit : c.stream.toList = pre ++ call :: drop :: post) (hcall : call.instruction.kind = .call)
    (hdrop : drop.instruction.kind = .discardResult)
    (hgone : gone call.instruction.counter = false) (hsound : stream.Sound)
    (hlist : stream.toList = pre ++ call :: post) :
    Trimmed c₀ { c with stream } (Function.update gone call.instruction.counter true) pushes := by
  obtain ⟨pre₀, tail, hpare, rfl, htail⟩ := map_eq_append_iff.1 (h.list.symm.trans hsplit)
  obtain ⟨call₀, tail', rfl, rfl, htail'⟩ := map_eq_cons_iff.1 htail
  obtain ⟨drop₀, post₀, rfl, rfl, rfl⟩ := map_eq_cons_iff.1 htail'
  obtain ⟨hkind, -, -, hcounter, -⟩ := (becomes_changed pushes call₀).fields
  refine ⟨h.scopes, h.calls, hsound, ?_, fun site hsite hvariadic => ?_⟩
  · rw [hcounter] at hgone ⊢
    rw [pareEntries_delete hnodup (hkind.symm.trans hcall)
      ((becomes_changed pushes drop₀).fields.1.symm.trans hdrop) hgone hpare, map_append, map_cons]
    exact hlist
  · have hstands := h.stands site hsite hvariadic
    rw [hsplit, append_cons] at hstands
    show site.Stands stream.toList
    rw [hlist, append_cons]
    refine hstands.delete ?_ ?_
    · rintro (hkind | hkind) <;> cases hdrop.symm.trans hkind
    · rw [hdrop]
      exact InstructionKind.noConfusion

end Trimmed

namespace Meaning

variable {c₀ c : Context}
variable {gone : Nat → Bool} {pushes : List Nat} {done : List CallSite}

/-! ### One call -/

/-- The pushes that have been converted are those of the calls that have been checked. -/
def Converted (scopes : ScopeTree) (done : List CallSite) (pushes : List Nat) : Prop :=
  ∀ push, push ∈ pushes ↔ ∃ site ∈ done, site.Converts scopes push

/-- Some calls have been checked, and those of the rest whose results are dropped still have their
drops. -/
structure Checking (c₀ c : Context) (done rest : List CallSite) : Prop where
  trimmed : ∃ pushes, Trimmed c₀ c (vain c₀.scopes done) pushes ∧ Converted c₀.scopes done pushes
  sites : ∀ site ∈ rest, site.scaffolded → Scaffolded c.stream.code site.callId
  places : ∀ site ∈ rest, site.location ≠ none
  agrees : ∀ site ∈ done, ∃ header returns, site.Agrees c₀.scopes header returns

theorem agrees_removeScaffold {callId : Nat} (h : Trimmed c₀ c gone pushes)
    (hscaffolded : Scaffolded c.stream.code callId)
    (hnodup : (c₀.stream.code.filterMap Instruction.callId?).Nodup) (hgone : gone callId = false) :
    Agrees (removeScaffold callId) c (.ok ()) fun _ _ c' =>
      Trimmed c₀ c' (Function.update gone callId true) pushes ∧
        ∀ other, other ≠ callId → Scaffolded c.stream.code other → Scaffolded c'.stream.code other := by
  obtain ⟨pre, call, drop, post, hcode, hcall, hcounter, hdrop⟩ := hscaffolded
  -- the entries of the call and of its drop
  obtain ⟨entries, tail, hsplit, -, htail⟩ := map_eq_append_iff.1 hcode
  obtain ⟨entry, tail', rfl, hentry, htail'⟩ := map_eq_cons_iff.1 htail
  obtain ⟨next, later, rfl, hnext, -⟩ := map_eq_cons_iff.1 htail'
  refine agrees_bind rfl ?_
  dsimp only
  have hfound : ∃ id, c.stream.findBackward? (fun entry =>
      entry.instruction.kind == .call && entry.instruction.counter == callId &&
        ((c.stream.next? entry.id).bind c.stream.get?).any (·.kind == .discardResult)) = some id := by
    refine Stream.exists_findBackward? h.sound (hsplit ▸ by simp : entry ∈ c.stream.toList) ?_
    rw [Stream.next?_split h.sound hsplit, hentry]
    simp [hcall, hcounter, hnext, hdrop]
  obtain ⟨id, hid⟩ := hfound
  rw [hid]
  obtain ⟨pre', found, post', hsplit', rfl, htest, -⟩ := Stream.findBackward?_eq_some h.sound hid
  rw [Stream.next?_split h.sound hsplit'] at htest
  simp only [Bool.and_eq_true, beq_iff_eq] at htest
  obtain ⟨⟨hkind, rfl⟩, hafter⟩ := htest
  obtain ⟨drop', post'', rfl, hdrop'⟩ : ∃ drop rest, post' = drop :: rest ∧
      drop.instruction.kind = .discardResult := by
    cases post' with
    | nil => cases hafter
    | cons drop rest => exact ⟨drop, rest, rfl, by simpa using hafter⟩
  obtain ⟨left, hdelete, hleft, hsound⟩ := Stream.deleteAfter_split h.sound hsplit'
  dsimp only
  rw [hdelete]
  refine agrees_bind rfl (agrees_bind rfl ⟨_, _, rfl,
    (h.delete hnodup hsplit' hkind hdrop' hgone hsound hleft).log _, fun other hne hother => ?_⟩)
  show Scaffolded (left.toList.map (·.instruction)) other
  rw [Stream.code, hsplit', map_append, map_cons, map_cons] at hother
  rw [hleft, map_append, map_cons]
  exact hother.delete hkind hdrop' hne.symm

theorem external_site {fault : Fault} (place : Option Location) (hplace : site.location ≠ none)
    (hkind : fault.kind ≠ .internal) : Diagnostic.External ⟨fault, place.or site.location⟩ :=
  ⟨hkind, fun hnone => absurd (Option.or_eq_none_iff.1 hnone).2 hplace⟩

theorem meets_checkArgument (h : Trimmed c₀ c gone pushes) (site : CallSite) {header : Scope}
    {index : Nat} {name : String} {base : Ty}
    (hparameter : (name, ⟨.parameter index, base⟩) ∈ header.table.names) (argument : Argument)
    (hplace : site.location ≠ none) :
    Meets true (checkArgument site header index argument) c fun _ c' => argument.Fits header index ∧
      (∀ callId, Scaffolded c.stream.code callId → Scaffolded c'.stream.code callId) ∧
      ∃ pushes', Trimmed c₀ c' gone pushes' ∧ ∀ push, push ∈ pushes' ↔
        push ∈ pushes ∨ argument.push = push ∧ argument.Converts header index := by
  obtain ⟨symbol, hsymbol⟩ := SymbolTable.exists_parameterAt? hparameter
  have hsort := (SymbolTable.role_of_parameterAt? hsymbol).1
  obtain ⟨label, ty, hkind⟩ : ∃ label ty, symbol.kind = .parameter index label ty := by
    rcases symbol with ⟨_, _ | _ | _, _⟩ <;> cases hsort
    exact ⟨_, _, rfl⟩
  have hty : symbol.ty = ty := by rw [Symbol.ty, hkind]
  unfold checkArgument
  rw [hsymbol, Option.map_some, hkind]
  have hexternal : ∀ {fault : Fault}, fault.kind ≠ .internal →
      Diagnostic.External ⟨fault, argument.location.or site.location⟩ := external_site _ hplace
  refine meets_ite (fun _ => meets_bind.2 (meets_throw.2 fun _ => hexternal nofun)) fun hlabel => ?_
  replace hlabel : argument.label = label := not_not.1 hlabel
  refine meets_ite (fun haccepts => ?_) fun hnot => meets_ite (fun hconvert => ?_) fun _ =>
    meets_throw.2 fun _ => hexternal nofun
  · refine ⟨⟨symbol, label, ty, hsymbol, hkind, hlabel, .inl haccepts⟩, fun _ => id, pushes, h,
      fun push => ⟨.inl, ?_⟩⟩
    rintro (hpush | ⟨-, other, hother, -, hint, hdouble⟩)
    · exact hpush
    · -- a double does not accept an integer
      cases hsymbol.symm.trans hother
      rw [hty] at hdouble
      rw [hint] at haccepts
      cases ty with
      | base b | optional b =>
        cases b <;> cases hdouble
        cases haccepts
      | _ => cases hdouble
  · simp only [Bool.and_eq_true, beq_iff_eq] at hconvert
    have hconverts : argument.Converts header index :=
      ⟨symbol, hsymbol, hconvert.1.1, hconvert.1.2, hty ▸ hconvert.2⟩
    refine ⟨⟨symbol, label, ty, hsymbol, hkind, hlabel, .inr hconverts⟩, fun callId hscaffolded => ?_,
      argument.push :: pushes, h.convert argument.push, fun push => ?_⟩
    · show Scaffolded ((c.stream.modify _ _).toList.map (·.instruction)) callId
      rw [Stream.toList_modify]
      exact hscaffolded.convert (Trimmed.becomes_changed _)
    · rw [mem_cons, or_comm, eq_comm]
      simp only [hconverts, and_true]

theorem meets_checkArguments (h : Trimmed c₀ c gone pushes) (site : CallSite) {header : Scope}
    (hplace : site.location ≠ none) (arguments : List Argument) {index : Nat}
    (hparameters : ∀ i < index + arguments.length, ∃ name base,
      (name, ⟨.parameter i, base⟩) ∈ header.table.names) :
    Meets true (checkArguments site header index arguments) c fun _ c' =>
      (∀ (i : Nat) (argument : Argument), arguments[i]? = some argument → argument.Fits header (index + i)) ∧
      (∀ callId, Scaffolded c.stream.code callId → Scaffolded c'.stream.code callId) ∧
      ∃ pushes', Trimmed c₀ c' gone pushes' ∧ ∀ push, push ∈ pushes' ↔ push ∈ pushes ∨
        ∃ (i : Nat) (argument : Argument), arguments[i]? = some argument ∧ argument.push = push ∧
          argument.Converts header (index + i) := by
  induction arguments generalizing c index pushes with
  | nil =>
    refine ⟨fun i argument hargument => ?_, fun _ => id, pushes, h, fun push => by simp⟩
    rw [List.getElem?_nil] at hargument
    cases hargument
  | cons argument later ih =>
    rw [length_cons] at hparameters
    obtain ⟨name, base, hname⟩ := hparameters index (by omega)
    refine (meets_checkArgument h site hname argument hplace).bind ?_
    rintro _ c₁ ⟨hfits, hscaffolds, pushes₁, h₁, hpushes₁⟩
    refine (ih h₁ fun i hi => hparameters i (by omega)).mono ?_
    rintro _ c₂ ⟨hfits', hscaffolds', pushes₂, h₂, hpushes₂⟩
    refine ⟨fun i other hother => ?_, fun callId => hscaffolds' callId ∘ hscaffolds callId, pushes₂,
      h₂, fun push => ?_⟩
    · cases i with
      | zero =>
        cases hother
        exact hfits
      | succ i =>
        rw [← Nat.succ_add_eq_add_succ]
        exact hfits' i other hother
    · rw [hpushes₂, hpushes₁, or_assoc]
      refine or_congr_right ⟨?_, ?_⟩
      · rintro (⟨hpush, hconverts⟩ | ⟨i, other, hother, hrest⟩)
        · exact ⟨0, argument, rfl, hpush, hconverts⟩
        · exact ⟨i + 1, other, hother, by rwa [← Nat.succ_add_eq_add_succ]⟩
      · rintro ⟨_ | i, other, hother, hrest⟩
        · cases hother
          exact .inl hrest
        · exact .inr ⟨i, other, hother, by rwa [Nat.succ_add_eq_add_succ]⟩

theorem lt_size_of_kind {tree : ScopeTree} {id : Nat} (h : (tree.scope id).kind ≠ .global) :
    id < tree.size := by
  by_contra hlt
  rw [ScopeTree.scope_of_le (Nat.le_of_not_lt hlt)] at h
  exact h rfl

theorem complete_of_function? (hd : c.draft.Sound) {name : String} {header : Nat}
    (h : c.scopes.function? name = some header) : c.draft.Complete header := by
  have hkind := (ScopeTree.header_of_function? h).1
  have hlt : header < c.scopes.size := lt_size_of_kind (by rw [hkind]; exact nofun)
  exact hd.headers header hlt hkind

theorem meets_checkResult {rest : List CallSite} {returns : Ty}
    (h : Trimmed c₀ c (vain c₀.scopes done) pushes)
    (hsites : ∀ other ∈ site :: rest, other.scaffolded → Scaffolded c.stream.code other.callId)
    (hnodup : (c₀.stream.code.filterMap Instruction.callId?).Nodup)
    (hne : ∀ other ∈ done ++ rest, other.callId ≠ site.callId)
    (hreturns : c₀.scopes.functionResult? site.name = some returns) (hplace : site.location ≠ none) :
    Meets true (checkResult site returns) c fun _ c' =>
      Trimmed c₀ c' (vain c₀.scopes (site :: done)) pushes ∧
      (∀ other ∈ rest, other.scaffolded → Scaffolded c'.stream.code other.callId) ∧
      ∀ ty, site.target = some ty → ty.accepts returns := by
  obtain ⟨hsite, hrest⟩ := forall_mem_cons.1 hsites
  -- without a drop to be taken out nothing changes
  have hkeep : site.isVain c₀.scopes = false → (∀ ty, site.target = some ty → ty.accepts returns) →
      Trimmed c₀ c (vain c₀.scopes (site :: done)) pushes ∧
      (∀ other ∈ rest, other.scaffolded → Scaffolded c.stream.code other.callId) ∧
      ∀ ty, site.target = some ty → ty.accepts returns := fun hvain htarget =>
    ⟨vain_cons_of_not hvain done ▸ h, hrest, htarget⟩
  unfold checkResult
  split
  · rename_i target htarget
    refine meets_ite (fun haccepts => hkeep ?_ ?_) fun _ => meets_throw.2 fun _ => external_site none hplace nofun
    · have hvoid : returns ≠ .void := by
        rintro rfl
        rw [target.not_accepts_void] at haccepts
        cases haccepts
      rw [CallSite.isVain, hreturns]
      simp [hvoid]
    · intro ty hty
      cases htarget.symm.trans hty
      exact haccepts
  · rename_i htarget
    have hnone : ∀ ty, site.target = some ty → ty.accepts returns := fun ty hty => by
      cases htarget.symm.trans hty
    refine meets_ite (fun hdrop => ?_) fun hkept => hkeep ?_ hnone
    · have hvain : site.isVain c₀.scopes := by
        rw [CallSite.isVain, hdrop.2, hreturns, hdrop.1]
        rfl
      have hgone : vain c₀.scopes done site.callId = false := by
        refine any_eq_false.2 fun other hother => ?_
        simp [hne other (mem_append_left _ hother)]
      obtain ⟨_, c', hrun, hc', hothers⟩ := agrees_removeScaffold h (hsite hdrop.2) hnodup hgone
      refine meets_run hrun ?_
      exact ⟨vain_cons_of_isVain hvain done ▸ hc', fun other hother hscaffolded =>
        hothers _ (hne other (mem_append_right _ hother)) (hrest other hother hscaffolded), hnone⟩
    · rw [CallSite.isVain, hreturns]
      simpa [and_comm] using hkept

theorem meets_checkCall {rest : List CallSite} (hd : c₀.draft.Sound)
    (hnodup : (c₀.stream.code.filterMap Instruction.callId?).Nodup)
    (h : Checking c₀ c done (site :: rest)) (hne : ∀ other ∈ done ++ rest, other.callId ≠ site.callId) :
    Meets true (checkCall site) c fun _ c' => Checking c₀ c' (site :: done) rest := by
  obtain ⟨⟨pushes, htrimmed, hpushes⟩, hsites, hplaces, hagrees⟩ := h
  obtain ⟨hplace, hplaces'⟩ := forall_mem_cons.1 hplaces
  have hexternal : ∀ {fault : Fault}, fault.kind ≠ .internal → Diagnostic.External ⟨fault, site.location⟩ :=
    external_site none hplace
  refine meets_bind.2 (meets_get.2 ?_)
  dsimp only
  rw [htrimmed.scopes]
  split
  · exact meets_throw.2 fun _ => hexternal nofun
  · rename_i header hheader
    split
    · exact meets_throw.2 fun _ => hexternal nofun
    · rename_i returns hreturns
      refine meets_ite (fun _ => meets_bind.2 (meets_throw.2 fun _ => hexternal nofun)) fun hcount => ?_
      have hlength : Builtin.isVariadic site.name = false →
          site.arguments.length = (c₀.scopes.scope header).parameters := fun hvariadic => by
        simpa [hvariadic] using hcount
      split
      · exact meets_bind.2 (meets_throw.2 fun _ => external_site _ hplace nofun)
      · rename_i hfind
        have hinitialized : ∀ argument ∈ site.arguments, argument.initialized := by
          intro argument hargument
          by_contra hnot
          have hsome : (site.arguments.find? (!·.initialized)).isSome :=
            List.find?_isSome.2 ⟨argument, hargument, by simpa using hnot⟩
          obtain ⟨found, hfound⟩ := Option.isSome_iff_exists.1 hsome
          exact hfind found hfound
        refine meets_ite (fun hvariadic => ?_) fun hvariadic => ?_
        · refine (meets_checkResult htrimmed hsites hnodup hne hreturns hplace).mono ?_
          rintro _ c' ⟨htrimmed', hsites', htarget⟩
          have hother : Builtin.isVariadic site.name ≠ false := by
            rw [hvariadic]
            nofun
          refine ⟨⟨pushes, htrimmed', fun push => ?_⟩, hsites', hplaces', forall_mem_cons.2
            ⟨⟨header, returns, hheader, hreturns, htarget, hinitialized, fun h => absurd h hother,
              fun h => absurd h hother⟩, hagrees⟩⟩
          rw [hpushes push, exists_mem_cons_iff]
          exact ⟨.inr, fun h => h.resolve_left fun hconverts => hother hconverts.1⟩
        · replace hvariadic := Bool.eq_false_iff.2 hvariadic
          have hparameters : ∀ i < 0 + site.arguments.length, ∃ name base,
              (name, ⟨.parameter i, base⟩) ∈ (c₀.scopes.scope header).table.names := by
            intro i hi
            rw [Nat.zero_add, hlength hvariadic] at hi
            exact (complete_of_function? hd hheader).2 i hi
          refine (meets_checkArguments htrimmed site hplace site.arguments hparameters).bind ?_
          rintro _ c₁ ⟨hfits, hscaffolds, pushes₁, htrimmed₁, hpushes₁⟩
          refine (meets_checkResult htrimmed₁ (fun other hother hscaffolded => hscaffolds _
            (hsites other hother hscaffolded)) hnodup hne hreturns hplace).mono ?_
          rintro _ c₂ ⟨htrimmed₂, hsites₂, htarget⟩
          refine ⟨⟨pushes₁, htrimmed₂, fun push => ?_⟩, hsites₂, hplaces', forall_mem_cons.2
            ⟨⟨header, returns, hheader, hreturns, htarget, hinitialized, hlength, fun _ i argument hi =>
              ?_⟩, hagrees⟩⟩
          · rw [hpushes₁, hpushes push, exists_mem_cons_iff, or_comm]
            refine or_congr_left ⟨?_, ?_⟩
            · rintro ⟨i, argument, hargument, hpush, hconverts⟩
              rw [Nat.zero_add] at hconverts
              exact ⟨hvariadic, header, i, argument, hheader, hargument, hpush, hconverts⟩
            · rintro ⟨-, other, i, argument, hother, hargument, hpush, hconverts⟩
              cases hheader.symm.trans hother
              exact ⟨i, argument, hargument, hpush, by rwa [Nat.zero_add]⟩
          · have hfit := hfits i argument hi
            rwa [Nat.zero_add] at hfit

/-! ### All calls -/

theorem meets_checkCall_all (hd : c₀.draft.Sound)
    (hnodup : (c₀.stream.code.filterMap Instruction.callId?).Nodup) (sites : List CallSite)
    (hids : ((done ++ sites).map (·.callId)).Nodup) (h : Checking c₀ c done sites) :
    Meets true (sites.forM checkCall) c fun _ c' => Checking c₀ c' (sites.reverse ++ done) [] := by
  induction sites generalizing c done with
  | nil => exact h
  | cons site rest ih =>
    have hperm : (done ++ site :: rest).Perm (site :: (done ++ rest)) := perm_middle
    have hids' := (hperm.map (·.callId)).nodup_iff.1 hids
    obtain ⟨hsite, -⟩ := nodup_cons.1 hids'
    refine (meets_checkCall hd hnodup h fun other hother heq => hsite ?_).bind fun _ c₁ h₁ => ?_
    · exact mem_map.2 ⟨other, hother, heq⟩
    · rw [reverse_cons, append_assoc]
      exact ih hids' h₁

theorem callIds_nodup (hd : c.draft.Sound) : (c.calls.recorded.map (·.callId)).Nodup := by
  rw [show c.calls.recorded.map (·.callId) = _ from hd.code.numbered]
  exact nodup_reverse.2 (nodup_range' 1)

theorem codeIds_nodup (hd : c.draft.Sound) (hcounted : c.draft.Counted) :
    (c.stream.code.filterMap Instruction.callId?).Nodup := by
  rw [show c.stream.code.filterMap Instruction.callId? = _ from hcounted]
  refine (filter_sublist.map _).nodup ?_
  rw [Calls.toList, map_reverse, nodup_reverse]
  exact callIds_nodup hd

theorem checking_start (hfit : c.Fit) (hd : c.draft.Sound) {sites : List CallSite}
    (h : ∀ site ∈ sites, site ∈ c.calls.recorded) : Checking c c [] sites :=
  ⟨⟨[], .refl hfit, fun push => by simp⟩, fun site hsite => hd.code.sites site (h site hsite),
    fun site hsite => hfit.rests.places site (h site hsite), fun _ h => absurd h not_mem_nil⟩

theorem meets_checkCalls (hfit : c.Fit) (hd : c.draft.Sound) (hcounted : c.draft.Counted) :
    Meets true checkCalls c fun _ c' => Checking c c' c.calls.recorded [] := by
  refine meets_bind.2 (meets_get.2 ?_)
  have hids : (c.calls.toList.map (·.callId)).Nodup := by
    rw [Calls.toList, map_reverse, nodup_reverse]
    exact callIds_nodup hd
  refine (meets_checkCall_all hd (codeIds_nodup hd hcounted) c.calls.toList hids
    (checking_start hfit hd fun site => mem_reverse.1)).bind fun _ c' hc' => ?_
  rw [append_nil, Calls.toList, reverse_reverse] at hc'
  obtain ⟨⟨pushes, htrimmed, hpushes⟩, hsites, hplaces, hagrees⟩ := hc'
  exact ⟨⟨pushes, htrimmed.log _, hpushes⟩, hsites, hplaces, hagrees⟩

end Meaning

end OnePass
