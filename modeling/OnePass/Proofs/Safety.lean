import OnePass.Compile
import OnePass.Proofs.Functions
import OnePass.Proofs.Meaning.Validation

/-!
# No internal faults

Every step of a compilation may fail inside the compiler: a label, a parameter or a drop may be
missing, an instruction may lack its name.  None of it happens, whatever the source text is.

Main results:

* `Meaning.meets_program` — the checks of a program fail for reasons that lie in it;
* `Target.render_fault` — the code of a program can be rendered;
* `compile_ok_or_external` — **a compilation succeeds or fails for a reason that lies in the source
  text or in the settings**.
-/

namespace OnePass

variable {c : Context} {p : Program}

/-! ### Checking -/

/-- What is known of a program whose text has been read and whose calls have been checked: the
context before the check, and what the check has changed. -/
structure Accepted (c : Context) (p : Program) : Prop where
  composed : Meaning.Composed c
  scopes : p.scopes = c.scopes
  calls : p.calls = c.calls
  list : ∃ pushes, Meaning.Converted c.scopes c.calls.recorded pushes ∧
    p.stream.toList = (pareEntries (vain c.scopes c.calls.recorded) c.stream.toList).map
      (Stream.changed pushes Instruction.toDouble)
  stands : ∀ site ∈ c.calls.recorded, Builtin.isVariadic site.name = false → site.Stands p.stream.toList
  agrees : ∀ site ∈ c.calls.recorded, ∃ header returns, site.Agrees c.scopes header returns

theorem Accepted.code (h : Accepted c p) :
    Becoming (pare (vain c.scopes c.calls.recorded) c.stream.code) p.stream.code := by
  obtain ⟨pushes, -, hlist⟩ := h.list
  rw [Stream.code, Stream.code, hlist, ← map_pareEntries]
  exact becoming_map (Trimmed.becomes_changed pushes)

theorem Accepted.entries (h : Accepted c p) : ∃ pushes, Meaning.Converted c.scopes c.calls.recorded pushes ∧
    ∀ e ∈ p.stream.toList, ∃ e₀ ∈ c.stream.toList, e = Stream.changed pushes Instruction.toDouble e₀ := by
  obtain ⟨pushes, hpushes, hlist⟩ := h.list
  refine ⟨pushes, hpushes, fun e he => ?_⟩
  rw [hlist] at he
  obtain ⟨e₀, he₀, rfl⟩ := List.mem_map.1 he
  exact ⟨e₀, (pareEntries_sublist _ _).subset he₀, rfl⟩

theorem Accepted.trims (h : Accepted c p) : Trims c.stream.code p.stream.code :=
  (trims_pare _ _).trans h.code.trims

theorem Accepted.lays (h : Accepted c p) :
    ∃ parts codes, Composes parts c.draft ∧ List.Forall₂ Part.Lays parts codes ∧
      p.stream.code = codes.flatten := by
  obtain ⟨parts, hparts⟩ := h.composed.composes
  obtain ⟨codes, hcodes, hcode⟩ := hparts.lays
  have htrims : Trims codes.flatten p.stream.code := hcode ▸ h.trims
  obtain ⟨codes', hcodes', hcode'⟩ := lays_trim hcodes htrims
  exact ⟨parts, codes', hparts, hcodes', hcode'⟩

theorem Accepted.function?_name (h : Accepted c p) {header : Nat}
    (hkind : (c.scopes.scope header).kind = .functionHeader) :
    c.scopes.function? (c.scopes.scope header).name = some header := by
  obtain ⟨parts, hparts⟩ := h.composed.composes
  have hlt : ∀ {id}, (c.scopes.scope id).kind = .functionHeader → id < c.draft.size := fun hkind =>
    Meaning.lt_size_of_kind (by rw [hkind]; exact ScopeKind.noConfusion)
  have hlisted : header ∈ (c.scopes.scope ScopeTree.root).children :=
    hparts.headers.listed header (hlt hkind) hkind
  cases hfound : c.scopes.function? (c.scopes.scope header).name with
  | none =>
    have hnot := List.find?_eq_none.1 hfound header hlisted
    simp [hkind] at hnot
  | some other =>
    obtain ⟨hother, hname⟩ := ScopeTree.header_of_function? hfound
    exact congrArg some (hparts.headers.unique other (hlt hother) header (hlt hkind) hother hkind hname)

theorem Accepted.begun (h : Accepted c p) {header : Nat} {returns : Ty}
    (hkind : (c.scopes.scope header).kind = .functionHeader)
    (hsymbol : ((c.scopes.scope ScopeTree.root).table.get? (c.scopes.scope header).name).map Symbol.kind =
      some (.function returns false)) : ∃ i ∈ c.stream.code, i.Marks .functionBegin header := by
  obtain ⟨hfit, parts, hparts⟩ := h.composed
  have hlt : header < c.draft.size :=
    Meaning.lt_size_of_kind (by rw [hkind]; exact ScopeKind.noConfusion)
  obtain ⟨symbol, hget, hkind'⟩ := Option.map_eq_some_iff.1 hsymbol
  rcases hparts.headers.begun header hlt hkind with ⟨builtin, -, hname, hrole⟩ | hbegun
  · -- a symbol cannot be that of a built-in function and of one of the program
    rw [← hname] at hrole
    have hsame := SymbolTable.role_unique (hfit.scopes ScopeTree.root)
      (SymbolTable.mem_names_of_get? (hfit.scopes ScopeTree.root) hget) hrole
    rw [Symbol.role, hkind'] at hsame
    cases hsame
  · exact hbegun

namespace Meaning

theorem Composed.accepted (h : Composed c) (log : List LogRecord) :
    Meets true checkCalls { c with log } fun _ c' => Accepted c ⟨c'.scopes, c'.stream, c'.calls⟩ := by
  obtain ⟨hfit, parts, hparts⟩ := id h
  have hcheck : Meets true checkCalls { c with log } fun _ c' =>
      Checking { c with log } c' c.calls.recorded [] :=
    meets_checkCalls (hfit.log log) hparts.sound.1 hparts.counted
  refine hcheck.mono ?_
  rintro _ c' ⟨⟨pushes, htrimmed, hpushes⟩, -, -, hagrees⟩
  exact ⟨h, htrimmed.scopes, htrimmed.calls, ⟨pushes, hpushes, htrimmed.list⟩,
    htrimmed.stands, hagrees⟩

theorem meets_checked (source : String) :
    Meets true (checked (parse (.ofSource source))) .start fun _ c' => ∃ c,
      Accepted c ⟨c'.scopes, c'.stream, c'.calls⟩ ∧ Filled source c := by
  refine (meets_read source).bind fun _ c hc => meets_bind.2 (meets_get.2 (meets_bind.2 (meets_report.2 ?_)))
  exact (hc.1.accepted _).mono fun _ c' haccepted => ⟨c, haccepted, hc.2⟩

theorem meets_program (source : String) :
    Meets true (program (parse (.ofSource source))) .start fun p _ => ∃ c,
      Accepted c p ∧ c.scopes.checkReturns = .ok () ∧ Filled source c := by
  refine (meets_checked source).bind fun _ c' hc' => meets_bind.2 (meets_get.2 (meets_bind.2 ?_))
  obtain ⟨c, haccepted, hfilled⟩ := hc'
  refine meets_orFail (fun _ hreturns => ?_) fun d hreturns _ => ?_
  · exact ⟨c, haccepted, haccepted.scopes ▸ hreturns, hfilled⟩
  · unfold ScopeTree.checkReturns at hreturns
    split at hreturns <;> cases hreturns
    exact ⟨nofun, fun _ => ⟨_, rfl⟩⟩

end Meaning

/-! ### Rendering -/

namespace Target

variable {i : Instruction} {name : String}

theorem Listing.fault_append {P : Option Diagnostic → Prop} {first second : Listing} (h : P first.fault)
    (h' : P second.fault) : P (first ++ second).fault := by
  show P (Listing.append first second).fault
  unfold Listing.append
  split
  · exact h
  · exact h'

theorem Listing.fault_foldr {P : Option Diagnostic → Prop} {listings : List Listing} {last : Listing}
    (h : ∀ listing ∈ listings, P listing.fault) (hlast : P last.fault) :
    P (listings.foldr Listing.append last).fault := by
  induction listings with
  | nil => exact hlast
  | cons first later ih =>
    obtain ⟨hfirst, hlater⟩ := List.forall_mem_cons.1 h
    exact fault_append hfirst (ih hlater)

theorem fault_named (h : i.name? = some name) (lines : String → List Line) :
    (named i lines).fault = none := by
  rw [named, h]
  rfl

theorem fault_linesOf (settings : Settings) (scopes : ScopeTree) (h : i.Renderable) :
    (linesOf settings scopes i).fault = none := by
  obtain ⟨hnamed, hliteral⟩ := h
  have hname : i.kind.isNamed → ∀ lines, (named i lines).fault = none := by
    intro hkind lines
    obtain ⟨name, hname⟩ := hnamed hkind
    exact fault_named hname lines
  unfold linesOf
  cases hkind : i.kind with
  | pushLiteral =>
    obtain ⟨operand, hoperand⟩ := Option.isSome_iff_exists.1 (hliteral hkind)
    dsimp only
    rw [hoperand]
    rfl
  | functionEnd => exact Listing.fault_append (P := (· = none)) rfl (hname (hkind ▸ rfl) _)
  | defineVariable | pushVariable | popVariable | ifLetCondition | functionBegin | paramPop | call =>
    exact hname (hkind ▸ rfl) _
  | _ => rfl

theorem body?_of_calledBuiltin? (h : calledBuiltin? i = some name) : ∃ lines, body? name = some lines := by
  have hall : ∀ builtin ∈ Builtin.all, builtin.variadic = false → (body? builtin.name).isSome := by
    decide +kernel
  unfold calledBuiltin? at h
  split at h
  · obtain ⟨builtin, hbuiltin, hname⟩ := Option.bind_eq_some_iff.1 h
    obtain ⟨callee, -, hfind⟩ := Option.bind_eq_some_iff.1 hbuiltin
    split at hname
    · cases hname
    · rename_i hvariadic
      cases hname
      exact Option.isSome_iff_exists.1
        (hall builtin (List.mem_of_find?_eq_some hfind) (Bool.eq_false_iff.2 hvariadic))
  · cases h

theorem fault_bodyListing {instructions : List Instruction} (h : name ∈ calledBuiltins instructions) :
    (bodyListing name).fault = none := by
  obtain ⟨i, -, hi⟩ := List.mem_filterMap.1 (List.mem_eraseDups.1 h)
  obtain ⟨lines, hlines⟩ := body?_of_calledBuiltin? hi
  rw [bodyListing, hlines]
  rfl

theorem render_fault (settings : Settings) (scopes : ScopeTree) {stream : Stream}
    (h : ∀ i ∈ stream.code, i.Renderable) : (render settings scopes stream).fault = none := by
  refine Listing.fault_append (P := (· = none)) (Listing.fault_foldr (P := (· = none)) ?_ rfl)
    (Listing.fault_foldr (P := (· = none)) ?_ rfl)
  · intro listing hlisting
    obtain ⟨i, hi, rfl⟩ := List.mem_map.1 hlisting
    exact fault_linesOf settings scopes (h i hi)
  · intro listing hlisting
    obtain ⟨name, hname, rfl⟩ := List.mem_map.1 hlisting
    exact fault_bodyListing hname

end Target

/-! ### Compiling -/

theorem Instruction.Becomes.renderable {i j : Instruction} (h : i.Becomes j) (hi : i.Renderable) :
    j.Renderable := by
  obtain ⟨hnamed, hliteral⟩ := hi
  obtain ⟨hkind, -, -, -, hname⟩ := h.fields
  refine ⟨fun hj => hname ▸ hnamed (hkind ▸ hj), fun hj => ?_⟩
  rcases h with rfl | rfl
  · exact hliteral hj
  · have hsome := hliteral (hkind ▸ hj)
    unfold toDouble
    split
    · rfl
    · exact hsome

theorem Accepted.renderable (h : Accepted c p) : ∀ i ∈ p.stream.code, i.Renderable := by
  intro j hj
  obtain ⟨i, hi, hbecomes⟩ := h.trims.exists_becomes hj
  obtain ⟨parts, hparts⟩ := h.composed.composes
  exact hbecomes.renderable (hparts.sound.1.code.renderable i hi)

theorem ofFeed_ok_or_external (source : String) :
    (∃ p c, (Program.ofFeed (.ofSource source)).result = .ok p ∧ Accepted c p ∧
      c.scopes.checkReturns = .ok () ∧ Meaning.Filled source c) ∨
    ∃ d, (Program.ofFeed (.ofSource source)).result = .error d ∧ d.External := by
  have hmeets := Meaning.meets_program source
  unfold Meaning.Meets at hmeets
  unfold Program.ofFeed
  split at hmeets
  · rename_i p c hrun
    obtain ⟨c, haccepted, hrest⟩ := hmeets
    exact .inl ⟨p, c, by rw [hrun], haccepted, hrest⟩
  · rename_i d c hrun
    exact .inr ⟨d, by rw [hrun], hmeets rfl⟩

theorem accepted_of_ok {source : String} (h : (Program.ofFeed (.ofSource source)).result = .ok p) :
    ∃ c, Accepted c p ∧ c.scopes.checkReturns = .ok () ∧ Meaning.Filled source c := by
  rcases ofFeed_ok_or_external source with ⟨p', c, hok, hrest⟩ | ⟨d, herror, -⟩
  · cases h.symm.trans hok
    exact ⟨c, hrest⟩
  · cases h.symm.trans herror

section compile

variable {settings : Settings} {source : String}

theorem compile_of_check_error {d : Diagnostic} (hcheck : settings.check = .error d) :
    (compile settings source).result = .error d := by
  unfold compile compileFeed compileListing compileProgram
  rw [hcheck]
  rfl

theorem compile_of_error {d : Diagnostic} (hcheck : settings.check = .ok ())
    (h : (Program.ofFeed (.ofSource source)).result = .error d) :
    (compile settings source).result = .error d := by
  unfold compile compileFeed compileListing compileProgram
  rw [hcheck]
  dsimp only
  rw [h]
  rfl

theorem compileListing_of_ok (hcheck : settings.check = .ok ())
    (h : (Program.ofFeed (.ofSource source)).result = .ok p) :
    (compileListing settings (.ofSource source)).result = .ok (Target.render settings p.scopes p.stream) := by
  obtain ⟨c, haccepted, -⟩ := accepted_of_ok h
  unfold compileListing compileProgram
  rw [hcheck]
  dsimp only
  rw [h]
  dsimp only [renderProgram]
  rw [Target.render_fault settings p.scopes haccepted.renderable]

theorem compile_of_ok (hcheck : settings.check = .ok ())
    (h : (Program.ofFeed (.ofSource source)).result = .ok p) :
    (compile settings source).result =
      .ok (Target.textOf (Target.render settings p.scopes p.stream).lines) := by
  unfold compile compileFeed
  dsimp only
  rw [compileListing_of_ok hcheck h]
  rfl

end compile

/-- A compilation succeeds or fails for a reason that lies in the source text or in the settings. -/
theorem compile_ok_or_external (settings : Settings) (source : String) :
    (∃ text, (compile settings source).result = .ok text) ∨
      ∃ d, (compile settings source).result = .error d ∧ d.kind ≠ .internal := by
  cases hcheck : settings.check with
  | error d =>
    refine .inr ⟨d, compile_of_check_error hcheck, ?_⟩
    unfold Settings.check at hcheck
    split at hcheck <;> cases hcheck
    exact nofun
  | ok =>
    rcases ofFeed_ok_or_external source with ⟨p, c, hok, -⟩ | ⟨d, herror, hexternal⟩
    · exact .inl ⟨_, compile_of_ok hcheck hok⟩
    · exact .inr ⟨d, compile_of_error hcheck herror, hexternal.1⟩

end OnePass
