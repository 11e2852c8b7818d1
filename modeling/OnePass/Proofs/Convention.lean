import OnePass.Proofs.Arrangement
import OnePass.Proofs.Heights

/-!
# The calling convention

A call and the function that it calls are written apart from each other, often the call first.  What the
call leaves on the stack is what the function takes from it: the arguments are pushed from left to right
directly in front of the call, and the function takes its parameters from last to first directly behind
its beginning.  Literals may have become doubles in between, but only those of arguments whose parameters
are doubles.

Main results:

* `CallSite.Stands.unique` — an instruction pushes one argument of one call;
* `Accepted.supplies` — the instructions that a call refers to push its arguments;
* `calling_convention` — **the recorded calls of a program connect to the functions that they call**.
-/

namespace OnePass

open List

/-! ### What is agreed -/

/-- An instruction pushes an argument for a parameter of a type: a literal whose type the parameter
accepts, or a variable. The type of a variable at the call is its declared type, or that type without the
option of being absent. -/
inductive Argument.Passed (scopes : ScopeTree) (ty : Ty) (argument : Argument) (push : Instruction) :
    Prop where
  | literal {payload : Payload} {actual : Ty} (hliteral : argument.literal)
      (hkind : push.kind = .pushLiteral) (hpayload : push.payload = some payload)
      (hty : payload.HasTy actual) (haccepts : ty.accepts actual)
  | variable {name : String} {owner : Nat} {symbol : Symbol} (hliteral : argument.literal = false)
      (hkind : push.kind = .pushVariable)
      (hname : push.name? = some (Meaning.storageName name owner))
      (hsymbol : (scopes.scope owner).table.get? name = some symbol)
      (hfunction : symbol.isFunction = false)
      (hty : symbol.ty.unwrapped = argument.ty.unwrapped) (haccepts : ty.accepts argument.ty)

/-- A function begins once in the code, and directly behind its beginning its parameters are taken off the
stack, last one first. -/
def Program.Enters (p : Program) (header : Nat) : Prop :=
  ∃ pre entry pops post, p.stream.code = pre ++ entry :: (pops ++ post) ∧
    entry.Bounds .functionBegin header (p.scopes.scope header).name ∧
    (∀ i ∈ pre ++ (pops ++ post), ¬ i.Marks .functionBegin header) ∧
    (∀ i ∈ post.head?, i.kind ≠ .paramPop) ∧
    pops.map (fun i => (i.kind, i.name?)) =
      (List.range (p.scopes.scope header).parameters).reverse.map fun index =>
        (.paramPop, ((p.scopes.scope header).table.parameterAt? index).map fun symbol =>
          Meaning.storageName symbol.name header)

/-- A recorded call agrees with the function that it calls, given by its header. -/
structure CallSite.Connects (p : Program) (site : CallSite) (header : Nat) : Prop where
  callee : p.scopes.function? site.name = some header
  once : p.stream.code.countP (fun i => i.kind = .call ∧ i.counter = site.callId) = 1
  passes : ∃ pre pushes call post, p.stream.toList = pre ++ pushes ++ call :: post ∧
    call.instruction.Invokes site ∧ pushes.map (·.id) = site.arguments.map (·.push) ∧
    pushes.length = (p.scopes.scope header).parameters ∧
    ∀ index argument push, site.arguments[index]? = some argument → pushes[index]? = some push →
      ∃ symbol label ty, (p.scopes.scope header).table.parameterAt? index = some symbol ∧
        symbol.kind = .parameter index label ty ∧ argument.label = label ∧
        argument.Passed p.scopes ty push.instruction
  enters : ∀ returns, ((p.scopes.scope ScopeTree.root).table.get? site.name).map Symbol.kind =
    some (.function returns false) → p.Enters header

/-! ### Places of calls -/

namespace CallSite.Stands

variable {site site' : CallSite} {entries : List Entry}

theorem places (h : site.Stands entries) : ∃ start,
    (∀ index argument, site.arguments[index]? = some argument →
      ∃ e, entries[start + index]? = some e ∧ e.id = argument.push ∧ e.instruction.IsPush) ∧
    ∃ call, entries[start + site.arguments.length]? = some call ∧ call.instruction.Invokes site := by
  obtain ⟨pre, pushes, call, post, rfl, hids, hpushes, hinvokes⟩ := h
  have hlength : pushes.length = site.arguments.length := by
    simpa using congrArg List.length hids
  refine ⟨pre.length, fun index argument hargument => ?_, call, ?_, hinvokes⟩
  · have hid : (pushes.map (·.id))[index]? = some argument.push := by
      rw [hids, List.getElem?_map, hargument]
      rfl
    rw [List.getElem?_map] at hid
    obtain ⟨e, he, hid⟩ := Option.map_eq_some_iff.1 hid
    refine ⟨e, ?_, hid, hpushes e (mem_of_getElem? he)⟩
    have hlt : index < pushes.length := (List.getElem?_eq_some_iff.1 he).1
    rw [append_assoc, List.getElem?_append_right (Nat.le_add_right _ _), Nat.add_sub_cancel_left,
      List.getElem?_append_left hlt, he]
  · rw [← hlength, ← length_append, List.getElem?_append_right (Nat.le_refl _), Nat.sub_self]
    rfl

theorem le_of_call {start place : Nat} {call : Entry}
    (hpushes : ∀ index argument, site.arguments[index]? = some argument →
      ∃ e, entries[start + index]? = some e ∧ e.id = argument.push ∧ e.instruction.IsPush)
    (hcall : entries[place]? = some call) (hkind : call.instruction.kind = .call)
    (hle : start ≤ place) : start + site.arguments.length ≤ place := by
  by_contra hlt
  have hindex : place - start < site.arguments.length := by omega
  obtain ⟨e, he, -, hpush⟩ := hpushes _ _ (List.getElem?_eq_getElem hindex)
  rw [Nat.add_sub_cancel' hle, hcall] at he
  cases he
  rcases hpush with hpush | hpush <;> cases hkind.symm.trans hpush

theorem unique (hnodup : (entries.map (·.id)).Nodup) (h : site.Stands entries)
    (h' : site'.Stands entries) {index index' : Nat} {argument argument' : Argument}
    (hargument : site.arguments[index]? = some argument)
    (hargument' : site'.arguments[index']? = some argument')
    (hpush : argument.push = argument'.push) :
    site.callId = site'.callId ∧ site.arguments.length + index' = site'.arguments.length + index := by
  obtain ⟨start, hpushes, call, hcall, hinvokes⟩ := h.places
  obtain ⟨start', hpushes', call', hcall', hinvokes'⟩ := h'.places
  obtain ⟨e, he, hid, -⟩ := hpushes index argument hargument
  obtain ⟨e', he', hid', -⟩ := hpushes' index' argument' hargument'
  have hplace : start + index = start' + index' :=
    filterMap_once (f := fun e : Entry => some e.id) (by rwa [filterMap_eq_map']) he he'
      (congrArg some hid) (congrArg some (hid'.trans hpush.symm))
  have hlt : index < site.arguments.length := (List.getElem?_eq_some_iff.1 hargument).1
  have hlt' : index' < site'.arguments.length := (List.getElem?_eq_some_iff.1 hargument').1
  -- behind the push there are only pushes up to the call
  have hend : start + site.arguments.length = start' + site'.arguments.length :=
    Nat.le_antisymm (le_of_call hpushes hcall' hinvokes'.1 (by omega))
      (le_of_call hpushes' hcall hinvokes.1 (by omega))
  rw [hend, hcall'] at hcall
  cases hcall
  exact ⟨hinvokes.2.2.symm.trans hinvokes'.2.2, by omega⟩

end CallSite.Stands

/-! ### Arguments -/

section accepted

variable {c : Context} {p : Program}
variable {site : CallSite} {index header : Nat} {argument : Argument} {pops : List Instruction}

theorem Accepted.numbered (h : Accepted c p) :
    p.calls.toList.map (·.callId) = List.range' 1 p.calls.length := by
  obtain ⟨parts, hparts⟩ := h.composed.composes
  have hnumbered : c.calls.recorded.map (·.callId) = (List.range' 1 c.calls.length).reverse :=
    hparts.sound.1.code.numbered
  rw [h.calls, Calls.toList, map_reverse, hnumbered, reverse_reverse]

theorem Accepted.callIds_nodup (h : Accepted c p) : (c.calls.recorded.map (·.callId)).Nodup := by
  obtain ⟨parts, hparts⟩ := h.composed.composes
  exact Meaning.callIds_nodup hparts.sound.1

theorem Accepted.calls_once (h : Accepted c p) : (c.stream.code.filterMap Instruction.callId?).Nodup ∧
    p.stream.code.filterMap Instruction.callId? = c.stream.code.filterMap Instruction.callId? := by
  obtain ⟨parts, hparts⟩ := h.composed.composes
  exact ⟨Meaning.codeIds_nodup hparts.sound.1 hparts.counted, h.code.callIds.trans (callIds_pare _ _)⟩

theorem Accepted.countP_call (h : Accepted c p) (hsite : site ∈ c.calls.recorded)
    (hvariadic : Builtin.isVariadic site.name = false) :
    p.stream.code.countP (fun i => i.kind = .call ∧ i.counter = site.callId) = 1 := by
  obtain ⟨pre, pushes, call, post, hlist, -, -, hinvokes⟩ := h.stands site hsite hvariadic
  have hmem : site.callId ∈ p.stream.code.filterMap Instruction.callId? := by
    refine mem_filterMap.2 ⟨call.instruction, mem_map_of_mem ?_, ?_⟩
    · rw [hlist]
      exact mem_append_right _ mem_cons_self
    · rw [Instruction.callId?, if_pos hinvokes.1, hinvokes.2.2]
  have hcount : (p.stream.code.filterMap Instruction.callId?).count site.callId = 1 :=
    count_eq_one_of_mem (h.calls_once.2 ▸ h.calls_once.1) hmem
  rw [← hcount, List.count, countP_filterMap]
  refine countP_congr fun i _ => ?_
  by_cases hkind : i.kind = .call <;> simp [Instruction.callId?, hkind]

theorem Accepted.supplies (h : Accepted c p) (hsite : site ∈ c.calls.recorded)
    (hvariadic : Builtin.isVariadic site.name = false)
    (hargument : site.arguments[index]? = some argument) {e : Entry} (he : e ∈ c.stream.toList)
    (hid : e.id = argument.push) : c.draft.Supplies argument e.instruction := by
  obtain ⟨hfit, parts, hparts⟩ := h.composed
  obtain ⟨start, hentries, call, hcall, hinvokes⟩ := (hfit.rests.sites site hsite hvariadic).places
  obtain ⟨pushes, call', hpushes, hinvokes', before, after, hcode⟩ :=
    hparts.arranged.arguments site hsite hvariadic
  replace hcode : c.stream.code = before ++ pushes ++ call' :: after := by
    show c.draft.code = _
    simp [← hcode]
  have hlength : site.arguments.length = pushes.length := hpushes.length_eq
  -- the call is there once, so the pushes begin at the same place
  have hstart : start = before.length := by
    have hplace : c.stream.code[start + site.arguments.length]? = some call.instruction := by
      rw [Stream.code, List.getElem?_map, hcall]
      rfl
    have hplace' : c.stream.code[before.length + pushes.length]? = some call' :=
      getElem?_between hcode length_append.symm
    have honce := filterMap_once h.calls_once.1 hplace hplace'
      (by rw [Instruction.callId?, if_pos hinvokes.1, hinvokes.2.2])
      (by rw [Instruction.callId?, if_pos hinvokes'.1, hinvokes'.2.2])
    omega
  -- and the entry with the number of the argument is the one at the place of the argument
  obtain ⟨e', he', hid', -⟩ := hentries index argument hargument
  obtain rfl : e = e' := inj_on_of_nodup_map hfit.rests.sound.nodup he (mem_of_getElem? he')
    (hid.trans hid'.symm)
  obtain ⟨hindex, rfl⟩ := List.getElem?_eq_some_iff.1 hargument
  have hindex' : index < pushes.length := hlength ▸ hindex
  have hpush : c.stream.code[start + index]? = some e.instruction := by
    rw [Stream.code, List.getElem?_map, he']
    rfl
  rw [hstart, getElem?_piece hcode hindex', List.getElem?_eq_getElem hindex'] at hpush
  rw [← Option.some.inj hpush]
  exact hpushes.get hindex hindex'

theorem Accepted.converts_iff (h : Accepted c p) {ids : List Nat}
    (hids : Meaning.Converted c.scopes c.calls.recorded ids) (hsite : site ∈ c.calls.recorded)
    (hvariadic : Builtin.isVariadic site.name = false)
    (hcallee : c.scopes.function? site.name = some header)
    (hargument : site.arguments[index]? = some argument) :
    argument.push ∈ ids ↔ argument.Converts (c.scopes.scope header) index := by
  obtain ⟨hfit, -⟩ := h.composed
  rw [hids]
  constructor
  · rintro ⟨site', hsite', hvariadic', header', index', argument', hcallee', hargument', hpush, hconverts⟩
    obtain ⟨hid, hindex⟩ := CallSite.Stands.unique hfit.rests.sound.nodup (hfit.rests.sites site hsite hvariadic)
      (hfit.rests.sites site' hsite' hvariadic') hargument hargument' hpush.symm
    obtain rfl := inj_on_of_nodup_map h.callIds_nodup hsite hsite' hid
    cases Nat.add_left_cancel hindex
    cases hcallee.symm.trans hcallee'
    cases hargument.symm.trans hargument'
    exact hconverts
  · exact fun hconverts =>
      ⟨site, hsite, hvariadic, header, index, argument, hcallee, hargument, rfl, hconverts⟩

theorem Ty.accepts_double {ty : Ty} (h : ty.unwrapped = .double) : ty.accepts .double := by
  rcases ty with (_ | _ | _) | (_ | _ | _) | _ | _ | _ <;> first | rfl | cases h

theorem Accepted.passed (h : Accepted c p) (hsite : site ∈ c.calls.recorded)
    (hvariadic : Builtin.isVariadic site.name = false) {returns : Ty}
    (hagrees : site.Agrees c.scopes header returns) (hargument : site.arguments[index]? = some argument)
    {e : Entry} (he : e ∈ p.stream.toList) (hid : e.id = argument.push) :
    ∃ symbol label ty, (c.scopes.scope header).table.parameterAt? index = some symbol ∧
      symbol.kind = .parameter index label ty ∧ argument.label = label ∧
      argument.Passed c.scopes ty e.instruction := by
  obtain ⟨hfit, -⟩ := h.composed
  obtain ⟨symbol, label, ty, hat, hkind, hlabel, hfits⟩ := hagrees.passed hvariadic index argument hargument
  refine ⟨symbol, label, ty, hat, hkind, hlabel, ?_⟩
  obtain ⟨ids, hids, hentries⟩ := h.entries
  obtain ⟨e₀, he₀, rfl⟩ := hentries e he
  rw [Stream.changed_id] at hid
  have hconverts := h.converts_iff hids hsite hvariadic hagrees.callee hargument
  rw [← hid] at hconverts
  by_cases hconverted : e₀.id ∈ ids
  · -- the literal is an integer and the parameter a double
    obtain ⟨symbol', hat', hliteral, hint, hdouble⟩ := hconverts.1 hconverted
    cases hat.symm.trans hat'
    rw [Symbol.ty, hkind] at hdouble
    rw [Stream.changed_of_mem hconverted]
    cases h.supplies hsite hvariadic hargument he₀ hid with
    | @literal payload _ hpush hpayload hty =>
      rw [hint] at hty
      obtain ⟨value, rfl⟩ : ∃ value, payload = .int value := by
        cases payload <;> first | exact ⟨_, rfl⟩ | cases hty
      have htoDouble : e₀.instruction.toDouble =
          { e₀.instruction with payload := some (.double (.ofInt value)) } := by
        simp only [Instruction.toDouble, hpayload]
      rw [htoDouble]
      exact .literal hliteral hpush rfl (show Payload.HasTy _ .double from rfl) (Ty.accepts_double hdouble)
    | «variable» hvariable => cases hliteral.symm.trans hvariable
  · have haccepts : ty.accepts argument.ty :=
      hfits.resolve_right fun hconverts' => hconverted (hconverts.2 hconverts')
    rw [Stream.changed_of_notMem hconverted]
    cases h.supplies hsite hvariadic hargument he₀ hid with
    | literal hliteral hpush hpayload hty => exact .literal hliteral hpush hpayload hty haccepts
    | @«variable» name owner role hliteral hpush hname _ hrole hsort hbase =>
      obtain ⟨symbol', hmem, heq⟩ := hrole
      cases heq
      have hfunction : symbol'.isFunction = false :=
        Bool.eq_false_iff.2 fun hfunction => by
          obtain ⟨builtin, hbuiltin⟩ := Symbol.isFunction_iff.1 hfunction
          exact hsort builtin hbuiltin
      exact .variable hliteral hpush hname
        ((SymbolTable.get?_eq_some_iff (hfit.scopes owner)).2 ⟨hmem, rfl⟩) hfunction
        ((Symbol.base_role hfunction).symm.trans hbase) haccepts

/-! ### Parameters -/

theorem Signature.Leads.level_pops {σ : Signature} {s s' : Count} (h : σ.Leads s pops s')
    (hpops : ∀ i ∈ pops, i.kind = .paramPop) : s'.level + pops.length = s.level := by
  induction h with
  | nil => rfl
  | @cons s s' i pops hi _ ih =>
    obtain ⟨hkind, hpops⟩ := forall_mem_cons.1 hpops
    have henough := hi.enough
    have hnext : (σ.next s i).level = s.level - 1 := by simp [Signature.next, hkind]
    rw [Signature.takes, hkind] at henough
    rw [length_cons, ← Nat.add_assoc, ih hpops, hnext]
    exact Nat.sub_add_cancel henough

theorem paramNames_eq {header : Scope} {id : Nat} {params : List (String × Ty)}
    (hlength : header.parameters = params.length)
    (hnames : ∀ name index base, (name, ⟨.parameter index, base⟩) ∈ header.table.names ↔
      params[index]? = some (name, base)) :
    params.map (fun param => some (Meaning.storageName param.1 id)) =
      (List.range header.parameters).map fun index =>
        (header.table.parameterAt? index).map fun symbol => Meaning.storageName symbol.name id := by
  refine ext_getElem (by simp [hlength]) fun index hindex _ => ?_
  rw [length_map] at hindex
  obtain ⟨symbol, hsymbol⟩ := SymbolTable.exists_parameterAt?
    ((hnames params[index].1 index params[index].2).2 (List.getElem?_eq_getElem hindex))
  obtain ⟨hsort, hmem⟩ := SymbolTable.role_of_parameterAt? hsymbol
  have hparam : params[index]? = some (symbol.name, symbol.role.base) := by
    rw [← hnames, ← hsort]
    exact hmem
  rw [List.getElem?_eq_getElem hindex] at hparam
  rw [getElem_map, getElem_map, getElem_range, hsymbol, Option.some.inj hparam]
  rfl

theorem Becoming.map_fields {pops' : List Instruction} (h : Becoming pops pops') {kind : InstructionKind}
    (hkind : ∀ i ∈ pops, i.kind = kind) :
    pops'.map (fun i => (i.kind, i.name?)) = pops.map fun i => (kind, i.name?) := by
  induction h with
  | nil => rfl
  | cons hi _ ih =>
    obtain ⟨hfirst, hrest⟩ := forall_mem_cons.1 hkind
    obtain ⟨hkind', -, -, -, hname⟩ := hi.fields
    rw [map_cons, map_cons, hkind', hfirst, hname, ih hrest]

theorem Accepted.begins_once (h : Accepted c p) {entry : Instruction} {pre post : List Instruction}
    (hcode : p.stream.code = pre ++ entry :: post) (hmarks : entry.Marks .functionBegin header) :
    ∀ i ∈ pre ++ post, ¬ i.Marks .functionBegin header := by
  intro i hi hmarks'
  have hbegins : ∀ {i : Instruction}, i.Marks .functionBegin header → i.begins? = some header :=
    fun hmarks => by rw [Instruction.begins?, if_pos hmarks.1, hmarks.2]
  obtain ⟨parts, codes, hparts, hcodes, hflat⟩ := h.lays
  have hnodup := hparts.begins_nodup hcodes
  rw [← hflat, hcode, filterMap_append, filterMap_cons_some (hbegins hmarks),
    nodup_middle, ← filterMap_append, nodup_cons] at hnodup
  exact hnodup.1 (mem_filterMap.2 ⟨i, hi, hbegins hmarks'⟩)

theorem Accepted.taken (h : Accepted c p) {entry : Instruction} {pre post : List Instruction}
    (hcode : p.stream.code = pre ++ entry :: (pops ++ post))
    (hentry : entry.Bounds .functionBegin header (p.scopes.scope header).name)
    (hkind : (p.scopes.scope header).kind = .functionHeader) (hpops : ∀ i ∈ pops, i.kind = .paramPop)
    (hlength : pops.length = (p.scopes.scope header).parameters) :
    ∀ i ∈ post.head?, i.kind ≠ .paramPop := by
  intro i hi hpop
  obtain ⟨t, hleads⟩ := h.leads
  rw [hcode] at hleads
  obtain ⟨s, -, hleads⟩ := hleads.split
  cases hleads with
  | cons _ hleads =>
    obtain ⟨s', htaken, hpost⟩ := hleads.split
    have hlevel := htaken.level_pops hpops
    have harity : (p.signature.next s entry).level = (p.scopes.scope header).parameters := by
      simp [Signature.next, hentry.1.1, hentry.2, (h.function hkind).2]
    cases post with
    | nil => cases hi
    | cons j post =>
      cases Option.mem_some.1 hi
      cases hpost with
      | cons hadmits _ =>
        have henough := hadmits.enough
        rw [Signature.takes, hpop] at henough
        change 1 ≤ s'.level at henough
        omega

theorem Accepted.enters (h : Accepted c p) {returns : Ty}
    (hkind : (c.scopes.scope header).kind = .functionHeader)
    (hsymbol : ((c.scopes.scope ScopeTree.root).table.get? (c.scopes.scope header).name).map Symbol.kind =
      some (.function returns false)) : p.Enters header := by
  obtain ⟨entry, hentry, hmarks⟩ := h.begun hkind hsymbol
  obtain ⟨parts, codes, hparts, hcodes, hflat⟩ := h.lays
  obtain ⟨-, params, pops, hpops, ⟨before, after, hcode⟩, hlength, hnames⟩ :=
    hparts.arranged.parameters entry hentry hmarks.1
  have hname : entry.name? = some (c.scopes.scope header).name :=
    hmarks.2 ▸ (hparts.headers.bounds entry hentry (by rw [hmarks.1]; rfl)).2.2
  rw [hmarks.2] at hpops hlength hnames
  -- the block stays together when drops are taken out
  have hquiet : Quiet (entry :: pops) :=
    (quiet_of_kind hmarks.1 InstructionKind.noConfusion InstructionKind.noConfusion).append hpops.quiet
  have hbecoming := h.code
  rw [show c.stream.code = before ++ (entry :: pops ++ after) by rw [← append_assoc]; exact hcode.symm,
    pare_append (fun j hj => by cases Option.mem_some.1 hj; exact (hquiet entry mem_cons_self).2),
    hquiet.pare_append] at hbecoming
  obtain ⟨pre, rest, hcode', -, hrest⟩ := hbecoming.split
  obtain ⟨block, post, rfl, hblock, -⟩ := hrest.split
  cases hblock with
  | @cons _ entry' _ pops' hentry' hpops' =>
    obtain ⟨hkind', hscope', -, -, hname'⟩ := hentry'.fields
    have hmarks' : entry'.Marks .functionBegin header :=
      ⟨hkind'.trans hmarks.1, hscope'.trans hmarks.2⟩
    have hfields : pops'.map (fun i => (i.kind, i.name?)) = pops.map fun i => (.paramPop, i.name?) :=
      Becoming.map_fields hpops' fun i hi => (hpops.2 i hi).1
    have hlength' : pops'.length = (c.scopes.scope header).parameters := by
      have hlengths := congrArg List.length hpops.1
      simp only [length_map, length_reverse] at hlengths
      rw [← hpops'.length_eq, hlengths]
      exact hlength.symm
    have hentry' : entry'.Bounds .functionBegin header (p.scopes.scope header).name :=
      ⟨hmarks', by rw [hname', hname, h.scopes]⟩
    have hpops'' : ∀ i ∈ pops', i.kind = .paramPop := fun i hi => by
      obtain ⟨i₀, hi₀, hbecomes⟩ := (Becoming.trims hpops').exists_becomes hi
      rw [hbecomes.fields.1, (hpops.2 i₀ hi₀).1]
    rw [← h.scopes] at hkind hlength'
    refine ⟨pre, entry', pops', post, hcode', hentry', h.begins_once hcode' hmarks',
      h.taken hcode' hentry' hkind hpops'' hlength', ?_⟩
    · have hmap : (fun i : Instruction => (InstructionKind.paramPop, i.name?)) =
          Prod.mk .paramPop ∘ Instruction.name? := rfl
      rw [hfields, hmap, ← map_map, hpops.1, map_reverse,
        @paramNames_eq (c.scopes.scope header) _ _ hlength hnames,
        ← map_reverse, map_map, h.scopes]
      rfl

end accepted

/-- The calling convention: the recorded calls of a program are numbered in order, and each call that is
not written out has one instruction, with the pushes of its arguments directly in front of it, as many as
the function has parameters, with their labels and with types that they accept; and the function takes
the parameters in the opposite order directly behind its beginning. -/
theorem calling_convention {source : String} {p : Program}
    (h : (Program.ofFeed (.ofSource source)).result = .ok p) :
    p.calls.toList.map (·.callId) = List.range' 1 p.calls.length ∧
    ∀ site ∈ p.calls.toList, Builtin.isVariadic site.name = false → ∃ header, site.Connects p header := by
  obtain ⟨c, haccepted, -⟩ := accepted_of_ok h
  refine ⟨haccepted.numbered, fun site hsite hvariadic => ?_⟩
  rw [Calls.toList, mem_reverse, haccepted.calls] at hsite
  obtain ⟨header, returns, hagrees⟩ := haccepted.agrees site hsite
  refine ⟨header, ?_, ?_, ?_, ?_⟩
  · rw [haccepted.scopes]
    exact hagrees.callee
  · exact haccepted.countP_call hsite hvariadic
  · obtain ⟨pre, pushes, call, post, hlist, hids, -, hinvokes⟩ := haccepted.stands site hsite hvariadic
    refine ⟨pre, pushes, call, post, hlist, hinvokes, hids, ?_, fun index argument push hargument hpush => ?_⟩
    · rw [haccepted.scopes, ← hagrees.count hvariadic]
      simpa using congrArg List.length hids
    · rw [haccepted.scopes]
      refine haccepted.passed hsite hvariadic hagrees hargument ?_ ?_
      · rw [hlist]
        exact mem_append_left _ (mem_append_right _ (mem_of_getElem? hpush))
      · have hid : (pushes.map (·.id))[index]? = some push.id := by
          rw [List.getElem?_map, hpush]
          rfl
        rw [hids, List.getElem?_map, hargument] at hid
        exact (Option.some.inj hid).symm
  · intro _ hsymbol
    rw [haccepted.scopes] at hsymbol
    obtain ⟨hkind, hname⟩ := ScopeTree.header_of_function? hagrees.callee
    exact haccepted.enters hkind (hname ▸ hsymbol)

/-- A call in front of its function, with a literal that becomes a double. -/
theorem calling_convention_forward : ∃ p site header, (Program.ofFeed (.ofSource
        "let x: Double = f(1, by: 2)\nfunc f(_ a: Double, by b: Int) -> Double \x7b\n return a\n\x7d\n")).result =
          .ok p ∧
      site ∈ p.calls.toList ∧ site.arguments.map (·.label) = [none, some "by"] ∧
      site.Connects p header := by
  have hrun : ((Program.ofFeed (.ofSource
      "let x: Double = f(1, by: 2)\nfunc f(_ a: Double, by b: Int) -> Double \x7b\n return a\n\x7d\n")).result
        |>.toOption.any fun p => p.calls.toList.any fun site =>
          !Builtin.isVariadic site.name && decide (site.arguments.map (·.label) = [none, some "by"])) = true := by
    decide +kernel
  obtain ⟨p, hp, hfacts⟩ := (Option.any_eq_true _ _).1 hrun
  obtain ⟨site, hsite, hfacts⟩ := any_eq_true.1 hfacts
  obtain ⟨hvariadic, hlabels⟩ := (Bool.and_eq_true_iff).1 hfacts
  have hok := eq_ok_of_toOption hp
  obtain ⟨header, hconnects⟩ :=
    (calling_convention hok).2 site hsite (by simpa using hvariadic)
  exact ⟨p, site, header, hok, hsite, of_decide_eq_true hlabels, hconnects⟩

end OnePass
