import OnePass.Proofs.Assembly
import OnePass.Proofs.Meaning.Account
import OnePass.Proofs.Vocabulary

/-!
# The account of a program

Wherever the events of a program succeed, its sheet has been filled phrase by phrase.  Where they fail,
the reason lies in the program, as long as the sheet at hand is one of a program: its draft then holds
whatever an action looks for.

Main results:

* `Meaning.tells_statement` — **the events of a statement add it to the sheet**;
* `Meaning.tells_items` — the events of a program fill its sheet.
-/

namespace OnePass

open List

/-- The type of a variable that can be assigned to. -/
def ScopeTree.Assignable (t : ScopeTree) (name : String) (ty : Ty) : Prop :=
  ∃ owner symbol isMutable defined, t.Denotes name owner symbol ∧
    symbol.kind = .var isMutable ty defined ∧ (isMutable ∨ defined = false)

/-- The type that the result of a call has to fit for its receiver. -/
def ScopeTree.Receives (t : ScopeTree) (callee : String) : Receiver → Ty → Prop
  | .declared _ _ (some stated), ty => ty = stated
  | .declared _ _ none, ty => t.functionResult? callee = some ty
  | .assigned name _, ty => t.Assignable name ty

theorem ScopeTree.Denotes.unique {t : ScopeTree} {name : String} {owner owner' : Nat}
    {symbol symbol' : Symbol} (h : t.Denotes name owner symbol) (h' : t.Denotes name owner' symbol') :
    owner = owner' ∧ symbol = symbol' := by
  cases h.found.symm.trans h'.found
  cases h.held.symm.trans h'.held
  exact ⟨rfl, rfl⟩

/-! ### Sheets on which a statement may begin -/

/-- A sheet on which a statement may begin. -/
structure Sheet.Ready (w : Sheet) : Prop where
  fit : w.Fit
  sound : w.draft.Sound

namespace Sheet.Ready

variable {w w' w₁ w₂ : Sheet} {condition : Phrase.Condition} {narrowed : Option (String × Ty)}
  {body : Phrase.Statement}

theorem adds (h : w.Ready) (hadds : Adds w body w') : w'.Ready := by
  obtain ⟨hfit, H, T, hT⟩ := hadds.elaborates h.fit h.sound.formed
  exact ⟨hfit, hT.sound h.sound⟩

theorem entered (h : w.Ready) (hentered : w.Enters condition narrowed w') : w'.Ready := by
  obtain ⟨hfit, ⟨head, test, hhead, htest, hdraft⟩, -⟩ := hentered.opened h.fit h.sound.formed
  exact ⟨hfit, hdraft ▸ h.sound.opened_then hhead htest⟩

theorem second (h : w.Ready) (hentered : w.Enters condition narrowed w₁) (hbody : Adds w₁ body w₂) :
    ((w₂.halfway w.scopes.size w.scopes.current narrowed).onScopes (·.alternative w.scopes.size)).Ready := by
  have hd := h.sound.formed
  obtain ⟨hfit, head, H, test, els, T, hhead, htest, hT, hels, hscope, hdraft⟩ :=
    hentered.second h.fit hd hbody.elaborates
  refine ⟨hfit, hdraft ▸ ?_⟩
  exact (hT.sound (h.sound.opened_then hhead htest)).alternative hscope
    (Nat.lt_trans hd.current_lt hscope) (Nat.ne_of_gt hd.current_lt)
    (forall_mem_singleton.2 (hels.renderable rfl (by decide)))

theorem loops (h : w.Ready) {value : Phrase.Expr} {code : List Instruction}
    (hcode : w.looping.scopes.Evaluates value code) :
    (((w.looping.write code).marked .whileCondition w.scopes.size).onScopes
      (·.goTo w.scopes.size)).Ready := by
  obtain ⟨hfit, label, test, hhead, hlabel, htest, hdraft⟩ :=
    h.fit.opened_while h.sound.formed hcode
  exact ⟨hfit, hdraft ▸ h.sound.opened_while hlabel hhead htest⟩

end Sheet.Ready

namespace Meaning

/-- From one context between two statements to another one. -/
structure Turns (c c' : Context) (R : Sheet → Sheet → Prop) : Prop where
  rests : Rests c'
  values : c'.values = c.values
  blocks : c'.blocks = c.blocks
  sheet : R c.sheet c'.sheet

section turns

variable {strict : Bool} {start c c' c₁ : Context} {R : Sheet → Sheet → Prop} {place : Location} {name : String}
variable {args : List Phrase.Arg} {callee : String} {e : Phrase.Expr} {v : Value} {ty returns : Ty}
  {id parent : Nat} {narrowed : Option (String × Ty)} {blocks : List OpenBlock}
  {body : Phrase.Statement}

theorem Turns.log (h : Turns c c' R) (log : List LogRecord) : Turns c { c' with log } R :=
  ⟨h.rests.log log, h.values, h.blocks, h.sheet⟩

theorem Turns.of_log {log : List LogRecord} (h : Turns { c with log } c' R) : Turns c c' R :=
  ⟨h.rests, h.values, h.blocks, h.sheet⟩

theorem toList_append_append {stream : Stream} (h : stream.Sound) (i j : Instruction) :
    ((stream.append i).1.append j).1.toList =
      stream.toList ++ [⟨stream.issued, i⟩, ⟨(stream.append i).1.issued, j⟩] := by
  rw [Stream.toList_append (h.append i), Stream.toList_append h, append_assoc]
  rfl

theorem sheet_append (c : Context) (h : c.stream.Sound) (i : Instruction) :
    Context.sheet { c with stream := (c.stream.append i).1 } = c.sheet.write [i] := by
  simp [Context.sheet, Sheet.write, Stream.code_append h]

/-! ### Calls -/

/-- Since a context only the arguments of a call have been pushed. -/
structure Offering (start c : Context) (variadic : Bool) (args : List Phrase.Arg) : Prop where
  base : Rests start
  sound : c.stream.Sound
  scopes : c.scopes = start.scopes
  calls : c.calls = start.calls
  values : c.values = start.values
  blocks : c.blocks = start.blocks
  tail : ∃ tail, c.stream.toList = start.stream.toList ++ tail ∧
    start.scopes.Passes variadic args (tail.map (·.instruction)) c.arguments.reverse ∧
    (variadic = false → tail.map (·.id) = c.arguments.reverse.map (·.push))

theorem Offering.refl (h : Rests c) (variadic : Bool) : Offering c c variadic [] where
  base := h
  sound := h.sound
  scopes := rfl
  calls := rfl
  values := rfl
  blocks := rfl
  tail := ⟨[], by simp, by rw [h.arguments]; exact .nil, by simp [h.arguments]⟩

theorem Offering.log {variadic : Bool} (h : Offering start c variadic args) (log : List LogRecord) :
    Offering start { c with log } variadic args :=
  { h with }

theorem meets_argumentPush (arg : Phrase.Arg) :
    Meets strict (argumentPush arg.term) c fun result c' => c' = c ∧ ∀ label push location,
      c.scopes.Hands arg result.2.2.2 ⟨label, result.1, result.2.1, result.2.2.1, push, location⟩ := by
  unfold argumentPush
  split
  · rename_i name hkind
    refine meets_reference.bind ?_
    rintro ⟨symbol, push⟩ c' ⟨rfl, owner, hmeans, rfl⟩
    refine meets_pure.2 ⟨rfl, fun _ _ _ => .variable ?_ hmeans rfl rfl rfl⟩
    rw [Token.identifier?, hkind]
  · rename_i hkind
    obtain ⟨hname, hty⟩ := literalOf_payload arg.term.kind
    refine meets_run rfl ?_
    refine ⟨rfl, fun _ _ _ => .literal ?_ ⟨rfl, rfl, rfl, hname⟩ rfl hty⟩
    unfold Token.identifier?
    split
    · rename_i name hname
      exact absurd hname (hkind name)
    · rfl

theorem meets_argument (arg : Phrase.Arg) (h : Offering start c (Builtin.isVariadic callee) args) :
    Meets strict (argument callee arg.label arg.term arg.place) c fun _ c' =>
      Offering start c' (Builtin.isVariadic callee) (args ++ [arg]) := by
  obtain ⟨tail, hsplit, hpasses, hids⟩ := h.tail
  refine (meets_argumentPush arg).bind ?_
  rintro ⟨ty, initialized, literal, push⟩ c ⟨rfl, hhands⟩
  refine meets_bind.2 (meets_run rfl ?_)
  have hlast := hhands arg.label c.stream.issued (some arg.place)
  rw [h.scopes] at hlast
  have hconcat := hpasses.concat hlast
  refine meets_ite (fun hvariadic => ?_) fun hvariadic => ?_
  · refine meets_run rfl ?_
    rw [if_pos hvariadic, ← h.scopes] at hconcat
    refine ⟨h.base, (h.sound.append _).append _, h.scopes, h.calls, h.values, h.blocks,
      tail ++ [⟨c.stream.issued, push⟩, ⟨(c.stream.append push).1.issued,
        c.scopes.mark .write c.scopes.current⟩], ?_, ?_, fun hfalse => ?_⟩
    · rw [← append_assoc, ← hsplit]
      exact toList_append_append h.sound _ _
    · rw [reverse_cons, map_append, ← h.scopes]
      exact hconcat
    · cases hvariadic.symm.trans hfalse
  · refine meets_run rfl ?_
    rw [if_neg hvariadic] at hconcat
    refine ⟨h.base, h.sound.append _, h.scopes, h.calls, h.values, h.blocks,
      tail ++ [⟨c.stream.issued, push⟩], ?_, ?_, fun hfalse => ?_⟩
    · show (c.stream.append _).1.toList = _
      rw [Stream.toList_append h.sound, hsplit, append_assoc]
    · rw [reverse_cons, map_append]
      exact hconcat
    · rw [reverse_cons, map_append, map_append, hids hfalse]
      rfl

theorem tells_args (later : List Phrase.Arg) (h : Offering start c (Builtin.isVariadic callee) args) :
    Tells strict (later.map (Phrase.Arg.event callee)) c fun c' =>
      Offering start c' (Builtin.isVariadic callee) (args ++ later) := by
  induction later generalizing c args with
  | nil => exact tells_nil fun log => by rw [append_nil]; exact h.log log
  | cons arg later ih =>
    refine tells_cons fun log => (meets_argument arg (h.log log)).mono fun _ c' hc' => ?_
    have hlater := ih hc'
    rwa [append_assoc] at hlater

theorem meets_assigneeTy : Meets strict (assigneeTy name place) c fun ty c' =>
    c' = c ∧ c.scopes.Assignable name ty := by
  refine meets_bind.2 (meets_get.2 ?_)
  dsimp only
  split
  · exact meets_failAt.2 fun _ => ne_of_beq_false rfl
  · exact meets_failAt.2 fun _ => ne_of_beq_false rfl
  · rename_i isMutable ty defined hfree hfound
    obtain ⟨symbol, hlookup, hkind⟩ := Option.map_eq_some_iff.1 hfound
    obtain ⟨owner, howner, hget⟩ := Option.bind_eq_some_iff.1 hlookup
    refine meets_pure.2 ⟨rfl, owner, symbol, isMutable, defined, ⟨howner, hget, ?_⟩, hkind, ?_⟩
    · rw [Symbol.isFunction, hkind]
    · cases isMutable with
      | true => exact .inl rfl
      | false =>
        cases defined with
        | true => exact absurd rfl (hfree rfl)
        | false => exact .inr rfl
  · exact meets_failAt.2 fun _ => ne_of_beq_false rfl
  · exact meets_failAt.2 fun _ => ne_of_beq_false rfl

theorem meets_resultTy : Meets strict (resultTy callee name place) c fun ty c' =>
    c' = c ∧ c.scopes.functionResult? callee = some ty := by
  refine meets_bind.2 (meets_get.2 ?_)
  split
  · exact meets_failAt.2 nofun
  · exact meets_failAt.2 nofun
  · rename_i ty _ hresult
    exact meets_pure.2 ⟨rfl, hresult⟩

theorem meets_receivedTy (receiver : Receiver) :
    Meets strict (receivedTy callee receiver) c fun ty c' => c' = c ∧ c.scopes.Receives callee receiver ty := by
  unfold receivedTy
  split
  · exact meets_pure.2 ⟨rfl, rfl⟩
  · exact meets_resultTy
  · exact meets_assigneeTy

/-- A call for a receiver or for none. -/
def Purposed (t : ScopeTree) (callee : String) : CallUse → Option Ty → Prop
  | .received receiver, target => ∃ ty, target = some ty ∧ t.Receives callee receiver ty
  | .dropped, target => target = none

theorem meets_purposeOf (purpose : CallUse) :
    Meets strict (purposeOf callee purpose) c fun result c' => c' = c ∧
      Purposed c.scopes callee purpose result.1 ∧ result.2 = (result.1.isNone &&
        !Builtin.isVariadic callee && c.scopes.functionResult? callee != some .void) := by
  cases purpose with
  | received receiver =>
    refine (meets_receivedTy receiver).bind ?_
    rintro ty c' ⟨rfl, hty⟩
    exact meets_pure.2 ⟨rfl, ⟨ty, rfl, hty⟩, rfl⟩
  | dropped => exact meets_bind.2 (meets_get.2 (meets_pure.2 ⟨rfl, rfl, rfl⟩))

theorem meets_callInstructions {scaffolded : Bool} (hsound : c.stream.Sound) :
    Meets strict (callInstructions callee c.calls.nextId scaffolded) c fun _ c' => ∃ stream code,
      c' = { c with stream } ∧ stream.Sound ∧ stream.toList = c.stream.toList ++ code ∧
        code.map (·.instruction) = c.sheet.callCode callee scaffolded := by
  unfold Sheet.callCode
  refine meets_ite (fun hvariadic => ?_) fun hvariadic => ?_
  · rw [if_pos hvariadic]
    exact meets_pure.2 ⟨c.stream, [], rfl, hsound, (append_nil _).symm, rfl⟩
  · rw [if_neg hvariadic]
    cases scaffolded with
    | true =>
      refine meets_run rfl ?_
      exact ⟨_, _, rfl, (hsound.append _).append _, toList_append_append hsound _ _, rfl⟩
    | false =>
      refine meets_run rfl ?_
      exact ⟨_, [_], rfl, hsound.append _, Stream.toList_append hsound _, rfl⟩

theorem isPush_of_passes {t : ScopeTree} {code : List Instruction} {arguments : List Argument}
    (h : t.Passes false args code arguments) : ∀ i ∈ code, i.IsPush := by
  induction h with
  | nil => exact forall_mem_nil _
  | concat _ hlast ih =>
    exact forall_mem_append.2 ⟨ih, forall_mem_singleton.2 hlast.isPush⟩

theorem Offering.record {site : CallSite} {stream : Stream} {code : List Entry} {log : List LogRecord}
    (h : Offering start c (Builtin.isVariadic callee) args) (hsound : stream.Sound)
    (hlist : stream.toList = c.stream.toList ++ code)
    (hcode : code.map (·.instruction) = c.sheet.callCode callee site.scaffolded)
    (hname : site.name = callee) (hid : site.callId = c.calls.nextId)
    (harguments : site.arguments = c.arguments.reverse) (hplace : site.location = some place) :
    Rests { c with stream, calls := c.calls.record site, arguments := [], log } := by
  obtain ⟨tail, hsplit, hpasses, hids⟩ := h.tail
  rw [hsplit, append_assoc] at hlist
  have hgrown : Rests { c with stream, arguments := [], log } :=
    h.base.grow hsound h.calls rfl hlist
  refine { hgrown with
    places := forall_mem_cons.2 ⟨by rw [hplace]; nofun, hgrown.places⟩
    sites := forall_mem_cons.2 ⟨fun hvariadic => ?_, hgrown.sites⟩ }
  rw [hname] at hvariadic
  rw [Sheet.callCode, hvariadic, if_neg Bool.false_ne_true] at hcode
  rw [hvariadic] at hpasses
  obtain ⟨call, drops, rfl, hcall, -⟩ := map_eq_cons_iff.1 hcode
  refine ⟨start.stream.toList, tail, call, drops, by rw [hlist, append_assoc], ?_, ?_, ?_⟩
  · rw [harguments, hids hvariadic]
  · exact fun e he => isPush_of_passes hpasses _ (mem_map_of_mem he)
  · rw [hcall]
    exact ⟨rfl, congrArg some hname.symm, hid.symm⟩

theorem meets_call (h : Offering start c (Builtin.isVariadic callee) args) (purpose : CallUse) :
    Meets strict (call callee place purpose) c fun _ c' => ∃ target,
      Purposed start.scopes callee purpose target ∧
        Turns start c' fun w w' => w.Requests callee args target w' := by
  obtain ⟨tail, hsplit, hpasses, -⟩ := h.tail
  refine (meets_purposeOf purpose).bind ?_
  rintro ⟨target, scaffolded⟩ c ⟨rfl, hpurposed, hscaffolded⟩
  refine meets_bind.2 (meets_get.2 ((meets_callInstructions h.sound).bind ?_))
  rintro _ _ ⟨stream, code, rfl, hsound, hlist, hcode⟩
  refine meets_run rfl ?_
  refine ⟨target, h.scopes ▸ hpurposed, h.record hsound hlist hcode rfl rfl rfl rfl, h.values, h.blocks, ?_⟩
  have hsheet : ∀ site : CallSite, site.scaffolded = scaffolded →
      Context.sheet { c with stream, calls := c.calls.record site, arguments := [] } =
        { start.sheet.write (tail.map (·.instruction) ++ start.sheet.callCode callee site.scaffolded) with
          calls := start.sheet.calls.record site } := by
    rintro site rfl
    have hcall : c.sheet.callCode callee site.scaffolded = start.sheet.callCode callee site.scaffolded := by
      simp only [Sheet.callCode, Context.sheet, h.scopes, h.calls]
    refine Sheet.ext h.scopes ?_ (congrArg (·.record site) h.calls)
    show stream.toList.map _ = start.stream.toList.map _ ++ _
    rw [hlist, hsplit, map_append, map_append, hcode, hcall, append_assoc]
  rw [h.scopes] at hscaffolded
  have hrequests := @Sheet.Requests.intro start.sheet callee args target _
    { name := callee, target, arguments := c.arguments.reverse, callId := c.calls.nextId, scaffolded
      scope := c.scopes.current, location := some place }
    hpasses rfl rfl (congrArg Calls.nextId h.calls) hscaffolded
  rw [← hsheet _ rfl] at hrequests
  exact hrequests

theorem tells_args_call (args : List Phrase.Arg) (h : Rests c) (purpose : CallUse) :
    Tells strict (args.map (Phrase.Arg.event callee) ++ [.call callee place purpose]) c fun c' => ∃ target,
      Purposed c.scopes callee purpose target ∧ Turns c c' fun w w' => w.Requests callee args target w' := by
  refine tells_append ((tells_args args (.refl h _)).mono fun c₁ hc₁ => ?_)
  refine tells_cons fun log => (meets_call (hc₁.log log) purpose).mono ?_
  rintro _ c₂ ⟨target, hpurposed, hturns⟩
  exact tells_nil fun log => ⟨target, hpurposed, hturns.log log⟩

/-! ### Right-hand sides -/

/-- The value of a right-hand side is at hand, or will be on the stack when its call returns. -/
def Sided (c c' : Context) (receiver : Receiver) : Phrase.RightSide → Prop
  | .expression value => ∃ v, c'.values = v :: c.values ∧ Spelling c c' value v
  | .call callee _ args => ∃ ty, c.scopes.Receives callee receiver ty ∧
      Turns c c' fun w w' => w.Requests callee args (some ty) w'

theorem Sided.log {receiver : Receiver} {side : Phrase.RightSide} (h : Sided c c' receiver side)
    (log : List LogRecord) : Sided c { c' with log } receiver side := by
  cases side with
  | expression value =>
    obtain ⟨v, hvalues, hspelling⟩ := h
    exact ⟨v, hvalues, hspelling.log log⟩
  | call callee place args =>
    obtain ⟨ty, hreceives, hturns⟩ := h
    exact ⟨ty, hreceives, hturns.log log⟩

theorem tells_rightSide (side : Phrase.RightSide) (receiver : Receiver) (h : Rests c) :
    Tells strict (side.events receiver) c fun c' => Sided c c' receiver side := by
  cases side with
  | expression value =>
    exact tells_expr value h
  | call callee place args =>
    refine tells_cons fun log => ?_
    refine (meets_receivedTy receiver).bind ?_
    rintro _ _ ⟨rfl, -⟩
    refine meets_pure.2 ((tells_args_call args (h.log log) (.received receiver)).mono ?_)
    rintro c' ⟨_, ⟨ty, rfl, hty⟩, hturns⟩
    exact ⟨ty, hty, hturns.of_log⟩

theorem Spelling.supplies (h : Spelling c c' e v) : c.sheet.Supplies ty (.expression e) c'.sheet := by
  obtain ⟨code, hcode, hsheet⟩ := h.code
  exact hsheet ▸ .expression hcode

theorem meets_storedTy {declared : Option Ty} (h : Spelling c c₁ e v) (hvalues : c₁.values = v :: c.values) :
    Meets strict (storedTy name place declared) c₁ fun ty c' => (∀ ty', declared = some ty' → ty = ty') ∧
      Turns c c' fun w w' => w.Supplies ty (.expression e) w' := by
  refine (meets_finish h hvalues).bind ?_
  rintro w c' ⟨hvalues', hc'⟩
  have hturns : ∀ ty : Ty, Turns c c' fun w w' => w.Supplies ty (.expression e) w' :=
    fun ty => ⟨hc'.rests, hvalues', hc'.keeps.blocks, hc'.supplies⟩
  cases declared with
  | some ty =>
    refine meets_ite (fun _ => ?_) fun _ => (meets_failAt.2 nofun)
    exact meets_pure.2 ⟨fun ty' h => Option.some.inj h, hturns ty⟩
  | none =>
    show Meets strict (inferredTy name place w) c' _
    unfold inferredTy
    split
    · exact meets_failAt.2 nofun
    · exact meets_failAt.2 nofun
    · exact meets_failAt.2 nofun
    · exact meets_pure.2 ⟨nofun, hturns w.ty⟩

/-! ### Assignments -/

theorem meets_store {value : Phrase.RightSide} (hassignable : c.scopes.Assignable name ty)
    (h : Turns c c₁ fun w w' => w.Supplies ty value w') :
    Meets strict (do
      let (_, pop) ← reference .popVariable name place
      let _ ← append pop
      modifyScopes fun scopes => scopes.modifyVisible scopes.current name (·.withDefined true)) c₁
      fun _ c' => Turns c c' fun w w' => Adds w (.assign name place value) w' := by
  obtain ⟨owner, symbol, isMutable, defined, hmeans, hkind, hfree⟩ := hassignable
  refine meets_reference.bind ?_
  rintro ⟨found, pop⟩ c₁ ⟨rfl, owner', hmeans', rfl⟩
  have hscopes : c₁.scopes = c.scopes := h.sheet.scopes
  rw [hscopes] at hmeans'
  obtain ⟨rfl, rfl⟩ := hmeans'.unique hmeans
  refine meets_run rfl ?_
  refine ⟨h.rests.append, h.values, h.blocks, ?_⟩
  have hadds : Adds c.sheet (.assign name place value) _ := .assign hmeans hkind hfree h.sheet
  rw [show c₁.sheet.scopes = c₁.scopes from rfl, ← sheet_append c₁ h.rests.sound] at hadds
  exact hadds

theorem tells_assign (value : Phrase.RightSide) (h : Rests c) :
    Tells strict (Phrase.Statement.assign name place value).events c fun c' =>
      Turns c c' fun w w' => Adds w (.assign name place value) w' := by
  refine tells_cons fun log => ?_
  refine meets_discard.2 (meets_assigneeTy.mono ?_)
  rintro _ _ ⟨rfl, -⟩
  refine tells_append ((tells_rightSide value _ (h.log log)).mono fun c₁ hc₁ => ?_)
  refine tells_cons fun log₁ => ?_
  have hlast : ∀ c₂, Turns c c₂ (fun w w' => Adds w (.assign name place value) w') →
      Tells strict [] c₂ fun c' => Turns c c' fun w w' => Adds w (.assign name place value) w' :=
    fun c₂ hc₂ => tells_nil fun log => hc₂.log log
  cases value with
  | expression value =>
    obtain ⟨v, hvalues, hspelling⟩ := hc₁
    refine meets_bind.2 (meets_assigneeTy.mono ?_)
    rintro ty _ ⟨rfl, hassignable⟩
    have hscopes : c₁.scopes = c.scopes := hspelling.keeps.scopes
    refine (meets_storedTy (hspelling.log log₁) hvalues).bind ?_
    rintro ty' c₂ ⟨hty, hc₂⟩
    cases hty ty rfl
    refine (meets_store (c := c) (hscopes ▸ hassignable) hc₂.of_log).mono ?_
    exact fun _ c₃ hc₃ => hlast c₃ hc₃
  | call callee calling args =>
    obtain ⟨ty, hassignable, hturns⟩ := hc₁
    have hsupplied : Turns c { c₁ with log := log₁ } fun w w' =>
        w.Supplies ty (.call callee calling args) w' :=
      ⟨hturns.rests.log log₁, hturns.values, hturns.blocks, .call hturns.sheet⟩
    exact (meets_store (c := c) hassignable hsupplied).mono fun _ c₃ hc₃ => hlast c₃ hc₃

/-! ### Declarations -/

theorem exists_label (h : c.sheet.Ready) {loop : Nat}
    (hloop : c.scopes.outermostWhile? c.scopes.current = some loop) :
    ∃ entry ∈ c.stream.toList, entry.instruction.Marks .whileLabel loop := by
  have hd := h.sound
  replace hloop : c.sheet.draft.outermost? c.sheet.draft.current = some loop :=
    (c.sheet.outermost?_draft _).symm.trans hloop
  obtain ⟨hancestor, hkind⟩ := mem_filter.1 (mem_of_getLast? hloop)
  have hlt : loop < c.sheet.draft.size := Nat.lt_of_le_of_lt
    (le_of_mem_ancestorsBy hd.formed.rooted hancestor) hd.formed.current_lt
  obtain ⟨i, hi, hmarks⟩ := hd.loops loop hlt (by simpa using hkind)
  obtain ⟨entry, hentry, rfl⟩ := mem_map.1 hi
  exact ⟨entry, hentry, hmarks⟩

theorem pre_ne_nil_of_label (h : c.sheet.Ready) {pre post : List Entry} {entry : Entry}
    (hsplit : c.stream.toList = pre ++ entry :: post) (hkind : entry.instruction.kind = .whileLabel) :
    pre ≠ [] := by
  rintro rfl
  obtain ⟨first, rest, hcode, hfirst⟩ := h.sound.code.start
  have heq : (entry :: post).map (·.instruction) = first :: rest := by
    rw [← hcode, ← nil_append (entry :: post), ← hsplit]
    rfl
  cases heq
  rw [hkind] at hfirst
  cases hfirst

theorem meets_loopLabel {loop : Nat} (h : Rests c) (hready : strict → c.sheet.Ready)
    (hloop : c.scopes.outermostWhile? c.scopes.current = some loop) :
    Meets strict (loopLabel loop) c fun id c' => c' = c ∧
      ∃ pre entry post, c.stream.toList = pre ++ entry :: post ∧ entry.id = id ∧
        entry.instruction.Marks .whileLabel loop ∧ ∀ e ∈ post, ¬ e.instruction.Marks .whileLabel loop := by
  refine meets_bind.2 (meets_get.2 ?_)
  split
  · rename_i id hfound
    obtain ⟨pre, entry, post, hsplit, hid, htest, hlast⟩ := Stream.findBackward?_eq_some h.sound hfound
    rw [Bool.and_eq_true, beq_iff_eq, beq_iff_eq] at htest
    refine meets_pure.2 ⟨rfl, pre, entry, post, hsplit, hid, htest, fun e he hmarks => ?_⟩
    have hfalse := hlast e he
    rw [hmarks.1, hmarks.2, beq_self_eq_true, beq_self_eq_true] at hfalse
    cases hfalse
  · rename_i hnone
    refine meets_throw.2 fun hstrict => ?_
    obtain ⟨entry, hentry, hmarks⟩ := exists_label (hready hstrict) hloop
    obtain ⟨id, hid⟩ : ∃ id, c.stream.findBackward? (fun e =>
        e.instruction.kind == .whileLabel && e.instruction.scope == loop) = some id :=
      Stream.exists_findBackward? h.sound hentry (by simp [hmarks.1, hmarks.2])
    cases hnone.symm.trans hid

theorem meets_insertBefore {pre post : List Entry} {entry : Entry} {i : Instruction}
    (h : c.stream.Sound) (hsplit : c.stream.toList = pre ++ entry :: post) (hpre : strict → pre ≠ []) :
    Meets strict (insertBefore entry.id i) c fun _ c' => ∃ stream, c' = { c with stream } ∧
      stream.toList = pre ++ ⟨c.stream.issued, i⟩ :: entry :: post ∧ stream.Sound := by
  by_cases hnil : pre = []
  · subst hnil
    have hids : c.stream.ids = [] ++ entry.id :: post.map (·.id) := by
      rw [Stream.ids, hsplit]
      rfl
    have hnone : c.stream.prev? entry.id = none := (h.threads hids).prev?_split
    refine meets_bind.2 (meets_get.2 (meets_bind.2 ?_))
    have herror : (c.stream.setCursor entry.id).insertBefore i = .error { fault := .insertBeforeStart } := by
      unfold Stream.insertBefore
      split
      · rename_i prev hprev
        cases hnone.symm.trans hprev
      · rfl
    rw [herror]
    exact fun hstrict => absurd rfl (hpre hstrict)
  · obtain ⟨stream, hok, hlist, hsound⟩ := Stream.insertBefore_split h hsplit hnil i
    exact meets_run (run_insertBefore hok) ⟨stream, rfl, hlist, hsound⟩

theorem meets_reserve (h : Rests c) (hready : strict → c.sheet.Ready) :
    Meets strict (reserve name) c fun _ c' => Turns c c' fun w w' => w.Reserves name w' := by
  unfold reserve
  refine meets_bind.2 (meets_here.2 (meets_bind.2 (meets_instruction.2 (meets_bind.2 (meets_get.2 ?_)))))
  cases hloop : c.scopes.outermostWhile? c.scopes.current with
  | some loop =>
    refine (meets_loopLabel h hready hloop).bind ?_
    rintro _ c ⟨rfl, pre, entry, post, hsplit, rfl, ⟨hkind, hscope⟩, hlast⟩
    refine (meets_insertBefore h.sound hsplit fun hstrict =>
      pre_ne_nil_of_label (hready hstrict) hsplit hkind).bind ?_
    rintro _ _ ⟨stream, rfl, hgrown, hsound⟩
    refine meets_run rfl ⟨h.insert hsplit hkind hsound hgrown, rfl, rfl, ?_⟩
    have hcode : c.sheet.code = pre.map (·.instruction) ++ entry.instruction :: post.map (·.instruction) := by
      show c.stream.toList.map _ = _
      rw [hsplit, map_append, map_cons]
    have hreserves : c.sheet.Reserves name _ := .before hloop hcode hkind hscope (forall_mem_map.2 hlast)
    have hstream : stream.code = pre.map (·.instruction) ++
        c.scopes.named .defineVariable name c.scopes.current :: entry.instruction ::
          post.map (·.instruction) := by
      rw [Stream.code, hgrown, map_append, map_cons, map_cons]
      rfl
    rw [← show c.sheet.scopes = c.scopes from rfl] at hstream
    rw [← hstream] at hreserves
    exact hreserves
  | none =>
    refine meets_run rfl ⟨h.append, rfl, rfl, ?_⟩
    have hreserves : c.sheet.Reserves name _ := .here hloop
    rw [← sheet_append c h.sound] at hreserves
    exact hreserves

theorem meets_initialTy {isMutable : Bool} {stated : Option Ty} {init : Option Phrase.RightSide} (h : Rests c)
    (hinit : init.elim (∃ log, c₁ = { c with log }) (Sided c c₁ (.declared name place stated))) :
    Meets strict (initialTy isMutable name place stated (init.map Phrase.RightSide.source)) c₁
      fun result c' => (stated = some result.1 ∨ stated = none ∧ init.isSome) ∧
        Turns c c' fun w w' => w.Initializes result.1 isMutable init result.2 w' := by
  cases init with
  | none =>
    obtain ⟨log, rfl⟩ := hinit
    cases stated with
    | none => exact meets_failAt.2 nofun
    | some ty =>
      refine meets_ite (fun hty => ?_) fun hty => ?_
      · rw [Bool.and_eq_true] at hty
        obtain ⟨hty, rfl⟩ := hty
        refine meets_run rfl ?_
        refine ⟨.inl rfl, h.append, rfl, rfl, ?_⟩
        have habsent : c.sheet.Initializes ty true none true (c.sheet.write
            [⟨.pushLiteral, c.scopes.current, (c.scopes.scope c.scopes.current).frame, 0, some .nil⟩]) :=
          .absent ⟨rfl, rfl, rfl, nofun⟩ hty
        rw [← sheet_append c h.sound] at habsent
        exact habsent
      · refine meets_pure.2 ⟨.inl rfl, h.log log, rfl, rfl, .waiting ?_⟩
        rwa [Bool.and_eq_true] at hty
  | some side =>
    cases side with
    | expression value =>
      obtain ⟨v, hvalues, hspelling⟩ := hinit
      refine (meets_storedTy hspelling hvalues).bind ?_
      rintro ty c₂ ⟨hty, hc₂⟩
      refine meets_pure.2 ⟨?_, hc₂.rests, hc₂.values, hc₂.blocks, .side hc₂.sheet⟩
      cases stated with
      | some stated => exact .inl (congrArg some (hty stated rfl).symm)
      | none => exact .inr ⟨rfl, rfl⟩
    | call callee calling args =>
      obtain ⟨ty, hreceives, hturns⟩ := hinit
      have hside : ∀ {ty'}, ty' = ty → Turns c c₁ fun w w' =>
          w.Initializes ty' isMutable (some (.call callee calling args)) true w' := by
        rintro _ rfl
        exact ⟨hturns.rests, hturns.values, hturns.blocks, .side (.call hturns.sheet)⟩
      cases stated with
      | some stated => exact meets_pure.2 ⟨.inl rfl, hside hreceives.symm⟩
      | none =>
        refine meets_resultTy.bind ?_
        rintro ty' c₁ ⟨rfl, hresult⟩
        have hscopes : c₁.scopes = c.scopes := hturns.sheet.scopes
        rw [hscopes] at hresult
        exact meets_pure.2 ⟨.inr ⟨rfl, rfl⟩, hside (Option.some.inj (hresult.symm.trans hreceives))⟩

theorem meets_insertSymbol {symbol : Symbol} (hplace : symbol.location ≠ none) :
    Meets strict (insertSymbol id symbol) c fun _ c' => ∃ scopes, c' = { c with scopes } ∧
      c.sheet.Declares id symbol c'.sheet := by
  refine meets_bind.2 (meets_scope.2 (meets_bind.2 (meets_orFail (fun table htable => ?_) fun d hd _ => ?_)))
  · exact meets_modify.2 ⟨_, rfl, table, htable, rfl⟩
  · unfold SymbolTable.insert at hd
    split at hd <;> cases hd
    exact ⟨FaultKind.noConfusion, fun h => absurd h hplace⟩

theorem tells_declare (isMutable : Bool) (stated : Option Ty) (init : Option Phrase.RightSide)
    (h : Rests c) (hready : strict → c.sheet.Ready) :
    Tells strict (Phrase.Statement.declare isMutable name place stated init).events c fun c' =>
      Turns c c' fun w w' => Adds w (.declare isMutable name place stated init) w' := by
  refine tells_cons fun log => ?_
  refine meets_bind.2 (meets_run rfl ?_)
  refine meets_bind.2 (meets_run rfl ?_)
  refine meets_ite (fun _ => (meets_failAt.2 nofun)) fun _ => meets_pure.2 ?_
  refine tells_cons fun log₁ => (meets_reserve (h.log log₁) hready).mono fun _ c₁ hreserve => ?_
  replace hreserve := hreserve.of_log
  refine tells_append (Tells.mono (Q := fun c₂ => init.elim (∃ log, c₂ = { c₁ with log })
    (Sided c₁ c₂ (.declared name place stated))) ?_ ?_)
  · cases init with
    | none => exact tells_nil fun log₂ => ⟨log₂, rfl⟩
    | some side => exact tells_rightSide side _ hreserve.rests
  · intro c₂ hinit
    refine tells_cons fun log₃ => ?_
    have hinit' : init.elim (∃ log, { c₂ with log := log₃ } = { c₁ with log })
        (Sided c₁ { c₂ with log := log₃ } (.declared name place stated)) := by
      cases init with
      | none =>
        obtain ⟨log₂, rfl⟩ := hinit
        exact ⟨log₃, rfl⟩
      | some side => exact Sided.log hinit log₃
    refine (meets_initialTy hreserve.rests hinit').bind ?_
    rintro ⟨ty, defined⟩ c₃ ⟨hty, hc₃⟩
    refine meets_bind.2 (meets_run rfl ?_)
    -- whether or not a value has been stored, the symbol follows
    have hsymbol : ∀ c₄ : Context, Rests c₄ → c₄.values = c₁.values → c₄.blocks = c₁.blocks → (c₄.sheet = if defined then
          c₃.sheet.write [c₃.scopes.named .popVariable name c₃.scopes.current] else c₃.sheet) →
        Meets strict (insertSymbol c₃.scopes.current
          { name, kind := .var isMutable ty defined, location := some place }) c₄ fun _ c' =>
            Tells strict [] c' fun c' => Turns c c' fun w w' =>
              Adds w (.declare isMutable name place stated init) w' := by
      intro c₄ hrests₄ hvalues₄ hblocks₄ hsheet₄
      refine (meets_insertSymbol (Option.some_ne_none _)).mono ?_
      rintro _ _ ⟨scopes, rfl, hdeclares⟩
      rw [hsheet₄] at hdeclares
      refine tells_nil fun log => ⟨{ hrests₄ with }, hvalues₄.trans hreserve.values,
        hblocks₄.trans hreserve.blocks, ?_⟩
      exact .declare hty hreserve.sheet hc₃.sheet hdeclares
    refine meets_ite (fun hdefined => ?_) fun hdefined => ?_
    · refine meets_bind.2 (meets_run rfl ?_)
      refine meets_bind.2 (meets_run rfl ?_)
      refine hsymbol _ (hc₃.rests.append) hc₃.values hc₃.blocks ?_
      rw [if_pos hdefined]
      exact sheet_append c₃ hc₃.rests.sound _
    · refine hsymbol c₃ hc₃.rests hc₃.values hc₃.blocks ?_
      rw [if_neg hdefined]

/-! ### Returns -/

theorem meets_returnContext (hready : strict → c.sheet.Ready) (hscopes : c₁.scopes = c.scopes) :
    Meets strict (returnContext place) c₁ fun result c' => c' = c₁ ∧ ∃ header,
      c.scopes.enclosingFunction c.scopes.current = .ok header ∧
        c.scopes.functionResult? (c.scopes.scope header).name = some result.2 := by
  refine meets_bind.2 (meets_here.2 (meets_bind.2 (meets_get.2 ?_)))
  dsimp only
  rw [hscopes]
  cases hheader : c.scopes.enclosingFunction c.scopes.current with
  | error d =>
    unfold ScopeTree.enclosingFunction at hheader
    split at hheader <;> cases hheader
    exact fun _ => ⟨nofun, nofun⟩
  | ok header =>
    refine meets_ite (fun _ => meets_bind.2 (meets_failAt.2 nofun)) fun _ => ?_
    refine meets_bind.2 (meets_scope.2 (meets_bind.2 (meets_get.2 ?_)))
    rw [hscopes]
    split
    · rename_i returns hreturns
      exact meets_pure.2 ⟨rfl, header, rfl, hreturns⟩
    · rename_i hnone
      refine meets_throw.2 fun hstrict => ?_
      obtain ⟨hfit, hsound⟩ := hready hstrict
      obtain ⟨returns, hresults⟩ := (hsound.complete_of_function? (Sheet.function?_draft hheader)).1
      cases hnone.symm.trans ((ScopeTree.functionResult?_eq_some_iff hfit.scopes).2 hresults)

/-- A return statement in a function whose result has a type. -/
def Returning (t : ScopeTree) (returns : Ty) : Prop :=
  ∃ header, t.enclosingFunction t.current = .ok header ∧
    t.functionResult? (t.scope header).name = some returns

theorem meets_beginReturn (hready : strict → c.sheet.Ready) (hasValue : Bool) :
    Meets strict (beginReturn hasValue place) c fun _ c' => c' = c ∧
      ∃ returns, Returning c.scopes returns ∧ (hasValue = false ↔ returns = .void) := by
  refine (meets_returnContext hready rfl).bind ?_
  rintro ⟨function, returns⟩ c ⟨rfl, hreturning⟩
  cases hasValue with
  | true =>
    cases returns with
    | void => exact meets_failAt.2 nofun
    | _ => exact meets_pure.2 ⟨rfl, _, hreturning, by simp⟩
  | false =>
    cases returns with
    | void => exact meets_pure.2 ⟨rfl, _, hreturning, by simp⟩
    | _ => exact meets_failAt.2 nofun

theorem Returning.unique {t : ScopeTree} {returns' : Ty} (h : Returning t returns)
    (h' : Returning t returns') : returns = returns' := by
  obtain ⟨header, hheader, hreturns⟩ := h
  obtain ⟨header', hheader', hreturns'⟩ := h'
  cases hheader.symm.trans hheader'
  exact Option.some.inj (hreturns.symm.trans hreturns')

theorem meets_leave {value : Option Phrase.Expr} {code : List Instruction} (h : Rests c₁)
    (hvalues : c₁.values = c.values) (hblocks : c₁.blocks = c.blocks)
    (hreturning : Returning c.scopes returns) (hvalue : Sheet.Answers c.scopes returns value code)
    (hsheet : c₁.sheet = c.sheet.write code) :
    Meets strict (do
      let _ ← emit .returnValue
      let current ← here
      modifyScopes (·.modify current fun scope => { scope with hasReturn := true })) c₁ fun _ c' =>
        Turns c c' fun w w' => Adds w (.giveBack place value) w' := by
  refine meets_run rfl ?_
  refine ⟨h.append, hvalues, hblocks, ?_⟩
  obtain ⟨header, hheader, hreturns⟩ := hreturning
  have hadds : Adds c.sheet (.giveBack place value) _ :=
    .giveBack hheader hreturns hvalue
  have hscopes : c₁.scopes = c.scopes := congrArg Sheet.scopes hsheet
  have hmark : (c.sheet.write code).marked .returnValue c.scopes.current = c₁.sheet.write
      [⟨.returnValue, c₁.scopes.current, (c₁.scopes.scope c₁.scopes.current).frame, 0, none⟩] := by
    rw [← hsheet, ← hscopes]
    rfl
  rw [show c.sheet.scopes = c.scopes from rfl, hmark, ← sheet_append c₁ h.sound] at hadds
  exact hadds

theorem tells_giveBack (value : Option Phrase.Expr) (h : Rests c) (hready : strict → c.sheet.Ready) :
    Tells strict (Phrase.Statement.giveBack place value).events c fun c' =>
      Turns c c' fun w w' => Adds w (.giveBack place value) w' := by
  refine tells_cons fun log => (meets_beginReturn (c := { c with log }) hready value.isSome).mono ?_
  rintro _ _ ⟨rfl, returns, hreturning, hvoid⟩
  have hlast : ∀ c₁, Turns c c₁ (fun w w' => Adds w (.giveBack place value) w') →
      Tells strict [] c₁ fun c' => Turns c c' fun w w' => Adds w (.giveBack place value) w' :=
    fun c₁ hc₁ => tells_nil fun log => hc₁.log log
  cases value with
  | none =>
    refine tells_cons fun log₁ => ?_
    have hnothing : Returning c.scopes .void := hvoid.1 rfl ▸ hreturning
    refine Meets.mono (meets_leave (c := c) (h.log log₁) rfl rfl hnothing (.nothing rfl) ?_)
      fun _ c₁ hc₁ => hlast c₁ hc₁
    exact Sheet.ext rfl (append_nil _).symm rfl
  | some e =>
    refine tells_append ((tells_expr e (h.log log)).mono ?_)
    rintro c₁ ⟨v, hvalues, hspelling⟩
    refine tells_cons fun log₁ => ?_
    refine (meets_returnContext hready (hspelling.log log₁).keeps.scopes).bind ?_
    rintro ⟨function, returns'⟩ _ ⟨rfl, hreturning'⟩
    cases Returning.unique hreturning' hreturning
    refine (meets_finish (hspelling.log log₁) hvalues).bind ?_
    rintro w c₂ ⟨hvalues₂, hc₂⟩
    refine meets_ite (fun _ => ?_) fun _ => meets_bind.2 (meets_failAt.2 nofun)
    obtain ⟨code, hcode, hsheet⟩ := hc₂.code
    exact Meets.mono (meets_leave (c := c) hc₂.rests hvalues₂ hc₂.keeps.blocks hreturning
      (.value (fun hreturns => nomatch hvoid.2 hreturns) hcode) hsheet) fun _ c₁ hc₁ => hlast c₁ hc₁

/-! ### Blocks -/

theorem meets_openBlock (kind : ScopeKind) : Meets strict (openBlock kind) c fun id c' =>
    id = c.scopes.size ∧ ∃ log, c' = { c with
      scopes := c.scopes.noted kind, blocks := ⟨c.scopes.size, none⟩ :: c.blocks, log } := by
  have hsize : (c.scopes.nextConditionalName kind).1.size = c.scopes.size :=
    ScopeTree.size_nextConditionalName kind
  refine meets_run rfl ?_
  refine ⟨hsize, .scopeCreated (c.scopes.nextConditionalName kind).2 kind c.scopes.current :: c.log, ?_⟩
  rw [← hsize]
  rfl

theorem meets_innermost {Q : OpenBlock → Context → Prop} {block : OpenBlock} {rest : List OpenBlock}
    (hblocks : c.blocks = block :: rest) (h : Q block c) : Meets strict innermost c Q := by
  refine meets_bind.2 (meets_get.2 ?_)
  rw [hblocks]
  exact h

theorem meets_leaveScope (hparent : (c.scopes.scope c.scopes.current).parent = some parent) :
    Meets strict leaveScope c fun _ c' => ∃ log, c' = { c with scopes := c.scopes.goTo parent, log } := by
  refine meets_bind.2 (meets_here.2 (meets_bind.2 (meets_scope.2 (meets_bind.2 (meets_get.2
    (meets_bind.2 ?_))))))
  unfold ScopeTree.leave
  rw [hparent]
  exact ⟨_, rfl⟩

/-- A context in a block that is not over yet. -/
structure Within (c : Context) (id : Nat) (narrowed : Option (String × Ty)) (blocks : List OpenBlock)
    (parent : Nat) : Prop where
  rests : Rests c
  blocks : c.blocks = ⟨id, narrowed⟩ :: blocks
  below : (c.scopes.scope c.scopes.current).parent = some parent

theorem Within.log (h : Within c id narrowed blocks parent) (log : List LogRecord) :
    Within { c with log } id narrowed blocks parent :=
  ⟨h.rests.log log, h.blocks, h.below⟩

theorem Within.turns {s : Phrase.Statement} (h : Within c id narrowed blocks parent)
    (hcurrent : c.scopes.current < c.scopes.size) (hturns : Turns c c' fun w w' => Adds w s w') :
    Within c' id narrowed blocks parent := by
  obtain ⟨hgrows, hsame⟩ := hturns.sheet.grows
  refine ⟨hturns.rests, hturns.blocks.trans h.blocks, ?_⟩
  have halike := (hgrows.alike c.scopes.current hcurrent).parent
  rw [show c'.scopes.current = c.scopes.current from hsame]
  exact halike.trans h.below

theorem meets_endThen (h : Within c id narrowed blocks parent) :
    Meets strict endThen c fun _ c' => Rests c' ∧ c'.values = c.values ∧
      c'.blocks = ⟨id, narrowed⟩ :: blocks ∧ c'.sheet = c.sheet.halfway id parent narrowed := by
  refine (meets_leaveScope h.below).bind ?_
  rintro _ _ ⟨log, rfl⟩
  refine meets_bind.2 (meets_innermost h.blocks ?_)
  have hmark : ∀ scopes, Meets strict (mark .elseMark id) { c with scopes, log } fun _ c' => Rests c' ∧
      c'.values = c.values ∧ c'.blocks = ⟨id, narrowed⟩ :: blocks ∧
      c'.sheet = (c.sheet.onScopes fun _ => scopes).marked .elseMark id := by
    intro scopes
    refine meets_run rfl ?_
    exact ⟨h.rests.append, rfl, h.blocks,
      sheet_append { c with scopes, log } h.rests.sound (scopes.mark .elseMark id)⟩
  cases narrowed with
  | none => exact hmark _
  | some pair => exact meets_bind.2 (meets_modify.2 (hmark _))

theorem meets_endIf (h : Rests c) (hblocks : c.blocks = ⟨id, narrowed⟩ :: blocks) :
    Meets strict endIf c fun _ c' => Rests c' ∧ c'.values = c.values ∧ c'.blocks = blocks ∧
      c'.sheet = c.sheet.marked .endIf id := by
  refine meets_bind.2 (meets_innermost hblocks ?_)
  refine meets_run rfl ?_
  exact ⟨h.append, rfl, congrArg List.tail hblocks, sheet_append c h.sound (c.scopes.mark .endIf id)⟩

theorem meets_beginWhile (h : Rests c) :
    Meets strict beginWhile c fun _ c' => Rests c' ∧ c'.values = c.values ∧
      c'.blocks = ⟨c.scopes.size, none⟩ :: c.blocks ∧ c'.sheet = c.sheet.looping := by
  refine (meets_openBlock .whileBody).bind ?_
  rintro _ _ ⟨rfl, log, rfl⟩
  refine meets_run rfl ?_
  exact ⟨h.append, rfl, rfl, sheet_append { c with scopes := c.scopes.noted .whileBody } h.sound
    ((c.scopes.noted .whileBody).mark .whileLabel c.scopes.size)⟩

theorem meets_endWhile (h : Within c id narrowed blocks parent) :
    Meets strict endWhile c fun _ c' => Rests c' ∧ c'.values = c.values ∧ c'.blocks = blocks ∧
      c'.sheet = (c.sheet.onScopes (·.goTo parent)).marked .endWhile id := by
  refine (meets_leaveScope h.below).bind ?_
  rintro _ _ ⟨log, rfl⟩
  refine meets_bind.2 (meets_innermost h.blocks ?_)
  refine meets_run rfl ?_
  exact ⟨h.rests.append, rfl, congrArg List.tail h.blocks,
    sheet_append { c with scopes := c.scopes.goTo parent } h.rests.sound (c.scopes.mark .endWhile id)⟩

theorem meets_beginElse (h : Rests c) (hblocks : c.blocks = ⟨id, narrowed⟩ :: blocks) :
    Meets strict beginElse c fun _ c' => Within c' id narrowed blocks c.scopes.current ∧
      c'.values = c.values ∧ c'.sheet = c.sheet.onScopes (·.alternative id) := by
  refine meets_bind.2 (meets_innermost hblocks ?_)
  refine meets_run rfl ?_
  exact ⟨⟨{ h with }, hblocks, (c.scopes.alike_alternative id).parent⟩, rfl, rfl⟩

theorem meets_expectCondition {statement : Keyword} {values : List Value} (h : Spelling c c₁ e v)
    (hvalues : c₁.values = v :: values) :
    Meets strict (expectCondition statement place) c₁ fun _ c₂ => c₂.values = values ∧
      ∃ w, Spelling c c₂ e w := by
  refine (meets_finish h hvalues).bind ?_
  rintro w c₂ ⟨hvalues₂, hc₂⟩
  exact meets_ite (fun _ => meets_pure.2 ⟨hvalues₂, w, hc₂⟩) fun _ => (meets_failAt.2 nofun)

theorem meets_test {test : InstructionKind} {statement : Keyword} {values : List Value}
    (h : Spelling c c₁ e v)
    (hvalues : c₁.values = v :: values) (hblocks : c.blocks = ⟨id, none⟩ :: blocks) :
    Meets strict (do
      expectCondition statement place
      let block ← innermost
      mark test block.scope
      modifyScopes (·.goTo block.scope)) c₁ fun _ c' => Rests c' ∧ c'.values = values ∧
        c'.blocks = ⟨id, none⟩ :: blocks ∧ ∃ code, c.scopes.Evaluates e code ∧
          c'.sheet = ((c.sheet.write code).marked test id).onScopes (·.goTo id) := by
  refine (meets_expectCondition h hvalues).bind ?_
  rintro _ c₂ ⟨hvalues₂, w, hc₂⟩
  refine meets_bind.2 (meets_innermost (hc₂.keeps.blocks.trans hblocks) ?_)
  obtain ⟨code, hcode, hsheet⟩ := hc₂.code
  refine meets_run rfl ?_
  refine ⟨hc₂.rests.append, hvalues₂, hc₂.keeps.blocks.trans hblocks, code, hcode, ?_⟩
  rw [← hsheet]
  exact congrArg (Sheet.onScopes · (·.goTo id)) (sheet_append c₂ hc₂.keeps.sound _)

theorem meets_narrow {test : Instruction} {unwrapped : Ty} (h : Rests c)
    (hblocks : c.blocks = ⟨id, none⟩ :: blocks) :
    Meets strict (do
      let block ← innermost
      let _ ← append { test with scope := block.scope }
      setTy name unwrapped
      modify fun context =>
        { context with blocks := { block with narrowed := some (name, ty) } :: context.blocks.tail }
      modifyScopes (·.goTo block.scope)) c fun _ c' => Rests c' ∧ c'.values = c.values ∧
        c'.blocks = ⟨id, some (name, ty)⟩ :: blocks ∧
        c'.sheet = (c.sheet.write [{ test with scope := id }]).onScopes
          fun t => (t.retyped (some (name, unwrapped))).goTo id := by
  refine meets_bind.2 (meets_innermost hblocks ?_)
  have htail : c.blocks.tail = blocks := congrArg List.tail hblocks
  refine meets_run rfl ?_
  refine ⟨h.append, rfl, congrArg _ htail, ?_⟩
  rw [← sheet_append c h.sound]
  rfl

theorem tells_condition (condition : Phrase.Condition) (h : Rests c) (log : List LogRecord) :
    Tells strict condition.events { c with
      scopes := c.scopes.noted .thenBranch, blocks := ⟨c.scopes.size, none⟩ :: c.blocks, log }
      fun c' => ∃ narrowed, Within c' c.scopes.size narrowed c.blocks c.scopes.current ∧
        c'.values = c.values ∧ c.sheet.Enters condition narrowed c'.sheet := by
  have hparent : ((c.scopes.noted .thenBranch).scope c.scopes.size).parent = some c.scopes.current :=
    (c.scopes.alike_noted (.inl rfl)).parent
  cases condition with
  | comparison value place =>
    refine tells_append ((tells_expr value (by exact { h with })).mono ?_)
    rintro c₁ ⟨v, hvalues, hspelling⟩
    refine tells_cons fun log₁ => (meets_test (hspelling.log log₁) hvalues rfl).mono ?_
    rintro _ c₂ ⟨hrests, hvalues₂, hblocks₂, code, hcode, hsheet⟩
    have hentered : c.sheet.Enters (.comparison value place) none c₂.sheet :=
      hsheet ▸ .comparison hcode
    refine tells_nil fun log₂ => ⟨none, ⟨hrests.log log₂, hblocks₂, ?_⟩, hvalues₂, hentered⟩
    have hscopes : c₂.scopes = (c.scopes.noted .thenBranch).goTo c.scopes.size :=
      congrArg Sheet.scopes hsheet
    rw [hscopes]
    exact hparent
  | present name place =>
    refine tells_cons fun log₁ => ?_
    refine meets_reference.bind ?_
    rintro ⟨symbol, test⟩ c₁ ⟨rfl, owner, hmeans, rfl⟩
    refine meets_ite (fun hdefined => ?_) fun _ => meets_bind.2 (meets_failAt.2 nofun)
    refine meets_ite (fun hty => ?_) fun _ => meets_bind.2 (meets_failAt.2 nofun)
    refine (meets_narrow (by exact { h with }) (by rfl)).mono ?_
    rintro _ c₂ ⟨hrests, hvalues₂, hblocks₂, hsheet⟩
    have hentered : c.sheet.Enters (.present name place) (some (name, symbol.ty)) c₂.sheet :=
      hsheet ▸ .present hmeans hdefined hty
    refine tells_nil fun log₂ =>
      ⟨some (name, symbol.ty), ⟨hrests.log log₂, hblocks₂, ?_⟩, hvalues₂, hentered⟩
    have halike := ((c.scopes.noted .thenBranch).grows_retyped
      (some (name, symbol.ty.unwrapped))).alike c.scopes.size (by simp)
    have hscopes : c₂.scopes = ((c.scopes.noted .thenBranch).retyped
        (some (name, symbol.ty.unwrapped))).goTo c.scopes.size := congrArg Sheet.scopes hsheet
    rw [hscopes, ScopeTree.scope_goTo]
    exact halike.parent.trans hparent

/-! ### Statements -/

/-- The first block of a conditional has ended. -/
structure Half (c c' : Context) (condition : Phrase.Condition) (body : Phrase.Statement) : Prop where
  rests : Rests c'
  values : c'.values = c.values
  sheet : ∃ narrowed w₁ w₂, c'.blocks = ⟨c.scopes.size, narrowed⟩ :: c.blocks ∧
    c.sheet.Enters condition narrowed w₁ ∧ Adds w₁ body w₂ ∧
    c'.sheet = w₂.halfway c.scopes.size c.scopes.current narrowed

theorem Half.log {condition : Phrase.Condition} (h : Half c c' condition body) (log : List LogRecord) :
    Half c { c' with log } condition body :=
  ⟨h.rests.log log, h.values, h.sheet⟩

theorem tells_thenOpening (condition : Phrase.Condition) (h : Rests c) :
    Tells strict (.beginIf :: condition.events) c fun c' => ∃ narrowed,
      Within c' c.scopes.size narrowed c.blocks c.scopes.current ∧ c'.values = c.values ∧
        c.sheet.Enters condition narrowed c'.sheet := by
  refine tells_cons fun log => (meets_openBlock .thenBranch).bind ?_
  rintro _ _ ⟨-, log₁, rfl⟩
  exact meets_pure.2 (tells_condition condition (h.log log) log₁)

theorem Within.entered {condition : Phrase.Condition}
    (h : Within c₁ c.scopes.size narrowed c.blocks c.scopes.current)
    (hentered : c.sheet.Enters condition narrowed c₁.sheet)
    (hturns : Turns c₁ c' fun w w' => Adds w body w') :
    Within c' c.scopes.size narrowed c.blocks c.scopes.current := by
  obtain ⟨-, hcurrent, hsize⟩ := hentered.grows
  refine h.turns ?_ hturns
  rw [show c₁.scopes.current = _ from hcurrent, show c₁.scopes.size = _ from hsize]
  exact Nat.lt_succ_self _

theorem tells_then (condition : Phrase.Condition) {rest : List Event} {Q : Context → Prop}
    (hbody : ∀ c, Rests c → (strict → c.sheet.Ready) →
      Tells strict body.events c fun c' => Turns c c' fun w w' => Adds w body w') (h : Rests c)
    (hready : strict → c.sheet.Ready) (hrest : ∀ c', Half c c' condition body → Tells strict rest c' Q) :
    Tells strict (.beginIf :: (condition.events ++ (body.events ++ .endThen :: rest))) c Q := by
  rw [← cons_append]
  refine tells_append ((tells_thenOpening condition h).mono ?_)
  rintro c₂ ⟨narrowed, hwithin, hvalues₂, hentered⟩
  refine tells_append ((hbody c₂ hwithin.rests fun hstrict => (hready hstrict).entered hentered).mono fun c₃ hturns => ?_)
  have hwithin₃ := hwithin.entered hentered hturns
  refine tells_cons fun log₃ => (meets_endThen (hwithin₃.log log₃)).mono ?_
  rintro _ c₄ ⟨hrests₄, hvalues₄, hblocks₄, hsheet₄⟩
  exact hrest c₄ ⟨hrests₄, hvalues₄.trans (hturns.values.trans hvalues₂), narrowed, c₂.sheet, c₃.sheet,
    hblocks₄, hentered, hturns.sheet, hsheet₄⟩

theorem tells_loopOpening (condition : Phrase.Expr) (place : Location) (h : Rests c) :
    Tells strict (.beginWhile :: (condition.events ++ [.whileCondition place])) c fun c' =>
      Within c' c.scopes.size none c.blocks c.scopes.current ∧ c'.values = c.values ∧
        ∃ code, c.sheet.looping.scopes.Evaluates condition code ∧
          c'.sheet = ((c.sheet.looping.write code).marked .whileCondition c.scopes.size).onScopes
            (·.goTo c.scopes.size) := by
  refine tells_cons fun log => (meets_beginWhile (h.log log)).mono ?_
  rintro _ c₁ ⟨hrests₁, hvalues₁, hblocks₁, hsheet₁⟩
  have hscopes₁ : c₁.scopes = c.scopes.noted .whileBody := congrArg Sheet.scopes hsheet₁
  refine tells_append ((tells_expr condition hrests₁).mono ?_)
  rintro c₂ ⟨v, hvalues₂, hspelling⟩
  refine tells_cons fun log₂ =>
    (meets_test (hspelling.log log₂) hvalues₂ hblocks₁).mono ?_
  rintro _ c₃ ⟨hrests₃, hvalues₃, hblocks₃, code, hcode, hsheet₃⟩
  rw [hsheet₁] at hsheet₃
  rw [hscopes₁] at hcode
  refine tells_nil fun log₃ => ⟨⟨hrests₃.log log₃, hblocks₃, ?_⟩, hvalues₃.trans hvalues₁, code, hcode,
    hsheet₃⟩
  have hscopes₃ : c₃.scopes = (c.scopes.noted .whileBody).goTo c.scopes.size :=
    congrArg Sheet.scopes hsheet₃
  rw [hscopes₃]
  exact (c.scopes.alike_noted (.inr rfl)).parent

theorem tells_statement (s : Phrase.Statement) (h : Rests c) (hready : strict → c.sheet.Ready) :
    Tells strict s.events c fun c' => Turns c c' fun w w' => Adds w s w' := by
  induction s generalizing c with
  | skip => exact tells_nil fun log => ⟨h.log log, rfl, rfl, .skip⟩
  | seq first second ih ih' =>
    refine tells_append ((ih h hready).mono fun c₁ hc₁ => ?_)
    refine (ih' hc₁.rests fun hstrict => (hready hstrict).adds hc₁.sheet).mono fun c₂ hc₂ => ?_
    exact ⟨hc₂.rests, hc₂.values.trans hc₁.values, hc₂.blocks.trans hc₁.blocks, .seq hc₁.sheet hc₂.sheet⟩
  | declare isMutable name place stated init => exact tells_declare isMutable stated init h hready
  | assign name place value => exact tells_assign value h
  | call callee place args =>
    refine (tells_args_call args h .dropped).mono ?_
    rintro c' ⟨_, rfl, hturns⟩
    exact ⟨hturns.rests, hturns.values, hturns.blocks, .call hturns.sheet⟩
  | giveBack place value => exact tells_giveBack value h hready
  | ifThen condition body ih =>
    refine tells_then condition (fun c hc => ih hc) h hready fun c₁ hc₁ => ?_
    refine tells_cons fun log => ?_
    obtain ⟨hrests, hvalues, narrowed, w₁, w₂, hblocks, hentered, hadds, hsheet⟩ := hc₁.log log
    refine (meets_endIf hrests hblocks).mono ?_
    rintro _ c₂ ⟨hrests₂, hvalues₂, hblocks₂, hsheet₂⟩
    refine tells_nil fun log => ⟨hrests₂.log log, hvalues₂.trans hvalues, hblocks₂, ?_⟩
    show Adds c.sheet _ c₂.sheet
    rw [hsheet₂, hsheet]
    exact .ifThen hentered hadds
  | ifElse condition body other ih ih' =>
    refine tells_then condition (fun c hc => ih hc) h hready fun c₁ hc₁ => ?_
    refine tells_cons fun log => ?_
    obtain ⟨hrests, hvalues, narrowed, w₁, w₂, hblocks, hentered, hadds, hsheet⟩ := hc₁.log log
    refine (meets_beginElse hrests hblocks).mono ?_
    rintro _ c₂ ⟨hwithin₂, hvalues₂, hsheet₂⟩
    have hready₂ : strict → c₂.sheet.Ready := fun hstrict => by
      rw [hsheet₂, hsheet]
      exact (hready hstrict).second hentered hadds
    refine tells_append ((ih' hwithin₂.rests hready₂).mono fun c₃ hturns => ?_)
    have hcurrent₁ : c₁.scopes.current = c.scopes.current :=
      (congrArg (·.scopes.current) hsheet).trans (Sheet.current_halfway ..)
    have hwithin₃ := hwithin₂.turns (by
      have hscopes : c₂.scopes = c₁.scopes.alternative c.scopes.size := congrArg Sheet.scopes hsheet₂
      rw [hscopes, ScopeTree.current_alternative, ScopeTree.size_alternative]
      exact Nat.lt_succ_self _) hturns
    refine tells_cons fun log₃ => (meets_leaveScope (hwithin₃.log log₃).below).mono ?_
    rintro _ _ ⟨log₄, rfl⟩
    refine tells_cons fun log₅ => ?_
    refine (meets_endIf (c := { c₃ with scopes := c₃.scopes.goTo c₁.scopes.current, log := log₅ })
      { hwithin₃.rests with } hwithin₃.blocks).mono ?_
    rintro _ c₄ ⟨hrests₄, hvalues₄, hblocks₄, hsheet₄⟩
    refine tells_nil fun log => ⟨hrests₄.log log,
      hvalues₄.trans (hturns.values.trans (hvalues₂.trans hvalues)), hblocks₄, ?_⟩
    have hother := hturns.sheet
    rw [hsheet₂, hsheet] at hother
    show Adds c.sheet _ c₄.sheet
    rw [hsheet₄, hcurrent₁]
    exact .ifElse hentered hadds hother
  | loop condition place body ih =>
    have hevents : (Phrase.Statement.loop condition place body).events =
        (.beginWhile :: (condition.events ++ [.whileCondition place])) ++ (body.events ++ [.endWhile]) := by
      simp [Phrase.Statement.events]
    rw [hevents]
    refine tells_append ((tells_loopOpening condition place h).mono ?_)
    rintro c₃ ⟨hwithin₃, hvalues₃, code, hcode, hsheet₃⟩
    have hscopes₃ : c₃.scopes = (c.scopes.noted .whileBody).goTo c.scopes.size :=
      congrArg Sheet.scopes hsheet₃
    have hready₃ : strict → c₃.sheet.Ready := fun hstrict =>
      hsheet₃ ▸ (hready hstrict).loops hcode
    refine tells_append ((ih hwithin₃.rests hready₃).mono fun c₄ hturns => ?_)
    have hwithin₄ := hwithin₃.turns (by
      rw [hscopes₃]
      exact Nat.lt_of_lt_of_eq (Nat.lt_succ_self _) (ScopeTree.size_noted ..).symm) hturns
    refine tells_cons fun log₄ => (meets_endWhile (hwithin₄.log log₄)).mono ?_
    rintro _ c₅ ⟨hrests₅, hvalues₅, hblocks₅, hsheet₅⟩
    refine tells_nil fun log => ⟨hrests₅.log log, hvalues₅.trans (hturns.values.trans hvalues₃), hblocks₅, ?_⟩
    have hbody := hturns.sheet
    rw [hsheet₃] at hbody
    show Adds c.sheet _ c₅.sheet
    rw [hsheet₅]
    exact .loop hcode hbody

/-! ### Functions and programs -/

theorem tells_params (later : List Phrase.Param) (index : Nat) (h : Rests c) :
    Tells strict (Phrase.Param.eventsFrom index later) c fun c' =>
      Turns c c' fun w w' => w.Takes index later w' := by
  induction later generalizing c index with
  | nil => exact tells_nil fun log => ⟨h.log log, rfl, rfl, .nil⟩
  | cons param later ih =>
    refine tells_cons fun log => ?_
    -- whatever the label is, the symbol follows
    have hsymbol : Meets strict (here >>= fun id => insertSymbol id
        ⟨param.name.getD s!"_${index}", .parameter index param.label param.ty, some param.place⟩)
        { c with log } fun _ c' => Tells strict (Phrase.Param.eventsFrom (index + 1) later) c' fun c' =>
          Turns c c' fun w w' => w.Takes index (param :: later) w' := by
      refine meets_bind.2 (meets_run rfl ?_)
      refine (meets_insertSymbol (Option.some_ne_none _)).mono ?_
      rintro _ _ ⟨scopes, rfl, hdeclares⟩
      refine (ih (c := { c with scopes, log }) (index + 1) { h with }).mono fun c₂ hc₂ => ?_
      exact ⟨hc₂.rests, hc₂.values, hc₂.blocks, .cons hdeclares hc₂.sheet⟩
    show Meets strict (parameter index param.label param.name param.ty param.place) _ _
    unfold parameter
    split
    · exact meets_ite (fun _ => meets_bind.2 (meets_failAt.2 nofun)) fun _ => hsymbol
    · exact hsymbol

theorem meets_popParameters {header : Nat} (hcurrent : c.scopes.current = header) (n : Nat) (h : Rests c)
    (hparams : strict → ∀ index < n, ∃ symbol,
      (c.scopes.scope header).table.parameterAt? index = some symbol) :
    Meets strict (popParameters header n) c fun _ c' => ∃ code, Sheet.Pops c.scopes n code ∧
      Turns c c' fun w w' => w' = w.write code := by
  subst hcurrent
  induction n generalizing c with
  | zero => exact meets_pure.2 ⟨[], .zero, h, rfl, rfl, Sheet.ext rfl (append_nil _).symm rfl⟩
  | succ index ih =>
    refine meets_bind.2 (meets_scope.2 ?_)
    split
    · rename_i hnone
      refine meets_throw.2 fun hstrict => ?_
      obtain ⟨symbol, hsymbol⟩ := hparams hstrict index (Nat.lt_succ_self _)
      cases hnone.symm.trans hsymbol
    · rename_i symbol hsymbol
      refine meets_bind.2 (meets_instruction.2 (meets_bind.2 (meets_append.2 ?_)))
      have hrest := ih (c := { c with stream := (c.stream.append
        (c.scopes.named .paramPop symbol.name c.scopes.current)).1 }) (h.append)
        fun hstrict other hother => hparams hstrict other (Nat.lt_succ_of_lt hother)
      refine Meets.mono hrest ?_
      rintro _ c' ⟨code, hcode, hturns⟩
      refine ⟨_, .succ hsymbol hcode, hturns.rests, hturns.values, hturns.blocks, ?_⟩
      have hsheet := hturns.sheet
      rw [sheet_append c h.sound] at hsheet
      rw [hsheet, Sheet.write, Sheet.write, Sheet.write]
      simp

theorem meets_beginBody {params : Nat} (h : Rests c)
    (hparams : strict → ∀ w : Sheet, (c.sheet.onScopes fun t => t.modify c.scopes.current fun scope =>
      { scope with parameters := params }).Declares ScopeTree.root
        { name, kind := .function returns false, location := some place } w →
      ∀ index < params, ∃ symbol, (w.scopes.scope c.scopes.current).table.parameterAt? index = some symbol) :
    Meets strict (beginBody name place params returns) c fun _ c' => Rests c' ∧ c'.values = c.values ∧
      c'.blocks = c.blocks ∧ ∃ w pops, (c.sheet.onScopes fun t => t.modify c.scopes.current fun scope =>
          { scope with parameters := params }).Declares ScopeTree.root
            { name, kind := .function returns false, location := some place } w ∧
        Sheet.Pops w.scopes params pops ∧
        c'.sheet = (w.write ({ w.scopes.mark .functionBegin c.scopes.current with
          payload := some (.name name) } :: pops)).onScopes fun t => (t.enter .functionBody name).1 := by
  refine meets_bind.2 (meets_run rfl ?_)
  refine meets_bind.2 (meets_modify.2 ((meets_insertSymbol (Option.some_ne_none _)).bind ?_))
  rintro _ _ ⟨scopes, rfl, hdeclares⟩
  obtain ⟨-, hcurrent, -⟩ := hdeclares.grows
  refine meets_bind.2 (meets_run rfl ?_)
  refine meets_bind.2 (meets_run rfl ?_)
  refine (meets_popParameters (c := { c with scopes, stream := (c.stream.append
    { scopes.mark .functionBegin c.scopes.current with payload := some (.name name) }).1 }) hcurrent params
      (h.append) fun hstrict => hparams hstrict _ hdeclares).bind ?_
  rintro _ c₂ ⟨pops, hpops, hturns⟩
  refine meets_run rfl ?_
  refine ⟨{ hturns.rests with }, hturns.values, hturns.blocks, _, pops, hdeclares, hpops, ?_⟩
  have hsheet := hturns.sheet
  rw [sheet_append { c with scopes } h.sound] at hsheet
  have hwhole : c₂.sheet = (Sheet.mk scopes c.stream.code c.calls).write
      ({ scopes.mark .functionBegin c.scopes.current with payload := some (.name name) } :: pops) := by
    rw [hsheet]
    simp [Sheet.write, Context.sheet]
  exact congrArg (Sheet.onScopes · fun t => (t.enter .functionBody name).1) hwhole

theorem meets_endFunction {header : Nat} (h : Rests c)
    (hbody : (c.scopes.scope c.scopes.current).parent = some header)
    (hheader : (c.scopes.scope header).parent = some parent) :
    Meets strict (endFunction name) c fun _ c' => Turns c c' fun w w' =>
      w' = (w.onScopes (·.goTo parent)).write
        [{ w.scopes.mark .functionEnd header with payload := some (.name name) }] := by
  refine (meets_leaveScope hbody).bind ?_
  rintro _ _ ⟨log, rfl⟩
  refine meets_bind.2 (meets_run rfl ?_)
  refine (meets_leaveScope hheader).bind ?_
  rintro _ _ ⟨log', rfl⟩
  refine meets_run rfl ?_
  exact ⟨h.append, rfl, rfl, sheet_append { c with scopes := c.scopes.goTo parent } h.sound
    { c.scopes.mark .functionEnd header with payload := some (.name name) }⟩

theorem tells_functionOpening (f : Phrase.Function) (h : Rests c) (hready : strict → c.sheet.Ready) :
    Tells strict f.opening c fun c' => Turns c c' fun w w' => w.Begins f w' := by
  refine tells_cons fun log => ?_
  refine meets_bind.2 (meets_run rfl ?_)
  refine meets_ite (fun _ => (meets_failAt.2 nofun)) fun hfresh => meets_pure.2 ?_
  refine tells_cons fun log₁ => ?_
  refine meets_run rfl ?_
  refine tells_append ((tells_params f.params 0 (by exact { h with })).mono fun c₂ hc₂ => ?_)
  have hparams : Sheet.Takes (c.sheet.onScopes fun t => (t.enter .functionHeader f.name).1) 0 f.params
      c₂.sheet := hc₂.sheet
  have hcurrent₂ : c₂.scopes.current = c.scopes.size := hparams.grows.2.1
  refine tells_cons fun log₂ => Meets.mono (meets_beginBody (hc₂.rests.log log₂) ?_) ?_
  · intro hstrict w hdeclares index hindex
    obtain ⟨hfit, hsound⟩ := hready hstrict
    rw [show ({ c₂ with log := log₂ } : Context).scopes.current = c.scopes.size from hcurrent₂] at hdeclares ⊢
    obtain ⟨-, all, hlength, -, hnames, -⟩ := hparams.declared hdeclares hfit hsound.formed.current_lt
    obtain ⟨symbol, hsymbol, -⟩ := Sheet.exists_parameter (hlength ▸ hindex) hnames
    exact ⟨symbol, hsymbol⟩
  rintro _ c₃ ⟨hrests₃, hvalues₃, hblocks₃, w, pops, hdeclares, hpops, hsheet₃⟩
  refine tells_nil fun log₃ => ⟨hrests₃.log log₃, hvalues₃.trans hc₂.values, hblocks₃.trans hc₂.blocks, ?_⟩
  show c.sheet.Begins f c₃.sheet
  rw [hsheet₃, hcurrent₂]
  rw [hcurrent₂] at hdeclares
  exact .intro (Bool.eq_false_iff.2 hfresh) hparams hdeclares hpops

theorem tells_function (f : Phrase.Function) (h : Rests c)
    (hready : strict → c.sheet.Ready ∧ c.scopes.current = ScopeTree.root) :
    Tells strict f.events c fun c' => Turns c c' fun w w' => w.Defines f w' := by
  rw [f.events_eq]
  refine tells_append ((tells_functionOpening f h fun hstrict => (hready hstrict).1).mono fun c₃ hc₃ => ?_)
  have hready₃ : strict → c₃.sheet.Ready := by
    intro hstrict
    obtain ⟨hready, hcurrent⟩ := hready hstrict
    obtain ⟨hfit, -, params, entry, pops, -, hentry, hpops, hdraft⟩ := hc₃.sheet.headed hready.fit hready.sound.formed hcurrent
    exact ⟨hfit, hdraft ▸ hready.sound.headed (hpops.entry_renderable hentry)⟩
  refine tells_append ((tells_statement f.body hc₃.rests hready₃).mono fun c₄ hbody => ?_)
  obtain ⟨hbelow, habove⟩ := hc₃.sheet.parents hbody.sheet
  refine tells_cons fun log₄ => (meets_endFunction (hbody.rests.log log₄) hbelow habove).mono ?_
  intro _ c₅ hc₅
  refine tells_nil fun log => ⟨hc₅.rests.log log, ?_, ?_, ?_⟩
  · exact hc₅.values.trans (hbody.values.trans hc₃.values)
  · exact hc₅.blocks.trans (hbody.blocks.trans hc₃.blocks)
  · show c.sheet.Defines f c₅.sheet
    rw [hc₅.sheet]
    exact .intro hc₃.sheet hbody.sheet

theorem tells_items (items : List Phrase.Item) (h : Rests c)
    (hparts : strict → (∀ item ∈ items, item.Within .ofSources) ∧ c.sheet.Fit ∧
      ∃ parts, Composes parts c.sheet.draft) :
    Tells strict (items.flatMap Phrase.Item.events) c fun c' =>
      Turns c c' fun w w' => Fills w items w' := by
  induction items generalizing c with
  | nil => exact tells_nil fun log => ⟨h.log log, rfl, rfl, .nil⟩
  | cons item later ih =>
    have hready : strict → c.sheet.Ready ∧ c.scopes.current = ScopeTree.root := by
      intro hstrict
      obtain ⟨-, hfit, parts, hparts⟩ := hparts hstrict
      obtain ⟨hsound, hcurrent, -⟩ := hparts.sound
      exact ⟨⟨hfit, hsound⟩, hcurrent⟩
    -- behind an item the draft is that of a program again
    have hnext : ∀ c₁ : Context, Fills c.sheet [item] c₁.sheet → strict →
        (∀ item ∈ later, item.Within .ofSources) ∧ c₁.sheet.Fit ∧ ∃ parts, Composes parts c₁.sheet.draft := by
      intro c₁ hfills hstrict
      obtain ⟨hitems, hfit, parts, hparts⟩ := hparts hstrict
      obtain ⟨hitem, hlater⟩ := forall_mem_cons.1 hitems
      exact ⟨hlater, hfills.composes hfit (forall_mem_singleton.2 hitem) hparts⟩
    refine tells_append ?_
    cases item with
    | statement content =>
      refine (tells_statement content h fun hstrict => (hready hstrict).1).mono fun c₁ hc₁ => ?_
      refine (ih hc₁.rests (hnext c₁ (.statement hc₁.sheet .nil))).mono fun c₂ hc₂ => ?_
      exact ⟨hc₂.rests, hc₂.values.trans hc₁.values, hc₂.blocks.trans hc₁.blocks,
        .statement hc₁.sheet hc₂.sheet⟩
    | function content =>
      refine (tells_function content h hready).mono fun c₁ hc₁ => ?_
      refine (ih hc₁.rests (hnext c₁ (.function hc₁.sheet .nil))).mono fun c₂ hc₂ => ?_
      exact ⟨hc₂.rests, hc₂.values.trans hc₁.values, hc₂.blocks.trans hc₁.blocks,
        .function hc₁.sheet hc₂.sheet⟩

end turns

theorem rests_start : Rests .start := ⟨Stream.start_sound, rfl, forall_mem_nil _, forall_mem_nil _⟩

end Meaning

end OnePass
