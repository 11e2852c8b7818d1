import OnePass.Proofs.Calls
import OnePass.Proofs.Functions
import OnePass.Proofs.Meaning.Fit

/-!
# Arguments and parameters in the code

The pushes of the arguments of a call stand directly in front of the call, and the instructions that take
the parameters of a function off the stack stand directly behind its beginning.  Definitions are put in
front of loops later on, but they never come in between: the first instruction of a loop is in neither of
the two.

Main results:

* `Draft.Arranged.extend` — what a draft has to keep for its code to stay arranged;
* `Composes.arranged` — the code of programs is arranged.
-/

namespace OnePass

open List

namespace Draft

/-- The push of an argument: a literal of its type, or a variable with its type. -/
inductive Supplies (d : Draft) (argument : Argument) (push : Instruction) : Prop where
  | literal {payload : Payload} (hliteral : argument.literal) (hkind : push.kind = .pushLiteral)
      (hpayload : push.payload = some payload) (hty : payload.HasTy argument.ty)
  | variable {name : String} {owner : Nat} {role : Role} (hliteral : argument.literal = false)
      (hkind : push.kind = .pushVariable)
      (hname : push.name? = some (Meaning.storageName name owner)) (howner : owner < d.size)
      (hrole : (name, role) ∈ d.names owner) (hsort : ∀ builtin, role.sort ≠ .function builtin)
      (hbase : role.base = argument.ty.unwrapped)

/-- The arguments of a recorded call are pushed directly in front of the call. -/
def Supplied (d : Draft) (site : CallSite) : Prop :=
  ∃ pushes call, List.Forall₂ d.Supplies site.arguments pushes ∧ call.Invokes site ∧
    pushes ++ [call] <:+: d.code

/-- The parameters of a function are taken directly behind its beginning. -/
def Entered (d : Draft) (entry : Instruction) : Prop :=
  entry.scope < d.size ∧ ∃ params pops, Pops entry.scope params pops ∧ entry :: pops <:+: d.code ∧
    (d.outlines entry.scope).parameters = params.length ∧
    ∀ name index base, (name, ⟨.parameter index, base⟩) ∈ d.names entry.scope ↔
      params[index]? = some (name, base)

/-- Arguments stand in front of calls, and parameters behind the beginnings of functions. -/
structure Arranged (d : Draft) : Prop where
  arguments : ∀ site ∈ d.calls.recorded, Builtin.isVariadic site.name = false → d.Supplied site
  parameters : ∀ entry ∈ d.code, entry.kind = .functionBegin → d.Entered entry

/-! ### Keeping code arranged -/

section extend

variable {d d' : Draft} {argument : Argument} {arguments : List Argument} {push : Instruction}
  {code : List Instruction}

theorem Pushes.supplies (h : d.Pushes argument push) (hd : d.Formed) : d.Supplies argument push := by
  cases h with
  | literal hliteral hkind hpayload hty => exact .literal hliteral hkind hpayload hty
  | «variable» hliteral hkind hname howner hrole hsort hbase =>
    exact .variable hliteral hkind hname (Nat.lt_of_le_of_lt (le_of_mem_ancestorsBy hd.rooted howner) hd.current_lt) hrole hsort hbase

theorem Passes.supplies (h : d.Passes false arguments code) (hd : d.Formed) :
    List.Forall₂ d.Supplies arguments code := by
  induction h with
  | nil => exact .nil
  | push _ hpush _ ih => exact .cons (hpush.supplies hd) ih
  | write hvariadic => cases hvariadic

theorem Supplies.extend (h : d.Supplies argument push) (hextends : d.Extends d') :
    d'.Supplies argument push := by
  cases h with
  | literal hliteral hkind hpayload hty => exact .literal hliteral hkind hpayload hty
  | «variable» hliteral hkind hname howner hrole hsort hbase =>
    exact .variable hliteral hkind hname (Nat.lt_of_lt_of_le howner hextends.size_le)
      (hextends.names _ howner hrole) hsort hbase

theorem Supplies.isPush (h : d.Supplies argument push) : push.IsPush := by
  cases h with
  | literal _ hkind => exact .inl hkind
  | «variable» _ hkind => exact .inr hkind

theorem isPush_of_supplies (h : List.Forall₂ d.Supplies arguments code) : ∀ i ∈ code, i.IsPush := by
  induction h with
  | nil => exact fun _ hi => absurd hi not_mem_nil
  | cons hpush _ ih => exact forall_mem_cons.2 ⟨hpush.isPush, ih⟩

/-- Blocks of code stay together, except in front of the first instructions of loops. -/
def Holds (d d' : Draft) : Prop :=
  ∀ block, (∀ i ∈ block, i.kind ≠ .whileLabel) → block <:+: d.code → block <:+: d'.code

theorem Holds.write (h : d'.code = d.code ++ code) : d.Holds d' := fun block _ hblock => by
  rw [h]
  exact hblock.trans (prefix_append _ _).isInfix

theorem Supplied.extend {site : CallSite} (h : d.Supplied site) (hextends : d.Extends d')
    (hholds : d.Holds d') : d'.Supplied site := by
  obtain ⟨pushes, call, hpushes, hcall, hblock⟩ := h
  refine ⟨pushes, call, hpushes.imp fun _ _ hpush => hpush.extend hextends, hcall,
    hholds _ (forall_mem_append.2 ⟨fun i hi => ?_, forall_mem_singleton.2 ?_⟩) hblock⟩
  · rcases isPush_of_supplies hpushes i hi with hkind | hkind <;> rw [hkind] <;>
      exact InstructionKind.noConfusion
  · rw [hcall.1]
    exact InstructionKind.noConfusion

/-- Parameters are declared with the header and never after it. -/
def Fixes (d d' : Draft) : Prop :=
  ∀ id < d.size, ∀ name index base,
    (name, ⟨.parameter index, base⟩) ∈ d'.names id → (name, ⟨.parameter index, base⟩) ∈ d.names id

theorem Entered.extend {entry : Instruction} (h : d.Entered entry) (hkind : entry.kind = .functionBegin)
    (hextends : d.Extends d') (hholds : d.Holds d') (hfixes : d.Fixes d') : d'.Entered entry := by
  obtain ⟨hlt, params, pops, hpops, hblock, hparameters, hnames⟩ := h
  refine ⟨Nat.lt_of_lt_of_le hlt hextends.size_le, params, pops, hpops,
    hholds _ (forall_mem_cons.2 ⟨?_, fun i hi => ?_⟩) hblock,
    (hextends.fixed _ hlt).2.2.2.trans hparameters, fun name index base => ?_⟩
  · rw [hkind]
    exact InstructionKind.noConfusion
  · rw [(hpops.2 i hi).1]
    exact InstructionKind.noConfusion
  · rw [← hnames]
    exact ⟨hfixes _ hlt name index base, fun h => hextends.names _ hlt h⟩

/-- Code stays arranged where calls and functions are added with their arguments and parameters. -/
theorem Arranged.extend (h : d.Arranged) (hextends : d.Extends d') (hholds : d.Holds d') (hfixes : d.Fixes d')
    (hcalls : ∀ site ∈ d'.calls.recorded, Builtin.isVariadic site.name = false →
      site ∈ d.calls.recorded ∨ d'.Supplied site)
    (hcode : ∀ i ∈ d'.code, i.kind = .functionBegin → i ∈ d.code ∨ d'.Entered i) : d'.Arranged where
  arguments site hsite hvariadic := by
    rcases hcalls site hsite hvariadic with hold | hnew
    · exact (h.arguments site hold hvariadic).extend hextends hholds
    · exact hnew
  parameters entry hentry hkind := by
    rcases hcode entry hentry hkind with hold | hnew
    · exact (h.parameters entry hold hkind).extend hkind hextends hholds hfixes
    · exact hnew

theorem Arranged.write (h : d.Arranged) (hextends : d.Extends d') (hfixes : d.Fixes d')
    (hcode : d'.code = d.code ++ code) (hinner : Inner code)
    (hcalls : ∀ site ∈ d'.calls.recorded, Builtin.isVariadic site.name = false →
      site ∈ d.calls.recorded ∨ d'.Supplied site) : d'.Arranged := by
  refine h.extend hextends (.write hcode) hfixes hcalls fun i hi hkind => .inl ?_
  rw [hcode] at hi
  rcases mem_append.1 hi with hi | hi
  · exact hi
  · exact absurd hkind (InstructionKind.ne_of_isBound (hinner i hi)).1

end extend

end Draft

/-! ### Statements -/

section statements

variable {d d' : Draft} {H code : List Instruction}

theorem Draft.Fixes.of_names (h : ∀ id < d.size, d'.names id = d.names id) : d.Fixes d' :=
  fun id hid _ _ _ hmem => h id hid ▸ hmem

theorem Draft.fixes_declare (name : String) (base : Ty) : d.Fixes (d.declare name base) := by
  intro id _ other index ty hmem
  simp only [Draft.declare] at hmem
  rcases eq_or_ne id d.current with rfl | hne
  · rw [Function.update_self] at hmem
    exact hmem.resolve_left fun heq => by cases heq
  · rwa [Function.update_of_ne hne] at hmem

theorem Draft.Calling.supplied {site : CallSite} {after : List Instruction} (h : d.Calling site code)
    (hd : d.Formed) (hvariadic : Builtin.isVariadic site.name = false) (calls : Calls) :
    { d.write (code ++ after) with calls : Draft }.Supplied site := by
  have hextends : d.Extends { d.write (code ++ after) with calls : Draft } :=
    ⟨Nat.le_refl _, fun _ _ => ⟨rfl, rfl, rfl, rfl⟩, fun _ _ _ h => h, subset_append_left _ _⟩
  cases h with
  | written hvariadic' => cases hvariadic'.symm.trans hvariadic
  | @kept pushes call _ _ hpushes hcall =>
    exact ⟨pushes, call, (hpushes.supplies hd).imp fun _ _ h => h.extend hextends, hcall,
      d.code, after, by simp [Draft.write]⟩
  | @dropped pushes call drop _ _ _ hpushes hcall =>
    exact ⟨pushes, call, (hpushes.supplies hd).imp fun _ _ h => h.extend hextends, hcall,
      d.code, drop :: after, by simp [Draft.write]⟩

theorem Step.arranged (h : Step d H code d') (hd : d.Formed) (harranged : d.Arranged) :
    d'.Arranged := by
  have hinner := h.straight.2
  have hextends := h.keeps.toExtends
  cases h with
  | skip => exact harranged
  | store | giveBack =>
    exact harranged.write hextends (.of_names fun _ _ => rfl) rfl hinner fun site hsite _ => .inl hsite
  | @call site code after _ hcode =>
    refine harranged.write hextends (.of_names fun _ _ => rfl) rfl hinner fun other hother hvariadic => ?_
    rcases mem_cons.1 hother with rfl | hother
    · exact .inr (hcode.supplied hd hvariadic _)
    · exact .inl hother
  | declare =>
    exact harranged.write hextends (Draft.fixes_declare (d := d.write _) _ _) rfl hinner
      fun site hsite _ => .inl hsite
  | @hoist name base define label pre post loop _ _ hdefine hcode hlabel =>
    refine harranged.extend hextends (fun block hblock hinfix => ?_)
      (Draft.fixes_declare (d := { d with code := _ }) _ _) (fun site hsite _ => .inl hsite)
      fun i hi hkind => .inl ?_
    · rw [hcode] at hinfix
      have hlabel' : label ∉ block := fun hmem => hblock label hmem hlabel.1
      rcases infix_append_cons hinfix hlabel' with hinfix | hinfix
      · exact hinfix.trans (prefix_append _ _).isInfix
      · exact hinfix.trans ⟨pre ++ [define, label], [], by simp [Draft.declare]⟩
    · have hmem : i = define ∨ i ∈ pre ++ label :: post := by
        simp only [Draft.declare, mem_append, mem_cons] at hi ⊢
        tauto
      rcases hmem with rfl | hmem
      · cases hkind.symm.trans hdefine.1
      · exact hcode ▸ hmem

theorem Elaborates.arranged {T : Flow} (h : Elaborates d H T d') (hd : d.Formed)
    (harranged : d.Arranged) : d'.Arranged := by
  refine h.preserves (P := Draft.Arranged) (fun hd hstep => hstep.arranged hd) ?_ ?_ ?_ hd harranged
  · intro d kind code _ hheads hP
    exact hP.write Draft.extends_opened
      (.of_names fun id hid => Function.update_of_ne (Nat.ne_of_lt hid) _ _) rfl hheads.inner.1
      fun site hsite _ => .inl hsite
  · intro d d' code els hd _ hkeeps hels _ hP
    exact hP.write (Draft.extends_alternative hkeeps.size_le (Nat.ne_of_gt hd.current_lt))
      (.of_names fun id hid => Function.update_of_ne (Nat.ne_of_lt hid) _ _) rfl
      (.singleton (hels.inner rfl)) fun site hsite _ => .inl hsite
  · intro d d' kind code tail _ _ _ _ hends _ hP
    exact hP.write (Draft.extends_closed _) (.of_names fun _ _ => rfl) rfl hends.inner
      fun site hsite _ => .inl hsite

end statements

/-! ### Programs -/

theorem Draft.Arranged.headed {d : Draft} {name : String} {params : List (String × Ty)} {returns : Ty}
    {entry : Instruction} {pops : List Instruction} (h : d.Arranged) (hd : d.Formed)
    (hentry : entry.Bounds .functionBegin d.size name) (hpops : Pops d.size params pops) :
    (d.headed name params returns (entry :: pops)).Arranged := by
  refine h.extend extends_headed (.write rfl) ?_ (fun site hsite _ => .inl hsite) fun i hi hkind => ?_
  · intro id hid other index base hmem
    rcases eq_or_ne id ScopeTree.root with rfl | hroot
    · rw [headed_names_root] at hmem
      exact hmem.resolve_left fun heq => by cases heq
    · rwa [headed_names_of_ne hroot (Nat.ne_of_lt hid) (Nat.ne_of_lt (Nat.lt_succ_of_lt hid))] at hmem
  · rcases mem_append.1 hi with hi | hi
    · exact .inl hi
    · rcases mem_cons.1 hi with rfl | hi
      · refine .inr ⟨?_, params, pops, ?_, ?_, ?_, ?_⟩
        · rw [hentry.1.2]
          exact Nat.lt_add_of_pos_right Nat.two_pos
        · rwa [hentry.1.2]
        · exact (suffix_append _ _).isInfix
        · rw [hentry.1.2, headed_header hd]
        · intro other index base
          rw [hentry.1.2, headed_names_header hd]
          constructor
          · rintro ⟨_, _, hparam, heq⟩
            cases heq
            exact hparam
          · exact fun hparam => ⟨index, base, hparam, rfl⟩
      · cases hkind.symm.trans (hpops.2 i hi).1

theorem Composes.arranged {parts : List Part} {d : Draft} (h : Composes parts d) : d.Arranged := by
  refine h.preserves (P := Draft.Arranged) ?_ (fun hd helaborates => helaborates.arranged hd) ?_ ?_
  · refine ⟨fun _ hsite => absurd hsite not_mem_nil, fun i hi hkind => ?_⟩
    cases hkind.symm.trans (start_kind i hi)
  · intro d name params returns entry pops hsound _ _ _ _ _ hentry hpops hP
    exact hP.headed hsound.formed hentry hpops
  · intro d header fin _ _ _ _ hfin hP
    refine hP.extend Draft.extends_ended (.write rfl) (.of_names fun _ _ => rfl)
      (fun site hsite _ => .inl hsite) fun i hi hkind => .inl ?_
    rcases mem_append.1 hi with hi | hi
    · exact hi
    · rw [mem_singleton.1 hi] at hkind
      cases hkind.symm.trans hfin.1.1

end OnePass
