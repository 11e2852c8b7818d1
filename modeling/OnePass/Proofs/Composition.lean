import OnePass.Proofs.Soundness
import OnePass.Proofs.Vocabulary

/-!
# Programs as compositions

A program is a sequence of parts: statements of the main program, and functions.  Each part has its
flow, and a function also has a header, which holds its parameters.

Main results:

* `start_sound` — the draft before the first part is sound;
* `Composes.sound` — so are all drafts of programs.
-/

namespace OnePass

/-! ### Heads of functions -/

/-- Parameters as names of a scope, given by their names and by their types apart from the option of
being absent. -/
def paramNames (params : List (String × Ty)) : Set (String × Role) :=
  { entry | ∃ index base, params[index]? = some (entry.1, base) ∧
    entry.2 = ⟨.parameter index, base⟩ }

/-- The instructions that take parameters off the stack, last one first. -/
def Pops (header : Nat) (params : List (String × Ty)) (pops : List Instruction) : Prop :=
  pops.map Instruction.name? =
      params.reverse.map (fun param => some (Meaning.storageName param.1 header)) ∧
    ∀ i ∈ pops, i.Marks .paramPop header

/-- The bounds of a function in the code. -/
def Instruction.Bounds (kind : InstructionKind) (header : Nat) (name : String) (i : Instruction) :
    Prop :=
  i.Marks kind header ∧ i.name? = some name

namespace Draft

/-- The header of a function below the global scope. -/
def header (d : Draft) (name : String) : Scope :=
  (d.outlines ScopeTree.root).below ScopeTree.root .functionHeader name

/-- The head of a function is written and its body is about to begin. -/
def headed (d : Draft) (name : String) (params : List (String × Ty)) (returns : Ty)
    (code : List Instruction) : Draft :=
  { d with
    size := d.size + 2
    current := d.size + 1
    outlines := Function.update
      (Function.update
        (Function.update d.outlines d.size
          { d.header name with children := [d.size + 1], parameters := params.length })
        (d.size + 1) ((d.header name).below d.size .functionBody name))
      ScopeTree.root
      { d.outlines ScopeTree.root with
        children := (d.outlines ScopeTree.root).children ++ [d.size] }
    names := Function.update
      (Function.update (Function.update d.names d.size (paramNames params)) (d.size + 1) ∅)
      ScopeTree.root (insert (name, ⟨.function false, returns⟩) (d.names ScopeTree.root))
    code := d.code ++ code }

/-- A function has ended. -/
def ended (d : Draft) (code : List Instruction) : Draft :=
  { d.write code with current := ScopeTree.root }

variable {d : Draft} {name : String} {params : List (String × Ty)} {returns : Ty}
  {code : List Instruction}

theorem headed_root :
    (d.headed name params returns code).outlines ScopeTree.root =
      { d.outlines ScopeTree.root with
        children := (d.outlines ScopeTree.root).children ++ [d.size] } := by
  simp [headed]

theorem headed_of_ne {id : Nat} (hroot : id ≠ ScopeTree.root) (hheader : id ≠ d.size)
    (hbody : id ≠ d.size + 1) : (d.headed name params returns code).outlines id = d.outlines id := by
  simp [headed, hroot, hheader, hbody]

theorem headed_body :
    (d.headed name params returns code).outlines (d.size + 1) =
      (d.header name).below d.size .functionBody name := by
  simp [headed, ScopeTree.root]

theorem headed_names_root :
    (d.headed name params returns code).names ScopeTree.root =
      insert (name, ⟨.function false, returns⟩) (d.names ScopeTree.root) := by
  simp [headed]

theorem headed_names_of_ne {id : Nat} (hroot : id ≠ ScopeTree.root) (hheader : id ≠ d.size)
    (hbody : id ≠ d.size + 1) : (d.headed name params returns code).names id = d.names id := by
  simp [headed, hroot, hheader, hbody]

theorem headed_names_body : (d.headed name params returns code).names (d.size + 1) = ∅ := by
  simp [headed, ScopeTree.root]

theorem extends_headed : d.Extends (d.headed name params returns code) where
  size_le := Nat.le_add_right _ _
  fixed id hid := by
    by_cases hroot : id = ScopeTree.root
    · rw [hroot, headed_root]
      exact ⟨rfl, rfl, rfl, rfl⟩
    · rw [headed_of_ne hroot (Nat.ne_of_lt hid) (Nat.ne_of_lt (Nat.lt_succ_of_lt hid))]
      exact ⟨rfl, rfl, rfl, rfl⟩
  names id hid := by
    by_cases hroot : id = ScopeTree.root
    · rw [hroot, headed_names_root]
      exact Set.subset_insert _ _
    · rw [headed_names_of_ne hroot (Nat.ne_of_lt hid) (Nat.ne_of_lt (Nat.lt_succ_of_lt hid))]
  code := List.subset_append_left _ _

theorem extends_ended : d.Extends (d.ended code) :=
  ⟨Nat.le_refl _, fun _ _ => ⟨rfl, rfl, rfl, rfl⟩, fun _ _ _ h => h, List.subset_append_left _ _⟩

section

variable (hd : d.Formed)

include hd

theorem headed_header :
    (d.headed name params returns code).outlines d.size =
      { d.header name with children := [d.size + 1], parameters := params.length } := by
  simp [headed, Nat.ne_of_gt hd.size_pos]

theorem headed_names_header : (d.headed name params returns code).names d.size = paramNames params := by
  simp [headed, Nat.ne_of_gt hd.size_pos]

theorem headed_parent (id : Nat) :
    ((d.headed name params returns code).outlines id).parent =
      if id = d.size then some ScopeTree.root
      else if id = d.size + 1 then some d.size
      else (d.outlines id).parent := by
  split
  · rename_i hid
    rw [hid, headed_header hd]
    rfl
  · rename_i hheader
    split
    · rename_i hid
      rw [hid, headed_body]
      rfl
    · rename_i hbody
      by_cases hroot : id = ScopeTree.root
      · rw [hroot, headed_root]
      · rw [headed_of_ne hroot hheader hbody]

theorem Formed.headed : (d.headed name params returns code).Formed where
  rooted := by
    intro id above habove
    replace habove := (headed_parent hd id).symm.trans habove
    split at habove
    · rename_i hid
      cases habove
      exact hid ▸ hd.size_pos
    · split at habove
      · rename_i hid
        cases habove
        exact hid ▸ Nat.lt_succ_self _
      · exact hd.rooted id above habove
  current_lt := Nat.lt_succ_self _

end

theorem Sound.headed (h : d.Sound) (hcode : ∀ i ∈ code, i.Renderable) :
    (d.headed name params returns code).Sound where
  formed := h.formed.headed
  here := by
    rw [show (d.headed name params returns code).current = d.size + 1 from rfl, headed_body]
    exact nofun
  headers id hid hkind := by
    by_cases hold : id < d.size
    · exact (h.headers id hold ((extends_headed.fixed id hold).1 ▸ hkind)).extend
        extends_headed hold
    · rcases Nat.lt_or_eq_of_le (Nat.le_of_lt_succ hid) with hheader | rfl
      · obtain rfl : id = d.size := Nat.le_antisymm (Nat.le_of_lt_succ hheader) (Nat.le_of_not_lt hold)
        refine ⟨⟨returns, false, ?_⟩, fun index hindex => ?_⟩
        · rw [headed_names_root, headed_header h.formed]
          exact .inl rfl
        · rw [headed_header h.formed] at hindex
          rw [headed_names_header h.formed]
          exact ⟨params[index].1, params[index].2, index, _, List.getElem?_eq_getElem hindex, rfl⟩
      · rw [headed_body] at hkind
        cases hkind
  loops id hid hkind := by
    by_cases hold : id < d.size
    · obtain ⟨i, hi, hmarks⟩ := h.loops id hold ((extends_headed.fixed id hold).1 ▸ hkind)
      exact ⟨i, List.mem_append_left _ hi, hmarks⟩
    · rcases Nat.lt_or_eq_of_le (Nat.le_of_lt_succ hid) with hheader | rfl
      · obtain rfl : id = d.size := Nat.le_antisymm (Nat.le_of_lt_succ hheader) (Nat.le_of_not_lt hold)
        rw [headed_header h.formed] at hkind
        cases hkind
      · rw [headed_body] at hkind
        cases hkind
  code := (h.code.write hcode).congr rfl rfl

end Draft

/-! ### The beginning -/

section start

theorem start_size : ScopeTree.withBuiltins.size = 11 := rfl

theorem start_current : Context.start.draft.current = ScopeTree.root := rfl

theorem start_kind : ∀ i ∈ Context.start.draft.code, i.kind = .programStart :=
  List.forall_mem_singleton.2 rfl

theorem start_names_root (name : String) (role : Role) :
    (name, role) ∈ Context.start.draft.names ScopeTree.root ↔
      ∃ builtin ∈ Builtin.all, name = builtin.name ∧ role = ⟨.function true, builtin.returns⟩ := by
  have hall : ∀ symbol ∈ (ScopeTree.withBuiltins.scope 0).table.toList, ∃ builtin ∈ Builtin.all,
      symbol.name = builtin.name ∧ symbol.role = ⟨.function true, builtin.returns⟩ := by
    decide +kernel
  have hmem : ∀ builtin ∈ Builtin.all, ∃ symbol ∈ (ScopeTree.withBuiltins.scope 0).table.toList,
      symbol.name = builtin.name ∧ symbol.role = ⟨.function true, builtin.returns⟩ := by
    decide +kernel
  constructor
  · rintro ⟨symbol, hsymbol, heq⟩
    cases heq
    exact hall symbol hsymbol
  · rintro ⟨builtin, hbuiltin, rfl, rfl⟩
    obtain ⟨symbol, hsymbol, hname, hrole⟩ := hmem builtin hbuiltin
    exact ⟨symbol, hsymbol, by rw [hname, hrole]⟩

theorem start_header {id : Nat} (hlt : id < 11) (hpos : 0 < id) :
    (Context.start.draft.outlines id).kind = .functionHeader ∧
      (Context.start.draft.outlines id).parent = some ScopeTree.root ∧
      (Context.start.draft.outlines id).name ∈ Builtin.all.map (·.name) ∧
      ∀ index < (Context.start.draft.outlines id).parameters,
        ∃ symbol ∈ (ScopeTree.withBuiltins.scope id).table.toList,
          symbol.role.sort = .parameter index := by
  revert hpos
  revert id
  decide +kernel

theorem start_root : (Context.start.draft.outlines ScopeTree.root).kind = .global ∧
    (Context.start.draft.outlines ScopeTree.root).name = "$main" ∧
    (Context.start.draft.outlines ScopeTree.root).parent = none ∧
    (Context.start.draft.outlines ScopeTree.root).children = List.range' 1 10 ∧
    (Context.start.draft.outlines ScopeTree.root).conditionals = 0 :=
  ⟨rfl, rfl, rfl, rfl, rfl⟩

theorem start_formed : Context.start.draft.Formed where
  rooted := by
    intro id above habove
    change (Context.start.draft.outlines id).parent = some above at habove
    by_cases hlt : id < 11
    · rcases Nat.eq_zero_or_pos id with hzero | hpos
      · rw [show id = ScopeTree.root from hzero, start_root.2.2.1] at habove
        cases habove
      · rw [(start_header hlt hpos).2.1] at habove
        cases habove
        exact hpos
    · have hnone : (ScopeTree.withBuiltins.scope id).parent = none := by
        rw [ScopeTree.scope_of_le (start_size ▸ Nat.le_of_not_lt hlt)]
        rfl
      cases habove.symm.trans hnone
  current_lt := by
    rw [start_current]
    exact Nat.lt_of_lt_of_eq (Nat.succ_pos 10) start_size.symm

theorem start_sound : Context.start.draft.Sound where
  formed := start_formed
  here := by
    rw [start_current, start_root.1]
    exact nofun
  headers id hlt hkind := by
    rcases Nat.eq_zero_or_pos id with hzero | hpos
    · rw [show id = ScopeTree.root from hzero, start_root.1] at hkind
      cases hkind
    · obtain ⟨-, -, hname, hparameters⟩ := start_header (start_size ▸ hlt) hpos
      obtain ⟨builtin, hbuiltin, hname⟩ := List.mem_map.1 hname
      refine ⟨⟨builtin.returns, true, ?_⟩, fun index hindex => ?_⟩
      · exact (start_names_root _ _).2 ⟨builtin, hbuiltin, hname.symm, rfl⟩
      · obtain ⟨symbol, hsymbol, hsort⟩ := hparameters index hindex
        exact ⟨symbol.name, symbol.role.base, symbol, hsymbol, by rw [← hsort]⟩
  loops id hlt hkind := by
    rcases Nat.eq_zero_or_pos id with hzero | hpos
    · rw [show id = ScopeTree.root from hzero, start_root.1] at hkind
      cases hkind
    · rw [(start_header (start_size ▸ hlt) hpos).1] at hkind
      cases hkind
  code :=
    { renderable := List.forall_mem_singleton.2 (Instruction.renderable_of_kind rfl nofun)
      start := ⟨_, [], rfl, rfl⟩
      sites := fun _ hsite => absurd hsite List.not_mem_nil
      numbered := rfl }

end start

/-! ### Programs -/

/-- A part of a program: the header of the function it is, or none for statements of the main
program, and its flow. -/
structure Part where
  header : Option Nat
  flow : Flow

/-- The flow of a function from its beginning to its end, which does nothing. -/
def Flow.function (entry : List Instruction) (body : Flow) : Flow :=
  .seq (.seq (.straight (deeds entry)) body) (.straight [])

/-- The drafts of programs. -/
inductive Composes : List Part → Draft → Prop where
  | start : Composes [⟨none, .straight []⟩] Context.start.draft
  | statement {parts : List Part} {d d' : Draft} {H : List Instruction} {T : Flow}
      (h : Composes parts d) (hbody : Elaborates d H T d') : Composes (parts ++ [⟨none, T⟩]) d'
  | function {parts : List Part} {d d' : Draft} {name : String} {params : List (String × Ty)}
      {returns : Ty} {entry fin : Instruction} {pops H : List Instruction} {T : Flow}
      (h : Composes parts d) (hname : IsName name)
      (hfresh : ∀ role, (name, role) ∉ d.names ScopeTree.root)
      (hparams : (params.map Prod.fst).Nodup) (hentry : entry.Bounds .functionBegin d.size name)
      (hpops : Pops d.size params pops)
      (hbody : Elaborates (d.headed name params returns (entry :: pops)) H T d')
      (hfin : fin.Bounds .functionEnd d.size name) :
      Composes (parts ++ [⟨some d.size, .function (entry :: pops) T⟩]) (d'.ended [fin])

theorem Pops.renderable {header : Nat} {params : List (String × Ty)} {pops : List Instruction}
    (h : Pops header params pops) : ∀ i ∈ pops, i.Renderable := by
  intro i hi
  have hmem : i.name? ∈ pops.map Instruction.name? := List.mem_map_of_mem hi
  rw [h.1] at hmem
  obtain ⟨name, -, hname⟩ := List.mem_map.1 hmem
  exact Instruction.renderable_of_name hname.symm (by rw [(h.2 i hi).1]; decide)

theorem Instruction.Bounds.renderable {kind : InstructionKind} {header : Nat} {name : String}
    {i : Instruction} (h : i.Bounds kind header name) (hkind : kind ≠ .pushLiteral) :
    i.Renderable :=
  renderable_of_name h.2 (h.1.1 ▸ hkind)

theorem Pops.entry_renderable {header : Nat} {name : String} {params : List (String × Ty)}
    {entry : Instruction} {pops : List Instruction} (h : Pops header params pops)
    (hentry : entry.Bounds .functionBegin header name) : ∀ i ∈ entry :: pops, i.Renderable := by
  intro i hi
  rcases List.mem_cons.1 hi with rfl | hi
  · exact hentry.renderable (by decide)
  · exact h.renderable i hi

theorem Composes.sound {parts : List Part} {d : Draft} (h : Composes parts d) :
    d.Sound ∧ d.current = ScopeTree.root ∧ (d.outlines ScopeTree.root).kind = .global := by
  induction h with
  | start => exact ⟨start_sound, start_current, start_root.1⟩
  | @statement parts d d' H T h hbody ih =>
    obtain ⟨hsound, hcurrent, hglobal⟩ := ih
    obtain ⟨-, hkeeps⟩ := hbody.keeps hsound.formed
    refine ⟨hbody.sound hsound, hkeeps.current.trans hcurrent, ?_⟩
    rw [(hkeeps.toExtends.fixed _ hsound.formed.size_pos).1, hglobal]
  | @function parts d d' name params returns entry fin pops H T h hname hfresh hparams hentry hpops hbody hfin
      ih =>
    obtain ⟨hsound, -, hglobal⟩ := ih
    have hheaded : (d.headed name params returns (entry :: pops)).Sound :=
      hsound.headed (hpops.entry_renderable hentry)
    obtain ⟨hformed, hkeeps⟩ := hbody.keeps hheaded.formed
    have hsound' := hbody.sound hheaded
    have hglobal' : (d'.outlines ScopeTree.root).kind = .global := by
      rw [(hkeeps.toExtends.fixed _ hheaded.formed.size_pos).1, Draft.headed_root]
      exact hglobal
    refine ⟨?_, rfl, hglobal'⟩
    refine ⟨⟨hformed.rooted, hformed.size_pos⟩, ?_, hsound'.headers, fun id hid hkind => ?_, ?_⟩
    · rw [show (d'.ended [fin]).outlines (d'.ended [fin]).current = d'.outlines ScopeTree.root
        from rfl, hglobal']
      exact nofun
    · obtain ⟨i, hi, hmarks⟩ := hsound'.loops id hid hkind
      exact ⟨i, List.mem_append_left _ hi, hmarks⟩
    · exact (hsound'.code.write (List.forall_mem_singleton.2 (hfin.renderable (by decide)))).congr rfl
        rfl

theorem Composes.preserves {P : Draft → Prop} (hstart : P Context.start.draft)
    (hstatement : ∀ {d d' : Draft} {H : List Instruction} {T : Flow}, d.Formed →
      Elaborates d H T d' → P d → P d')
    (hhead : ∀ {d : Draft} {name : String} {params : List (String × Ty)} {returns : Ty}
      {entry : Instruction} {pops : List Instruction}, d.Sound → d.current = ScopeTree.root →
      (d.outlines ScopeTree.root).kind = .global → IsName name →
      (∀ role, (name, role) ∉ d.names ScopeTree.root) → (params.map Prod.fst).Nodup →
      entry.Bounds .functionBegin d.size name → Pops d.size params pops → P d →
      P (d.headed name params returns (entry :: pops)))
    (hend : ∀ {d : Draft} {header : Nat} {fin : Instruction}, d.Formed →
      (d.outlines ScopeTree.root).kind = .global → header < d.size →
      (d.outlines header).kind = .functionHeader →
      fin.Bounds .functionEnd header (d.outlines header).name → P d → P (d.ended [fin]))
    {parts : List Part} {d : Draft} (h : Composes parts d) : P d := by
  induction h with
  | start => exact hstart
  | statement h hbody ih => exact hstatement h.sound.1.formed hbody ih
  | @function parts d d' name params returns entry fin pops H T h hname hfresh hparams hentry hpops hbody hfin
      ih =>
    obtain ⟨hsound, hcurrent, hglobal⟩ := h.sound
    have hformed : (d.headed name params returns (entry :: pops)).Formed := hsound.formed.headed
    obtain ⟨hformed', hkeeps⟩ := hbody.keeps hformed
    have hheader : d.size < (d.headed name params returns (entry :: pops)).size :=
      Nat.lt_add_of_pos_right Nat.two_pos
    obtain ⟨hkind', hname', -⟩ := hkeeps.toExtends.fixed d.size hheader
    rw [Draft.headed_header hsound.formed] at hkind' hname'
    have hglobal' : (d'.outlines ScopeTree.root).kind = .global :=
      (Composes.function h hname hfresh hparams hentry hpops hbody hfin).sound.2.2
    exact hend hformed' hglobal' (Nat.lt_of_lt_of_le hheader hkeeps.size_le) hkind' (hname' ▸ hfin)
      (hstatement hformed hbody (hhead hsound hcurrent hglobal hname hfresh hparams hentry hpops ih))

end OnePass
