import OnePass.Proofs.Layout

/-!
# Functions and their bounds

The functions of a program are known by their headers, which are below the global scope, and by the
instructions that bound them in the code.  This module ties the two together.

Main results:

* `Elaborates.headers` — statements leave all of it alone;
* `Composes.headers` — **every function of a program is listed, has a name of its own, and is bounded by
  instructions with this name**.
-/

namespace OnePass

open List

variable {d : Draft} {code : List Instruction}

namespace Draft

/-- The headers of functions, and the bounds that belong to them. -/
structure Headers (d : Draft) : Prop where
  listed : ∀ id < d.size, (d.outlines id).kind = .functionHeader → id ∈ (d.outlines ScopeTree.root).children
  unique : ∀ id < d.size, ∀ other < d.size, (d.outlines id).kind = .functionHeader →
    (d.outlines other).kind = .functionHeader → (d.outlines id).name = (d.outlines other).name →
    id = other
  begun : ∀ id < d.size, (d.outlines id).kind = .functionHeader →
    (∃ builtin ∈ Builtin.all, (d.outlines id).name = builtin.name ∧
      (builtin.name, ⟨.function true, builtin.returns⟩) ∈ d.names ScopeTree.root) ∨
    ∃ i ∈ d.code, i.Marks .functionBegin id
  bounds : ∀ i ∈ d.code, i.kind.isBound → i.scope < d.size ∧
    (d.outlines i.scope).kind = .functionHeader ∧ i.name? = some (d.outlines i.scope).name

variable {d d' : Draft}

theorem Headers.extend (h : d.Headers) (hd : d.Formed) (hextends : d.Extends d')
    (hkinds : ∀ id, d.size ≤ id → id < d'.size → (d'.outlines id).kind ≠ .functionHeader)
    (hchildren : (d.outlines ScopeTree.root).children ⊆ (d'.outlines ScopeTree.root).children)
    (hcode : ∀ i ∈ d'.code, i ∈ d.code ∨ i.kind.isBound = false) : d'.Headers := by
  have hold : ∀ {id}, id < d'.size → (d'.outlines id).kind = .functionHeader →
      id < d.size ∧ (d.outlines id).kind = .functionHeader ∧
        (d'.outlines id).name = (d.outlines id).name := by
    intro id hid hkind
    have hlt : id < d.size := Nat.lt_of_not_le fun hle => hkinds id hle hid hkind
    obtain ⟨hkind', hname, -⟩ := hextends.fixed id hlt
    exact ⟨hlt, hkind' ▸ hkind, hname⟩
  constructor
  case listed =>
    intro id hid hkind
    obtain ⟨hlt, hkind, -⟩ := hold hid hkind
    exact hchildren (h.listed id hlt hkind)
  case unique =>
    intro id hid other hother hkind hkind' hname
    obtain ⟨hlt, hkind, hsame⟩ := hold hid hkind
    obtain ⟨hlt', hkind', hsame'⟩ := hold hother hkind'
    exact h.unique id hlt other hlt' hkind hkind' (hsame ▸ hsame' ▸ hname)
  case begun =>
    intro id hid hkind
    obtain ⟨hlt, hkind, hsame⟩ := hold hid hkind
    rw [hsame]
    rcases h.begun id hlt hkind with ⟨builtin, hbuiltin, hname, hrole⟩ | ⟨i, hi, hmarks⟩
    · exact .inl ⟨builtin, hbuiltin, hname,
        hextends.names _ hd.size_pos hrole⟩
    · exact .inr ⟨i, hextends.code hi, hmarks⟩
  case bounds =>
    intro i hi hbound
    rcases hcode i hi with hi | hinner
    · obtain ⟨hlt, hkind, hname⟩ := h.bounds i hi hbound
      obtain ⟨hkind', hname', -⟩ := hextends.fixed i.scope hlt
      exact ⟨Nat.lt_of_lt_of_le hlt hextends.size_le, hkind'.trans hkind, hname' ▸ hname⟩
    · cases hbound.symm.trans hinner

section headed

variable {name : String} {params : List (String × Ty)} {returns : Ty} {code : List Instruction}

theorem headed_cases (hd : d.Formed) {id : Nat} (hid : id < d.size + 2)
    (hkind : ((d.headed name params returns code).outlines id).kind = .functionHeader) :
    id = d.size ∧ ((d.headed name params returns code).outlines id).name = name ∨
    id < d.size ∧ (d.outlines id).kind = .functionHeader ∧
      ((d.headed name params returns code).outlines id).name = (d.outlines id).name := by
  by_cases hheader : id = d.size
  · subst hheader
    rw [headed_header hd]
    exact .inl ⟨rfl, rfl⟩
  · by_cases hbody : id = d.size + 1
    · rw [hbody, headed_body] at hkind
      cases hkind
    · have hold : id < d.size := by omega
      obtain ⟨hkind', hname, -⟩ := (extends_headed (d := d)).fixed id hold
      exact .inr ⟨hold, hkind'.symm.trans hkind, hname⟩

theorem Headers.headed (h : d.Headers) (hsound : d.Sound)
    {entry : Instruction} {pops : List Instruction}
    (hfresh : ∀ role, (name, role) ∉ d.names ScopeTree.root)
    (hentry : entry.Bounds .functionBegin d.size name) (hpops : Pops d.size params pops) :
    (d.headed name params returns (entry :: pops)).Headers := by
  -- the names of functions are declared in the global scope, where the new name is not
  have hnew : ∀ id < d.size, (d.outlines id).kind = .functionHeader → (d.outlines id).name ≠ name := by
    rintro id hid hkind rfl
    obtain ⟨⟨returns, builtin, hsymbol⟩, -⟩ := hsound.headers id hid hkind
    exact hfresh _ hsymbol
  constructor
  case listed =>
    intro id hid hkind
    rw [headed_root]
    rcases headed_cases hsound.formed hid hkind with ⟨rfl, -⟩ | ⟨hold, hkind, -⟩
    · exact mem_append_right _ (mem_singleton_self _)
    · exact mem_append_left _ (h.listed id hold hkind)
  case unique =>
    intro id hid other hother hkind hkind' hname
    rcases headed_cases hsound.formed hid hkind with ⟨heq, hsame⟩ | ⟨hold, hkind, hsame⟩ <;>
      rcases headed_cases hsound.formed hother hkind' with ⟨heq', hsame'⟩ | ⟨hold', hkind', hsame'⟩
    · exact heq.trans heq'.symm
    · exact absurd (hsame'.symm.trans (hname.symm.trans hsame)) (hnew other hold' hkind')
    · exact absurd (hsame.symm.trans (hname.trans hsame')) (hnew id hold hkind)
    · exact h.unique id hold other hold' hkind hkind' (hsame.symm.trans (hname.trans hsame'))
  case begun =>
    intro id hid hkind
    rcases headed_cases hsound.formed hid hkind with ⟨rfl, -⟩ | ⟨hold, hkind, hsame⟩
    · exact .inr ⟨entry, mem_append_right _ mem_cons_self, hentry.1⟩
    · rw [hsame]
      rcases h.begun id hold hkind with ⟨builtin, hbuiltin, hname, hrole⟩ | ⟨i, hi, hmarks⟩
      · exact .inl ⟨builtin, hbuiltin, hname, extends_headed.names _ hsound.formed.size_pos hrole⟩
      · exact .inr ⟨i, mem_append_left _ hi, hmarks⟩
  case bounds =>
    intro i hi hbound
    rcases mem_append.1 hi with hi | hi
    · obtain ⟨hold, hkind, hname⟩ := h.bounds i hi hbound
      obtain ⟨hkind', hname', -⟩ := extends_headed.fixed i.scope hold
      exact ⟨Nat.lt_add_right 2 hold, hkind'.trans hkind, hname.trans (congrArg some hname'.symm)⟩
    · rcases mem_cons.1 hi with rfl | hi
      · rw [hentry.1.2, headed_header hsound.formed]
        exact ⟨Nat.lt_add_of_pos_right Nat.two_pos, rfl, hentry.2⟩
      · cases (hpops.straight.2 i hi).symm.trans hbound

end headed

theorem Headers.ended {header : Nat} {fin : Instruction} (h : d.Headers) (hlt : header < d.size)
    (hkind : (d.outlines header).kind = .functionHeader)
    (hfin : fin.Bounds .functionEnd header (d.outlines header).name) : (d.ended [fin]).Headers where
  listed := h.listed
  unique := h.unique
  begun id hid hkind :=
    (h.begun id hid hkind).imp_right fun ⟨i, hi, hmarks⟩ => ⟨i, mem_append_left _ hi, hmarks⟩
  bounds i hi hbound := by
    rcases mem_append.1 hi with hi | hi
    · exact h.bounds i hi hbound
    · rw [mem_singleton.1 hi, hfin.1.2]
      exact ⟨hlt, hkind, hfin.2⟩

end Draft

/-! ### Statements -/

theorem Step.headers {d' : Draft} {H : List Instruction} (h : Step d H code d')
    (hd : d.Formed) (hheaders : d.Headers) : d'.Headers := by
  have hinner := h.straight.2
  have hextends := h.keeps.toExtends
  cases h with
  | skip => exact hheaders
  | store | call | declare =>
    exact hheaders.extend hd hextends (fun id hle hlt => absurd hlt (Nat.not_lt.2 hle))
      (List.Subset.refl _) fun i hi => (mem_append.1 hi).imp_right (hinner i)
  | giveBack =>
    refine hheaders.extend hd hextends (fun id hle hlt => absurd hlt (Nat.not_lt.2 hle)) ?_
      fun i hi => (mem_append.1 hi).imp_right (hinner i)
    rw [Draft.giveBack_children]
    exact List.Subset.refl _
  | @hoist _ _ define label pre post _ hloop hfresh hdefine hcode hlabel hlast =>
    refine hheaders.extend hd hextends (fun id hle hlt => absurd hlt (Nat.not_lt.2 hle))
      (List.Subset.refl _) fun i hi => ?_
    have hmem : i = define ∨ i ∈ pre ++ label :: post := by
      simp only [Draft.declare, mem_append, mem_cons] at hi ⊢
      tauto
    rcases hmem with rfl | hmem
    · exact .inr (by rw [hdefine.1]; rfl)
    · exact .inl (hcode ▸ hmem)

theorem Draft.Heads.inner {kind : ScopeKind}
    (h : d.Heads kind code) : Inner code ∧ kind ≠ .functionHeader := by
  cases h with
  | conditional hhead htest =>
    exact ⟨hhead.straight.2.append (.singleton htest.tests.kinds.2), by decide⟩
  | loop hlabel hhead htest =>
    exact ⟨.append (.cons (hlabel.inner rfl) hhead.straight.2) (.singleton (htest.inner rfl)), by decide⟩

theorem Ends.inner {kind : ScopeKind} {scope : Nat} (h : Ends kind scope code) : Inner code := by
  intro i hi
  have hend := (h i hi).1
  revert hend
  cases i.kind <;> simp [InstructionKind.ends?, InstructionKind.isBound]

section blocks

variable {d d' : Draft} {kind : ScopeKind} {code : List Instruction}

theorem Draft.Headers.opened (h : d.Headers) (hd : d.Formed) (hhead : d.Heads kind code) :
    (d.opened kind code).Headers := by
  obtain ⟨hinner, hkind⟩ := hhead.inner
  refine h.extend hd extends_opened (fun id hle hlt => ?_) ?_
    fun i hi => (mem_append.1 hi).imp_right (hinner i)
  · obtain rfl : id = d.size := Nat.le_antisymm (Nat.le_of_lt_succ hlt) hle
    rw [opened_new hd]
    exact hkind
  · by_cases hroot : ScopeTree.root = d.current
    · rw [hroot, opened_current]
      exact subset_append_left _ _
    · rw [opened_of_ne hroot (Nat.ne_of_lt hd.size_pos)]
      exact List.Subset.refl _

theorem Draft.Headers.alternative {scope parent : Nat} {els : Instruction} (h : d.Headers)
    (hd : d.Formed) (hscope : scope < d.size) (hparent : parent < scope)
    (hels : els.kind.isBound = false) : (d.alternative scope parent [els]).Headers := by
  have hne : scope ≠ parent := Nat.ne_of_gt hparent
  refine h.extend hd (extends_alternative hscope hne) (fun id hle hlt => ?_) ?_
    fun i hi => (mem_append.1 hi).imp_right (Inner.singleton hels i)
  · obtain rfl : id = d.size := Nat.le_antisymm (Nat.le_of_lt_succ hlt) hle
    rw [alternative_new hscope (Nat.lt_trans hparent hscope)]
    exact nofun
  · have hroot : ScopeTree.root ≠ scope := Nat.ne_of_lt (Nat.lt_of_le_of_lt (Nat.zero_le _) hparent)
    by_cases hroot' : ScopeTree.root = parent
    · rw [hroot', alternative_parenting hne]
      exact subset_append_left _ _
    · rw [alternative_of_ne hroot hroot' (Nat.ne_of_lt (Nat.lt_of_le_of_lt (Nat.zero_le _) hscope))]
      exact List.Subset.refl _

end blocks

theorem Elaborates.headers {d' : Draft} {H : List Instruction} {T : Flow}
    (h : Elaborates d H T d') (hd : d.Formed) (hheaders : d.Headers) : d'.Headers :=
  h.preserves (P := Draft.Headers) (fun hd hstep h => hstep.headers hd h)
    (fun hd hhead h => h.opened hd hhead)
    (fun hd hd' hkeeps hels _ h => h.alternative hd' hkeeps.size_le hd.current_lt (hels.inner rfl))
    (fun _ hd' _ _ hends _ h => h.extend hd' (Draft.extends_closed _)
      (fun _ hle hlt => absurd hlt (Nat.not_lt.2 hle)) (List.Subset.refl _)
      fun i hi => (mem_append.1 hi).imp_right (hends.inner i)) hd hheaders

/-! ### Programs -/

theorem start_headers : Context.start.draft.Headers := by
  have hnames : ∀ id < 11, ∀ other < 11, (ScopeTree.withBuiltins.scope id).kind = .functionHeader →
      (ScopeTree.withBuiltins.scope other).kind = .functionHeader →
      (ScopeTree.withBuiltins.scope id).name = (ScopeTree.withBuiltins.scope other).name →
      id = other := by decide +kernel
  have hpos : ∀ {id}, (Context.start.draft.outlines id).kind = .functionHeader → 0 < id := by
    intro id hkind
    refine Nat.pos_of_ne_zero fun hzero => ?_
    rw [show id = ScopeTree.root from hzero, start_root.1] at hkind
    cases hkind
  constructor
  case listed =>
    intro id hid hkind
    have hlt : id < 11 := start_size ▸ hid
    rw [start_root.2.2.2.1]
    exact mem_range'_1.2 ⟨hpos hkind, hlt⟩
  case unique =>
    intro id hid other hother
    exact hnames id (start_size ▸ hid) other (start_size ▸ hother)
  case begun =>
    intro id hid hkind
    obtain ⟨-, -, hname, -⟩ := start_header (start_size ▸ hid) (hpos hkind)
    obtain ⟨builtin, hbuiltin, hname⟩ := mem_map.1 hname
    exact .inl ⟨builtin, hbuiltin, hname.symm, (start_names_root _ _).2 ⟨builtin, hbuiltin, rfl, rfl⟩⟩
  case bounds =>
    intro i hi hbound
    rw [start_kind i hi] at hbound
    cases hbound

theorem Composes.builtins {parts : List Part} (h : Composes parts d) {builtin : Builtin}
    (hbuiltin : builtin ∈ Builtin.all) :
    (builtin.name, ⟨.function true, builtin.returns⟩) ∈ d.names ScopeTree.root := by
  refine h.preserves
    (P := fun d => (builtin.name, ⟨.function true, builtin.returns⟩) ∈ d.names ScopeTree.root) ?_ ?_ ?_ ?_
  · exact (start_names_root _ _).2 ⟨builtin, hbuiltin, rfl, rfl⟩
  · intro d d' H T hd hbody hmem
    exact (hbody.keeps hd).2.toExtends.names _ hd.size_pos hmem
  · intro d name params returns entry pops hsound _ _ _ _ _ _ _ hmem
    exact Draft.extends_headed.names _ hsound.formed.size_pos hmem
  · exact fun _ _ _ _ _ hmem => hmem

theorem Composes.headers {parts : List Part} (h : Composes parts d) : d.Headers :=
  h.preserves (P := Draft.Headers) start_headers (fun hd hbody => hbody.headers hd)
    (fun hsound _ _ _ hfresh _ hentry hpops h => h.headed hsound hfresh hentry hpops)
    (fun _ _ hlt hkind hfin h => h.ended hlt hkind hfin)

end OnePass
