import OnePass.Proofs.Draft

/-!
# Contexts in order

A context is in order if its tables can be searched and the numbers of its stream are distinct, if
every variable that is marked as having a value is stored somewhere in the code, and if the pushes that
a recorded call refers to by their numbers stand directly in front of the call.

Main results:

* `CallSite.Stands.append`, `CallSite.Stands.insert`, `CallSite.Stands.delete` — what is added, inserted
  or taken out elsewhere does not come between a call and its arguments;
* `Meaning.Rests.grow`, `Meaning.Rests.insert` — so code at the end and definitions in front of a loop
  lead to another such context.
-/

namespace OnePass

open List

/-! ### Calls and their arguments -/

theorem infix_append_cons {α : Type} {block pre post : List α} {x : α} (h : block <:+: pre ++ x :: post)
    (hx : x ∉ block) : block <:+: pre ∨ block <:+: post := by
  induction pre with
  | nil =>
    rcases infix_cons_iff.1 h with h | h
    · cases block with
      | nil => exact .inl nil_infix
      | cons y block => exact absurd ((cons_prefix_cons.1 h).1 ▸ mem_cons_self) hx
    · exact .inr h
  | cons y pre ih =>
    rcases infix_cons_iff.1 h with h | h
    · -- the block cannot reach beyond the entry
      have hprefix : y :: pre ++ [x] <+: y :: (pre ++ x :: post) := ⟨post, by simp⟩
      rcases prefix_or_prefix_of_prefix h hprefix with h | h
      · rcases prefix_concat_iff.1 h with rfl | h
        · exact absurd (mem_append_right _ (mem_singleton_self x)) hx
        · exact .inl h.isInfix
      · exact absurd (h.subset (mem_append_right _ (mem_singleton_self x))) hx
    · exact (ih h).imp_left fun h => h.trans (suffix_cons y pre).isInfix

/-- The pushes of an instruction's arguments. -/
def Instruction.IsPush (i : Instruction) : Prop := i.kind = .pushLiteral ∨ i.kind = .pushVariable

/-- The pushes of the arguments of a recorded call stand directly in front of the call. -/
def CallSite.Stands (site : CallSite) (entries : List Entry) : Prop :=
  ∃ pre pushes call post, entries = pre ++ pushes ++ call :: post ∧
    pushes.map (·.id) = site.arguments.map (·.push) ∧ (∀ e ∈ pushes, e.instruction.IsPush) ∧
    call.instruction.Invokes site

namespace CallSite.Stands

variable {site : CallSite} {entries : List Entry}
variable {pre post : List Entry} {entry : Entry}

theorem append (h : site.Stands entries) (later : List Entry) : site.Stands (entries ++ later) := by
  obtain ⟨pre, pushes, call, post, rfl, hrest⟩ := h
  exact ⟨pre, pushes, call, post ++ later, by simp, hrest⟩

theorem prepend (h : site.Stands entries) (earlier : List Entry) : site.Stands (earlier ++ entries) := by
  obtain ⟨pre, pushes, call, post, rfl, hrest⟩ := h
  exact ⟨earlier ++ pre, pushes, call, post, by simp, hrest⟩

/-- An instruction that is neither a push nor a call does not come between a call and its arguments. -/
theorem split (h : site.Stands (pre ++ entry :: post))
    (hpush : ¬ entry.instruction.IsPush) (hcall : entry.instruction.kind ≠ .call) :
    site.Stands pre ∨ site.Stands post := by
  obtain ⟨before, pushes, call, after, heq, hids, hpushes, hinvokes⟩ := h
  have hblock : pushes ++ [call] <:+: pre ++ entry :: post := ⟨before, after, by simp [heq]⟩
  have hnotMem : entry ∉ pushes ++ [call] := by
    rw [mem_append, mem_singleton]
    rintro (hmem | rfl)
    · exact hpush (hpushes entry hmem)
    · exact hcall hinvokes.1
  have hstands : ∀ {l : List Entry}, pushes ++ [call] <:+: l → site.Stands l := by
    rintro l ⟨before, after, rfl⟩
    exact ⟨before, pushes, call, after, by simp, hids, hpushes, hinvokes⟩
  exact (infix_append_cons hblock hnotMem).imp hstands hstands

theorem insert {new : Entry} (h : site.Stands (pre ++ entry :: post))
    (hpush : ¬ entry.instruction.IsPush) (hcall : entry.instruction.kind ≠ .call) :
    site.Stands (pre ++ new :: entry :: post) := by
  rcases h.split hpush hcall with h | h
  · exact h.append _
  · exact (h.prepend [new, entry]).prepend pre

theorem delete (h : site.Stands (pre ++ entry :: post))
    (hpush : ¬ entry.instruction.IsPush) (hcall : entry.instruction.kind ≠ .call) :
    site.Stands (pre ++ post) := by
  rcases h.split hpush hcall with h | h
  · exact h.append _
  · exact h.prepend pre

end CallSite.Stands

/-! ### Contexts -/

namespace Meaning

/-- A context between two statements: the numbers of its stream are distinct, no argument waits for its call,
and recorded calls have places, and their arguments in front of them. -/
structure Rests (c : Context) : Prop where
  sound : c.stream.Sound
  arguments : c.arguments = []
  places : ∀ site ∈ c.calls.recorded, site.location ≠ none
  sites : ∀ site ∈ c.calls.recorded, Builtin.isVariadic site.name = false → site.Stands c.stream.toList

namespace Rests

variable {c c' : Context} (h : Rests c)

include h

theorem log (log : List LogRecord) : Rests { c with log } := { h with }

theorem grow (hsound : c'.stream.Sound) (hcalls : c'.calls = c.calls) (harguments : c'.arguments = [])
    {tail : List Entry} (hsplit : c'.stream.toList = c.stream.toList ++ tail) : Rests c' where
  sound := hsound
  arguments := harguments
  places := hcalls ▸ h.places
  sites site hsite hvariadic := by
    rw [hcalls] at hsite
    rw [hsplit]
    exact (h.sites site hsite hvariadic).append tail

theorem append {i : Instruction} {scopes : ScopeTree} {blocks : List OpenBlock} {values : List Value}
    {log : List LogRecord} :
    Rests { c with stream := (c.stream.append i).1, scopes, blocks, values, log } :=
  h.grow (h.sound.append i) rfl h.arguments (Stream.toList_append h.sound i)

theorem insert {pre post : List Entry} {entry new : Entry} {stream : Stream}
    (hsplit : c.stream.toList = pre ++ entry :: post) (hkind : entry.instruction.kind = .whileLabel)
    (hsound : stream.Sound) (hlist : stream.toList = pre ++ new :: entry :: post)
    {log : List LogRecord} : Rests { c with stream, log } where
  sound := hsound
  arguments := h.arguments
  places := h.places
  sites site hsite hvariadic := by
    have hstands := h.sites site hsite hvariadic
    rw [hsplit] at hstands
    refine hlist ▸ hstands.insert ?_ ?_
    · rintro (hpush | hpush) <;> cases hkind.symm.trans hpush
    · rw [hkind]
      decide

end Rests

end Meaning

/-- The tables can be searched, and nothing is left open. -/
structure Context.Fit (c : Context) : Prop where
  scopes : c.scopes.Ordered
  rests : Meaning.Rests c

theorem Context.Fit.log {c : Context} (h : c.Fit) (log : List LogRecord) : { c with log : Context }.Fit :=
  ⟨h.scopes, h.rests.log log⟩

end OnePass
