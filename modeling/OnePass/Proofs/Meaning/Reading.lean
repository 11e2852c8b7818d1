import OnePass.Proofs.Meaning.Filling
import OnePass.Proofs.Parsing.Program

/-!
# Reading

Reading a source text fills the sheet of its program and composes its draft.  It does not fail inside
the compiler: whatever an action looks for is there, the values of an expression, the place of a
conversion, the label of a loop, the block and the scope to go back to, the parameters of a function.

Main results:

* `Meaning.meets_read` — **a text is read into a composed draft, or fails for a reason that lies in it**.
-/

namespace OnePass.Meaning

/-- The draft at hand is that of a program. -/
structure Composed (c : Context) : Prop where
  fit : c.Fit
  composes : ∃ parts, Composes parts c.draft

/-- The sheet at hand is that of the phrases of a text. -/
def Filled (source : String) (c : Context) : Prop :=
  ∃ items : List Phrase.Item, (∀ item ∈ items, item.Within .ofSources) ∧
    (parse (.ofSource source)).events.filter Event.isSpoken = items.flatMap Phrase.Item.events ∧
    Fills Context.start.sheet items c.sheet

theorem Rests.composed {c : Context} {parts : List Part} (h : Rests c) (hfit : c.sheet.Fit)
    (hparts : Composes parts c.sheet.draft) : Composed c :=
  ⟨⟨hfit.scopes, h⟩, parts, hparts⟩

theorem fit_start : Context.start.sheet.Fit := by
  refine ⟨fun id => ?_⟩
  have hall : ∀ id < 11, (ScopeTree.withBuiltins.scope id).table.toList.Pairwise
      fun a b => a.name < b.name := by decide +kernel
  rcases Nat.lt_or_ge id 11 with hlt | hle
  · exact hall id hlt
  · show (ScopeTree.withBuiltins.scope id).table.Ordered
    rw [ScopeTree.scope_of_le (start_size ▸ hle)]
    exact SymbolTable.ordered_empty

theorem meets_read (source : String) :
    Meets true (read (parse (.ofSource source))) .start fun _ c => Composed c ∧ Filled source c := by
  obtain ⟨items, rest, hitems, hevents, hwhole, hfault⟩ := parse_spells (Feed.ofSource_within source)
  obtain ⟨parts₀, hstart⟩ : ∃ parts, Composes parts Context.start.sheet.draft :=
    ⟨_, Composes.start⟩
  have htells : Tells true (items.flatMap Phrase.Item.events) .start fun c =>
      Turns .start c fun w w' => Fills w items w' :=
    tells_items items rests_start fun _ => ⟨hitems, fit_start, parts₀, hstart⟩
  cases hparsed : (parse (.ofSource source)).fault with
  | none =>
    rw [hwhole hparsed, List.append_nil] at hevents
    refine (htells _ hevents).bind fun _ c hc => ?_
    rw [hparsed]
    obtain ⟨hfit, parts, hparts⟩ := hc.sheet.composes fit_start hitems hstart
    exact ⟨hc.rests.composed hfit hparts, items, hitems, hevents, hc.sheet⟩
  | some d =>
    -- what has been read is the beginning of a program
    rw [← hevents] at htells
    have hbeginning := htells.beginning fun event hevent => by
      have hmem : event ∈ items.flatMap Phrase.Item.events :=
        hevents ▸ List.mem_append_right _ hevent
      obtain ⟨item, -, hitem⟩ := List.mem_flatMap.1 hmem
      exact item.isSpoken_of_mem event hitem
    refine (hbeginning _ rfl).bind fun _ c _ => ?_
    rw [hparsed]
    refine meets_throw.2 fun _ => ?_
    exact (hfault d hparsed).elim id id

end OnePass.Meaning
