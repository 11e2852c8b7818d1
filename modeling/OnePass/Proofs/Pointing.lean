import OnePass.Proofs.Lexeme.Division
import OnePass.Proofs.Meaning.Relocation
import OnePass.Proofs.Safety

/-!
# Where faults point

Every fault of a compilation points to a token of the source text or to a text that the reader refuses, but
for a missing return, which has no place.  To see this, the compilation is compared with itself.  A place at
which no token stands can be moved anywhere without any change of what the parser is given, so a fault that
the compilation finds does not point there.

Main results:

* `Reader.Gives.exists_stands` — the answers of a reader point to what they are about;
* `Meaning.fault_of_program` — a fault stays as it is when places are moved, or it is given by the reader;
* `compile_error_located` — **faults point into the source text**.
-/

namespace OnePass

open List

/-! ### What the reader answers -/

namespace Reader

/-- The readers that a reader turns into while it gives tokens. -/
inductive Comes (r : Reader) : Reader → Prop where
  | start : Comes r r
  | next {s : Reader} (h : Comes r s) (htoken : isFinal s.next.1 = false) : Comes r s.next.2

/-- A reader gives an answer, after tokens and nothing else. -/
def Gives (r : Reader) (answer : Except Diagnostic Token) : Prop := ∃ s, r.Comes s ∧ s.next.1 = answer

/-- What a text begins with, according to an answer about it: the characters that spell a token, or nothing
at the end of the input; a lexeme that spells no token, or a comment that does not end. -/
inductive Stands : Except Diagnostic Token → List Char → Prop where
  | token {token : Token} {l y : List Char} (hne : l ≠ [])
      (h : Scan.Spells token.kind l ∨ Scan.SpellsBlock token.kind l) : Stands (.ok token) (l ++ y)
  | stop {token : Token} (h : token.kind = .eof) : Stands (.ok token) []
  | refused {d : Diagnostic} {text : List Char} (hstarts : Trivia.Starts text)
      (h : (lexeme text).outcome = .error d.fault) : Stands (.error d) text
  | unclosed {d : Diagnostic} {text : List Char} (h : d.fault = .unclosedComment)
      (hopen : Trivia.Unclosed 0 text) : Stands (.error d) ('/' :: '*' :: text)

/-- Where an answer points. -/
def pointer : Except Diagnostic Token → Option Location
  | .ok token => some token.location
  | .error d => d.location

variable {source : String} {r : Reader}

theorem Stands.lexical {d : Diagnostic} {text : List Char} (h : Stands (.error d) text) : d.kind = .lexical := by
  cases h with
  | refused _ h =>
    have hfits := lexeme_fits text
    rw [h] at hfits
    exact hfits
  | unclosed h => exact congrArg Fault.kind h

theorem next_stands (r : Reader) : ∃ gap text, r.rest = gap ++ text ∧
    pointer r.next.1 = some (r.place.after gap) ∧ Stands r.next.1 text := by
  generalize hrest : r.rest = rest
  cases Trivia.begins rest with
  | trailing h =>
    rw [next_trailing (hrest ▸ h), hrest]
    exact ⟨rest, [], (append_nil rest).symm, rfl, .stop rfl⟩
  | @comment gap text hgap hopen =>
    rw [next_unclosed hgap hopen hrest]
    exact ⟨gap, _, rfl, rfl, .unclosed rfl hopen⟩
  | @lexeme gap text hgap hstarts =>
    cases houtcome : (lexeme text).outcome with
    | error fault =>
      rw [next_of_starts hgap hstarts hrest, take, houtcome]
      exact ⟨gap, text, rfl, rfl, .refused hstarts houtcome⟩
    | ok kind =>
      obtain ⟨l, y, rfl, hfinds⟩ := finds_of_starts hgap hstarts houtcome
      rw [Finds.next (hrest ▸ hfinds)]
      exact ⟨gap, l ++ y, rfl, rfl, .token hfinds.ne_nil (hfinds.spells.imp_right And.left)⟩

theorem Comes.exists_before (h : (ofSource source).Comes r) :
    ∃ before, source.toList = before ++ r.rest ∧ r.place = .behind before := by
  induction h with
  | start => exact ⟨[], rfl, rfl⟩
  | @next s _ htoken ih =>
    obtain ⟨before, hsource, hplace⟩ := ih
    cases hanswer : s.next.1 with
    | error d =>
      rw [hanswer] at htoken
      cases htoken
    | ok token =>
      rcases next_cases hanswer with htrailing | ⟨gap, l, y, kind, hfinds⟩
      · rw [next_trailing htrailing] at htoken
        cases htoken
      · refine ⟨before ++ (gap ++ l), ?_, ?_⟩
        · rw [hsource, hfinds.next, hfinds.text_eq, append_assoc, append_assoc]
        · rw [hfinds.next, ← Location.behind_after, hplace]

theorem Gives.exists_stands {answer : Except Diagnostic Token} (h : (ofSource source).Gives answer) :
    ∃ before text, source.toList = before ++ text ∧ pointer answer = some (.behind before) ∧
      Stands answer text := by
  obtain ⟨s, hs, rfl⟩ := h
  obtain ⟨before, hsource, hplace⟩ := hs.exists_before
  obtain ⟨gap, text, hrest, hpointer, hstands⟩ := next_stands s
  refine ⟨before ++ gap, text, ?_, ?_, hstands⟩
  · rw [hsource, hrest, append_assoc]
  · rw [hpointer, hplace, Location.behind_after]

theorem Comes.alike {S : Comparison} {s : Reader} {n n' : Nat}
    (hanswers : ∀ answer, r.Gives answer → AnswersAlike S answer answer) (h : r.Comes s) (hn : s.rest.length < n)
    (hn' : s.rest.length < n') : ∃ i, (s.feed n).Alike S i (s.feed n') := by
  induction hlength : s.rest.length using Nat.strong_induction_on generalizing s n n' with
  | _ length ih =>
    refine alike_of_next hn hn' (hanswers _ ⟨s, h, rfl⟩) fun k k' hfinal hk hk' => ?_
    exact ih _ (hlength ▸ next_rest_lt hfinal) (h.next hfinal) hk hk' rfl

end Reader

/-! ### Moving places -/

/-- All places stay but one, which goes to the next line. -/
def Location.without (place : Location) : Location → Location :=
  Function.update id place ⟨place.line + 1, place.column⟩

theorem Location.without_self (place : Location) : place.without place ≠ place := by
  intro h
  have hline := congrArg Location.line h
  rw [Location.without, Function.update_self] at hline
  exact Nat.succ_ne_self _ hline

/-- A run and the same run with places moved, where some faults are left as they are. -/
def Comparison.moving (f : Location → Location) (given : Diagnostic → Prop) : Comparison where
  left := f
  right := id
  fault d d' := d.relocate f = d' ∨ d = d' ∧ given d
  here h := .inl (by rw [Diagnostic.relocate, Option.map_some, h, id])

namespace Meaning

variable {f : Location → Location} {given : Diagnostic → Prop} {transcript : Transcript} {d : Diagnostic}

theorem follows_acts (h : transcript.Alike (.moving f given) transcript) :
    Follows f id (transcript.events.forM act) (transcript.events.forM act) := by
  have hacts : Follows f id (transcript.events.forM act) ((transcript.events.map id).forM act) := by
    refine follows_forM transcript.events fun event hevent => ?_
    cases forall₂_same.1 h.events event hevent with
    | refused => exact follows_pure _
    | other hsame =>
      have hact := follows_act (f := f) event
      rw [show event.relocate f = event from hsame.trans event.relocate_id] at hact
      exact hact
  rwa [List.map_id] at hacts

/-- A fault in the meaning of such a run stays as it is when places are moved, or it is a fault of the
parser. -/
theorem fault_of_program (h : transcript.Alike (.moving f given) transcript)
    (hrun : ((program transcript).run.run .start).1 = .error d) : d.relocate f = d ∨ given d := by
  have hacts := follows_acts h
  have hfault := h.fault
  generalize htranscript : transcript.fault = fault at hfault
  cases fault with
  | none =>
    have hread : Follows f id (read transcript) (read transcript) := by
      refine hacts.bind fun _ => ?_
      rw [htranscript]
      exact follows_pure _
    have hfollows := follows_program hread .start
    rw [Context.start_relocate] at hfollows
    have hresult := congrArg Prod.fst hfollows
    rw [hrun] at hresult
    exact .inl (Except.error.inj hresult).symm
  | some d₀ =>
    -- the events come first, and then the fault
    have hfollows := hacts .start
    rw [Context.start_relocate] at hfollows
    unfold program checked read at hrun
    rw [run_bind, run_bind, run_bind, htranscript] at hrun
    generalize (transcript.events.forM act).run.run .start = run at hfollows hrun
    obtain ⟨result, c⟩ := run
    cases result with
    | error e =>
      cases hrun
      exact .inl (Except.error.inj (congrArg Prod.fst hfollows)).symm
    | ok =>
      cases hrun
      cases hfault with
      | some hfault => exact hfault.imp id And.right

end Meaning

/-! ### Faults -/

theorem Program.exists_answer {source : String} {d : Diagnostic} {place : Location}
    (h : (Program.ofFeed (.ofSource source)).result = .error d) (hplace : d.location = some place) :
    (Reader.ofSource source).Gives (.error d) ∨
      ∃ token, (Reader.ofSource source).Gives (.ok token) ∧ token.location = place := by
  by_contra hnone
  obtain ⟨hgiven, htokens⟩ := not_or.1 hnone
  -- no token stands at the place, so it can be moved
  have hanswers : ∀ answer, (Reader.ofSource source).Gives answer →
      AnswersAlike (.moving place.without ((Reader.ofSource source).Gives <| .error ·)) answer answer := by
    intro answer hanswer
    cases answer with
    | error e => exact .fault (.inr ⟨rfl, hanswer⟩)
    | ok token =>
      have hne : token.location ≠ place := fun heq => htokens ⟨token, hanswer, heq⟩
      exact .token ⟨rfl, rfl, Function.update_of_ne hne _ _⟩
  obtain ⟨n, halike⟩ := Reader.Comes.alike hanswers .start (Nat.lt_succ_self _) (Nat.lt_succ_self _)
  have hmoved := (Meaning.fault_of_program (parse_alike halike).1 h).resolve_right hgiven
  have hlocation := congrArg Diagnostic.location hmoved
  rw [Diagnostic.relocate, hplace] at hlocation
  exact place.without_self (Option.some.inj hlocation)

/-- **Faults point into the source text.**  If a compilation with valid settings fails, the fault has a place,
unless it is a missing return.  The place is the one behind some characters at the beginning of the source, by
counting lines and columns.  What follows there is a token that the reader gives, or the end of the input; or
the fault is a lexical one that the reader gives, and what follows is a lexeme that spells no token, or a
comment that does not end. -/
theorem compile_error_located {settings : Settings} {source : String} {d : Diagnostic}
    (hcheck : settings.check = .ok ()) (h : (compile settings source).result = .error d) :
    (d.location = none → ∃ function, d.fault = .pathWithoutReturn function) ∧
    ∀ place, d.location = some place → ∃ before text answer, source.toList = before ++ text ∧
      place = .behind before ∧ (Reader.ofSource source).Gives answer ∧ Reader.Stands answer text ∧
      (answer = .error d ∧ d.kind = .lexical ∨ ∃ token, answer = .ok token ∧ token.location = place) := by
  rcases ofFeed_ok_or_external source with ⟨p, c, hok, -⟩ | ⟨d', herror, hexternal⟩
  · cases h.symm.trans (compile_of_ok hcheck hok)
  · cases h.symm.trans (compile_of_error hcheck herror)
    refine ⟨hexternal.2, fun place hplace => ?_⟩
    rcases Program.exists_answer herror hplace with hgives | ⟨token, hgives, hlocation⟩
    · obtain ⟨before, text, hsource, hbefore, hstands⟩ := hgives.exists_stands
      exact ⟨before, text, _, hsource, Option.some.inj (hplace.symm.trans hbefore), hgives, hstands,
        .inl ⟨rfl, hstands.lexical⟩⟩
    · obtain ⟨before, text, hsource, hbefore, hstands⟩ := hgives.exists_stands
      exact ⟨before, text, _, hsource, hlocation.symm.trans (Option.some.inj hbefore), hgives, hstands,
        .inr ⟨token, rfl, hlocation⟩⟩

/-- The label of an argument that stands behind a comment. -/
theorem compile_error_located_argument :
    let source := "/* é */ let a = 1\nf(\"é\", /*\n*/ b: a)\nfunc f(_ s: String, c n: Int) \x7b\n\x7d\n"
    (compile {} source).result = .error ⟨.argumentLabel "f" 2 "c", some ⟨3, 4⟩⟩ ∧
    ∃ before text answer, source.toList = before ++ text ∧ (⟨3, 4⟩ : Location) = .behind before ∧
      (Reader.ofSource source).Gives answer ∧ Reader.Stands answer text ∧
      ∃ token, answer = .ok token ∧ token.location = ⟨3, 4⟩ := by
  intro source
  have h : (compile {} source).result = .error ⟨.argumentLabel "f" 2 "c", some ⟨3, 4⟩⟩ := by decide +kernel
  obtain ⟨before, text, answer, hsource, hbefore, hgives, hstands, hanswer⟩ :=
    (compile_error_located rfl h).2 ⟨3, 4⟩ rfl
  refine ⟨h, before, text, answer, hsource, hbefore, hgives, hstands, hanswer.resolve_left ?_⟩
  rintro ⟨-, hkind⟩
  cases hkind

end OnePass
