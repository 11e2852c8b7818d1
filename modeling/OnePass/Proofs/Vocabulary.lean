import OnePass.Lexeme.Reader
import OnePass.Proofs.Parsing.Language

/-!
# The vocabulary of source texts

Whatever a source text contains, the names that are read from it are words of letters, digits and
underscores, the types that are read can be stored, and the faults that are found have places.

Main results:

* `Scan.lexeme_fits` — the outcome of every scan belongs to the vocabulary;
* `Feed.ofSource_within` — **the feed of every source text belongs to the vocabulary**.
-/

namespace OnePass

/-- A word of letters, digits and underscores. -/
def IsName (text : String) : Prop := text.toList ≠ [] ∧ ∀ c ∈ text.toList, Scan.isWordChar c

/-- The vocabulary of source texts. -/
def Vocabulary.ofSources : Vocabulary where
  name := IsName
  ty := fun ty => ty.isStorable
  fault := Diagnostic.External
  exists_name := ⟨"x", List.cons_ne_nil _ _, List.forall_mem_singleton.2 rfl⟩
  exists_ty := ⟨.int, rfl⟩

namespace Scan

/-- An outcome belongs to the vocabulary of source texts. -/
def Fits (outcome : Except Fault TokenKind) : Prop :=
  match outcome with
  | .ok kind => (∀ name, kind = .identifier name → IsName name) ∧
      ∀ ty, kind = .typeName ty → ty.isStorable
  | .error fault => fault.kind = .lexical

theorem fits_mark (sign : Mark) : Fits (.ok (.mark sign)) := by
  constructor <;> intro _ h <;> cases h

theorem fits_eof : Fits (.ok .eof) := by
  constructor <;> intro _ h <;> cases h

theorem fits_stringLiteral (text : String) : Fits (.ok (.stringLiteral text)) := by
  constructor <;> intro _ h <;> cases h

theorem fits_doubleLiteral (value : Double) : Fits (.ok (.doubleLiteral value)) := by
  constructor <;> intro _ h <;> cases h

/-! ### Words -/

theorem eq_of_ofWord {word name : String} (h : TokenKind.ofWord word = .identifier name) : name = word := by
  unfold TokenKind.ofWord at h
  split at h
  · cases h
  · split at h
    · cases h
    · cases h
      rfl

theorem isStorable_of_ofWord {word : String} {ty : Ty} (h : TokenKind.ofWord word = .typeName ty) :
    ∃ b, ty = .base b := by
  unfold TokenKind.ofWord at h
  split at h
  · cases h
    exact ⟨_, rfl⟩
  · split at h <;> cases h

theorem isWordChar_of_isLetter {c : Char} (h : isLetter c) : isWordChar c := by
  simp [isWordChar, h]

theorem word_fits {c : Char} {rest : List Char} (hc : isLetter c) : Fits (word (c :: rest)).outcome := by
  have hname : IsName (String.ofList ((c :: rest).takeWhile isWordChar)) := by
    constructor
    · rw [String.toList_ofList, List.takeWhile_cons_of_pos (isWordChar_of_isLetter hc)]
      exact List.cons_ne_nil _ _
    · intro d hd
      rw [String.toList_ofList] at hd
      exact List.all_eq_true.1 List.all_takeWhile d hd
  unfold word
  simp only
  split
  · rename_i ty _ hkind _
    obtain ⟨b, rfl⟩ := isStorable_of_ofWord hkind
    constructor
    · intro _ h
      cases h
    · intro _ h
      cases h
      rfl
  · constructor
    · intro name h
      rw [eq_of_ofWord h]
      exact hname
    · intro ty h
      obtain ⟨b, rfl⟩ := isStorable_of_ofWord h
      rfl

/-! ### Numbers -/

theorem endNumber_fits {taken rest : List Char} {outcome : Except Fault TokenKind}
    (h : Fits outcome) : Fits (endNumber taken rest outcome).outcome := by
  unfold endNumber
  split
  · split
    · rfl
    · exact h
  · exact h

theorem exponent_fits (taken whole fraction text : List Char) :
    Fits (exponent taken whole fraction text).outcome := by
  unfold exponent
  simp only
  split
  · rfl
  · exact endNumber_fits (fits_doubleLiteral _)

theorem scaled_fits {taken whole fraction text : List Char} {plain : Except Fault TokenKind}
    (h : Fits plain) : Fits (scaled taken whole fraction text plain).outcome := by
  unfold scaled
  split
  · exact exponent_fits _ _ _ _
  · exact exponent_fits _ _ _ _
  · exact endNumber_fits h

theorem integer_fits (digits : List Char) : Fits (integer digits) := by
  unfold integer
  simp only
  split
  · constructor <;> intro _ h <;> cases h
  · rfl

theorem number_fits (text : List Char) : Fits (number text).outcome := by
  unfold number
  simp only
  split
  · split
    · rfl
    · exact scaled_fits (fits_doubleLiteral _)
  · exact scaled_fits (integer_fits _)

/-! ### Signs and string literals -/

theorem sign_fits (text : List Char) : Fits (sign text).outcome := by
  unfold sign
  split <;> first | exact fits_mark _ | exact fits_eof | rfl

/-- Faults of a computation on texts are lexical. -/
def Lexical {α : Type} (result : Except Fault α) : Prop :=
  ∀ fault, result = .error fault → fault.kind = .lexical

theorem Lexical.map {α β : Type} {result : Except Fault α} (f : α → β) (h : Lexical result) :
    Lexical (f <$> result) := by
  intro fault heq
  cases result with
  | ok a => cases heq
  | error e =>
    cases heq
    exact h fault rfl

theorem decodeFrom_lexical (stage : Escape.Stage) (text : List Char) :
    Lexical (Escape.decodeFrom stage text) := by
  fun_induction Escape.decodeFrom stage text <;> first
    | exact Lexical.map _ ‹_›
    | assumption
    | (intro fault h; cases h <;> rfl)

theorem blockLine_lexical (indentation line : List Char) : Lexical (blockLine indentation line) := by
  intro fault h
  unfold blockLine outdent at h
  split at h
  · exact decodeFrom_lexical _ _ fault h
  · split at h
    · exact decodeFrom_lexical _ _ fault h
    · cases h
      rfl

theorem mapM_lexical {α β : Type} {f : α → Except Fault β} (hf : ∀ a, Lexical (f a)) (l : List α) :
    Lexical (l.mapM f) := by
  induction l with
  | nil =>
    intro fault h
    cases h
  | cons a l ih =>
    intro fault h
    rw [List.mapM_cons] at h
    cases ha : f a with
    | error e =>
      rw [ha] at h
      cases h
      exact hf a _ ha
    | ok b =>
      rw [ha] at h
      cases hl : l.mapM f with
      | error e =>
        rw [hl] at h
        cases h
        exact ih _ hl
      | ok bs =>
        rw [hl] at h
        cases h

theorem stringToken_fits {decoded : Except Fault (List Char)} (h : Lexical decoded) :
    Fits (stringToken decoded) := by
  cases decoded with
  | ok text => exact fits_stringLiteral _
  | error fault => exact h fault rfl

theorem blockText_lexical (lines : List (List Char)) (indentation : List Char) :
    Lexical (blockText lines indentation) :=
  (mapM_lexical (blockLine_lexical indentation) lines).map _

theorem quotation_fits (text : List Char) : Fits (quotation text).outcome := by
  unfold quotation
  split
  · unfold block
    simp only
    split
    · split
      · exact stringToken_fits (blockText_lexical _ _)
      · rfl
    · rfl
  · exact fits_stringLiteral _
  · unfold line
    split
    · exact stringToken_fits (decodeFrom_lexical _ _)
    · rfl

end Scan

/-! ### Source texts -/

namespace Reader

theorem lexeme_fits (text : List Char) : Scan.Fits (lexeme text).outcome := by
  unfold lexeme
  split
  · exact Scan.quotation_fits _
  · split
    · exact Scan.word_fits ‹_›
    · split
      · exact Scan.number_fits _
      · exact Scan.sign_fits _
  · exact Scan.sign_fits _

theorem next_within (reader : Reader) : (∀ token, reader.next.1 = .ok token → token.Within .ofSources) ∧
      ∀ d, reader.next.1 = .error d → d.External := by
  unfold next
  split
  · rename_i place afterBreak rest _
    have hfits := lexeme_fits rest
    unfold take
    simp only
    cases houtcome : (lexeme rest).outcome with
    | ok kind =>
      rw [houtcome] at hfits
      refine ⟨fun token h => ?_, fun d h => (by cases h)⟩
      cases h
      exact hfits
    | error fault =>
      rw [houtcome] at hfits
      refine ⟨fun token h => (by cases h), fun d h => ?_⟩
      cases h
      exact ⟨fun hkind => FaultKind.noConfusion (hfits.symm.trans hkind), nofun⟩
  · refine ⟨fun token h => (by cases h), fun d h => ?_⟩
    cases h
    exact ⟨nofun, nofun⟩

theorem feed_within (n : Nat) (reader : Reader) : (reader.feed n).Within .ofSources := by
  induction n generalizing reader with
  | zero => exact ⟨fun _ h => (by cases h), fun _ h => (by cases h)⟩
  | succ n ih =>
    obtain ⟨hok, herror⟩ := next_within reader
    rw [feed]
    simp only
    split
    · constructor
      · intro token h
        exact hok token (List.mem_singleton.1 h).symm
      · intro d h
        exact herror d (List.mem_singleton.1 h).symm
    · obtain ⟨hlater, hfaults⟩ := ih reader.next.2
      constructor
      · intro token h
        rcases List.mem_cons.1 h with h | h
        · exact hok token h.symm
        · exact hlater token h
      · intro d h
        rcases List.mem_cons.1 h with h | h
        · exact herror d h.symm
        · exact hfaults d h

end Reader

/-- **The feed of every source text belongs to the vocabulary.** -/
theorem Feed.ofSource_within (source : String) : (Feed.ofSource source).Within .ofSources :=
  Reader.feed_within _ _

end OnePass
