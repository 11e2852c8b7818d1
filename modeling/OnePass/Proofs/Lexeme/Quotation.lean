import OnePass.Proofs.Lexeme.Division

/-!
# Reading string literals

A literal on one line is read up to the quote that no backslash protects, and then its escapes are resolved:
both look at the same backslashes.  A text block is read line by line up to its closing quotes, and only then
is it known how far its lines are indented.

Main results:

* `Reader.next_quoted` — **literals on one line end at their closing quote and denote their text**;
* `Scan.blockLine_eq_ok_iff` — what a line contributes to a text block;
* `Scan.SpellsBlock.lexeme` — a text block whose line ends is read as its token;
* `Reader.next_block` — **the lines of a text block lose the indentation of its closing quotes**.
-/

namespace OnePass

open List
open Escape (Denotes)

/-! ### Literals on one line -/

theorem Trivia.starts_quote (text : List Char) : Starts ('"' :: text) :=
  ⟨'"', text, rfl, by decide, fun hc => absurd hc (by decide)⟩

/-- **Escapes are resolved as they denote, and literals end where they are closed.**  A raw text has a meaning
exactly if it consists of characters other than backslashes and of escapes.  In quotes it is read as what it
means, if it is not empty and its quotes and line breaks are escaped, and the reader stops behind the closing
quote, whatever follows. -/
theorem Reader.next_quoted (raw text : List Char) :
    (Escape.decode raw = .ok text ↔ Denotes (fun _ => True) raw text) ∧
      (Denotes Scan.Unquoted raw text → raw ≠ [] → ∀ (place : Location) (behind : List Char),
        (⟨place, '"' :: raw ++ '"' :: behind⟩ : Reader).next =
          (.ok ⟨.stringLiteral (String.ofList text), place, false⟩,
            ⟨place.after ('"' :: raw ++ ['"']), behind⟩)) := by
  refine ⟨Escape.decode_eq_ok_iff, fun h hne place behind => ?_⟩
  have hscan := Scan.quotation_spelled (y := behind) h fun hnil => absurd hnil hne
  have hlexeme : lexeme ('"' :: raw ++ ['"'] ++ behind) =
      ⟨'"' :: raw ++ ['"'], .ok (.stringLiteral (String.ofList text)), behind⟩ := by
    rw [append_assoc]
    exact hscan
  exact @next_scanned _ [] _ _ _ .nil (Trivia.starts_quote _) hlexeme (by simp)

/-- An escaped quote, a code point and an escaped backslash in front of the closing quote. -/
theorem Reader.next_quoted_escapes :
    Escape.decode ['\\', '"', '\\', 'u', '\x7b', '4', '1', '\x7d', '\\', '\\'] = .ok ['"', 'A', '\\'] ∧
      (⟨.start, ['"', '\\', '"', '\\', 'u', '\x7b', '4', '1', '\x7d', '\\', '\\', '"', '"']⟩ : Reader).next =
        (.ok ⟨.stringLiteral "\"A\\", .start, false⟩, ⟨⟨1, 13⟩, ['"']⟩) := by
  have hdenotes : ∀ {bare : Char → Prop},
      Denotes bare ['\\', '"', '\\', 'u', '\x7b', '4', '1', '\x7d', '\\', '\\'] ['"', 'A', '\\'] := by
    intro bare
    refine .short (by decide) (@Denotes.codePoint _ ['4', '1'] ['\\', '\\'] ['\\'] ?_ nofun (by decide)
      (by decide) (.short (by decide) .nil))
    simp [Escape.hexValue?]
  have hread := next_quoted ['\\', '"', '\\', 'u', '\x7b', '4', '1', '\x7d', '\\', '\\'] ['"', 'A', '\\']
  exact ⟨hread.1.2 hdenotes, hread.2 hdenotes nofun .start ['"']⟩

/-! ### The lines of a text block -/

namespace Scan

variable {indentation line text y : List Char} {lines : List (List Char)}

/-- What a line of a text block stands for.  A line with the indentation of the closing quotes stands for what
the rest of it denotes, a blank line without it for an empty line, and any other line is at fault. -/
inductive Contributes (indentation : List Char) : List Char → Except Fault (List Char) → Prop where
  | indented {line : List Char} (hline : line.getLast? ≠ some '\r') :
      Contributes indentation (indentation ++ line) (Escape.decode line)
  | blank {line : List Char} (hindentation : ¬ indentation <+: line)
      (hline : ∀ c ∈ line, Text.isBlank c = true) : Contributes indentation line (.ok [])
  | shallow {line : List Char} {c : Char} (hindentation : ¬ indentation <+: line) (hc : c ∈ line)
      (hblank : Text.isBlank c = false) : Contributes indentation line (.error .shallowLine)

theorem outdent_indented (indentation line : List Char) :
    outdent indentation (indentation ++ line) = .ok line := by
  have hprefix : indentation.isPrefixOf? (indentation ++ line) = some line :=
    List.isPrefixOf?_eq_some_iff_append_eq.2 rfl
  rw [outdent, hprefix]

theorem outdent_other (h : ¬ indentation <+: line) :
    outdent indentation line = if line.all Text.isBlank then .ok [] else .error .shallowLine := by
  have hprefix : indentation.isPrefixOf? line = none := by
    cases hrest : indentation.isPrefixOf? line with
    | none => rfl
    | some rest => exact absurd ⟨rest, append_eq_of_isPrefixOf?_eq_some hrest⟩ h
  rw [outdent, hprefix]

theorem dropReturns_returns {returns : List Char} (hline : line.getLast? ≠ some '\r')
    (hreturns : ∀ c ∈ returns, c = '\r') : dropReturns (line ++ returns) = line := by
  have hspan := span_of_head (p := (· == '\r')) (l := returns.reverse) (y := line.reverse)
    (fun c hc => by simpa using hreturns c (mem_reverse.1 hc)) ?_
  · rw [dropReturns, reverse_append, hspan.2, reverse_reverse]
  · rw [List.head?_reverse]
    cases hlast : line.getLast? with
    | none => rfl
    | some c =>
      have hc : c ≠ '\r' := fun hc => hline (hlast.trans (congrArg some hc))
      simpa using hc

theorem Contributes.blockLine {result : Except Fault (List Char)} (h : Contributes indentation line result) :
    blockLine indentation line = result := by
  cases h with
  | @indented line hline =>
    have hdrop : dropReturns (line ++ []) = line := dropReturns_returns hline nofun
    rw [append_nil] at hdrop
    simp only [Scan.blockLine, outdent_indented]
    exact congrArg Escape.decode hdrop
  | blank hindentation hline =>
    have hall : line.all Text.isBlank = true := all_eq_true.2 hline
    rw [Scan.blockLine, outdent_other hindentation, hall]
    rfl
  | shallow hindentation hc hblank =>
    have hall : line.all Text.isBlank = false :=
      all_eq_false.2 ⟨_, hc, by rw [hblank]; exact Bool.false_ne_true⟩
    rw [Scan.blockLine, outdent_other hindentation, hall]
    rfl

theorem blockLine_eq_ok_iff : blockLine indentation line = .ok text ↔ SpellsLine indentation line text := by
  refine ⟨blockLine_spells, fun h => ?_⟩
  cases h with
  | content h hraw hreturns =>
    simp only [blockLine, outdent_indented]
    exact (congrArg Escape.decode (dropReturns_returns hraw hreturns)).trans h.decode
  | blank hindentation hline => exact (Contributes.blank hindentation hline).blockLine

theorem mapM_spells {texts : List (List Char)} (h : List.Forall₂ (SpellsLine indentation) lines texts) :
    lines.mapM (blockLine indentation) = .ok texts := by
  induction h with
  | nil => rfl
  | cons hline _ ih => rw [mapM_cons, blockLine_eq_ok_iff.2 hline, ih]; rfl

/-! ### Text blocks -/

theorem Ends.any_head (h : Ends y) : y.head?.any (· != '\n') = false := by
  cases hhead : y.head? with
  | none => rfl
  | some c =>
    rw [h c hhead]
    rfl

theorem blockLines_source {n : Nat} (hindentation : ∀ c ∈ indentation, Text.isIndent c = true)
    (hlines : ∀ line ∈ lines, '\n' ∉ line ∧ line.dropWhile Text.isIndent ≠ tripleQuote)
    (hy : Ends y) (hn : lines.length < n) :
    blockLines n (blockSource lines indentation ++ y) = some (lines, indentation, y) := by
  obtain ⟨n, rfl⟩ : ∃ k, n = k + 1 := ⟨n - 1, by omega⟩
  induction lines generalizing n with
  | nil =>
    have hquotes : ∀ c ∈ indentation ++ tripleQuote, (c != '\n') = true := by
      intro c hc
      rcases mem_append.1 hc with hc | hc
      · have hindent := hindentation c hc
        rcases (by simpa [Text.isIndent] using hindent : c = ' ' ∨ c = '\t') with rfl | rfl <;> rfl
      · rcases (by simpa [tripleQuote] using hc : c = '"') with rfl
        rfl
    obtain ⟨htake, hdrop⟩ := span_of_head hquotes hy.any_head
    obtain ⟨htake', hdrop'⟩ := span_of_head (y := tripleQuote) hindentation rfl
    rw [blockSource, flatMap_nil, nil_append, blockLines_closing (by rw [htake, hdrop']), htake,
      htake', hdrop]
  | cons line lines ih =>
    obtain ⟨⟨hbreak, hopen⟩, hlater⟩ := forall_mem_cons.1 hlines
    have hline : ∀ c ∈ line, (c != '\n') = true := fun c hc =>
      bne_iff_ne.2 fun heq => hbreak (heq ▸ hc)
    obtain ⟨htake, hdrop⟩ := span_of_head (y := '\n' :: (blockSource lines indentation ++ y)) hline rfl
    rw [length_cons] at hn
    obtain ⟨n, rfl⟩ : ∃ k, n = k + 1 := ⟨n - 1, by omega⟩
    have hsource : blockSource (line :: lines) indentation ++ y =
        line ++ '\n' :: (blockSource lines indentation ++ y) := by simp [blockSource]
    rw [hsource, blockLines_content (by rw [htake]; exact hopen) hdrop, ih hlater n (by omega), htake]
    rfl

theorem length_le_blockSource (lines : List (List Char)) (indentation : List Char) :
    lines.length ≤ (blockSource lines indentation).length := by
  induction lines with
  | nil => exact Nat.zero_le _
  | cons line lines ih =>
    simp only [blockSource, flatMap_cons, length_append, length_cons] at ih ⊢
    omega

/-- A text block is read up to its closing quotes, and its lines without their indentation are its text. -/
theorem lexeme_block {opening : List Char} (hopening : ∀ c ∈ opening, isOpeningBlank c = true)
    (hindentation : ∀ c ∈ indentation, Text.isIndent c = true)
    (hlines : ∀ line ∈ lines, '\n' ∉ line ∧ line.dropWhile Text.isIndent ≠ tripleQuote)
    (hy : Ends y) :
    Reader.lexeme (tripleQuote ++ (opening ++ '\n' :: blockSource lines indentation) ++ y) =
      ⟨tripleQuote ++ (opening ++ '\n' :: blockSource lines indentation),
        stringToken (blockText lines indentation), y⟩ := by
  have htext : tripleQuote ++ (opening ++ '\n' :: blockSource lines indentation) ++ y =
      '"' :: '"' :: '"' :: (opening ++ '\n' :: (blockSource lines indentation ++ y)) := by simp [tripleQuote]
  obtain ⟨htake, hdrop⟩ :=
    span_of_head (y := '\n' :: (blockSource lines indentation ++ y)) hopening rfl
  have hbody := blockLines_source (n := (blockSource lines indentation ++ y).length + 1) hindentation hlines hy
    (by have := length_le_blockSource lines indentation; rw [length_append]; omega)
  rw [htext]
  refine (block_closed hdrop hbody).trans ?_
  rw [htake, append_assoc]

/-- **A text block is read as its token**, if its line ends behind it. -/
theorem SpellsBlock.lexeme {kind : TokenKind} {l : List Char} (h : SpellsBlock kind l)
    (hy : Ends y) : Reader.lexeme (l ++ y) = ⟨l, .ok kind, y⟩ := by
  cases h with
  | @lines opening indentation lines texts hopening hindentation hlines htexts =>
    have hscan := lexeme_block hopening hindentation hlines hy
    rw [blockText, mapM_spells htexts, blockSource, append_assoc (lines.flatMap _)] at hscan
    exact hscan

end Scan

theorem Escape.kind_of_decode {raw : List Char} {fault : Fault} (h : decode raw = .error fault) :
    fault.kind = .lexical := by
  have hmap : ∀ {x : Except Fault (List Char)} {f : List Char → List Char}, f <$> x = .error fault →
      x = .error fault := by
    intro x f hx
    cases x with
    | ok => cases hx
    | error => exact congrArg Except.error (Except.error.inj hx)
  rw [decode] at h
  generalize Stage.plain = stage at h
  fun_induction decodeFrom stage raw with
  | case1 => cases h
  | case2 rest ih => exact ih h
  | case3 c rest hc ih => exact ih (hmap h)
  | case4 => cases h; rfl
  | case5 rest ih => exact ih h
  | case6 c rest hc meant hmeant ih => exact ih (hmap h)
  | case7 => cases h; rfl
  | case8 => cases h; rfl
  | case9 rest ih => exact ih h
  | case10 => cases h; rfl
  | case11 => cases h; rfl
  | case12 digits rest meant hmeant ih => exact ih (hmap h)
  | case13 => cases h; rfl
  | case14 digits c rest hc hdigit ih => exact ih h
  | case15 => cases h; rfl

theorem Scan.Contributes.kind {indentation line : List Char} {fault : Fault}
    (h : Contributes indentation line (.error fault)) : fault.kind = .lexical := by
  generalize hresult : Except.error fault = result at h
  cases h with
  | indented => exact Escape.kind_of_decode hresult.symm
  | blank => cases hresult
  | shallow =>
    cases hresult
    rfl

theorem Scan.mapM_contributes {indentation : List Char} {lines : List (List Char)}
    {results : List (Except Fault (List Char))} (h : List.Forall₂ (Contributes indentation) lines results) :
    (∃ texts, results = texts.map .ok ∧ lines.mapM (blockLine indentation) = .ok texts) ∨
      ∃ fault, .error fault ∈ results ∧ fault.kind = .lexical ∧
        lines.mapM (blockLine indentation) = .error fault := by
  induction h with
  | nil => exact .inl ⟨[], rfl, rfl⟩
  | @cons line result lines results hline _ ih =>
    rw [mapM_cons, hline.blockLine]
    cases result with
    | error fault => exact .inr ⟨fault, mem_cons_self, hline.kind, rfl⟩
    | ok text =>
      rcases ih with ⟨texts, rfl, htexts⟩ | ⟨fault, hmem, hkind, hfault⟩
      · exact .inl ⟨text :: texts, rfl, by rw [htexts]; rfl⟩
      · exact .inr ⟨fault, mem_cons_of_mem _ hmem, hkind, by rw [hfault]; rfl⟩

/-- **The lines of a text block lose the indentation of its closing quotes.**  If no line closes the block and
the line of the closing quotes ends, the block is read as one string at its opening quotes: what its lines
contribute, joined by line breaks.  If a line is at fault, this is a lexical fault at the same place.  In both
cases the reader stops behind the closing quotes. -/
theorem Reader.next_block {indentation behind : List Char} {lines : List (List Char)}
    {results : List (Except Fault (List Char))} (hindentation : ∀ c ∈ indentation, Text.isIndent c = true)
    (hlines : ∀ line ∈ lines, '\n' ∉ line ∧ line.dropWhile Text.isIndent ≠ Scan.tripleQuote)
    (hresults : List.Forall₂ (Scan.Contributes indentation) lines results)
    (hbehind : Scan.Ends behind) (place : Location) :
    ∃ answer, (⟨place, Scan.tripleQuote ++ '\n' :: Scan.blockSource lines indentation ++ behind⟩ : Reader).next =
        (answer, ⟨place.after (Scan.tripleQuote ++ '\n' :: Scan.blockSource lines indentation), behind⟩) ∧
      ((∃ texts, results = texts.map .ok ∧
          answer = .ok ⟨.stringLiteral (String.ofList (['\n'].intercalate texts)), place, false⟩) ∨
        ∃ fault, .error fault ∈ results ∧ fault.kind = .lexical ∧ answer = .error ⟨fault, some place⟩) := by
  have hscan := Scan.lexeme_block (forall_mem_nil _) hindentation hlines hbehind
  have hnext := @next_scanned ⟨place, _⟩ [] _ _ _ .nil (Trivia.starts_quote _) hscan rfl
  refine ⟨_, hnext, ?_⟩
  rcases Scan.mapM_contributes hresults with ⟨texts, htexts, hok⟩ | ⟨fault, hmem, hkind, herror⟩
  · refine .inl ⟨texts, htexts, ?_⟩
    rw [Scan.blockText, hok]
    rfl
  · refine .inr ⟨fault, hmem, hkind, ?_⟩
    rw [Scan.blockText, herror]
    rfl

/-- A tab with an escape behind the indentation, and a blank line that lacks it. -/
theorem Reader.next_block_blank :
    (⟨.start, "\"\"\"\n  \t\\n\n \n  \"\"\"\nx".toList⟩ : Reader).next =
      (.ok ⟨.stringLiteral "\t\n\n", .start, false⟩, ⟨⟨4, 6⟩, ['\n', 'x']⟩) := by
  have hresults : List.Forall₂ (Scan.Contributes [' ', ' ']) [[' ', ' ', '\t', '\\', 'n'], [' ']]
      [.ok ['\t', '\n'], .ok []] :=
    .cons (@Scan.Contributes.indented [' ', ' '] ['\t', '\\', 'n'] (by decide))
      (.cons (.blank (by decide) (forall_mem_singleton.2 rfl)) .nil)
  obtain ⟨_, hnext, hanswer⟩ := @next_block [' ', ' '] ['\n', 'x'] _ _
    (forall_mem_cons.2 ⟨rfl, forall_mem_singleton.2 rfl⟩) (by decide) hresults (by rintro c ⟨⟩; rfl) .start
  refine hnext.trans ?_
  rcases hanswer with ⟨texts, htexts, rfl⟩ | ⟨fault, hmem, -⟩
  · obtain rfl : [['\t', '\n'], []] = texts :=
      map_injective_iff.2 (fun _ _ => Except.ok.inj) htexts
    rfl
  · simp at hmem

end OnePass
