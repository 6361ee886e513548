import SnippetRunner.Proofs.Indenting
import SnippetRunner.Proofs.Origins
import SnippetRunner.Proofs.Provenance

/-!
# The statements of a wrapped snippet

A snippet that is put into the body of a `main` is laid out anew, and the interpreter runs the
statements that the snippet itself is cut into (`Program.fragments_of_wrapped`), each reported on
the line of the snippet on which it stands: a statement starts on a line that is not blank
(`Fragment.exists_line_of_mem_split`), and such a line is kept as one (`Program.sourceLine?_body`).
-/

namespace SnippetRunner

open Text Scan Lexer Margin

namespace Fragment

open Pending

/-- A statement stands on a line that is not blank. -/
theorem exists_line_of_mem_split {body : List Char} {f : Fragment} (h : f ∈ split body 1) :
    ∃ l n, (lines body)[n]? = some l ∧ isBlank l = false ∧ f.line = n + 1 := by
  obtain ⟨a, c, b, hbody, hc, hline⟩ := (laid_split body 1).exists_of_mem h
  rw [map_fst_classify] at hbody
  subst hbody
  obtain ⟨l, hl, hl'⟩ := exists_line_of_append hc a b
  exact ⟨l, newlines a, hl, hl', hline.trans (Nat.add_comm _ _)⟩

/-- A text is cut into the same statements as its layout in a body that starts two lines earlier. -/
theorem split_laidOut {indent tail : List Char} (hindent : isBlank indent = true)
    (hno : '\n' ∉ indent) (htail : isBlank tail = true) (cs : List Char) :
    List.Forall₂ (Shifted 2) (split cs 1)
      (split ('\n' :: (laidOut indent Margin.lineStart cs ++ tail)) 2) := by
  have hempty : Pending.Shifted 2 (.empty 1) (Pending.empty 2).clear.nextLine :=
    ⟨rfl, rfl, rfl, .inl ⟨rfl, rfl⟩⟩
  have hsplit := (splitFrom_laidOut hindent hno htail cs).ofLineStart .code
    (rfl : isBlank [] = true) List.not_mem_nil hempty (.inl rfl) (.inl rfl)
  have hbreak (X : List Char) : split ('\n' :: X) 2 =
      splitFrom .code (Pending.empty 2).clear.nextLine X := by
    rw [split, splitFrom_cons]
    rfl
  rw [hbreak]
  exact hsplit

end Fragment

/-! ## The snippet in the program -/

namespace Program

/-- **A snippet without imports and text blocks has its tokens in the program**, between the braces
of the `main`. -/
theorem exists_programPieces {snippet : List Char} {ps : List Piece} (hcuts : Cuts snippet ps [])
    (hblock : ∀ q ∈ ps, q.token ≠ none → '\n' ∉ q.text)
    (himport : ∀ l ∈ lines snippet, isImport l = false)
    (horigins : (ofSnippet snippet).origins.isSome = true) (hmain : hasMain snippet = false) :
    ∃ body, (ofSnippet snippet).text = spell (programPieces body) ∧
      Cuts (spell body ++ spell closingPieces) body (spell closingPieces) ∧
      tokensOf body = tokensOf ps ∧
      spell body = '\n' :: (laidOut bodyIndent lineStart snippet ++ List.replicate 4 ' ') := by
  have hindent : isBlank bodyIndent = true := by decide
  obtain ⟨qs, hqs, htokens⟩ := hcuts.laidOut (m := lineStart) hindent rfl
    (List.replicate 4 ' ' ++ spell closingPieces)
  have hspell : spell qs = laidOut bodyIndent lineStart snippet :=
    (List.append_cancel_right hqs.spell).symm
  rw [← hspell] at hqs ⊢
  have hspaces : spell (List.replicate 4 (Piece.space ' ')) = List.replicate 4 ' ' := rfl
  have hbody : spell (.space '\n' :: (qs ++ List.replicate 4 (.space ' '))) =
      '\n' :: (spell qs ++ List.replicate 4 ' ') := by
    rw [← List.singleton_append, spell_append, spell_append, hspaces]
    rfl
  refine ⟨.space '\n' :: (qs ++ List.replicate 4 (.space ' ')), ?_, ?_, ?_, hbody⟩
  · have hlines : bodyText bodyIndent (lines snippet) = spell qs := by
      rw [bodyText_of_forall himport, hspell, laidOut_eq_flatMap]
    have hwrapped : textOf (wrapped snippet) = importText (lines snippet) ++
        (headText ++ ('{' :: '\n' :: (bodyText bodyIndent (lines snippet) ++
          (List.replicate 4 ' ' ++ spell closingPieces)))) := textOf_wrapped_of_not_hasMain hmain
    rw [importText_of_forall himport, hlines, List.nil_append] at hwrapped
    rw [(text_ofSnippet_of_origins horigins).1, hwrapped, spell_programPieces, hbody]
    simp only [List.cons_append, List.append_assoc]
  · have hrest : Cuts (spell (qs ++ List.replicate 4 (.space ' ')) ++ spell closingPieces)
        (qs ++ List.replicate 4 (.space ' ')) (spell closingPieces) :=
      .spell_append (by rwa [hspaces]) (cuts_spaces 4 _)
    exact .cons_blank rfl hrest
  · have hnone : tokensOf (List.replicate 4 (Piece.space ' ')) = [] := rfl
    have htokens' : tokensOf (.space '\n' :: (qs ++ List.replicate 4 (.space ' '))) =
        tokensOf (qs ++ List.replicate 4 (.space ' ')) := rfl
    rw [htokens', tokensOf_append, hnone, List.append_nil, htokens,
      reindented_eq_tokensOf _ hblock]

/-- A line of the snippet that is neither blank nor an import is found again from its line in the
program. -/
theorem sourceLine?_body {snippet : List Char} (himport : ∀ l ∈ lines snippet, isImport l = false)
    (horigins : (ofSnippet snippet).origins.isSome = true) (hmain : hasMain snippet = false)
    {l : List Char} {n : Nat} (hl : (lines snippet)[n]? = some l) (hblank : isBlank l = false) :
    (ofSnippet snippet).sourceLine? (n + 3) = some (n + 1) := by
  have hl' := himport l (List.mem_of_getElem? hl)
  have hnone : (lines snippet).countP isImport = 0 :=
    List.countP_eq_zero.2 fun l hl => by simp [himport l hl]
  have hplace : wrappedLine snippet n = n + 2 := by
    rw [wrappedLine, hl, Option.any_some, hl', hmain, hnone, Nat.zero_add, Nat.add_comm]
    rfl
  obtain ⟨text, hline⟩ := exists_lineOf hl hblank
  rw [hplace, ← getElem?_wrapped_iff] at hline
  rw [sourceLine?, (text_ofSnippet_of_origins horigins).2]
  simp [hline]

/-- **Wrapping does not show in what is run.** For a snippet that has tokens and goes into the body
of a generated `main`, without text blocks, imports or unbalanced braces, the interpreter runs the
statements that the snippet itself is cut into, in the same order. Their texts are the same but for
white space around line breaks, and each is reported on the line on which it stands in the
snippet. -/
theorem fragments_of_wrapped {snippet : List Char} {tokens : Lexemes}
    (hlex : lex snippet = .ok tokens)
    (hblock : ∀ t ∈ tokens.list, ¬ t.IsTextBlock snippet)
    (himport : ∀ line ∈ lines snippet, isImport line = false)
    (hbraces : BracesBalanced (tokens.list.map Lexeme.token))
    (horigins : (ofSnippet snippet).origins.isSome = true) (hmain : hasMain snippet = false) :
    List.Forall₂
      (fun (f g : Fragment) => trimmedLines g.text = trimmedLines f.text ∧
        (ofSnippet snippet).sourceLine? g.line = some f.line)
      (Fragment.split snippet 1) (ofSnippet snippet).fragments := by
  obtain ⟨ps, hcuts, rfl⟩ := exists_cuts_of_lex hlex
  obtain ⟨body, htext, hbody, htokens, hspell⟩ := exists_programPieces hcuts
    (fun q hq => hcuts.newline_not_mem hblock hq) himport horigins hmain
  rw [map_token_place, ← htokens] at hbraces
  rw [fragments_of_programPieces htext hbody hbraces, hspell]
  have hindent : isBlank bodyIndent = true := by decide
  have htail : isBlank (List.replicate 4 ' ') = true := by decide
  have hsplit := Fragment.split_laidOut hindent (by decide) htail snippet
  refine (List.forall₂_and_left _ _ |>.2 ⟨fun f hf => hf, hsplit⟩).imp ?_
  rintro f g ⟨hf, hlines, hline⟩
  obtain ⟨l, n, hl, hblank, hn⟩ := Fragment.exists_line_of_mem_split hf
  refine ⟨hlines, ?_⟩
  rw [hline, hn]
  exact sourceLine?_body himport horigins hmain hl hblank

/-- A snippet of three lines, the second of which ends with a carriage return. -/
def threeLines : List Char := "int x =\n  1;\r\nx++;".toList

/-- The statements of a snippet, one of them on two lines. -/
theorem fragments_of_threeLines :
    List.Forall₂
      (fun (f g : Fragment) => trimmedLines g.text = trimmedLines f.text ∧
        (ofSnippet threeLines).sourceLine? g.line = some f.line)
      [⟨"int x =\n  1".toList, 1⟩, ⟨"x++".toList, 3⟩] (ofSnippet threeLines).fragments := by
  have hlex : ∃ tokens, lex threeLines = .ok tokens ∧
      (∀ t ∈ tokens.list, ¬ t.IsTextBlock threeLines) ∧
      BracesBalanced (tokens.list.map Lexeme.token) := by
    have hsome : (lex threeLines).toOption.any (fun tokens => decide
        ((∀ t ∈ tokens.list, ¬ t.IsTextBlock threeLines) ∧
          BracesBalanced (tokens.list.map Lexeme.token))) = true := by decide +kernel
    simpa using exists_ok_of_any hsome
  obtain ⟨tokens, hlex, hblock, hbraces⟩ := hlex
  have hsplit : Fragment.split threeLines 1 =
      [⟨"int x =\n  1".toList, 1⟩, ⟨"x++".toList, 3⟩] := by decide +kernel
  rw [← hsplit]
  exact fragments_of_wrapped hlex hblock (by decide +kernel) hbraces (by decide +kernel)
    (by decide +kernel)

end Program

end SnippetRunner
