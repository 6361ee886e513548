import SnippetRunner.Proofs.Rereading
import SnippetRunner.Proofs.Wrapping

/-!
# Imports that move in front of the class

The imports of a snippet that is put into a class are found line by line (`isImport`), and their
lines move in front of the class. Tokens do not count in this: a line may be taken for an import
where it stands in a comment or in a text block, and what stands behind the import moves with it.

Where such lines stand alone (`ImportsStandAlone`), whole import declarations move (`Hoists`), and
the program has the other tokens of the snippet in their order between the tokens of the lines
around them (`tokens_of_wrapped`).
-/

namespace SnippetRunner

open Text Lexer Margin

/-! ## Import declarations -/

/-- An import declaration, from its reserved word to its semicolon. -/
def IsImportDeclaration (ts : List Token) : Prop :=
  ∃ name, ts = .keyword .importKw :: (name ++ [.sign .semicolon]) ∧ .sign .semicolon ∉ name

/-- `Hoists ts moved kept`: taking the import declarations `moved` out of the tokens `ts` leaves the
tokens `kept`. -/
inductive Hoists : List Token → List Token → List Token → Prop
  | nil : Hoists [] [] []
  | keep {ts moved kept : List Token} (t : Token) :
      Hoists ts moved kept → Hoists (t :: ts) moved (t :: kept)
  | hoist {ts moved kept declaration : List Token} : IsImportDeclaration declaration →
      Hoists ts moved kept → Hoists (declaration ++ ts) (declaration ++ moved) kept

/-- Whether tokens are import declarations, one behind the other. `inside` says whether they start
within one. -/
def importsFrom (inside : Bool) : List Token → Bool
  | [] => !inside
  | .keyword .importKw :: ts => importsFrom true ts
  | .sign .semicolon :: ts => inside && importsFrom false ts
  | _ :: ts => inside && importsFrom inside ts

theorem Hoists.keep_append {ts moved kept : List Token} (h : Hoists ts moved kept)
    (front : List Token) : Hoists (front ++ ts) moved (front ++ kept) := by
  induction front with
  | nil => exact h
  | cons t front ih => exact .keep t ih

theorem importsFrom_true_cons {t : Token} (ht : t ≠ .sign .semicolon) (ts : List Token) :
    importsFrom true (t :: ts) = importsFrom true ts := by
  rw [importsFrom.eq_def]
  split
  · next h => exact absurd h nofun
  · next h => exact (List.cons.inj h).2 ▸ rfl
  · next h => exact absurd (List.cons.inj h).1 ht
  · next h => exact (List.cons.inj h).2 ▸ rfl

/-- A declaration goes on to its semicolon. -/
theorem exists_of_importsFrom_true {ts : List Token} (h : importsFrom true ts = true) :
    ∃ name rest, ts = name ++ .sign .semicolon :: rest ∧ .sign .semicolon ∉ name ∧
      importsFrom false rest = true := by
  induction ts with
  | nil => exact absurd h (by decide)
  | cons t ts ih =>
    by_cases ht : t = .sign .semicolon
    · subst ht
      exact ⟨[], ts, rfl, List.not_mem_nil, h⟩
    · rw [importsFrom_true_cons ht] at h
      obtain ⟨name, rest, rfl, hname, hrest⟩ := ih h
      refine ⟨t :: name, rest, rfl, ?_, hrest⟩
      simp only [List.mem_cons, not_or]
      exact ⟨Ne.symm ht, hname⟩

/-- Import declarations in front of tokens can be taken away. -/
theorem Hoists.append_of_importsFrom {us moved kept : List Token} (h : Hoists us moved kept)
    {ts : List Token} (hts : importsFrom false ts = true) :
    Hoists (ts ++ us) (ts ++ moved) kept := by
  induction hn : ts.length using Nat.strongRecOn generalizing ts with
  | _ n ih =>
    rw [importsFrom.eq_def] at hts
    split at hts
    · exact h
    · next ts =>
      obtain ⟨name, rest, rfl, hname, hrest⟩ := exists_of_importsFrom_true hts
      have hlater := ih rest.length (by rw [← hn]; simp; omega) hrest rfl
      have hfirst : IsImportDeclaration (.keyword .importKw :: (name ++ [.sign .semicolon])) :=
        ⟨name, rfl, hname⟩
      simpa using hlater.hoist hfirst
    · exact absurd hts Bool.false_ne_true
    · exact absurd hts Bool.false_ne_true

/-- Whether a text is made of import declarations. -/
def isImportsOnly (cs : List Char) : Bool :=
  match lex cs with
  | .ok tokens => importsFrom false (tokens.list.map Lexeme.token)
  | .error _ => false

theorem exists_cuts_of_isImportsOnly {cs : List Char} (h : isImportsOnly cs = true) :
    ∃ ps, Cuts cs ps [] ∧ importsFrom false (tokensOf ps) = true := by
  rw [isImportsOnly] at h
  split at h
  · next tokens hlex =>
    obtain ⟨ps, hcuts, rfl⟩ := exists_cuts_of_lex hlex
    exact ⟨ps, hcuts, by rwa [map_token_place] at h⟩
  · exact absurd h Bool.false_ne_true

/-! ## Lines that stand alone -/

theorem isOk_lex_iff {cs : List Char} : (lex cs).isOk = true ↔ ∃ ps, Cuts cs ps [] := by
  constructor
  · intro h
    cases hlex : lex cs with
    | error e =>
      rw [hlex] at h
      exact absurd h Bool.false_ne_true
    | ok tokens =>
      obtain ⟨ps, hcuts, -⟩ := exists_cuts_of_lex hlex
      exact ⟨ps, hcuts⟩
  · rintro ⟨ps, hcuts⟩
    rw [lex_of_cuts hcuts]
    rfl

/-- Lines in front of others are cut into the pieces they have by themselves. -/
theorem Lexer.Cuts.extend_lines {front back : List (List Char)} {cs : List Char} {ps : List Piece}
    (hlines : linesWithBreaks cs = front ++ back) (h : Cuts front.flatten ps []) :
    Cuts (front.flatten ++ back.flatten) ps back.flatten := by
  cases back with
  | nil => rwa [List.flatten_nil, List.append_nil]
  | cons l back => exact h.extend ((linesWithBreaks_flatten hlines).2.2 (List.cons_ne_nil l back)) _

/-- A text has its tokens when it is trimmed and gets a line feed. -/
theorem reads_trim {cs : List Char} {ps : List Piece} (h : Cuts cs ps []) (X : List Char) :
    Reads (trim cs ++ '\n' :: X) (tokensOf ps) X := by
  obtain ⟨s, b, hcs, hs, hb⟩ := exists_eq_append_trim cs
  have hspaces := cuts_of_isBlank hs (trim cs ++ b)
  rw [← hcs] at hspaces
  obtain ⟨qs, rfl, hqs⟩ := hspaces.exists_append h (Nat.zero_le _)
  have hspell : trim cs ++ b = spell qs := by simpa using hqs.spell
  have hled : LedBy endsToken (b ++ []) := by
    rw [List.append_nil]
    exact fun c hc => endsToken_of_isSpace (List.all_eq_true.1 hb c (List.mem_of_mem_head? hc))
  rw [tokensOf_append, tokensOf_spaces, List.nil_append]
  exact hqs.reads hspell.symm hb hled X

theorem Lexer.Reads.exists_lex {cs : List Char} {ts : List Token} (h : Reads cs ts []) :
    ∃ tokens, lex cs = .ok tokens ∧ tokens.list.map Lexeme.token = ts := by
  obtain ⟨ps, hcuts, rfl⟩ := h
  exact ⟨_, lex_of_cuts hcuts, map_token_place _ _⟩

/-- Whether a token is read again where its lines are laid out anew. -/
def Lexeme.IsKept (indent source : List Char) (t : Lexeme) : Prop :=
  spelled? (layOut indent inLine (t.span.text source)).1 = some t.token

/-- All tokens are kept if text blocks are. -/
theorem reindented_eq_token {indent cs : List Char} {ps : List Piece} (h : Cuts cs ps [])
    (hblocks : ∀ t ∈ place .start ps, t.IsTextBlock cs → t.IsKept indent cs) {q : Piece}
    (hq : q ∈ ps) : q.reindented indent = q.token := by
  rw [Piece.reindented]
  cases htoken : q.token with
  | none => rfl
  | some token =>
    rw [Option.bind_some]
    split
    · next hbreak =>
      obtain ⟨t, ht, rfl, htext⟩ := exists_mem_place hq htoken [] []
      have hspell : [] ++ (spell ps ++ []) = cs := h.spell.symm
      rw [hspell] at htext
      have hblock : t.IsTextBlock cs := by
        rw [Lexeme.IsTextBlock, htext]
        exact h.isPrefix_of_newline_mem hq (by simp [htoken]) hbreak
      rw [← htext]
      exact hblocks t ht hblock
    · rfl

/-- A text block without blank lines is read again. -/
example :
    spelled? (layOut "    ".toList inLine "\"\"\"\n  a\n   b\"\"\"".toList).1 =
      spelled? "\"\"\"\n  a\n   b\"\"\"".toList := by
  cbv

namespace Program

/-- Whether the imports among the lines stand alone: there are tokens in front of the line, and
those of the line are import declarations. -/
def ImportsStandAlone (snippet : List Char) : Prop :=
  ∀ x ∈ (linesWithBreaks snippet).zipIdx, isImport x.1 = true →
    (lex ((linesWithBreaks snippet).take x.2).flatten).isOk = true ∧ isImportsOnly x.1 = true

instance (snippet : List Char) : Decidable (ImportsStandAlone snippet) :=
  inferInstanceAs (Decidable (∀ x ∈ _, _))

theorem isImport_dropBreak (line : List Char) : isImport (dropBreak line) = isImport line := by
  simp only [isImport, trim_dropBreak]

section Parts

variable {snippet line : List Char} {front back : List (List Char)}
  (hlines : linesWithBreaks snippet = front ++ line :: back)

include hlines

theorem lines_eq_of_append :
    lines snippet = lines front.flatten ++ dropBreak line :: lines back.flatten := by
  have hsplit : linesWithBreaks snippet = (front ++ [line]) ++ back := by simpa using hlines
  rw [lines, lines, lines, hlines, (linesWithBreaks_flatten hlines).1,
    (linesWithBreaks_flatten hsplit).2.1]
  simp

/-- The pieces of a text are those of its lines that stand alone, and those of the parts around
these. -/
theorem exists_cuts_around {ps : List Piece} (h : Cuts snippet ps [])
    (himport : isImport line = true) (halone : ImportsStandAlone snippet) :
    ∃ front' line' back', ps = front' ++ (line' ++ back') ∧ Cuts front.flatten front' [] ∧
      Cuts line line' [] ∧ importsFrom false (tokensOf line') = true ∧
      Cuts back.flatten back' [] ∧ ImportsStandAlone back.flatten := by
  have hsplit : linesWithBreaks snippet = (front ++ [line]) ++ back := by simpa using hlines
  have hmem : (line, front.length) ∈ (linesWithBreaks snippet).zipIdx := by
    rw [List.mk_mem_zipIdx_iff_getElem?, hlines]
    simp
  have hline := halone _ hmem himport
  rw [hlines, List.take_left, isOk_lex_iff] at hline
  obtain ⟨⟨front', hfront⟩, honly⟩ := hline
  obtain ⟨line', hline', himports⟩ := exists_cuts_of_isImportsOnly honly
  have hend : ∀ d ∈ front.flatten.getLast?, d = '\n' :=
    (linesWithBreaks_flatten hlines).2.2 (List.cons_ne_nil line back)
  have hboth : Cuts (front ++ [line]).flatten (front' ++ line') [] := by
    have hjoin : (front ++ [line]).flatten = front.flatten ++ line := by simp
    rw [hjoin]
    exact (hfront.extend hend line).append hline'
  have hwhole := Cuts.extend_lines hsplit hboth
  have hsnippet : (front ++ [line]).flatten ++ back.flatten = snippet := by
    rw [← List.flatten_append, ← hsplit, flatten_linesWithBreaks]
  rw [hsnippet] at hwhole
  obtain ⟨back', rfl, hback⟩ := hwhole.exists_append h (Nat.zero_le _)
  refine ⟨front', line', back', List.append_assoc _ _ _, hfront, hline', himports, hback, ?_⟩
  rintro ⟨l, n⟩ hl himport'
  rw [(linesWithBreaks_flatten hsplit).2.1] at hl ⊢
  have hget : back[n]? = some l := List.mk_mem_zipIdx_iff_getElem?.1 hl
  have hne : back ≠ [] := by
    rintro rfl
    exact absurd hget nofun
  have hlater : (l, (front ++ [line]).length + n) ∈ (linesWithBreaks snippet).zipIdx := by
    rw [List.mk_mem_zipIdx_iff_getElem?, hsplit, List.getElem?_append_right (Nat.le_add_right _ _),
      Nat.add_sub_cancel_left, hget]
  obtain ⟨hok, honly'⟩ := halone _ hlater himport'
  refine ⟨?_, honly'⟩
  rw [hsplit, List.take_length_add_append, List.flatten_append, isOk_lex_iff] at hok
  obtain ⟨qs, hqs⟩ := hok
  have hpart := hboth.extend ((linesWithBreaks_flatten hsplit).2.2 hne) (back.take n).flatten
  obtain ⟨qs', -, hqs'⟩ := hpart.exists_append hqs (Nat.zero_le _)
  exact isOk_lex_iff.2 ⟨qs', hqs'⟩

end Parts

/-! ## The text around the class -/

theorem importText_append (xs ys : List (List Char)) :
    importText (xs ++ ys) = importText xs ++ importText ys := by
  simp [importText]

theorem importText_cons {line : List Char} (h : isImport line = true) (ls : List (List Char)) :
    importText (line :: ls) = trim line ++ '\n' :: importText ls := by
  simp [importText, h]

theorem bodyText_append (indent : List Char) (xs ys : List (List Char)) :
    bodyText indent (xs ++ ys) = bodyText indent xs ++ bodyText indent ys := by
  simp [bodyText]

theorem bodyText_cons {line : List Char} (h : isImport line = true) (indent : List Char)
    (ls : List (List Char)) : bodyText indent (line :: ls) = '\n' :: bodyText indent ls := by
  simp [bodyText, h]

/-- Lines that are no imports, with their breaks or without them. -/
theorem isImport_of_mem_lines {text : List Char}
    (h : ∀ line ∈ linesWithBreaks text, isImport line = false) :
    ∀ l ∈ lines text, isImport l = false := by
  intro l hl
  obtain ⟨line, hline, rfl⟩ := List.mem_map.1 hl
  rw [isImport_dropBreak]
  exact h line hline

/-- A text without imports has its tokens in the body. -/
theorem reads_bodyText {indent text : List Char} {ps : List Piece} (hindent : isBlank indent = true)
    (h : Cuts text ps []) (hkept : ∀ q ∈ ps, q.reindented indent = q.token)
    (hnone : ∀ l ∈ lines text, isImport l = false) (X : List Char) :
    Reads (bodyText indent (lines text) ++ X) (tokensOf ps) X := by
  have hread := h.laidOut (m := lineStart) hindent rfl X
  have htokens : reindented indent ps = tokensOf ps := List.filterMap_congr hkept
  rwa [htokens, laidOut_eq_flatMap, ← bodyText_of_forall hnone] at hread

/-- **Import declarations move, and the other tokens stay.** -/
theorem exists_hoists {indent snippet : List Char} {ps : List Piece}
    (hindent : isBlank indent = true) (h : Cuts snippet ps [])
    (hkept : ∀ q ∈ ps, q.reindented indent = q.token) (halone : ImportsStandAlone snippet) :
    ∃ moved kept, Hoists (tokensOf ps) moved kept ∧
      (∀ X, Reads (importText (lines snippet) ++ X) moved X) ∧
      ∀ X, Reads (bodyText indent (lines snippet) ++ X) kept X := by
  -- from one import to the next
  induction hn : (linesWithBreaks snippet).length using Nat.strongRecOn generalizing snippet ps with
  | _ n ih =>
    cases hfind : (linesWithBreaks snippet).find? isImport with
    | none =>
      have hnone := isImport_of_mem_lines fun line hline => by
        simpa using List.find?_eq_none.1 hfind line hline
      refine ⟨[], tokensOf ps, ?_, fun X => ?_, reads_bodyText hindent h hkept hnone⟩
      · simpa using Hoists.nil.keep_append (tokensOf ps)
      · rw [importText_of_forall hnone]
        exact .refl X
    | some line =>
      obtain ⟨himport, front, back, hlines, hfront⟩ := List.find?_eq_some_iff_append.1 hfind
      obtain ⟨front', line', back', rfl, hcuts, hline, himports, hback, hlater⟩ :=
        exists_cuts_around hlines h himport halone
      have hsplit : linesWithBreaks snippet = (front ++ [line]) ++ back := by simpa using hlines
      have hshorter : (linesWithBreaks back.flatten).length < n := by
        rw [(linesWithBreaks_flatten hsplit).2.1, ← hn, hlines]
        simp only [List.length_append, List.length_cons]
        omega
      obtain ⟨moved, kept, hhoists, hmoved, hbody⟩ := ih _ hshorter hback
        (fun q hq => hkept q (by simp [hq])) hlater rfl
      have hnone : ∀ l ∈ lines front.flatten, isImport l = false := by
        refine isImport_of_mem_lines fun l hl => ?_
        rw [(linesWithBreaks_flatten hlines).1] at hl
        simpa using hfront l hl
      have himport' : isImport (dropBreak line) = true := by rwa [isImport_dropBreak]
      refine ⟨tokensOf line' ++ moved, tokensOf front' ++ kept, ?_, fun X => ?_, fun X => ?_⟩
      · rw [tokensOf_append, tokensOf_append]
        exact (hhoists.append_of_importsFrom himports).keep_append _
      · have hread := (reads_trim hline (importText (lines back.flatten) ++ X)).append (hmoved X)
        rw [lines_eq_of_append hlines, importText_append, importText_of_forall hnone,
          importText_cons himport', trim_dropBreak]
        simpa using hread
      · have hread := reads_bodyText hindent hcuts
          (fun q hq => hkept q (List.mem_append_left _ hq)) hnone
          ('\n' :: bodyText indent (lines back.flatten) ++ X)
        have hrest : Reads ('\n' :: bodyText indent (lines back.flatten) ++ X) kept X :=
          .of_isBlank (s := ['\n']) rfl (hbody X)
        rw [lines_eq_of_append hlines, bodyText_append, bodyText_cons himport', List.append_assoc]
        exact hread.append hrest

/-! ## The program -/

/-- The tokens that open the class, and its `main` unless the snippet has one. -/
def openingTokens (main : Bool) : List Token :=
  tokensOf shellPieces ++ if main then [] else tokensOf headPieces ++ [.sign .lbrace]

/-- The tokens that close the `main` and the class. -/
def closingTokens (main : Bool) : List Token :=
  if main then [.sign .rbrace] else [.sign .rbrace, .sign .rbrace]

/-- The parts of the program around a snippet with a `main`. -/
theorem reads_of_hasMain {snippet : List Char} {moved kept : List Token}
    (hmain : hasMain snippet = true)
    (hmoved : ∀ X, Reads (importText (lines snippet) ++ X) moved X)
    (hkept : ∀ X, Reads (bodyText [] (lines snippet) ++ X) kept X) :
    Reads (textOf (wrapped snippet)) (moved ++ openingTokens true ++ kept ++ closingTokens true)
      [] := by
  have hclosing : Reads ['}', '\n'] (closingTokens true) [] :=
    .token (u := []) rfl (.of_isBlank (s := ['\n']) rfl (.refl []))
  have hopening (X : List Char) : Reads (spell shellPieces ++ X) (openingTokens true) X :=
    ⟨_, cuts_shellPieces X, (List.append_nil _).symm⟩
  rw [textOf_wrapped_of_hasMain hmain]
  have hread := (hmoved _).append ((hopening _).append ((hkept _).append hclosing))
  simp only [List.append_assoc]
  exact hread

/-- The parts of the program around a snippet without a `main`. -/
theorem reads_of_not_hasMain {snippet : List Char} {moved kept : List Token}
    (hmain : hasMain snippet = false)
    (hmoved : ∀ X, Reads (importText (lines snippet) ++ X) moved X)
    (hkept : ∀ X, Reads (bodyText bodyIndent (lines snippet) ++ X) kept X) :
    Reads (textOf (wrapped snippet)) (moved ++ openingTokens false ++ kept ++ closingTokens false)
      [] := by
  have hclosing : Reads (List.replicate 4 ' ' ++ spell closingPieces) (closingTokens false) [] := by
    refine .of_isBlank (by decide) ⟨closingPieces, ?_, rfl⟩
    have hcuts := cuts_closingPieces
    rwa [List.append_nil] at hcuts
  have hbrace (X : List Char) : Reads ('{' :: '\n' :: X) [.sign .lbrace] X :=
    .token (u := []) rfl (.of_isBlank (s := ['\n']) rfl (.refl X))
  have hopening (X : List Char) :
      Reads (headText ++ ('{' :: '\n' :: X)) (openingTokens false) X := by
    have hshell : Reads (spell shellPieces ++ (spell headPieces ++ ('{' :: '\n' :: X)))
        (tokensOf shellPieces) (spell headPieces ++ ('{' :: '\n' :: X)) :=
      ⟨_, cuts_shellPieces _, rfl⟩
    have hhead : Reads (spell headPieces ++ ('{' :: '\n' :: X)) (tokensOf headPieces)
        ('{' :: '\n' :: X) := ⟨_, cuts_headPieces _, rfl⟩
    have hread := hshell.append (hhead.append (hbrace X))
    rw [headText, spell_append, List.append_assoc]
    exact hread
  rw [textOf_wrapped_of_not_hasMain hmain]
  have hread := (hmoved _).append ((hopening _).append ((hkept _).append hclosing))
  simp only [List.append_assoc]
  exact hread

/-- **Only import declarations move.** Let a snippet that has tokens be put into a class, let the
lines that are taken for imports stand alone, and let text blocks be read again from their indented
lines. Then the program has the tokens of some import declarations of the snippet, those that open
the class and perhaps a `main`, all other tokens of the snippet in their order, and those that close
what was opened. -/
theorem tokens_of_wrapped {snippet : List Char} {tokens : Lexemes} (hlex : lex snippet = .ok tokens)
    (horigins : (ofSnippet snippet).origins.isSome = true) (halone : ImportsStandAlone snippet)
    (hblocks : ∀ t ∈ tokens.list, t.IsTextBlock snippet → t.IsKept (margin snippet) snippet) :
    ∃ moved kept, Hoists (tokens.list.map Lexeme.token) moved kept ∧
      ∃ program, lex (ofSnippet snippet).text = .ok program ∧
        program.list.map Lexeme.token =
          moved ++ openingTokens (hasMain snippet) ++ kept ++ closingTokens (hasMain snippet) := by
  obtain ⟨ps, hcuts, rfl⟩ := exists_cuts_of_lex hlex
  have hindent : isBlank (margin snippet) = true := by
    unfold margin
    split <;> decide
  obtain ⟨moved, kept, hhoists, hmoved, hkept⟩ :=
    exists_hoists hindent hcuts (fun q hq => reindented_eq_token hcuts hblocks hq) halone
  refine ⟨moved, kept, by rwa [map_token_place], ?_⟩
  rw [(text_ofSnippet_of_origins horigins).1]
  refine Reads.exists_lex ?_
  cases hmain : hasMain snippet with
  | true =>
    rw [margin, if_pos hmain] at hkept
    exact reads_of_hasMain hmain hmoved hkept
  | false =>
    rw [margin, if_neg (by simp [hmain])] at hkept
    exact reads_of_not_hasMain hmain hmoved hkept

/-- A snippet with two imports, one of them behind a statement and with a comment. -/
def twoImports : List Char :=
  "import java.util.List;\nint x = 1;\n  import java.util.Map; // maps;\nx++;".toList

/-- The tokens of a snippet with imports. -/
theorem tokens_of_twoImports :
    ∃ tokens, lex twoImports = .ok tokens ∧
      ∃ moved kept, Hoists (tokens.list.map Lexeme.token) moved kept ∧
        ∃ program, lex (ofSnippet twoImports).text = .ok program ∧
          program.list.map Lexeme.token =
            moved ++ openingTokens (hasMain twoImports) ++ kept ++
              closingTokens (hasMain twoImports) := by
  obtain ⟨tokens, hlex, hblock⟩ : ∃ tokens, lex twoImports = .ok tokens ∧
      ∀ t ∈ tokens.list, ¬ t.IsTextBlock twoImports := by
    have hsome : (lex twoImports).toOption.any (fun tokens => decide
        (∀ t ∈ tokens.list, ¬ t.IsTextBlock twoImports)) = true := by decide +kernel
    simpa using exists_ok_of_any hsome
  exact ⟨tokens, hlex, tokens_of_wrapped hlex (by decide +kernel) (by decide +kernel)
    fun t ht hblock' => absurd hblock' (hblock t ht)⟩

end Program

end SnippetRunner
