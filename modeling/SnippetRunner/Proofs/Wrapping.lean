import Mathlib.Data.List.Basic
import SnippetRunner.Proofs.Layout
import SnippetRunner.Proofs.Pieces
import SnippetRunner.Program.Interpret

/-!
# The program around a snippet

A snippet that is no program is put into a class, and if need be into the body of a `main`. The
lines around it are cut into fixed pieces (`cuts_programPieces`), and the grammar of declarations
finds in them the `main` whose body the snippet became (`exists_main_of_programPieces`).
-/

namespace SnippetRunner

open Text Lexer Grammar

namespace Program

/-! ## The lines around a snippet -/

/-- The pieces of the line that opens the class. -/
def shellPieces : List Piece :=
  [.name "public", .space ' ', .keyword .classKw, .space ' ', .name "TempClass", .space ' ',
   .sign .lbrace, .space '\n']

/-- The pieces of the line that opens the `main`, in front of its brace. -/
def headPieces : List Piece :=
  List.replicate 4 (.space ' ') ++
    [.name "public", .space ' ', .keyword .staticKw, .space ' ', .name "void", .space ' ',
     .name "main", .sign .lparen, .name "String", .sign .lbracket, .sign .rbracket, .space ' ',
     .name "args", .sign .rparen, .space ' ']

/-- The pieces of the lines that close the `main` and the class, behind the indentation. -/
def closingPieces : List Piece := [.sign .rbrace, .space '\n', .sign .rbrace, .space '\n']

/-- The pieces of a program with a `main` whose body has the given pieces. -/
def programPieces (body : List Piece) : List Piece :=
  shellPieces ++ (headPieces ++ (.sign .lbrace :: (body ++ closingPieces)))

/-- The text in front of the brace that opens the `main`. -/
def headText : List Char := spell (shellPieces ++ headPieces)

theorem cuts_shellPieces (X : List Char) : Cuts (spell shellPieces ++ X) shellPieces X := by
  unfold shellPieces
  repeat' first | exact .nil _ | refine .cons_token rfl ?_ | refine .cons_blank rfl ?_

theorem cuts_headPieces (X : List Char) :
    Cuts (spell headPieces ++ '{' :: X) headPieces ('{' :: X) := by
  unfold headPieces
  refine .spell_append (cuts_spaces _ _) ?_
  repeat' first | exact .nil _ | refine .cons_token rfl ?_ | refine .cons_blank rfl ?_

theorem cuts_closingPieces : Cuts (spell closingPieces ++ []) closingPieces [] := by
  unfold closingPieces
  repeat' first | exact .nil _ | refine .cons_token rfl ?_ | refine .cons_blank rfl ?_

theorem cuts_programPieces {body : List Piece}
    (hbody : Cuts (spell body ++ spell closingPieces) body (spell closingPieces)) :
    Cuts (spell (programPieces body)) (programPieces body) [] := by
  have hclosing := cuts_closingPieces
  have hblock : Cuts (spell (.sign .lbrace :: (body ++ closingPieces)) ++ [])
      (.sign .lbrace :: (body ++ closingPieces)) [] := by
    refine .cons_token rfl (.spell_append ?_ hclosing)
    rwa [List.append_nil]
  have hhead : Cuts (spell (headPieces ++ (.sign .lbrace :: (body ++ closingPieces))) ++ [])
      (headPieces ++ (.sign .lbrace :: (body ++ closingPieces))) [] :=
    .spell_append (cuts_headPieces _) hblock
  have hshell := Cuts.spell_append (cuts_shellPieces _) hhead
  rwa [List.append_nil] at hshell

/-! ## The text of a wrapped snippet -/

/-- The imports among the lines of a snippet, as they stand in front of the class. -/
def importText (ls : List (List Char)) : List Char :=
  (ls.filter isImport).flatMap fun line => trim line ++ ['\n']

/-- The lines of a snippet as they stand in the class, the imports and the blank ones emptied. -/
def bodyText (indent : List Char) (ls : List (List Char)) : List Char :=
  ls.flatMap fun line => (if isImport line || isBlank line then [] else indent ++ line) ++ ['\n']

theorem textOf_cons (l : List Char × Option Nat) (ls : Lines) :
    textOf (l :: ls) = l.1 ++ '\n' :: textOf ls := by
  simp [textOf]

theorem textOf_append (xs ys : Lines) : textOf (xs ++ ys) = textOf xs ++ textOf ys := by
  simp [textOf]

theorem textOf_imports (ls : List (List Char)) (n : Nat) :
    textOf (((ls.zipIdx n).filter fun (line, _) => isImport line).map
      fun (line, k) => (trim line, some k)) = importText ls := by
  induction ls generalizing n with
  | nil => rfl
  | cons line ls ih =>
    have ih' := ih (n + 1)
    simp only [textOf, importText] at ih' ⊢
    by_cases h : isImport line = true
    · simp only [List.zipIdx_cons, List.filter_cons, h, if_true, List.map_cons, List.flatMap_cons,
        ih']
    · simp only [List.zipIdx_cons, List.filter_cons, h, Bool.false_eq_true, if_false, ih']

theorem textOf_body (indent : List Char) (ls : List (List Char)) (n : Nat) :
    textOf ((ls.zipIdx n).map fun (line, k) => bodyLine indent line k) = bodyText indent ls := by
  induction ls generalizing n with
  | nil => rfl
  | cons line ls ih =>
    have ih' := ih (n + 1)
    have hline : (bodyLine indent line n).1 =
        if isImport line || isBlank line then [] else indent ++ line := by
      unfold bodyLine
      split <;> rfl
    rw [List.zipIdx_cons, List.map_cons, bodyText, List.flatMap_cons, ← bodyText, ← ih', textOf,
      List.flatMap_cons]
    simp only [hline]
    rfl

theorem textOf_wrapped_of_hasMain {snippet : List Char} (h : hasMain snippet = true) :
    textOf (wrapped snippet) = importText (lines snippet) ++
      (spell shellPieces ++ (bodyText [] (lines snippet) ++ ['}', '\n'])) := by
  simp only [wrapped, if_pos h, textOf_append, numbered, textOf_imports, textOf_body,
    List.append_assoc]
  rfl

theorem textOf_wrapped_of_not_hasMain {snippet : List Char} (h : hasMain snippet = false) :
    textOf (wrapped snippet) = importText (lines snippet) ++
      (headText ++ ('{' :: '\n' :: (bodyText "        ".toList (lines snippet) ++
        (List.replicate 4 ' ' ++ spell closingPieces)))) := by
  have hmain : ¬ hasMain snippet = true := by simp [h]
  simp only [wrapped, if_neg hmain, textOf_append, numbered, textOf_imports, textOf_body,
    List.append_assoc]
  rfl

theorem importText_of_forall {ls : List (List Char)} (h : ∀ l ∈ ls, isImport l = false) :
    importText ls = [] := by
  have hnone : ls.filter isImport = [] :=
    List.filter_eq_nil_iff.2 fun l hl => by simp [h l hl]
  rw [importText, hnone]
  rfl

theorem bodyText_of_forall {ls : List (List Char)} (h : ∀ l ∈ ls, isImport l = false)
    (indent : List Char) : bodyText indent ls = ls.flatMap (relined indent) := by
  refine List.flatMap_congr fun l hl => ?_
  rw [h l hl, Bool.false_or, relined]

theorem text_ofSnippet_of_origins {snippet : List Char}
    (h : (ofSnippet snippet).origins.isSome = true) :
    (ofSnippet snippet).text = textOf (wrapped snippet) ∧
      (ofSnippet snippet).origins = some ((wrapped snippet).map Prod.snd) := by
  unfold ofSnippet at h ⊢
  split at h
  · exact absurd h (by simp)
  · exact ⟨rfl, rfl⟩

/-- The indentation of the body of the `main`. -/
def bodyIndent : List Char := "        ".toList

/-- The indentation of a snippet in its class. -/
def margin (snippet : List Char) : List Char := if hasMain snippet then [] else bodyIndent

theorem isBlank_margin (snippet : List Char) : isBlank (margin snippet) = true := by
  unfold margin
  split <;> decide

theorem newline_not_mem_margin (snippet : List Char) : '\n' ∉ margin snippet := by
  unfold margin
  split <;> decide

/-! ## The method that the snippet became -/

section Grammar

open DeclarationParser

theorem callsFor_cons (t : Lexeme) (ts : List Lexeme) : callsFor (t :: ts) = callsFor ts + 2 := by
  simp only [callsFor, List.length_cons]
  omega

/-- There are always calls enough for three more. -/
theorem exists_callsFor (t t' : Lexeme) (ts : List Lexeme) :
    ∃ n, callsFor (t :: t' :: ts) = n + 3 :=
  ⟨callsFor ts + 1, by rw [callsFor_cons, callsFor_cons]⟩

/-- The tokens of a block, and a brace behind it. -/
def blockTokens (opening closing last : Span) (body : List Lexeme) : List Lexeme :=
  ⟨.sign .lbrace, opening⟩ :: (body ++ [⟨.sign .rbrace, closing⟩, ⟨.sign .rbrace, last⟩])

/-- The tokens of the head of the `main`, its modifiers aside, in front of its body. -/
def headTokens (s : Nat → Span) (block : List Lexeme) : List Lexeme :=
  ⟨.ident "void", s 6⟩ :: ⟨.ident "main", s 7⟩ :: ⟨.sign .lparen, s 8⟩ :: ⟨.ident "String", s 9⟩ ::
    ⟨.sign .lbracket, s 10⟩ :: ⟨.sign .rbracket, s 11⟩ :: ⟨.ident "args", s 12⟩ ::
    ⟨.sign .rparen, s 13⟩ :: block

/-- The tokens of the `main`. -/
def mainTokens (s : Nat → Span) (block : List Lexeme) : List Lexeme :=
  ⟨.ident "public", s 4⟩ :: ⟨.keyword .staticKw, s 5⟩ :: headTokens s block

/-- The tokens of the class that a snippet is put into. -/
def shellTokens (s : Nat → Span) (block : List Lexeme) : List Lexeme :=
  ⟨.ident "public", s 0⟩ :: ⟨.keyword .classKw, s 1⟩ :: ⟨.ident "TempClass", s 2⟩ ::
    ⟨.sign .lbrace, s 3⟩ :: mainTokens s block

/-- The method that a snippet is put into. Its body stands between two braces. -/
def shellMain (s : Nat → Span) (opening closing : Span) : MethodDecl where
  name := "main"
  modifiers := ["public", "static"]
  params := ⟨(s 8).stop, (s 13).start, (s 8).line, (s 8).column + 1⟩
  body := some ⟨opening.stop, closing.start, opening.line, opening.column + 1⟩
  span := (s 4).through closing

section Reading

variable (opening : Span) {closing last : Span} {body : List Lexeme}
  (hbody : skipToClosing .lbrace .rbrace 1
      (body ++ [⟨.sign .rbrace, closing⟩, ⟨.sign .rbrace, last⟩]) =
    some (closing, [⟨.sign .rbrace, last⟩]))
  (stop : Span) (s : Nat → Span) (n : Nat)

include hbody

theorem member_headTokens :
    member stop ["public", "static"] (s 4) (n + 2)
        (headTokens s (blockTokens opening closing last body)) =
      .ok (some (shellMain s opening closing), [⟨.sign .rbrace, last⟩]) := by
  have hgroup : group stop .lbrace .rbrace (blockTokens opening closing last body) =
      .ok ((⟨opening.stop, closing.start, opening.line, opening.column + 1⟩, closing),
        [⟨.sign .rbrace, last⟩]) := by
    simp [blockTokens, group, Grammar.sign, hbody, bind, Except.bind, pure, Except.pure]
  have hend : methodEnd stop "main" (blockTokens opening closing last body) =
      .ok ((some ⟨opening.stop, closing.start, opening.line, opening.column + 1⟩, closing),
        [⟨.sign .rbrace, last⟩]) := by
    rw [blockTokens] at hgroup ⊢
    simp only [methodEnd, hgroup, bind, Except.bind, pure, Except.pure]
  simp [headTokens, member, group, Grammar.sign, skipToClosing, bind, Except.bind, pure,
    Except.pure, hend, shellMain]

theorem members_mainTokens :
    members stop (n + 2) "TempClass" (mainTokens s (blockTokens opening closing last body)) =
      .ok (([shellMain s opening closing], [], last), []) := by
  obtain ⟨calls, hcalls⟩ := exists_callsFor ⟨.ident "public", s 4⟩ ⟨.keyword .staticKw, s 5⟩
    (headTokens s (blockTokens opening closing last body))
  obtain ⟨calls', hcalls'⟩ :
      ∃ k, callsFor (headTokens s (blockTokens opening closing last body)) = k + 3 :=
    exists_callsFor _ _ _
  have hmember := member_headTokens opening hbody stop s (calls' + 1)
  have hmods : modifiers stop (calls + 3) (mainTokens s (blockTokens opening closing last body)) =
      .ok (["public", "static"], headTokens s (blockTokens opening closing last body)) := by
    simp [mainTokens, headTokens, modifiers, modifierNames, bind, Except.bind, pure, Except.pure]
  have hkind : typeKind? (headTokens s (blockTokens opening closing last body)) = none := by
    simp [headTokens, typeKind?]
  rw [mainTokens] at hmods ⊢
  simp [members, hcalls, hmods, hkind, hcalls', hmember, spanAt, bind, Except.bind, pure,
    Except.pure]

/-- **The grammar finds the method that the snippet became**, with what stands between its braces
as its body. -/
theorem whole_shellTokens :
    ∃ unit, whole ⟨shellTokens s (blockTokens opening closing last body), stop⟩ = .ok unit ∧
      unit.main? = some (shellMain s opening closing) := by
  obtain ⟨calls, hcalls⟩ := exists_callsFor ⟨.ident "public", s 0⟩ ⟨.keyword .classKw, s 1⟩
    (⟨.ident "TempClass", s 2⟩ :: ⟨.sign .lbrace, s 3⟩ ::
      mainTokens s (blockTokens opening closing last body))
  obtain ⟨calls', hcalls'⟩ := exists_callsFor ⟨.keyword .classKw, s 1⟩ ⟨.ident "TempClass", s 2⟩
    (⟨.sign .lbrace, s 3⟩ :: mainTokens s (blockTokens opening closing last body))
  have hmembers := members_mainTokens opening hbody stop s calls'
  refine ⟨⟨none, [], [⟨.classKind, "TempClass", ["public"], [shellMain s opening closing], [],
    (s 0).through last⟩]⟩, ?_, ?_⟩
  · simp [whole, DeclarationParser.package, imports, types, shellTokens, hcalls, modifiers,
      modifierNames, hcalls', typeDeclaration, typeKind?, ident, skipHeader, startsWithSign,
      hmembers, spanAt,
      bind, Except.bind, pure, Except.pure]
  · simp [CompilationUnit.main?, TypeDecl.firstMain?, TypeDecl.main?, MethodDecl.isMain,
      MethodDecl.isStatic, shellMain]

end Reading

end Grammar

/-! ## The places of the tokens -/

/-- The tokens of a program at their places: those of the class and of the head of its `main`, and
those of the body between two braces. -/
theorem place_programPieces (body : List Piece) :
    ∃ s last, place .start (programPieces body) =
      shellTokens s (blockTokens (Span.ofText (Position.start.after headText) ['{'])
        (Span.ofText (Position.start.after (headText ++ '{' :: spell body)) ['}']) last
        (place (Position.start.after (headText ++ ['{'])) body)) := by
  let spans : List Span := (place .start (shellPieces ++ headPieces)).map Lexeme.span
  let behind := ((Position.start.after headText).after ['{']).after (spell body)
  refine ⟨fun i => spans.getD i default, Span.ofText (behind.after ['}', '\n']) ['}'], ?_⟩
  have hhead (block : List Lexeme) : place .start (shellPieces ++ headPieces) ++ block =
      shellTokens (fun i => spans.getD i default) block := rfl
  have hopen : Position.start.after (headText ++ ['{']) =
      (Position.start.after headText).after ['{'] := Position.after_append _ _ _
  have hbehind : Position.start.after (headText ++ '{' :: spell body) = behind := by
    rw [Position.after_append]
    rfl
  rw [programPieces, ← List.append_assoc, place_append, hhead, place_cons_sign, place_append,
    hopen, hbehind]
  rfl

/-! ## The body that is run -/

/-- The number of braces that are open behind the tokens, if none closes more than are open. -/
def openBraces? (depth : Nat) : List Token → Option Nat
  | [] => some depth
  | t :: ts =>
    match t with
    | .sign .lbrace => openBraces? (depth + 1) ts
    | .sign .rbrace => if depth = 0 then none else openBraces? (depth - 1) ts
    | _ => openBraces? depth ts

/-- Whether braces are balanced: no part in front closes more than it opens, and all are closed in
the end. -/
def BracesBalanced (ts : List Token) : Prop := openBraces? 0 ts = some 0

instance (ts : List Token) : Decidable (BracesBalanced ts) :=
  inferInstanceAs (Decidable (_ = _))

/-- Balanced braces are skipped on the way to the closing one. -/
theorem skipToClosing_append {ts : List Lexeme} {depth depth' : Nat}
    (h : openBraces? depth (ts.map Lexeme.token) = some depth') (rest : List Lexeme) :
    skipToClosing .lbrace .rbrace (depth + 1) (ts ++ rest) =
      skipToClosing .lbrace .rbrace (depth' + 1) rest := by
  induction ts generalizing depth with
  | nil =>
    obtain rfl : depth = depth' := Option.some.inj h
    rfl
  | cons t ts ih =>
    obtain ⟨token, span⟩ := t
    rw [List.map_cons, openBraces?.eq_def] at h
    rw [List.cons_append, skipToClosing]
    dsimp only at h
    split at h
    · simpa using ih h
    · split at h
      · simp at h
      · obtain ⟨n, rfl⟩ : ∃ n, depth = n + 1 := ⟨depth - 1, by omega⟩
        simpa using ih h
    · next hopen hclose =>
      split
      · next s heq =>
        have ho : s ≠ .lbrace := fun e => hopen (heq.trans (congrArg Token.sign e))
        have hc : s ≠ .rbrace := fun e => hclose (heq.trans (congrArg Token.sign e))
        rw [if_neg ho, if_neg hc, ih h]
      · exact ih h

/-- Whether a piece is no brace. -/
def IsBraceless (q : Piece) : Prop :=
  q.token ≠ some (.sign .lbrace) ∧ q.token ≠ some (.sign .rbrace)

theorem bracesBalanced_of_isBraceless {ps : List Piece} (h : ∀ q ∈ ps, IsBraceless q) :
    BracesBalanced (tokensOf ps) := by
  induction ps with
  | nil => rfl
  | cons q ps ih =>
    obtain ⟨text, token⟩ := q
    have ih' := ih fun q hq => h q (List.mem_cons_of_mem _ hq)
    obtain ⟨hopen, hclose⟩ := h _ List.mem_cons_self
    cases token with
    | none => exact ih'
    | some t =>
      rw [BracesBalanced, tokensOf, List.filterMap_cons]
      dsimp only
      rw [openBraces?.eq_def]
      dsimp only
      split
      · exact absurd rfl hopen
      · exact absurd rfl hclose
      · exact ih'

theorem spell_programPieces (body : List Piece) :
    spell (programPieces body) = headText ++ '{' :: (spell body ++ spell closingPieces) := by
  rw [programPieces, ← List.append_assoc, spell_append, ← headText, ← spell_append]
  rfl

/-- A position stands on the line with the number of line breaks in front of it. -/
theorem lineAt_byteSize {cs front back : List Char} (h : cs = front ++ back) :
    Fragment.lineAt cs (byteSize front) = newlines front + 1 := by
  rw [Fragment.lineAt, h, cut?_byteSize_append]

/-- The body of the `main` starts on the second line. -/
theorem lineAt_body (text : List Char) :
    Fragment.lineAt (headText ++ ['{'] ++ text) (byteSize (headText ++ ['{'])) = 2 := by
  have hbreaks : newlines (headText ++ ['{']) = 1 := by decide
  rw [lineAt_byteSize rfl, hbreaks]

/-- **The `main` of a program has what stands between its braces as its body**, if the braces among
the tokens there are balanced. -/
theorem exists_main_of_programPieces {text : List Char} {body : List Piece}
    (htext : text = spell (programPieces body))
    (hcuts : Cuts (spell body ++ spell closingPieces) body (spell closingPieces))
    (hbraces : BracesBalanced (tokensOf body)) :
    ∃ unit m b, CompilationUnit.parse text = .ok unit ∧ unit.main? = some m ∧ m.body = some b ∧
      b.text text = spell body ∧ Fragment.lineAt text b.start = 2 := by
  obtain ⟨s, last, hplace⟩ := place_programPieces body
  have hspell : text = (headText ++ ['{']) ++ (spell body ++ spell closingPieces) := by
    rw [htext, spell_programPieces]
    simp
  have hskip (closing last : Span) (q : Position) : skipToClosing .lbrace .rbrace 1
      (place q body ++ [⟨.sign .rbrace, closing⟩, ⟨.sign .rbrace, last⟩]) =
        some (closing, [⟨.sign .rbrace, last⟩]) := by
    rw [BracesBalanced, ← map_token_place q] at hbraces
    exact (skipToClosing_append hbraces _).trans rfl
  obtain ⟨unit, hwhole, hmain⟩ := whole_shellTokens
    (Span.ofText (Position.start.after headText) ['{'])
    (hskip (Span.ofText (Position.start.after (headText ++ '{' :: spell body)) ['}']) last
      (Position.start.after (headText ++ ['{'])))
    (Span.ofText (Position.start.after text) []) s
  have hparse : CompilationUnit.parse text = .ok unit := by
    rw [← hplace] at hwhole
    rw [htext] at hwhole ⊢
    simp only [CompilationUnit.parse, lex_of_cuts (cuts_programPieces hcuts), hwhole]
  have hslice : slice (byteSize (headText ++ ['{'])) (byteSize (headText ++ ['{'] ++ spell body))
      text = spell body := by
    rw [hspell]
    exact slice_append _ _ _
  have hstart : (Span.ofText (Position.start.after headText) ['{']).stop =
      byteSize (headText ++ ['{']) := by
    simp [Span.ofText, Position.start]
  have hstop : (Span.ofText (Position.start.after (headText ++ '{' :: spell body)) ['}']).start =
      byteSize (headText ++ ['{'] ++ spell body) := by
    simp only [Span.ofText, Position.offset_after, Position.start, List.append_assoc]
    simp
  refine ⟨unit, _, _, hparse, hmain, rfl, ?_, ?_⟩
  · rw [Span.text]
    dsimp only
    rw [hstart, hstop, hslice]
  · dsimp only
    rw [hstart, hspell]
    exact lineAt_body _

/-- **The interpreter runs what stands between the braces of the `main`.** -/
theorem fragments_of_programPieces {p : Program} {body : List Piece}
    (htext : p.text = spell (programPieces body))
    (hcuts : Cuts (spell body ++ spell closingPieces) body (spell closingPieces))
    (hbraces : BracesBalanced (tokensOf body)) :
    p.fragments = Fragment.split (spell body) 2 := by
  obtain ⟨unit, m, b, hparse, hmain, hbody, hslice, hline⟩ :=
    exists_main_of_programPieces htext hcuts hbraces
  simp only [fragments, hparse, Except.toOption, Option.bind_eq_bind, Option.bind_some, hmain,
    hbody, hslice, hline]

end Program

end SnippetRunner
