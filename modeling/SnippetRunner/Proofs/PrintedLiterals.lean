import Mathlib.Data.List.Forall2
import SnippetRunner.Proofs.Printing
import SnippetRunner.Proofs.Wrapping

/-!
# Snippets that print literals

A snippet every line of which prints a string literal in parentheses. It is put into a program
(`text_ofSnippet_of_prints`), whose body is cut into the calls (`fragments_ofSnippet_of_prints`),
and these print exactly the texts of the literals (`prints_literals`): nothing in a literal is taken
for code.
-/

namespace SnippetRunner

open Text Scan Lexer

/-! ## Cutting the body -/

namespace Fragment

variable {p : Pending} {rest : List (Char × CharClass)}

/-- Characters of code that end no statement and change no depth. -/
def isInner (c : Char) : Bool := !"()[]{};\n".toList.contains c

theorem splitIn_push {c : Char} (hc : isInner c = true) :
    splitIn p ((c, .code) :: rest) = splitIn (p.push c) rest := by
  simp only [isInner, List.contains_eq_mem, Bool.not_eq_true', decide_eq_false_iff_not] at hc
  have hne (d : Char) (hd : d ∈ "()[]{};\n".toList) : c ≠ d := fun e => hc (e ▸ hd)
  have h₁ := hne '(' (by decide)
  have h₂ := hne ')' (by decide)
  have h₃ := hne '[' (by decide)
  have h₄ := hne ']' (by decide)
  have h₅ := hne '{' (by decide)
  have h₆ := hne '}' (by decide)
  have h₇ := hne ';' (by decide)
  have h₈ := hne '\n' (by decide)
  simp [splitIn, Pending.advance, h₁, h₂, h₃, h₄, h₅, h₆, h₇, h₈]

/-- Characters of a statement that is being read are added to it. -/
theorem splitIn_append {xs : List (Char × CharClass)} (hp : isBlank p.read = false)
    (hxs : ∀ x ∈ xs, x.1 ≠ '\n' ∧ (x.2 = .literal ∨ (x.2 = .code ∧ isInner x.1 = true))) :
    splitIn p (xs ++ rest) =
      splitIn { p with read := (xs.map Prod.fst).reverse ++ p.read } rest := by
  induction xs generalizing p with
  | nil => rfl
  | cons x xs ih =>
    obtain ⟨c, cls⟩ := x
    have hread := Pending.read_push (c := c) hp
    have hblank : isBlank (p.push c).read = false := by
      rw [hread]
      simpa [isBlank] using fun _ => by simpa [isBlank] using hp
    have hpush : splitIn p ((c, cls) :: (xs ++ rest)) = splitIn (p.push c) (xs ++ rest) := by
      obtain ⟨hbreak, hlit | ⟨hcode, hinner⟩⟩ := hxs (c, cls) List.mem_cons_self
      · dsimp only at hlit hbreak
        simp [splitIn, Pending.advance, hlit, hbreak]
      · dsimp only at hcode hinner
        rw [hcode, splitIn_push hinner]
    rw [List.cons_append, hpush, ih hblank fun x hx => hxs x (List.mem_cons_of_mem _ hx)]
    simp [Pending.push, hp]

theorem splitIn_lparen (hp : isBlank p.read = false) :
    splitIn p (('(', .code) :: rest) =
      splitIn { p with read := '(' :: p.read, parens := p.parens.succ } rest := by
  simp [splitIn, Pending.advance, Pending.push, hp]

theorem splitIn_rparen (hp : isBlank p.read = false) :
    splitIn p ((')', .code) :: rest) =
      splitIn { p with read := ')' :: p.read, parens := p.parens.pred } rest := by
  simp [splitIn, Pending.advance, Pending.push, hp]

/-- Each character of a run is added to the statement and changes the depth. -/
theorem splitIn_replicate {c : Char} {change : Nat → Nat} (hc : isSpace c = false)
    (hstep : ∀ {p : Pending} {rest : List (Char × CharClass)}, isBlank p.read = false →
      splitIn p ((c, .code) :: rest) =
        splitIn { p with read := c :: p.read, parens := change p.parens } rest)
    (hp : isBlank p.read = false) (n : Nat) :
    splitIn p (List.replicate n (c, .code) ++ rest) =
      splitIn { p with read := List.replicate n c ++ p.read, parens := change^[n] p.parens }
        rest := by
  induction n generalizing p with
  | zero => rfl
  | succ n ih =>
    have hblank : isBlank (c :: p.read) = false := by rw [isBlank_cons, hc, Bool.false_and]
    rw [List.replicate_succ, List.cons_append, hstep hp, ih hblank]
    simp only [List.replicate_succ', List.append_assoc, List.cons_append, List.nil_append,
      Function.iterate_succ_apply]

/-- The state at the start of a line, with no statement being read. -/
def lineStart (start line : Nat) : Pending := ⟨[], start, line, 0, 0⟩

/-- White space in front of a statement leaves nothing behind. -/
theorem splitIn_spaces {c : Char} (hc : isInner c = true) (hspace : isSpace c = false)
    (start line n : Nat) :
    splitIn (lineStart start line) (List.replicate n (' ', .code) ++ (c, .code) :: rest) =
      splitIn ⟨[c], line, line, 0, 0⟩ rest := by
  have hspaces (k : Nat) : splitIn ⟨List.replicate k ' ', start, line, 0, 0⟩
      (List.replicate n (' ', .code) ++ (c, .code) :: rest) =
        splitIn ⟨[c], line, line, 0, 0⟩ rest := by
    have hblank (k : Nat) : isBlank (List.replicate k ' ') = true := by
      simp [isBlank, isSpace]
    induction n generalizing k with
    | zero =>
      rw [List.replicate_zero, List.nil_append, splitIn_push hc]
      simp [Pending.push, hblank, hspace]
    | succ n ih =>
      rw [List.replicate_succ, List.cons_append, splitIn_push (by decide), ← ih (k + 1)]
      simp [Pending.push, isSpace, List.replicate_succ]
  exact hspaces 0

theorem splitIn_newline (start line : Nat) :
    splitIn (lineStart start line) (('\n', .code) :: rest) =
      splitIn (lineStart start (line + 1)) rest := by
  have hgoes : goesOn [] (rest.map Prod.fst) = false := rfl
  have hfinish : (lineStart start line).finish = [] := rfl
  simp only [splitIn, Pending.advance]
  rw [show (lineStart start line).isTop = true from rfl,
    show (lineStart start line).text = [] from rfl, hgoes, hfinish]
  rfl

/-- The classes of the characters of a line with a call. -/
theorem classify_callLine (s X : List Char) (depth : Nat) :
    classify .code (List.replicate 8 ' ' ++ printCall s depth ++ [';', '\n'] ++ X) =
      List.replicate 8 (' ', .code) ++ ('S', .code) ::
        (callName.tail.map (·, CharClass.code) ++
        (List.replicate (depth + 1) ('(', .code) ++ ((literal s).map (·, .literal) ++
        (List.replicate (depth + 1) (')', .code) ++
        ((';', .code) :: ('\n', .code) :: classify .code X))))) := by
  have hplain : (List.replicate 8 ' ' ++ callName).all isPlain = true := by decide
  have hend : [';', '\n'].all isPlain = true := by decide
  have hassoc : List.replicate 8 ' ' ++ printCall s depth ++ [';', '\n'] ++ X =
      (List.replicate 8 ' ' ++ callName) ++
        (parenthesized (depth + 1) (literal s) ++ ([';', '\n'] ++ X)) := by
    simp only [printCall, List.append_assoc]
  rw [hassoc, classify_append_of_isPlain hplain, classify_parenthesized_literal,
    classify_append_of_isPlain hend, List.map_append, List.map_replicate, callName_eq]
  simp only [List.map_cons, List.map_nil, List.append_assoc, List.cons_append, List.nil_append,
    List.tail_cons]

/-- A call is read character by character, and ends outside its parentheses. -/
theorem splitIn_call (s : List Char) (depth line : Nat) :
    splitIn ⟨['S'], line, line, 0, 0⟩ (callName.tail.map (·, CharClass.code) ++
        (List.replicate (depth + 1) ('(', .code) ++ ((literal s).map (·, .literal) ++
        (List.replicate (depth + 1) (')', .code) ++ rest)))) =
      splitIn ⟨(printCall s depth).reverse, line, line, 0, 0⟩ rest := by
  have hlabels (cs : List Char) (cls : CharClass) : (cs.map (·, cls)).map Prod.fst = cs := by
    simp [Function.comp_def]
  have hword : ∀ x ∈ callName.tail.map (·, CharClass.code),
      x.1 ≠ '\n' ∧ (x.2 = .literal ∨ (x.2 = .code ∧ isInner x.1 = true)) := by decide
  have hliteral : ∀ x ∈ (literal s).map (·, CharClass.literal),
      x.1 ≠ '\n' ∧ (x.2 = .literal ∨ (x.2 = .code ∧ isInner x.1 = true)) := by
    intro x hx
    obtain ⟨c, hc, rfl⟩ := List.mem_map.1 hx
    exact ⟨fun e => newline_not_mem_literal s (e ▸ hc), .inl rfl⟩
  let word : List Char := callName.tail.reverse ++ ['S']
  let opened : List Char := List.replicate (depth + 1) '(' ++ word
  have hword' : isBlank word = false := rfl
  have hopened : isBlank opened = false := by simp [opened, isBlank, isSpace]
  have hcalled : isBlank ((literal s).reverse ++ opened) = false := by
    simp [literal, isBlank, isSpace]
  have hread : List.replicate (depth + 1) ')' ++ ((literal s).reverse ++ opened) =
      (printCall s depth).reverse := by
    rw [printCall, callName_eq]
    simp only [opened, word, parenthesized, List.reverse_cons, List.reverse_append,
      List.reverse_replicate, List.append_assoc, List.cons_append]
  rw [splitIn_append rfl hword, hlabels, splitIn_replicate (by decide) splitIn_lparen hword',
    splitIn_append hopened hliteral, hlabels,
    splitIn_replicate (by decide) splitIn_rparen hcalled]
  dsimp only
  rw [hread, Nat.succ_iterate, Nat.pred_iterate, Nat.zero_add, Nat.sub_self]

/-- A call that has been read is a statement. -/
theorem finish_printCall (s : List Char) (depth start line : Nat) :
    (⟨(printCall s depth).reverse, start, line, 0, 0⟩ : Pending).finish =
      [⟨printCall s depth, start⟩] := by
  have htrim : trim (printCall s depth) = printCall s depth := by
    refine trim_eq_self ?_ ?_
    · rw [head?_printCall]
      simp [isSpace]
    · rw [getLast?_printCall]
      simp [isSpace]
  have hskip : isSkipped (printCall s depth) = false := rfl
  have hempty : (printCall s depth).isEmpty = false := rfl
  simp [Pending.finish, Pending.text, htrim, hskip, hempty]

/-- **A call on a line of its own is cut out as it stands.** -/
theorem splitIn_printCall (s X : List Char) (depth start line : Nat) :
    splitIn (lineStart start line) (classify .code
        (List.replicate 8 ' ' ++ printCall s depth ++ [';', '\n'] ++ X)) =
      ⟨printCall s depth, line⟩ :: splitIn (lineStart line (line + 1)) (classify .code X) := by
  have hsemicolon (rest : List (Char × CharClass)) :
      splitIn ⟨(printCall s depth).reverse, line, line, 0, 0⟩ ((';', .code) :: rest) =
        ⟨printCall s depth, line⟩ :: splitIn (lineStart line line) rest := by
    simp [splitIn, Pending.advance, Pending.isTop, finish_printCall, lineStart, Pending.clear]
  rw [classify_callLine, splitIn_spaces (by decide) (by decide), splitIn_call, hsemicolon,
    splitIn_newline]

/-- The calls on the lines from the given one on. -/
def calls : Nat → List (String × Nat) → List Fragment
  | _, [] => []
  | line, (s, depth) :: items => ⟨printCall s.toList depth, line⟩ :: calls (line + 1) items

theorem splitIn_calls (items : List (String × Nat)) (X : List Char) (start line : Nat) :
    ∃ start' line', splitIn (lineStart start line) (classify .code (items.flatMap (fun item =>
        List.replicate 8 ' ' ++ printCall item.1.toList item.2 ++ [';', '\n']) ++ X)) =
      calls line items ++ splitIn (lineStart start' line') (classify .code X) := by
  induction items generalizing start line with
  | nil => exact ⟨start, line, rfl⟩
  | cons item items ih =>
    obtain ⟨start', line', h⟩ := ih line (line + 1)
    refine ⟨start', line', ?_⟩
    rw [List.flatMap_cons, List.append_assoc, splitIn_printCall, h]
    rfl

end Fragment

/-! ## The program -/

/-- The pieces of a line that prints a literal. -/
def callPieces (item : String × Nat) : List Piece :=
  List.replicate 8 (.space ' ') ++
    ([.name "System", .sign .dot, .name "out", .sign .dot, .name "println"] ++
      (parenthesizedPieces (item.2 + 1) item.1.toList ++ [.sign .semicolon, .space '\n']))

/-- The pieces between the braces of the `main`. -/
def bodyPieces (items : List (String × Nat)) : List Piece :=
  .space '\n' :: (items.flatMap callPieces ++ List.replicate 4 (.space ' '))

theorem spell_callPieces (item : String × Nat) :
    spell (callPieces item) =
      List.replicate 8 ' ' ++ printCall item.1.toList item.2 ++ [';', '\n'] := by
  rw [callPieces, spell_append, spell_append, spell_append, spell_parenthesizedPieces, printCall]
  simp only [List.append_assoc]
  rfl

theorem spell_bodyPieces (items : List (String × Nat)) :
    spell (bodyPieces items) = '\n' :: (items.flatMap (fun item =>
      List.replicate 8 ' ' ++ printCall item.1.toList item.2 ++ [';', '\n']) ++
        List.replicate 4 ' ') := by
  have hcalls : spell (items.flatMap callPieces) = items.flatMap (fun item =>
      List.replicate 8 ' ' ++ printCall item.1.toList item.2 ++ [';', '\n']) := by
    rw [spell, List.flatMap_assoc]
    refine congrArg (items.flatMap ·) ?_
    funext item
    exact spell_callPieces item
  rw [bodyPieces, ← hcalls, ← List.singleton_append, spell_append, spell_append]
  rfl

theorem cuts_callPieces (item : String × Nat) (X : List Char) :
    Cuts (spell (callPieces item) ++ X) (callPieces item) X := by
  have hend : Cuts (spell [.sign .semicolon, .space '\n'] ++ X)
      [.sign .semicolon, .space '\n'] X :=
    .cons_token rfl <| .cons_blank rfl <| .nil X
  have hcall : Cuts (spell (parenthesizedPieces (item.2 + 1) item.1.toList ++
        [.sign .semicolon, .space '\n']) ++ X)
      (parenthesizedPieces (item.2 + 1) item.1.toList ++ [.sign .semicolon, .space '\n']) X :=
    .spell_append (cuts_parenthesizedPieces _ _ (by simp [spell, Piece.sign, Sign.text])) hend
  refine .spell_append (cuts_spaces 8 _) (.spell_append ?_ hcall)
  exact .cons_token rfl <| .cons_token rfl <| .cons_token rfl <| .cons_token rfl <|
    .cons_token rfl <| .nil _

theorem cuts_bodyPieces (items : List (String × Nat)) (X : List Char) :
    Cuts (spell (bodyPieces items) ++ '}' :: X) (bodyPieces items) ('}' :: X) := by
  have hcalls : Cuts (spell (items.flatMap callPieces ++ List.replicate 4 (.space ' ')) ++
      '}' :: X) (items.flatMap callPieces ++ List.replicate 4 (.space ' ')) ('}' :: X) := by
    induction items with
    | nil => exact cuts_spaces 4 _
    | cons item items ih =>
      rw [List.flatMap_cons, List.append_assoc]
      exact .spell_append (cuts_callPieces item _) ih
  exact .cons_blank rfl hcalls

/-- No brace is among the pieces of the body. -/
theorem isBraceless_of_mem_bodyPieces {items : List (String × Nat)} {q : Piece}
    (h : q ∈ bodyPieces items) : Program.IsBraceless q := by
  have hparens (depth : Nat) (s : List Char) :
      ∀ q ∈ parenthesizedPieces depth s, Program.IsBraceless q := by
    induction depth with
    | zero => simp [parenthesizedPieces, Program.IsBraceless, literalPiece]
    | succ depth ih =>
      intro q hq
      rcases List.mem_append.1 hq with hq | hq
      · rcases List.mem_cons.1 hq with rfl | hq
        · simp [Program.IsBraceless, Piece.sign]
        · exact ih q hq
      · obtain rfl := List.mem_singleton.1 hq
        simp [Program.IsBraceless, Piece.sign]
  have hspaces (n : Nat) : ∀ q ∈ List.replicate n (Piece.space ' '), Program.IsBraceless q := by
    intro q hq
    rw [List.eq_of_mem_replicate hq]
    simp [Program.IsBraceless, Piece.space]
  have hname : ∀ q ∈ [Piece.name "System", .sign .dot, .name "out", .sign .dot, .name "println"],
      Program.IsBraceless q := by
    simp [Program.IsBraceless, Piece.name, Piece.sign]
  have hend : ∀ q ∈ [Piece.sign .semicolon, .space '\n'], Program.IsBraceless q := by
    simp [Program.IsBraceless, Piece.sign, Piece.space]
  rcases List.mem_cons.1 h with rfl | h
  · simp [Program.IsBraceless, Piece.space]
  rcases List.mem_append.1 h with h | h
  · obtain ⟨item, -, hq⟩ := List.mem_flatMap.1 h
    rcases List.mem_append.1 hq with hq | hq
    · exact hspaces 8 q hq
    rcases List.mem_append.1 hq with hq | hq
    · exact hname q hq
    rcases List.mem_append.1 hq with hq | hq
    · exact hparens _ _ q hq
    · exact hend q hq
  · exact hspaces 4 q h

/-! ## The snippet -/

/-- The line that prints a text: a call with the literal of the text in parentheses. -/
def printLine (s : String) (depth : Nat) : List Char :=
  "System.out.println(".toList ++ List.replicate depth '(' ++ literal s.toList ++
    List.replicate depth ')' ++ ");".toList

theorem printLine_eq (s : String) (depth : Nat) :
    printLine s depth = printCall s.toList depth ++ [';'] := by
  have h : printLine s depth = callName ++ ['('] ++ List.replicate depth '(' ++
      literal s.toList ++ List.replicate depth ')' ++ [')', ';'] := rfl
  rw [h, printCall, parenthesized_succ, parenthesized]
  simp only [List.append_assoc, List.cons_append, List.nil_append]

theorem trim_printLine (s : String) (depth : Nat) :
    trim (printLine s depth) = printLine s depth := by
  refine trim_eq_self ?_ ?_
  · rw [printLine_eq, List.head?_append, head?_printCall]
    simp [isSpace]
  · rw [printLine_eq, List.getLast?_concat]
    simp [isSpace]

theorem isImport_printLine (s : String) (depth : Nat) :
    Program.isImport (printLine s depth) = false := by
  rw [Program.isImport, trim_printLine, printLine_eq]
  rfl

theorem isBlank_printLine (s : String) (depth : Nat) : isBlank (printLine s depth) = false := by
  have hS : isSpace 'S' = false := by decide
  rw [printLine_eq, printCall, callName_eq, isBlank, List.cons_append, List.cons_append,
    List.all_cons, hS, Bool.false_and]

/-- The letter `c` is not in the code of lines that print texts. -/
theorem not_mem_classify_printLines {parts : List (List Char)} {items : List (String × Nat)}
    (h : List.Forall₂ (fun part item => ∃ b ∈ lineBreaks, part = printLine item.1 item.2 ++ b)
      parts items) : ('c', .code) ∉ classify .code parts.flatten := by
  induction h with
  | nil => simp [classify]
  | @cons part item parts items hpart _ ih =>
    obtain ⟨b, hb, rfl⟩ := hpart
    have hname : callName.all isPlain = true := by decide
    have hend : (';' :: b).all isPlain = true := by
      simp only [lineBreaks, List.mem_cons, List.not_mem_nil, or_false] at hb
      rcases hb with rfl | rfl | rfl <;> decide
    have hassoc : ((printLine item.1 item.2 ++ b) :: parts).flatten =
        callName ++ (parenthesized (item.2 + 1) (literal item.1.toList) ++
          ((';' :: b) ++ parts.flatten)) := by
      rw [List.flatten_cons, printLine_eq, printCall]
      simp only [List.append_assoc, List.cons_append, List.nil_append]
    have hcallName : 'c' ∉ callName := by decide
    have hbreak : 'c' ∉ ';' :: b := by
      simp only [lineBreaks, List.mem_cons, List.not_mem_nil, or_false] at hb
      rcases hb with rfl | rfl | rfl <;> decide
    rw [hassoc, classify_append_of_isPlain hname, classify_parenthesized_literal,
      classify_append_of_isPlain hend]
    simp only [List.mem_append, List.mem_map, List.mem_replicate, Prod.mk.injEq, not_or]
    refine ⟨?_, ?_, ?_, ?_, ?_, ih⟩
    · rintro ⟨c, hc, rfl, -⟩
      exact hcallName hc
    · simp
    · rintro ⟨c, -, -, hcls⟩
      simp at hcls
    · simp
    · rintro ⟨c, hc, rfl, -⟩
      exact hbreak hc

section Snippet

variable {snippet : List Char} {items : List (String × Nat)}
  (hlines : lines snippet = items.map fun item => printLine item.1 item.2)

include hlines

theorem findWords?_of_prints {word : List Char} (hword : 'c' ∈ word) (words : List (List Char)) :
    findWords? (word :: words) snippet = none := by
  refine findWords?_eq_none hword (by decide) (by decide) ?_ words
  rw [← flatten_linesWithBreaks snippet]
  have hparts : List.Forall₂ (fun part item => dropBreak part = printLine item.1 item.2)
      (linesWithBreaks snippet) items := by
    rw [lines] at hlines
    have heq := List.forall₂_eq_eq_eq ▸ hlines
    rwa [List.forall₂_map_left_iff, List.forall₂_map_right_iff] at heq
  have hbreaks : List.Forall₂ (fun part item => ∃ b ∈ lineBreaks,
      part = printLine item.1 item.2 ++ b) (linesWithBreaks snippet) items := by
    refine hparts.imp fun part item hpart => ?_
    obtain ⟨b, hb, heq⟩ := eq_dropBreak_append part
    exact ⟨b, hb, by rw [← hpart]; exact heq⟩
  exact not_mem_classify_printLines hbreaks

/-- **Lines that print texts become the body of a `main`.** -/
theorem text_ofSnippet_of_prints :
    (Program.ofSnippet snippet).text = spell (Program.programPieces (bodyPieces items)) := by
  have hpublic : Program.publicClass? snippet = none := by
    rw [Program.publicClass?, findWords?_of_prints hlines (by decide)]
    rfl
  have htype : Program.mainType? snippet = none := by
    rw [Program.mainType?, findWords?_of_prints hlines (by decide)]
    rfl
  have hmain : Program.hasMain snippet = false := by
    rw [Program.hasMain, findWords?_of_prints hlines (by decide)]
    rfl
  have himports : Program.importText (lines snippet) = [] := by
    have hfilter : (lines snippet).filter Program.isImport = [] := by
      rw [List.filter_eq_nil_iff, hlines]
      intro line hline
      obtain ⟨item, -, rfl⟩ := List.mem_map.1 hline
      simp [isImport_printLine]
    rw [Program.importText, hfilter]
    rfl
  have hbody : Program.bodyText "        ".toList (lines snippet) = items.flatMap (fun item =>
      List.replicate 8 ' ' ++ printCall item.1.toList item.2 ++ [';', '\n']) := by
    have hindent : "        ".toList = List.replicate 8 ' ' := rfl
    rw [hlines, Program.bodyText, List.flatMap_map, hindent]
    refine congrArg (items.flatMap ·) ?_
    funext item
    rw [isImport_printLine, isBlank_printLine, printLine_eq]
    simp only [Bool.or_self, Bool.false_eq_true, if_false, List.append_assoc, List.cons_append,
      List.nil_append]
  rw [Program.ofSnippet, hpublic, htype]
  refine (Program.textOf_wrapped_of_not_hasMain hmain).trans ?_
  rw [himports, hbody, Program.spell_programPieces, spell_bodyPieces]
  simp only [List.nil_append, List.append_assoc, List.cons_append]

/-- The statements of the program are the calls. -/
theorem fragments_ofSnippet_of_prints :
    ∃ line, (Program.ofSnippet snippet).fragments = Fragment.calls line items := by
  have hcuts := cuts_bodyPieces items ['\n', '}', '\n']
  have hline := Program.fragments_of_programPieces (text_ofSnippet_of_prints hlines) hcuts
    (Program.bracesBalanced_of_isBraceless fun q hq => isBraceless_of_mem_bodyPieces hq)
  obtain ⟨start', line', hcalls⟩ := Fragment.splitIn_calls items (List.replicate 4 ' ') 2 3
  have hend : Fragment.splitIn (Fragment.lineStart start' line')
      (classify .code (List.replicate 4 ' ')) = [] := rfl
  have hbreak (X : List Char) : classify .code ('\n' :: X) = ('\n', .code) :: classify .code X := by
    simp [classify, Mode.step]
  have hempty : Fragment.Pending.empty 2 = Fragment.lineStart 2 2 := rfl
  refine ⟨3, ?_⟩
  rw [hline, Fragment.split, Fragment.splitFrom_eq_splitIn, spell_bodyPieces, hbreak, hempty,
    Fragment.splitIn_newline, hcalls, hend, List.append_nil]

end Snippet

/-- The calls print the texts of their literals. -/
theorem forall₂_calls (line : Nat) (items : List (String × Nat)) :
    List.Forall₂ (fun f s => ∃ operand : Operand,
      Statement.read f = .print (some operand) ∧ ∀ env, operand.value env = .text s)
      (Fragment.calls line items) (items.map Prod.fst) := by
  induction items generalizing line with
  | nil => exact .nil
  | cons item items ih =>
    obtain ⟨s, depth⟩ := item
    obtain ⟨operand, hread, hvalue⟩ := read_printCall s.toList depth line
    rw [String.ofList_toList] at hvalue
    exact .cons ⟨operand, hread, hvalue⟩ (ih (line + 1))

/-- The text with the given lines has them. -/
theorem lines_printLines (items : List (String × Nat)) :
    lines (['\n'].intercalate (items.map fun item => printLine item.1 item.2)) =
      items.map fun item => printLine item.1 item.2 := by
  refine lines_intercalate fun line hline => ?_
  obtain ⟨item, -, rfl⟩ := List.mem_map.1 hline
  refine ⟨?_, ?_, ?_⟩
  · rw [printLine_eq]
    simp
  · have hname : '\n' ∉ callName := by decide
    have hliteral := newline_not_mem_literal item.1.toList
    rw [printLine_eq, printCall, parenthesized]
    simp [hname, hliteral, List.mem_replicate]
  · rw [printLine_eq, List.getLast?_concat]
    simp

/-- **A snippet every line of which prints a literal prints exactly the texts of the literals**,
whatever these hold and however many parentheses stand around them, if there is time and room. -/
theorem prints_literals (items : List (String × Nat)) (limits : Limits)
    (htime : limits.timeout ≠ 0)
    (hroom : (printedLines (items.map Prod.fst)).utf8ByteSize ≤ limits.outputBytes) :
    (∀ snippet, lines snippet = (items.map fun item => printLine item.1 item.2) →
      ∃ m, (Program.ofSnippet snippet).execute limits = .ok () m ∧
        m.console.text = printedLines (items.map Prod.fst) ∧
        (Program.ofSnippet snippet).interpret limits =
          .succeeded (printedLines (items.map Prod.fst)) .interpreter) ∧
      lines (['\n'].intercalate (items.map fun item => printLine item.1 item.2)) =
        items.map fun item => printLine item.1 item.2 := by
  refine ⟨fun snippet hlines => ?_, lines_printLines items⟩
  obtain ⟨line, hfragments⟩ := fragments_ofSnippet_of_prints hlines
  have hrun := Run.execAll_prints (m := .start limits) (forall₂_calls line items) htime
    (by simpa [Machine.start, Console.empty] using hroom)
  rw [← hfragments] at hrun
  refine ⟨_, hrun, ?_, ?_⟩
  · simp [Machine.start, Console.empty]
  · rw [Program.interpret, Program.execute, Program.statements]
    refine (congrArg (Program.outcomeOf _) hrun).trans ?_
    simp [Program.outcomeOf, Machine.start, Console.empty]

/-- Quotes, braces, the openings of comments and line breaks are printed as they are. -/
theorem prints_quote_and_comment :
    ∃ m, (Program.ofSnippet
        "System.out.println((\"a\\\"\x7b\"));\nSystem.out.println(\"// \x7d\\n\");".toList).execute
          ⟨0, 100, 1⟩ = .ok () m ∧ m.console.text = "a\"\x7b\n// \x7d\n\n" := by
  have hlines : lines
      "System.out.println((\"a\\\"\x7b\"));\nSystem.out.println(\"// \x7d\\n\");".toList =
        [("a\"\x7b", 1), ("// \x7d\n", 0)].map fun item => printLine item.1 item.2 := by
    decide
  obtain ⟨m, hrun, htext, -⟩ := (prints_literals [("a\"\x7b", 1), ("// \x7d\n", 0)] ⟨0, 100, 1⟩
    (by decide) (by decide)).1 _ hlines
  exact ⟨m, hrun, htext.trans (by decide)⟩

end SnippetRunner
