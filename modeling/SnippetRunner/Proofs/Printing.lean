import SnippetRunner.Proofs.Derivations
import SnippetRunner.Proofs.Literals
import SnippetRunner.Proofs.Ending

/-!
# Printing a literal

The statement that prints a string literal in parentheses (`printCall`), from its text to its
effect:

* the text between the parentheses of the call is found, whatever the literal holds
  (`printCall?_printCall`);
* parentheses around a literal do not change what it is read as (`Grouped.derives`);
* so the statement prints the text of the literal (`read_printCall`, `execAll_prints`).
-/

namespace SnippetRunner

open Text Scan Lexer Grammar

/-- A text in parentheses. -/
def parenthesized (depth : Nat) (cs : List Char) : List Char :=
  List.replicate depth '(' ++ cs ++ List.replicate depth ')'

theorem parenthesized_succ (depth : Nat) (cs : List Char) :
    parenthesized (depth + 1) cs = '(' :: parenthesized depth cs ++ [')'] := by
  rw [parenthesized, List.replicate_succ, List.replicate_succ', parenthesized]
  simp

/-- The name of the method that prints a line. -/
def callName : List Char := "System.out.println".toList

/-- The call that prints a string literal in parentheses. -/
def printCall (s : List Char) (depth : Nat) : List Char :=
  callName ++ parenthesized (depth + 1) (literal s)

theorem callName_eq : callName = 'S' :: callName.tail := rfl

theorem head?_printCall (s : List Char) (depth : Nat) :
    (printCall s depth).head? = some 'S' := rfl

theorem getLast?_printCall (s : List Char) (depth : Nat) :
    (printCall s depth).getLast? = some ')' := by
  rw [printCall, parenthesized_succ, List.getLast?_append, List.getLast?_concat]
  rfl

/-! ## The text between the parentheses -/

/-- What the scanner sees of a literal in parentheses. -/
theorem classify_parenthesized_literal (depth : Nat) (s rest : List Char) :
    classify .code (parenthesized depth (literal s) ++ rest) =
      List.replicate depth ('(', .code) ++ ((literal s).map (·, .literal) ++
        (List.replicate depth (')', .code) ++ classify .code rest)) := by
  have hplain (c : Char) (hc : isPlain c = true) :
      (List.replicate depth c).all isPlain = true := by
    rw [List.all_replicate, hc]
    exact ite_self true
  rw [parenthesized, List.append_assoc, List.append_assoc,
    classify_append_of_isPlain (hplain '(' rfl), classify_literal,
    classify_append_of_isPlain (hplain ')' rfl), List.map_replicate, List.map_replicate]

theorem closing?_parenthesized_literal (depth : Nat) (s : List Char) :
    closing? '(' ')' (parenthesized (depth + 1) (literal s)) =
      some (parenthesized depth (literal s), []) := by
  have hhead : (parenthesized (depth + 1) (literal s)).head? = some '(' := by
    rw [parenthesized_succ]
    rfl
  have hclass := classify_parenthesized_literal (depth + 1) s []
  rw [List.append_nil] at hclass
  have hclose : List.replicate (depth + 1) (')', CharClass.code) ++ classify .code [] =
      List.replicate depth (')', CharClass.code) ++ [(')', CharClass.code)] := by
    rw [List.replicate_succ', classify, List.append_nil]
  have hlast : closeIn '(' ')' 1 [(')', CharClass.code)] = some ([], [')']) := by decide
  rw [closing?, if_pos hhead, closeFrom_eq_closeIn, hclass, closeIn_replicate_opener,
    closeIn_append (by simp), hclose, show 0 + (depth + 1) = 1 + depth by omega,
    closeIn_replicate_closer (by decide) (by decide), hlast]
  simp [parenthesized, List.replicate_succ, Function.comp_def]

/-- **The text between the parentheses of the call is found.** -/
theorem printCall?_printCall (s : List Char) (depth : Nat) :
    Statement.printCall? (printCall s depth) =
      some (false, parenthesized depth (literal s)) := by
  have hlead : afterLead? "System.out.".toList (printCall s depth) =
      some ("println".toList ++ parenthesized (depth + 1) (literal s)) := rfl
  have hname : ("println".toList ++ parenthesized (depth + 1) (literal s)).takeWhile
      Char.isAlphanum = "println".toList := by
    rw [parenthesized_succ]
    rfl
  have htrim : trimStart (parenthesized (depth + 1) (literal s)) =
      parenthesized (depth + 1) (literal s) := by
    refine trimStart_eq_self ?_
    rw [parenthesized_succ]
    simp [isSpace]
  have hdrop : ("println".toList ++ parenthesized (depth + 1) (literal s)).drop
      "println".toList.length = parenthesized (depth + 1) (literal s) := List.drop_left
  simp only [Statement.printCall?, hlead, Option.bind_eq_bind, Option.bind_some, hname, hdrop,
    htrim, closing?_parenthesized_literal]
  rfl

/-! ## Parentheses around an expression -/

namespace ExprParser

/-- `Grouped core depth ts`: the tokens `ts` are `core` within `depth` pairs of parentheses. -/
inductive Grouped (core : Lexeme) : Nat → List Lexeme → Prop
  | core : Grouped core 0 [core]
  | group {depth : Nat} {ts : List Lexeme} (opening closing : Span) : Grouped core depth ts →
      Grouped core (depth + 1) (⟨.sign .lparen, opening⟩ :: ts ++ [⟨.sign .rparen, closing⟩])

variable {core : Lexeme} {value : Literal} {depth : Nat} {ts : List Lexeme}

/-- **Parentheses do not change what a literal is read as.** -/
theorem Grouped.derives (h : Grouped core depth ts) (hcore : literal? core.token = some value) :
    ∃ span, Derives (.expr 9 (.literal value span)) ts := by
  induction h with
  | core => exact ⟨core.span, .literal hcore⟩
  | @group depth ts opening closing hts ih =>
    have hcast : castAt? (⟨.sign .lparen, opening⟩ :: ts ++ [⟨.sign .rparen, closing⟩]) = none := by
      obtain ⟨token, span⟩ := core
      cases hts with
      | core =>
        cases token with
        | ident name => simp [literal?] at hcore
        | _ => rfl
      | group => rfl
    obtain ⟨span, hderives⟩ := ih
    exact ⟨opening.through closing,
      .group (hderives.mono (Nat.zero_le 9) (Nat.le_refl 9)) hcast⟩

/-- A text whose tokens are a literal in parentheses is read as the literal. -/
theorem Grouped.whole (h : Grouped core depth ts) (hcore : literal? core.token = some value)
    (stop : Span) : ∃ span, ExprParser.whole ⟨ts, stop⟩ = .ok (.literal value span) := by
  obtain ⟨span, hderives⟩ := h.derives hcore
  exact ⟨span, whole_of_derives (hderives.mono (Nat.zero_le 9) (Nat.le_refl 9))⟩

end ExprParser

/-! ## The operand -/

/-- The piece that is a string literal. -/
def literalPiece (s : List Char) : Piece := ⟨literal s, some (.string (String.ofList s))⟩

/-- The pieces of a string literal in parentheses. -/
def parenthesizedPieces : (depth : Nat) → (s : List Char) → List Piece
  | 0, s => [literalPiece s]
  | depth + 1, s => .sign .lparen :: parenthesizedPieces depth s ++ [.sign .rparen]

@[simp] theorem spell_parenthesizedPieces (depth : Nat) (s : List Char) :
    spell (parenthesizedPieces depth s) = parenthesized depth (literal s) := by
  induction depth with
  | zero => simp [parenthesizedPieces, spell, literalPiece, parenthesized]
  | succ depth ih =>
    rw [parenthesizedPieces, spell_append, parenthesized_succ, ← ih]
    rfl

/-- A literal in parentheses is cut into its pieces, in front of whatever is no quote mark. -/
theorem cuts_parenthesizedPieces (depth : Nat) (s : List Char) {X : List Char}
    (hX : X.head? ≠ some '"') :
    Cuts (spell (parenthesizedPieces depth s) ++ X) (parenthesizedPieces depth s) X := by
  induction depth generalizing X with
  | zero =>
    have hstep : step '"' ((literalBody s ++ ['"']) ++ (spell [] ++ X)) =
        .token (.string (String.ofList s)) (literalBody s ++ ['"']).length := by
      simpa [spell] using step_literal s hX
    exact .cons_token hstep (.nil X)
  | succ depth ih =>
    have hinner := ih (X := spell [.sign .rparen] ++ X) (by simp [spell, Piece.sign, Sign.text])
    exact .cons_token rfl (.spell_append hinner (.cons_token rfl (.nil X)))

theorem grouped_place (p : Position) (depth : Nat) (s : List Char) :
    ∃ span, ExprParser.Grouped ⟨.string (String.ofList s), span⟩ depth
      (place p (parenthesizedPieces depth s)) := by
  induction depth generalizing p with
  | zero => exact ⟨_, .core⟩
  | succ depth ih =>
    obtain ⟨span, hspan⟩ := ih (p.after Sign.lparen.text.toList)
    refine ⟨span, ?_⟩
    rw [parenthesizedPieces, List.cons_append, place_cons_sign, place_append]
    exact .group _ _ hspan

/-- A string literal in parentheses is read as the literal. -/
theorem parse_parenthesized_literal (depth : Nat) (s : List Char) :
    ∃ span, Expr.parse (parenthesized depth (literal s)) =
      .ok (.literal (.string (String.ofList s)) span) := by
  have hcuts := cuts_parenthesizedPieces depth s (X := []) (by simp)
  rw [List.append_nil, spell_parenthesizedPieces] at hcuts
  obtain ⟨span, hspan⟩ := grouped_place .start depth s
  simp only [Expr.parse, lex_of_cuts hcuts]
  exact hspan.whole rfl _

theorem head?_parenthesized_literal (depth : Nat) (s : List Char) :
    ∃ c rest, parenthesized depth (literal s) = c :: rest ∧ isSpace c = false := by
  cases depth with
  | zero => exact ⟨'"', _, by simp [parenthesized, literal]; rfl, by decide⟩
  | succ depth => exact ⟨'(', _, by rw [parenthesized_succ]; rfl, by decide⟩

theorem getLast?_parenthesized_literal (depth : Nat) (s : List Char) :
    ∃ c, (parenthesized depth (literal s)).getLast? = some c ∧ isSpace c = false := by
  cases depth with
  | zero =>
    have h : parenthesized 0 (literal s) = ('"' :: literalBody s) ++ ['"'] := by
      simp [parenthesized, literal]
    exact ⟨'"', by rw [h, List.getLast?_concat], by decide⟩
  | succ depth => exact ⟨')', by rw [parenthesized_succ, List.getLast?_concat], by decide⟩

theorem trim_parenthesized_literal (depth : Nat) (s : List Char) :
    trim (parenthesized depth (literal s)) = parenthesized depth (literal s) := by
  obtain ⟨c, rest, hhead, hc⟩ := head?_parenthesized_literal depth s
  obtain ⟨d, hlast, hd⟩ := getLast?_parenthesized_literal depth s
  refine trim_eq_self ?_ ?_
  · simpa [hhead] using hc
  · simpa [hlast] using hd

/-! ## The statement -/

/-- **The call is read as a statement that prints the text of the literal.** -/
theorem read_printCall (s : List Char) (depth line : Nat) :
    ∃ operand : Operand, Statement.read ⟨printCall s depth, line⟩ = .print (some operand) ∧
      ∀ env, operand.value env = .text (String.ofList s) := by
  obtain ⟨c, rest, hhead, hc⟩ := head?_parenthesized_literal depth s
  obtain ⟨span, hparse⟩ := parse_parenthesized_literal depth s
  have hblank : isBlank (parenthesized depth (literal s)) = false := by simp [hhead, isBlank, hc]
  refine ⟨Operand.ofText (parenthesized depth (literal s)), ?_, fun env => ?_⟩
  · simp [Statement.read, Statement.readTo, printCall?_printCall, Statement.operand?, hblank]
  · simp only [Operand.ofText, trim_parenthesized_literal, hparse, Operand.value]
    rfl

/-! ## The run -/

/-- The lines that are printed for texts. -/
def printedLines (texts : List String) : String := String.join (texts.map (· ++ "\n"))

theorem printedLines_cons (s : String) (texts : List String) :
    printedLines (s :: texts) = s ++ "\n" ++ printedLines texts := by
  simp [printedLines, String.join_cons]

namespace Run

/-- A line that fits is printed. -/
theorem printLine_of_fits {line : String} {m : Machine}
    (h : m.console.text.utf8ByteSize + line.utf8ByteSize + 1 ≤ m.console.limit) :
    printLine line m =
      .ok () { m with console := ⟨m.console.text ++ line ++ "\n", m.console.limit⟩ } := by
  have hprint : m.console.print line =
      (⟨m.console.text ++ line ++ "\n", m.console.limit⟩, none) := by
    rw [Console.print, if_neg (by omega), String.push_eq_append]
    rfl
  simp only [printLine, bind_apply, modifyGet, MonadStateOf.modifyGet, EStateM.modifyGet, hprint]
  rfl

/-- **Statements that print texts print them line by line**, if there is time and room. -/
theorem execAll_prints {fs : List Fragment} {texts : List String} {m : Machine}
    (hfs : List.Forall₂ (fun f s => ∃ operand : Operand,
      Statement.read f = .print (some operand) ∧ ∀ env, operand.value env = .text s) fs texts)
    (htime : m.limits.timeout ≠ 0)
    (hroom : m.console.text.utf8ByteSize + (printedLines texts).utf8ByteSize ≤ m.console.limit) :
    execAll (fs.map Statement.read) m =
      .ok () { m with console := ⟨m.console.text ++ printedLines texts, m.console.limit⟩ } := by
  induction hfs generalizing m with
  | nil =>
    obtain ⟨env, ⟨text, limit⟩, limits⟩ := m
    simp [printedLines, execAll, pure, EStateM.pure]
  | @cons f s fs texts hf _ ih =>
    obtain ⟨operand, hread, hvalue⟩ := hf
    have hsize : (printedLines (s :: texts)).utf8ByteSize =
        s.utf8ByteSize + 1 + (printedLines texts).utf8ByteSize := by
      rw [printedLines_cons, String.utf8ByteSize_append, String.utf8ByteSize_append]
      rfl
    rw [hsize] at hroom
    let m' : Machine :=
      { m with console := ⟨m.console.text ++ s ++ "\n", m.console.limit⟩ }
    have hline : printLine s m = .ok () m' := printLine_of_fits (by omega)
    have hexec : exec (Statement.read f) m = .ok () m' := by
      rw [hread]
      simp only [exec, bind_apply, checkDeadline_of_timeout_ne_zero htime]
      simp only [get, getThe, MonadStateOf.get, EStateM.get, hvalue, Value.render, hline]
    have hroom' : m'.console.text.utf8ByteSize + (printedLines texts).utf8ByteSize ≤
        m'.console.limit := by
      have hbreak : "\n".utf8ByteSize = 1 := rfl
      simp only [m', String.utf8ByteSize_append]
      omega
    have hrest := ih (m := m') htime hroom'
    simp only [List.map_cons, execAll, bind_apply, hexec]
    refine hrest.trans ?_
    simp only [m', printedLines_cons, String.append_assoc]

end Run

end SnippetRunner
