import SnippetRunner.Scan
import SnippetRunner.Token

/-!
# Balanced text

A snippet whose braces or parentheses do not add up, or with a literal that is left open, is not
worth a compiler. `checkBalance` counts them outside literals and comments. It only compares
totals: a bracket that closes before it was opened is left to the compiler.

A text block is passed over in one step, up to the next three quote marks.
-/

namespace SnippetRunner

open Text Scan

/-- What is out of balance in a text. -/
inductive Imbalance
  /-- A string literal is open at the end of a line. -/
  | unclosedString (line : Nat)
  /-- A character literal is open at the end of a line. -/
  | unclosedChar (line : Nat)
  | braces (opened closed : Nat)
  | parens (opened closed : Nat)
  deriving DecidableEq, Repr

namespace Imbalance

/-- The wording of an imbalance. -/
def message : Imbalance → String
  | unclosedString _ => "Unclosed string literal"
  | unclosedChar _ => "Unclosed character literal"
  | braces opened closed => s!"Mismatched braces: {opened} open, {closed} close"
  | parens opened closed => s!"Mismatched parentheses: {opened} open, {closed} close"

/-- The line of the text where the imbalance shows. -/
def line? : Imbalance → Option Nat
  | unclosedString line | unclosedChar line => some line
  | braces _ _ | parens _ _ => none

end Imbalance

/-- How many braces and parentheses of each side were met. -/
structure Tally where
  openBraces : Nat
  closeBraces : Nat
  openParens : Nat
  closeParens : Nat
  deriving DecidableEq, Repr

namespace Tally

/-- Nothing met yet. -/
def zero : Tally := ⟨0, 0, 0, 0⟩

/-- The tally after a character of code. -/
def count (t : Tally) (c : Char) : Tally :=
  match c with
  | '{' => { t with openBraces := t.openBraces + 1 }
  | '}' => { t with closeBraces := t.closeBraces + 1 }
  | '(' => { t with openParens := t.openParens + 1 }
  | ')' => { t with closeParens := t.closeParens + 1 }
  | _ => t

/-- What the totals say. -/
def imbalance? (t : Tally) : Option Imbalance :=
  if t.openBraces ≠ t.closeBraces then some (.braces t.openBraces t.closeBraces)
  else if t.openParens ≠ t.closeParens then some (.parens t.openParens t.closeParens)
  else none

end Tally

/-- The literal that is left open if a line ends in the given mode. -/
def Scan.Mode.leftOpen? (mode : Mode) (line : Nat) : Option Imbalance :=
  if mode.inString then some (.unclosedString line)
  else if mode.inChar then some (.unclosedChar line)
  else none

/-- Counts the brackets of a text from a line and a mode on. -/
def tallyFrom (line : Nat) (mode : Mode) (tally : Tally) : List Char → Except Imbalance Tally
  | [] =>
    match mode.leftOpen? line with
    | some open_ => .error open_
    | none => .ok tally
  | c :: cs =>
    if mode = .code ∧ blockMark.isPrefixOf (c :: cs) then
      match _found : breakOn? blockMark (cs.drop 2) with
      | none => .error (.unclosedString line)
      | some (inside, rest) => tallyFrom (line + newlines inside) .code tally (rest.drop 3)
    else if c = '\n' then
      match mode.leftOpen? line with
      | some open_ => .error open_
      | none => tallyFrom (line + 1) (mode.step c cs.head?).2 tally cs
    else
      match mode.step c cs.head? with
      | (.code, mode') => tallyFrom line mode' (tally.count c) cs
      | (_, mode') => tallyFrom line mode' tally cs
  termination_by cs => cs.length
  decreasing_by
    · have := congrArg List.length (append_of_breakOn? _found)
      simp only [List.length_append, List.length_drop, List.length_cons] at this ⊢
      omega
    all_goals simp

/-- What is out of balance in a text, if anything. -/
def checkBalance (text : List Char) : Option Imbalance :=
  match tallyFrom 1 .code .zero text with
  | .error imbalance => some imbalance
  | .ok tally => tally.imbalance?

end SnippetRunner
