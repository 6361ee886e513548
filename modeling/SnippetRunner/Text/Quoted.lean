import SnippetRunner.Text.Unprintable

/-!
# Quoted characters and texts

How a message shows a character or a text: between quote marks, with a backslash before the quote
mark and the backslash, the short escapes `\t`, `\r`, `\n` and `\0`, and `\u{…}` for everything
that would not be seen or would change its neighbours (`isPrintable`).
-/

namespace SnippetRunner.Text

/-- The digits of a number in base sixteen, in lower case, without leading zeros. -/
def hexDigits (n : Nat) : List Char := Nat.toDigits 16 n

/-- A character inside a quotation with the given quote mark. -/
def escaped (mark c : Char) : List Char :=
  match c with
  | '\x00' => ['\\', '0']
  | '\t' => ['\\', 't']
  | '\r' => ['\\', 'r']
  | '\n' => ['\\', 'n']
  | '\\' => ['\\', '\\']
  | c =>
    if c = mark then ['\\', c]
    else if isPrintable c then [c]
    else ['\\', 'u', '{'] ++ hexDigits c.toNat ++ ['}']

/-- A character in single quote marks. -/
def quoteChar (c : Char) : String := String.ofList ('\'' :: escaped '\'' c ++ ['\''])

/-- A text in double quote marks. -/
def quoteString (s : String) : String :=
  String.ofList ('"' :: s.toList.flatMap (escaped '"') ++ ['"'])

end SnippetRunner.Text
