import SnippetRunner.Decimal.Reading
import SnippetRunner.Text.Class
import SnippetRunner.Token

/-!
# From text to tokens

`lex` cuts a text into tokens and drops white space and comments. What stands at the head of a
text is decided by `step`, which says how many characters it takes beyond the first: a token, a
stretch without meaning, or a fault. So each step makes the text shorter, and its place is that of
the characters it takes.

A reader of a literal gets the characters behind the first one. It returns the payload and how
many of them belong to the literal, and in case of a fault how many it went through to find it.
-/

namespace SnippetRunner

open Text

/-- Why a text is not made of tokens. -/
inductive LexFault
  | unexpected (c : Char)
  | unterminatedString
  | unterminatedBlock
  | unterminatedComment
  | emptyChar
  | unclosedChar
  | endInChar
  | endInEscape
  | unknownEscape (c : Char)
  | incompleteUnicode
  /-- Four hexadecimal digits that name half of a surrogate pair. -/
  | invalidUnicode (digits : String)
  | invalidHex (digits : String)
  | wideHex (digits : String)
  | invalidInteger (digits : String)
  deriving DecidableEq, Repr

/-- The wording of a fault. -/
def LexFault.message : LexFault → String
  | unexpected c => "Unexpected character: '" ++ c.toString ++ "'"
  | unterminatedString => "Unterminated string literal"
  | unterminatedBlock => "Unterminated text block"
  | unterminatedComment => "Unterminated block comment"
  | emptyChar => "Empty character literal"
  | unclosedChar => "Expected closing quote in character literal"
  | endInChar => "Unexpected end of input in character literal"
  | endInEscape => "Unexpected end of input in escape sequence"
  | unknownEscape c => "Unknown escape sequence: \\" ++ c.toString
  | incompleteUnicode => "Incomplete unicode escape"
  | invalidUnicode digits => "Invalid unicode escape: \\u" ++ digits
  | invalidHex digits => "Invalid hex literal: 0x" ++ digits
  | wideHex digits => "Hex literal does not fit in an int: 0x" ++ digits
  | invalidInteger digits => "Invalid integer literal: " ++ digits

/-- A fault and the text from the start of the token to where it was found. -/
structure LexError where
  fault : LexFault
  span : Span
  deriving DecidableEq, Repr

/-- The message of a lexical error with its place. -/
def LexError.message (e : LexError) : String :=
  s!"Lexer error at line {e.span.line}, column {e.span.column}: " ++ e.fault.message

namespace Lexer

/-- A payload and the number of characters read, or a fault and the number of characters read. -/
abbrev Reading (α : Type) := Except (LexFault × Nat) (α × Nat)

/-! ## Escapes and quoted literals -/

/-- The characters that an escape of one letter stands for. -/
def simpleEscape? : Char → Option Char
  | 'n' => some '\n'
  | 't' => some '\t'
  | 'r' => some '\r'
  | 'b' => some '\x08'
  | 'f' => some '\x0c'
  | 's' => some ' '
  | '0' => some '\x00'
  | '\\' => some '\\'
  | '"' => some '"'
  | '\'' => some '\''
  | _ => none

/-- Reads what follows the `u` of an escape: more of that letter, and four hexadecimal digits. -/
def unicodeEscape (cs : List Char) : Reading Char :=
  let marks := (cs.takeWhile (· = 'u')).length
  let digits := ((cs.drop marks).take 4).takeWhile isHexDigit
  if digits.length < 4 then
    -- the character that is no digit has been read as well, if there is one
    let read := marks + digits.length
    .error (.incompleteUnicode, if read < cs.length then read + 1 else read)
  else
    let code := Decimal.digitsValue 16 digits
    if code.isValidChar then .ok (Char.ofNat code, marks + 4)
    else .error (.invalidUnicode (String.ofList digits), marks + 4)

/-- Reads what follows a backslash. -/
def escape : List Char → Reading Char
  | [] => .error (.endInEscape, 0)
  | 'u' :: cs =>
    match unicodeEscape cs with
    | .ok (c, n) => .ok (c, n + 1)
    | .error (fault, n) => .error (fault, n + 1)
  | c :: _ =>
    match simpleEscape? c with
    | some value => .ok (value, 1)
    | none => .error (.unknownEscape c, 1)

/-- Reads a string literal behind its opening quote mark; `n` characters and the reversed payload
`read` lie behind. -/
def stringBody (read : List Char) (n : Nat) : List Char → Reading Token
  | [] => .error (.unterminatedString, n)
  | c :: cs =>
    if c = '"' then .ok (.string (String.ofList read.reverse), n + 1)
    else if c = '\n' then .error (.unterminatedString, n)
    else if c = '\\' then
      match escape cs with
      | .ok (value, k) => stringBody (value :: read) (n + 1 + k) (cs.drop k)
      | .error (fault, k) => .error (fault, n + 1 + k)
    else stringBody (c :: read) (n + 1) cs
  termination_by cs => cs.length
  decreasing_by all_goals simp only [List.length_drop, List.length_cons]; omega

/-- Reads a character literal behind its opening quote mark. -/
def charBody : List Char → Reading Token
  | [] => .error (.endInChar, 0)
  | c :: cs =>
    if c = '\'' ∨ c = '\n' then .error (.emptyChar, 1)
    else
      match if c = '\\' then escape cs else .ok (c, 0) with
      | .error (fault, n) => .error (fault, n + 1)
      | .ok (value, n) =>
        if (cs.drop n).head? = some '\'' then .ok (.char value, n + 2)
        else .error (.unclosedChar, n + 1)

/-! ## Text blocks -/

/-- The size in bytes of the white space a line starts with. -/
def indentation (line : List Char) : Nat := byteSize line - byteSize (trimStart line)

/-- The indentation that all lines share, blank ones aside. -/
def commonIndentation (raw : List Char) : Nat :=
  (((lines raw).filter fun line => !isBlank line).map indentation).min?.getD 0

/-- A line without its first `indent` bytes, which include the break of a blank line that is
shorter; all its leading white space goes where the cut falls on something else. -/
def unindentLine (indent : Nat) (line : List Char) : List Char :=
  match cut? (min (byteSize line) indent) line with
  | some (lead, rest) => if isBlank lead then rest else trimStart line
  | none => trimStart line

/-- A text without what follows the last line break, if that is blank. -/
def dropBlankEnd (cs : List Char) : List Char :=
  let tail := (cs.reverse.takeWhile (· ≠ '\n')).reverse
  if cs.contains '\n' && isBlank tail then cs.take (cs.length - tail.length) else cs

/-- The content of a text block: without the indentation its lines share, and without that of the
closing delimiter on a line of its own. -/
def stripIndentation (raw : List Char) : List Char :=
  dropBlankEnd ((linesWithBreaks raw).map (unindentLine (commonIndentation raw))).flatten

/-- Reads the content of a text block and its closing delimiter. -/
def blockBody (read : List Char) (n : Nat) : List Char → Reading Token
  | [] => .error (.unterminatedBlock, n)
  | c :: cs =>
    if c = '"' ∧ cs.take 2 = ['"', '"'] then
      .ok (.string (String.ofList (stripIndentation read.reverse)), n + 3)
    else if c = '\\' then
      match escape cs with
      | .ok (value, k) => blockBody (value :: read) (n + 1 + k) (cs.drop k)
      | .error (fault, k) => .error (fault, n + 1 + k)
    else blockBody (c :: read) (n + 1) cs
  termination_by cs => cs.length
  decreasing_by all_goals simp only [List.length_drop, List.length_cons]; omega

/-- The number of characters up to the end of the line, the break included. -/
def throughBreak : List Char → Nat
  | [] => 0
  | c :: cs => if c = '\n' then 1 else throughBreak cs + 1

/-- Reads a string literal or a text block behind its first quote mark. The content of a block
starts on the line after the opening delimiter. -/
def quoted (cs : List Char) : Reading Token :=
  if cs.take 2 = ['"', '"'] then
    let opening := 2 + throughBreak (cs.drop 2)
    blockBody [] opening (cs.drop opening)
  else stringBody [] 0 cs

/-! ## Numbers -/

/-- The characters at the head that are digits or separators. -/
def digitRun (isDigit : Char → Bool) (cs : List Char) : List Char :=
  cs.takeWhile fun c => isDigit c || c = '_'

/-- The digits of a run without its separators. -/
def digitsOnly (run : List Char) : List Char := run.filter (· ≠ '_')

/-- Whether a suffix of the given letters stands at the head. -/
def hasSuffix (letters : List Char) (cs : List Char) : Bool :=
  cs.head?.any fun c => letters.contains c

/-- Reads a hexadecimal literal behind its `0x`. The digits spell a pattern of bits, 64 of them
with the suffix `L` and 32 without. -/
def hexBody (cs : List Char) : Reading Token :=
  let run := digitRun isHexDigit cs
  let digits := digitsOnly run
  let long := hasSuffix ['l', 'L'] (cs.drop run.length)
  let n := run.length + if long then 1 else 0
  let value := Decimal.digitsValue 16 digits
  if digits.isEmpty ∨ value ≥ UInt64.size then .error (.invalidHex (String.ofList digits), n)
  else if long then .ok (.long (Int.bmod value UInt64.size), n)
  else if value ≥ UInt32.size then .error (.wideHex (String.ofList digits), n)
  else .ok (.int (Int.bmod value UInt32.size), n)

/-- The fraction at the head of a text: a point and a run that starts with a digit. -/
def fractionRun (cs : List Char) : List Char :=
  match cs with
  | '.' :: d :: rest => if d.isDigit then '.' :: digitRun Char.isDigit (d :: rest) else []
  | _ => []

/-- The exponent at the head of a text: a letter, perhaps a sign, and a run that starts with a
digit. -/
def exponentRun (cs : List Char) : List Char :=
  match cs with
  | e :: rest =>
    let sign := rest.takeWhile fun c => c = '+' || c = '-'
    let digits := rest.drop sign.length
    if (e = 'e' ∨ e = 'E') ∧ sign.length ≤ 1 ∧ digits.head?.any Char.isDigit then
      e :: sign ++ digitRun Char.isDigit digits
    else []
  | [] => []

/-- The power of ten that an exponent spells. -/
def exponentValue (run : List Char) : Int :=
  let value : Int := Decimal.digitsValue 10 (run.filter Char.isDigit)
  if run.contains '-' then -value else value

/-- Reads a number behind its first digit. A fraction, an exponent or a suffix `f` or `d` makes it
a double, the suffix `L` a long, which means nothing behind a double. -/
def number (first : Char) (cs : List Char) : Reading Token :=
  if first = '0' ∧ hasSuffix ['x', 'X'] cs then
    match hexBody (cs.drop 1) with
    | .ok (token, n) => .ok (token, n + 1)
    | .error (fault, n) => .error (fault, n + 1)
  else
    let whole := digitRun Char.isDigit cs
    let fraction := fractionRun (cs.drop whole.length)
    let exponent := exponentRun (cs.drop (whole.length + fraction.length))
    let body := whole.length + fraction.length + exponent.length
    let rest := cs.drop body
    let floating := hasSuffix ['f', 'F', 'd', 'D'] rest
    let long := hasSuffix ['l', 'L'] rest
    let n := body + if floating || long then 1 else 0
    let digits := first :: digitsOnly whole
    if floating || !fraction.isEmpty || !exponent.isEmpty then
      .ok (.double (Decimal.ofParts digits (digitsOnly (fraction.drop 1))
        (exponentValue exponent)), n)
    else
      let value := Decimal.digitsValue 10 digits
      if value ≥ 0x8000000000000000 then .error (.invalidInteger (String.ofList digits), n)
      else .ok (if long then .long value else .int value, n)

/-! ## One step -/

/-- Reads an identifier or a reserved word behind its first character. -/
def word (first : Char) (cs : List Char) : Token × Nat :=
  let rest := cs.takeWhile isIdentPart
  let name := String.ofList (first :: rest)
  (match Keyword.ofText? name with
    | some k => .keyword k
    | none => .ident name, rest.length)

/-- The number of characters of a block comment behind its opening delimiter, the closing one
included. -/
def commentLength? : List Char → Option Nat
  | [] => none
  | c :: cs =>
    if c = '*' ∧ cs.head? = some '/' then some 2 else (commentLength? cs).map (· + 1)

/-- What stands at the head of a text. The number counts the characters behind the first. -/
inductive Step
  | blank (n : Nat)
  | token (token : Token) (n : Nat)
  | fault (fault : LexFault) (n : Nat)

/-- The step that a reading stands for. -/
def Step.ofReading : Reading Token → Step
  | .ok (t, n) => .token t n
  | .error (why, n) => .fault why n

/-- Decides what stands at the head of the text `c :: cs`. -/
def step (c : Char) (cs : List Char) : Step :=
  if isSpace c then .blank 0
  else if c = '/' ∧ cs.head? = some '/' then .blank (throughBreak cs)
  else if c = '/' ∧ cs.head? = some '*' then
    match commentLength? (cs.drop 1) with
    | some n => .blank (n + 1)
    | none => .fault .unterminatedComment cs.length
  else if c = '"' then .ofReading (quoted cs)
  else if c = '\'' then .ofReading (charBody cs)
  else if c.isDigit then .ofReading (number c cs)
  else if isIdentStart c then
    let (t, n) := word c cs
    .token t n
  else
    match Sign.read? (c :: cs) with
    | some s => .token (.sign s) (s.text.length - 1)
    | none => .fault (.unexpected c) 0

/-- The tokens of a text that starts at the position, and the position of its end. -/
def lexFrom (p : Position) : List Char → Except LexError (List Lexeme × Position)
  | [] => .ok ([], p)
  | c :: cs =>
    match step c cs with
    | .blank n => lexFrom (p.after (c :: cs.take n)) (cs.drop n)
    | .fault why n => .error ⟨why, Span.ofText p (c :: cs.take n)⟩
    | .token t n =>
      match lexFrom (p.after (c :: cs.take n)) (cs.drop n) with
      | .ok (lexemes, stop) => .ok (⟨t, Span.ofText p (c :: cs.take n)⟩ :: lexemes, stop)
      | .error e => .error e
  termination_by cs => cs.length
  decreasing_by all_goals simp only [List.length_drop, List.length_cons]; omega

theorem lexFrom_nil (p : Position) : lexFrom p [] = .ok ([], p) := by
  unfold lexFrom
  rfl

theorem lexFrom_cons (p : Position) (c : Char) (cs : List Char) :
    lexFrom p (c :: cs) =
      match step c cs with
      | .blank n => lexFrom (p.after (c :: cs.take n)) (cs.drop n)
      | .fault why n => .error ⟨why, Span.ofText p (c :: cs.take n)⟩
      | .token t n =>
        match lexFrom (p.after (c :: cs.take n)) (cs.drop n) with
        | .ok (lexemes, stop) => .ok (⟨t, Span.ofText p (c :: cs.take n)⟩ :: lexemes, stop)
        | .error e => .error e :=
  lexFrom.eq_2 p c cs

end Lexer

/-- The tokens of a text. -/
def lex (cs : List Char) : Except LexError Lexemes :=
  (Lexer.lexFrom .start cs).map fun (lexemes, stop) => ⟨lexemes, Span.ofText stop []⟩

end SnippetRunner
