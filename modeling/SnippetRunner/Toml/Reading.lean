import SnippetRunner.Decimal.Reading
import SnippetRunner.Text.Class
import SnippetRunner.Toml
import SnippetRunner.Toml.Moment
import SnippetRunner.Toml.Number

/-!
# Reading TOML

`Toml.ofText?` reads a document. A text is either read as a whole or refused. The readers return
what they found and the text behind it.

The readers of values call each other, so they are given a bound on the depth of their calls. A
value inside another takes two calls, and the brackets around it are two characters, so the length
of the text is always enough.

A text that nests values deeper than `maxNesting` is refused, and so is a key of more names.
-/

namespace SnippetRunner.Toml

open Text

/-! ## White space and comments -/

/-- Space within a line. -/
def isBlankChar (c : Char) : Bool := c = ' ' || c = '\t'

/-- A character that may stand in a comment or a literal: no control character but the tab. -/
def isPlain (c : Char) : Bool := c = '\t' || (0x20 ≤ c.toNat && c.toNat ≠ 0x7F)

/-- The text without the blanks it starts with. -/
def dropBlanks (cs : List Char) : List Char := cs.dropWhile isBlankChar

/-- The text behind the line break it starts with. -/
def afterBreak? : List Char → Option (List Char)
  | '\n' :: rest => some rest
  | '\r' :: '\n' :: rest => some rest
  | _ => none

/-- The text behind the end of a line, a comment included. -/
def afterLineEnd? (cs : List Char) : Option (List Char) :=
  let cs :=
    match dropBlanks cs with
    | '#' :: comment => comment.dropWhile isPlain
    | cs => cs
  if cs.isEmpty then some [] else afterBreak? cs

/-- The text without the blanks, line breaks and comments it starts with. -/
def dropGap (inComment : Bool) : List Char → List Char
  | [] => []
  | c :: cs =>
    if c = '\n' then dropGap false cs
    else if c = '\r' && cs.head? = some '\n' then dropGap inComment cs
    else if (inComment && isPlain c) || isBlankChar c then dropGap inComment cs
    else if !inComment && c = '#' then dropGap true cs
    else c :: cs

/-! ## Strings -/

/-- The character behind a backslash. -/
def simpleEscape? : Char → Option Char
  | 'b' => some '\x08'
  | 't' => some '\t'
  | 'n' => some '\n'
  | 'f' => some '\x0c'
  | 'r' => some '\r'
  | '"' => some '"'
  | '\\' => some '\\'
  | _ => none

/-- The character whose number the hexadecimal digits spell. -/
def scalar? (digits : List Char) : Option Char :=
  let n := Decimal.digitsValue 16 digits
  if digits.all isHexDigit && decide n.isValidChar then some (Char.ofNat n) else none

/-- A character in front of what was read. -/
def consChar (c : Char) : Option (List Char × List Char) → Option (List Char × List Char) :=
  Option.map fun (cs, rest) => (c :: cs, rest)

/-- The rest of a string in double quote marks on one line. -/
def basicString : List Char → Option (List Char × List Char)
  | '"' :: rest => some ([], rest)
  | '\\' :: 'u' :: a :: b :: c :: d :: rest => do
    consChar (← scalar? [a, b, c, d]) (basicString rest)
  | '\\' :: 'U' :: a :: b :: c :: d :: e :: f :: g :: h :: rest => do
    consChar (← scalar? [a, b, c, d, e, f, g, h]) (basicString rest)
  | '\\' :: c :: rest => do consChar (← simpleEscape? c) (basicString rest)
  | c :: rest => if isPlain c && c ≠ '\\' then consChar c (basicString rest) else none
  | [] => none

/-- The rest of a string in single quote marks on one line. -/
def literalString (cs : List Char) : Option (List Char × List Char) :=
  let body := cs.takeWhile fun c => isPlain c && c ≠ '\''
  match cs.drop body.length with
  | '\'' :: rest => some (body, rest)
  | _ => none

/-- Up to two quote marks right behind the three that close a string still belong to it. -/
def trailingMarks (mark : Char) (cs : List Char) : List Char :=
  (cs.takeWhile (· = mark)).take 2

/-- The rest of a string in three double quote marks. A backslash at the end of a line hides the
white space up to the next character; `hidden` says that this is being passed over. -/
def basicBlock (hidden : Bool) : List Char → Option (List Char × List Char)
  | '"' :: '"' :: '"' :: rest =>
    let marks := trailingMarks '"' rest
    some (marks, rest.drop marks.length)
  | '\r' :: '\n' :: rest =>
    if hidden then basicBlock true rest else consChar '\n' (basicBlock false rest)
  | '\n' :: rest => if hidden then basicBlock true rest else consChar '\n' (basicBlock false rest)
  | '\\' :: 'u' :: a :: b :: c :: d :: rest => do
    consChar (← scalar? [a, b, c, d]) (basicBlock false rest)
  | '\\' :: 'U' :: a :: b :: c :: d :: e :: f :: g :: h :: rest => do
    consChar (← scalar? [a, b, c, d, e, f, g, h]) (basicBlock false rest)
  | '\\' :: c :: rest =>
    if (afterBreak? (dropBlanks (c :: rest))).isSome then basicBlock true (c :: rest)
    else do consChar (← simpleEscape? c) (basicBlock false rest)
  | c :: rest =>
    if hidden && isBlankChar c then basicBlock true rest
    else if isPlain c && c ≠ '\\' then consChar c (basicBlock false rest)
    else none
  | [] => none

/-- The rest of a string in three single quote marks. -/
def literalBlock : List Char → Option (List Char × List Char)
  | '\'' :: '\'' :: '\'' :: rest =>
    let marks := trailingMarks '\'' rest
    some (marks, rest.drop marks.length)
  | '\r' :: '\n' :: rest => consChar '\n' (literalBlock rest)
  | c :: rest => if isPlain c || c = '\n' then consChar c (literalBlock rest) else none
  | [] => none

/-- The text without the line break it starts with. -/
def dropBreakAtStart (cs : List Char) : List Char := (afterBreak? cs).getD cs

/-- The string that the text starts with. -/
def string? : List Char → Option (List Char × List Char)
  | '"' :: '"' :: '"' :: rest => basicBlock false (dropBreakAtStart rest)
  | '"' :: rest => basicString rest
  | '\'' :: '\'' :: '\'' :: rest => literalBlock (dropBreakAtStart rest)
  | '\'' :: rest => literalString rest
  | _ => none

/-- The greatest number of brackets that may be open at one place, and of names in a key. -/
def maxNesting : Nat := 79

/-! ## Keys -/

/-- A character of a key without quote marks. -/
def isBareKeyChar (c : Char) : Bool := c.isAlphanum || c = '_' || c = '-'

/-- One name of a key. -/
def keyPart : List Char → Option (List Char × List Char)
  | '"' :: rest => basicString rest
  | '\'' :: rest => literalString rest
  | cs =>
    let name := cs.takeWhile isBareKeyChar
    if name.isEmpty then none else some (name, cs.drop name.length)

/-- A key of at most `count` names: dots stand between them, and blanks around each. -/
def key : (count : Nat) → List Char → Option (List String × List Char)
  | 0, _ => none
  | count + 1, cs => do
    let (name, rest) ← keyPart (dropBlanks cs)
    match dropBlanks rest with
    | '.' :: rest =>
      let (names, rest) ← key count rest
      return (String.ofList name :: names, rest)
    | rest => return ([String.ofList name], rest)

/-! ## Values -/

/-- The truth value that the text starts with. -/
def boolean? (cs : List Char) : Option (Toml × List Char) :=
  match afterLead? "true".toList cs, afterLead? "false".toList cs with
  | some rest, _ => some (boolean true, rest)
  | none, some rest => some (boolean false, rest)
  | none, none => none

/-- The value without brackets that the text starts with. -/
def simpleValue (cs : List Char) : Option (Toml × List Char) :=
  ((string? cs).map fun (s, rest) => (text (String.ofList s), rest)).or
    (((moment? cs).map fun (m, rest) => (moment m, rest)).or
      ((number? cs).or (boolean? cs)))

mutual

/-- The value that the text starts with, in which brackets are nested at most `nesting` deep. -/
def value : (depth nesting : Nat) → List Char → Option (Toml × List Char)
  | 0, _, _ => none
  | depth + 1, nesting, cs =>
    match cs, nesting with
    | '[' :: rest, nesting + 1 => do
      let (items, rest) ← arrayItems depth nesting (dropGap false rest)
      return (array false items, rest)
    | '{' :: rest, nesting + 1 =>
      match dropBlanks rest with
      | '}' :: rest => some (table .closed [], rest)
      | rest => do
        let (pairs, rest) ← tablePairs depth nesting rest
        return (← ofPairs pairs, rest)
    | _, _ => simpleValue cs

/-- The items of a list up to its end. The last may be followed by a comma. -/
def arrayItems : (depth nesting : Nat) → List Char → Option (List Toml × List Char)
  | 0, _, _ => none
  | depth + 1, nesting, cs =>
    match cs with
    | ']' :: rest => some ([], rest)
    | _ => do
      let (item, rest) ← value depth nesting cs
      match dropGap false rest with
      | ',' :: rest =>
        let (items, rest) ← arrayItems depth nesting (dropGap false rest)
        return (item :: items, rest)
      | ']' :: rest => return ([item], rest)
      | _ => none

/-- The keys and values of a table between braces up to its end. -/
def tablePairs : (depth nesting : Nat) → List Char →
    Option (List (List String × Toml) × List Char)
  | 0, _, _ => none
  | depth + 1, nesting, cs => do
    let (path, rest) ← key maxNesting cs
    match rest with
    | '=' :: rest =>
      let (value, rest) ← value depth nesting (dropBlanks rest)
      match dropBlanks rest with
      | ',' :: rest =>
        let (pairs, rest) ← tablePairs depth nesting rest
        return ((path, value) :: pairs, rest)
      | '}' :: rest => return ([(path, value)], rest)
      | _ => none
    | _ => none

end

/-! ## Documents -/

/-- The piece of a document that the text starts with. -/
def statement (cs : List Char) : Option (Statement × List Char) := do
  match cs with
  | '[' :: '[' :: rest =>
    let (path, rest) ← key maxNesting rest
    return (.element path, ← afterLead? [']', ']'] rest)
  | '[' :: rest =>
    let (path, rest) ← key maxNesting rest
    return (.header path, ← afterLead? [']'] rest)
  | _ =>
    let (path, rest) ← key maxNesting cs
    let (value, rest) ← value cs.length maxNesting (dropBlanks (← afterLead? ['='] rest))
    return (.assignment path value, rest)

/-- The pieces of a document, each on lines of its own. -/
def statements : (depth : Nat) → List Char → Option (List Statement)
  | 0, _ => none
  | depth + 1, cs =>
    let cs := dropBlanks cs
    if cs.isEmpty then some []
    else
      match afterLineEnd? cs with
      | some rest => statements depth rest
      | none => do
        let (first, rest) ← statement cs
        return first :: (← statements depth (← afterLineEnd? rest))

/-- The document that a text spells. A byte order mark in front is passed over. -/
def ofText? (cs : List Char) : Option Toml := do
  let cs := (afterLead? ['\uFEFF'] cs).getD cs
  ofStatements (← statements (cs.length + 1) cs)

end SnippetRunner.Toml
