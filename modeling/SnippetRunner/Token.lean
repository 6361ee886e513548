import SnippetRunner.Decimal.Layout
import SnippetRunner.Span
import SnippetRunner.Text.Quoted

/-!
# Tokens

The tokens of Java-like source text: literals, identifiers, ten reserved words, and signs. Words
that matter only in some places (`int`, `public`, `for`, `record`) are identifiers. `>` is always
a sign of its own, so that the two brackets that close nested type arguments stay apart.

Each reserved word and each sign has one spelling (`Keyword.text`, `Sign.text`), and
`Token.describe` is the name of a token in messages.
-/

namespace SnippetRunner

/-- The reserved words. -/
inductive Keyword
  | classKw | interfaceKw | enumKw | staticKw | newKw | trueKw | falseKw | nullKw | importKw
  | packageKw
  deriving DecidableEq, Repr

namespace Keyword

/-- The spelling of a reserved word. -/
def text : Keyword → String
  | classKw => "class"
  | interfaceKw => "interface"
  | enumKw => "enum"
  | staticKw => "static"
  | newKw => "new"
  | trueKw => "true"
  | falseKw => "false"
  | nullKw => "null"
  | importKw => "import"
  | packageKw => "package"

/-- All reserved words. -/
def all : List Keyword :=
  [classKw, interfaceKw, enumKw, staticKw, newKw, trueKw, falseKw, nullKw, importKw, packageKw]

/-- The reserved word with the given spelling. -/
def ofText? (word : String) : Option Keyword := all.find? fun k => k.text == word

end Keyword

/-- Operators, brackets and punctuation. -/
inductive Sign
  | plus | minus | star | slash | percent
  | equal | notEqual | less | lessEqual | greater | greaterEqual
  | andAnd | orOr | bang | amp | pipe | caret | tilde
  | assign | plusAssign | minusAssign | starAssign | slashAssign | percentAssign
  | plusPlus | minusMinus
  | dot | ellipsis | arrow | colonColon | question | colon | atSign
  | lparen | rparen | lbrace | rbrace | lbracket | rbracket | semicolon | comma
  deriving DecidableEq, Repr

namespace Sign

/-- The spelling of a sign. -/
def text : Sign → String
  | plus => "+" | minus => "-" | star => "*" | slash => "/" | percent => "%"
  | equal => "==" | notEqual => "!=" | less => "<" | lessEqual => "<=" | greater => ">"
  | greaterEqual => ">=" | andAnd => "&&" | orOr => "||" | bang => "!" | amp => "&" | pipe => "|"
  | caret => "^" | tilde => "~" | assign => "=" | plusAssign => "+=" | minusAssign => "-="
  | starAssign => "*=" | slashAssign => "/=" | percentAssign => "%=" | plusPlus => "++"
  | minusMinus => "--" | dot => "." | ellipsis => "..." | arrow => "->" | colonColon => "::"
  | question => "?" | colon => ":" | atSign => "@" | lparen => "(" | rparen => ")"
  | lbrace => "\x7b" | rbrace => "\x7d" | lbracket => "[" | rbracket => "]" | semicolon => ";"
  | comma => ","

/-- All signs, longer spellings first. -/
def all : List Sign :=
  [ellipsis,
   plusPlus, plusAssign, minusMinus, minusAssign, arrow, starAssign, slashAssign, percentAssign,
   equal, notEqual, lessEqual, greaterEqual, andAnd, orOr, colonColon,
   plus, minus, star, slash, percent, assign, bang, less, greater, amp, pipe, dot, colon,
   caret, tilde, question, atSign, lparen, rparen, lbrace, rbrace, lbracket, rbracket, semicolon,
   comma]

/-- The sign with the longest spelling that the text starts with. -/
def read? (cs : List Char) : Option Sign := all.find? fun s => s.text.toList.isPrefixOf cs

end Sign

/-- Three quote marks, which open and close a text block. -/
def blockMark : List Char := ['"', '"', '"']

/-- A token without its place. -/
inductive Token
  /-- An integer literal without a suffix; a hexadecimal one stands for a pattern of 32 bits. -/
  | int (n : Int)
  /-- An integer literal with the suffix `L`. -/
  | long (n : Int)
  | double (x : Float)
  | char (c : Char)
  | string (s : String)
  | ident (name : String)
  | keyword (k : Keyword)
  | sign (s : Sign)
  deriving BEq, Repr

namespace Token

/-- What a message calls the token. -/
def describe : Token → String
  | int n => "int literal " ++ String.ofList (Decimal.integer n)
  | long n => "long literal " ++ String.ofList (Decimal.integer n)
  | double x => "double literal " ++ Decimal.spelled.write x
  | char c => "char literal " ++ Text.quoteChar c
  | string s => "string literal " ++ Text.quoteString s
  | ident name => "identifier '" ++ name ++ "'"
  | keyword k => "'" ++ k.text ++ "'"
  | sign s => "'" ++ s.text ++ "'"

/-- What a message calls the token at hand, or the end of the text. -/
def describe? : Option Token → String
  | some token => token.describe
  | none => "end of input"

end Token

/-- A token at its place. -/
structure Lexeme where
  token : Token
  span : Span
  deriving Repr

/-- The tokens of a text, and the place of its end. -/
structure Lexemes where
  list : List Lexeme
  stop : Span
  deriving Repr

end SnippetRunner
