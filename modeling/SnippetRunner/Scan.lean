import SnippetRunner.Text.Basic

/-!
# Code, literals and comments

A scanner that tells for every character of a text whether it is code, part of a string or
character literal, or part of a comment. It asks for no more than that: the text need not be made
of tokens, and a line break always ends a literal, so one that is left open cannot swallow the
rest of the text.

* `Mode` is all the scanner remembers, and `Mode.step` classifies one character given the next.
* `classify` labels every character of a text; it changes nothing but adds the labels
  (`map_fst_classify`).
* `masked` is the text with everything but code blanked out. It has the same size in bytes
  (`byteSize_masked`), so a position found in it is one in the text.
-/

namespace SnippetRunner.Scan

open Text

/-- What a character belongs to. -/
inductive CharClass
  | code
  /-- A string or character literal, quote marks included. -/
  | literal
  /-- A comment, delimiters included and the line break after a line comment excluded. -/
  | comment
  deriving DecidableEq, Repr

/-- Where the scanner stands. -/
inductive Mode
  | code
  /-- In a literal with the given quote mark; `escaped` after a backslash that is not itself
  escaped. -/
  | quoted (mark : Char) (escaped : Bool)
  | lineComment
  | blockComment
  /-- Before the second character of the delimiter that opens a line comment. -/
  | lineOpening
  /-- Before the second character of the delimiter that opens a block comment. -/
  | blockOpening
  /-- Before the second character of the delimiter that closes a block comment. -/
  | blockClosing
  deriving DecidableEq, Repr

namespace Mode

/-- The class of a character, and the mode after it. `next` is the character that follows. -/
def step (mode : Mode) (c : Char) (next : Option Char) : CharClass × Mode :=
  match mode with
  | code =>
    if c = '/' ∧ next = some '/' then (.comment, lineOpening)
    else if c = '/' ∧ next = some '*' then (.comment, blockOpening)
    else if c = '"' ∨ c = '\'' then (.literal, quoted c false)
    else (.code, code)
  | quoted mark escaped =>
    if c = '\n' then (.code, code)
    else if escaped then (.literal, quoted mark false)
    else if c = '\\' then (.literal, quoted mark true)
    else if c = mark then (.literal, code)
    else (.literal, quoted mark false)
  | lineComment => if c = '\n' then (.code, code) else (.comment, lineComment)
  | blockComment =>
    if c = '*' ∧ next = some '/' then (.comment, blockClosing) else (.comment, blockComment)
  | lineOpening => (.comment, lineComment)
  | blockOpening => (.comment, blockComment)
  | blockClosing => (.comment, code)

/-- Whether the scanner is inside a string literal. -/
def inString : Mode → Bool
  | quoted mark _ => mark = '"'
  | _ => false

/-- Whether the scanner is inside a character literal. -/
def inChar : Mode → Bool
  | quoted mark _ => mark = '\''
  | _ => false

/-- Whether the scanner is inside a comment, its opening delimiter behind it. -/
def inComment : Mode → Bool
  | lineComment | blockComment | blockClosing => true
  | _ => false

end Mode

/-- The characters of a text, each with its class, for a scanner that starts in the given mode. -/
def classify (mode : Mode) : List Char → List (Char × CharClass)
  | [] => []
  | c :: cs =>
    let (cls, mode') := mode.step c cs.head?
    (c, cls) :: classify mode' cs

@[simp] theorem map_fst_classify (mode : Mode) (cs : List Char) :
    (classify mode cs).map Prod.fst = cs := by
  induction cs generalizing mode with
  | nil => rfl
  | cons c cs ih => simp [classify, ih]

/-- The mode at the end of a text that was scanned from the given mode on. -/
def endMode (mode : Mode) : List Char → Mode
  | [] => mode
  | c :: cs => endMode (mode.step c cs.head?).2 cs

/-- What a classified character leaves of itself: code and line breaks stay, all else becomes as
many spaces as it has bytes. -/
def maskedChar : Char × CharClass → List Char
  | (c, cls) => if cls = .code ∨ c = '\n' then [c] else List.replicate c.utf8Size ' '

/-- The text with literals and comments blanked out. -/
def masked (cs : List Char) : List Char := (classify .code cs).flatMap maskedChar

theorem byteSize_replicate_space (n : Nat) : byteSize (List.replicate n ' ') = n := by
  induction n with
  | zero => rfl
  | succ n ih =>
    rw [List.replicate_succ, byteSize_cons, ih, show Char.utf8Size ' ' = 1 from by decide]
    omega

theorem byteSize_maskedChar (p : Char × CharClass) : byteSize (maskedChar p) = p.1.utf8Size := by
  obtain ⟨c, cls⟩ := p
  simp only [maskedChar]
  split
  · simp
  · exact byteSize_replicate_space _

@[simp] theorem byteSize_masked (cs : List Char) : byteSize (masked cs) = byteSize cs := by
  suffices h : ∀ mode, byteSize ((classify mode cs).flatMap maskedChar) = byteSize cs from h .code
  induction cs with
  | nil => intro mode; rfl
  | cons c cs ih =>
    intro mode
    simp [classify, byteSize_maskedChar, ih]

end SnippetRunner.Scan
