import SnippetRunner.Text.Basic

/-!
# Places in a text

A `Position` is a byte offset together with the line and the column it falls on, both counted from
one; a column counts characters. A `Span` is the place of a piece of text, found again by
`Span.text`.
-/

namespace SnippetRunner

open Text

/-- A place between two characters of a text. -/
structure Position where
  offset : Nat
  line : Nat
  column : Nat
  deriving DecidableEq, Repr

namespace Position

/-- The start of a text. -/
def start : Position := ⟨0, 1, 1⟩

/-- The position behind one more character. -/
def step (p : Position) (c : Char) : Position :=
  if c = '\n' then ⟨p.offset + c.utf8Size, p.line + 1, 1⟩
  else ⟨p.offset + c.utf8Size, p.line, p.column + 1⟩

/-- The position behind a piece of text. -/
def after (p : Position) (cs : List Char) : Position := cs.foldl step p

@[simp] theorem after_nil (p : Position) : p.after [] = p := rfl

@[simp] theorem after_cons (p : Position) (c : Char) (cs : List Char) :
    p.after (c :: cs) = (p.step c).after cs := rfl

@[simp] theorem after_append (p : Position) (xs ys : List Char) :
    p.after (xs ++ ys) = (p.after xs).after ys := by
  simp [after]

@[simp] theorem offset_step (p : Position) (c : Char) :
    (p.step c).offset = p.offset + c.utf8Size := by
  unfold step; split <;> rfl

@[simp] theorem offset_after (p : Position) (cs : List Char) :
    (p.after cs).offset = p.offset + byteSize cs := by
  induction cs generalizing p with
  | nil => simp
  | cons c cs ih => simp [ih, Nat.add_assoc]

@[simp] theorem line_after (p : Position) (cs : List Char) :
    (p.after cs).line = p.line + newlines cs := by
  induction cs generalizing p with
  | nil => simp [newlines]
  | cons c cs ih =>
    by_cases h : c = '\n'
    · simp [ih, step, newlines, h]; omega
    · simp [ih, step, newlines, h]

end Position

/-- The place of a piece of text: the byte offsets of its two ends, and line and column of its
first character. -/
structure Span where
  start : Nat
  stop : Nat
  line : Nat
  column : Nat
  deriving DecidableEq, Repr, Inhabited

namespace Span

/-- The place of a piece of text that stands at the position. -/
def ofText (p : Position) (cs : List Char) : Span :=
  ⟨p.offset, p.offset + byteSize cs, p.line, p.column⟩

/-- The span from the start of one to the end of the other. -/
def through (first last : Span) : Span := { first with stop := max first.stop last.stop }

/-- The piece of `source` that stands at the span. -/
def text (span : Span) (source : List Char) : List Char := slice span.start span.stop source

end Span

end SnippetRunner
