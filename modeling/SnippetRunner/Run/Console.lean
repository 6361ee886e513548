import SnippetRunner.Run.Stop
import SnippetRunner.Text.Basic

/-!
# The output of a run

Lines are printed until one does not fit; of that one as many whole characters are kept as there is
room for. So the output never exceeds its limit (`Console.Fits.print`).
-/

namespace SnippetRunner

open Text

/-- What was printed, and the most bytes it may have. -/
structure Console where
  text : String
  limit : Nat

namespace Console

/-- Nothing printed yet. -/
def empty (limit : Nat) : Console := ⟨"", limit⟩

/-- The longest start of a text that has at most `room` bytes. -/
def fitting (room : Nat) : List Char → List Char
  | [] => []
  | c :: cs => if c.utf8Size ≤ room then c :: fitting (room - c.utf8Size) cs else []

/-- Prints a line, its break included. If it does not fit, what fits of it is printed and the run
stops. -/
def print (console : Console) (line : String) : Console × Option Stop :=
  let used := console.text.utf8ByteSize
  if used + line.utf8ByteSize + 1 > console.limit then
    let start := String.ofList (fitting (console.limit - used) line.toList)
    ({ console with text := console.text ++ start }, some (.outputLimit console.limit))
  else ({ console with text := (console.text ++ line).push '\n' }, none)

theorem byteSize_fitting_le (room : Nat) (cs : List Char) : byteSize (fitting room cs) ≤ room := by
  induction cs generalizing room with
  | nil => simp [fitting]
  | cons c cs ih =>
    simp only [fitting]
    split
    · have := ih (room - c.utf8Size)
      simp only [byteSize_cons]; omega
    · simp

theorem fitting_isPrefix (room : Nat) (cs : List Char) : fitting room cs <+: cs := by
  induction cs generalizing room with
  | nil => simp [fitting]
  | cons c cs ih =>
    simp only [fitting]
    split
    · exact (List.prefix_cons_inj c).2 (ih _)
    · exact List.nil_prefix

end Console

end SnippetRunner
