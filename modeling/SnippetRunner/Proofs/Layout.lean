import SnippetRunner.Proofs.Texts

/-!
# Laying out lines

Lines are written anew with an indentation, blank lines become empty, and every line gets a line
feed as its break. Character by character this takes a `Margin`: whether the line is blank so far,
and the white space that may yet be dropped.

* Laying out a text in two parts is laying out the one and then the other (`layOut_append`).
* The lines of a text are laid out one behind the other (`laidOut_eq_flatMap`).
* What stands inside a line is written as it is (`layOut_inLine`).
-/

namespace SnippetRunner

open Text

/-- Where the layout of lines stands. -/
structure Margin where
  /-- Only white space was read since the line started. -/
  blank : Bool
  /-- The white space that was read and is not yet written. -/
  held : List Char

namespace Margin

/-- At the start of a line. -/
def lineStart : Margin := ⟨true, []⟩

/-- Inside a line. -/
def inLine : Margin := ⟨false, []⟩

/-- What one character makes the layout write, and where it stands then. -/
def step (indent : List Char) (m : Margin) (c : Char) : List Char × Margin :=
  if c = '\n' then (['\n'], lineStart)
  else if m.blank then
    if isSpace c then ([], ⟨true, m.held ++ [c]⟩) else (indent ++ m.held ++ [c], inLine)
  else if c = '\r' then (m.held, ⟨false, ['\r']⟩)
  else (m.held ++ [c], inLine)

/-- What is written at the end of a text: every line has a break. -/
def finish (m : Margin) : List Char :=
  if m.blank then if m.held.isEmpty then [] else ['\n'] else m.held ++ ['\n']

/-- What is written in front of the next character that is no white space. -/
def lead (indent : List Char) (m : Margin) : List Char :=
  if m.blank then indent ++ m.held else m.held

end Margin

open Margin

/-- What a text is laid out as, and where the layout stands behind it. -/
def layOut (indent : List Char) : Margin → List Char → List Char × Margin
  | m, [] => ([], m)
  | m, c :: cs =>
    let (out, m') := m.step indent c
    let (rest, m'') := layOut indent m' cs
    (out ++ rest, m'')

/-- What a text is laid out as, with a break at its end. -/
def laidOut (indent : List Char) (m : Margin) (cs : List Char) : List Char :=
  (layOut indent m cs).1 ++ (layOut indent m cs).2.finish

variable {indent : List Char} {m : Margin}

theorem layOut_cons (c : Char) (cs : List Char) :
    layOut indent m (c :: cs) =
      ((m.step indent c).1 ++ (layOut indent (m.step indent c).2 cs).1,
        (layOut indent (m.step indent c).2 cs).2) := rfl

theorem layOut_append (xs ys : List Char) :
    layOut indent m (xs ++ ys) =
      ((layOut indent m xs).1 ++ (layOut indent (layOut indent m xs).2 ys).1,
        (layOut indent (layOut indent m xs).2 ys).2) := by
  induction xs generalizing m with
  | nil => rfl
  | cons c xs ih => rw [List.cons_append, layOut_cons, layOut_cons, ih, List.append_assoc]

theorem laidOut_nil : laidOut indent m [] = m.finish := rfl

theorem laidOut_cons (c : Char) (cs : List Char) :
    laidOut indent m (c :: cs) = (m.step indent c).1 ++ laidOut indent (m.step indent c).2 cs := by
  rw [laidOut, layOut_cons, List.append_assoc, laidOut]

theorem laidOut_append (xs ys : List Char) :
    laidOut indent m (xs ++ ys) =
      (layOut indent m xs).1 ++ laidOut indent (layOut indent m xs).2 ys := by
  rw [laidOut, layOut_append, List.append_assoc, laidOut]

/-! ## One character -/

theorem step_newline : m.step indent '\n' = (['\n'], lineStart) := rfl

theorem step_of_blank {c : Char} (hblank : m.blank = true) (hc : isSpace c = true)
    (hne : c ≠ '\n') : m.step indent c = ([], ⟨true, m.held ++ [c]⟩) := by
  rw [Margin.step, if_neg hne, if_pos hblank, if_pos hc]

theorem step_return (held : List Char) :
    step indent ⟨false, held⟩ '\r' = (held, ⟨false, ['\r']⟩) := rfl

theorem step_of_not_blank {c : Char} (hbreak : c ≠ '\n') (hreturn : c ≠ '\r') (held : List Char) :
    step indent ⟨false, held⟩ c = (held ++ [c], inLine) := by
  rw [Margin.step, if_neg hbreak, if_neg Bool.false_ne_true, if_neg hreturn]

/-- A character that is no white space is written behind what was held. -/
theorem step_of_not_isSpace {c : Char} (hc : isSpace c = false) :
    m.step indent c = (m.lead indent ++ [c], inLine) := by
  have hbreak : c ≠ '\n' := by
    rintro rfl
    exact absurd hc (by decide)
  have hreturn : c ≠ '\r' := by
    rintro rfl
    exact absurd hc (by decide)
  rw [Margin.step, if_neg hbreak, lead]
  cases m.blank with
  | true => rw [if_pos rfl, if_neg (by simp [hc]), if_pos rfl]
  | false => rw [if_neg Bool.false_ne_true, if_neg hreturn, if_neg Bool.false_ne_true]

/-! ## One line -/

/-- White space at the start of a line is held. -/
theorem layOut_of_isBlank {s : List Char} (hs : isBlank s = true) (hbreak : '\n' ∉ s)
    (held : List Char) : layOut indent ⟨true, held⟩ s = ([], ⟨true, held ++ s⟩) := by
  induction s generalizing held with
  | nil => simp [layOut]
  | cons c s ih =>
    simp only [isBlank, List.all_cons, Bool.and_eq_true] at hs
    simp only [List.mem_cons, not_or] at hbreak
    rw [layOut_cons, step_of_blank rfl hs.1 (Ne.symm hbreak.1)]
    simp [ih hs.2 hbreak.2]

/-- A carriage return at the end of a part of a line is held. -/
theorem layOut_append_return {l : List Char} (hbreak : '\n' ∉ l) (held : List Char) :
    layOut indent ⟨false, held⟩ (l ++ ['\r']) = (held ++ l, ⟨false, ['\r']⟩) := by
  induction l generalizing held with
  | nil => simp [layOut, step_return]
  | cons c l ih =>
    simp only [List.mem_cons, not_or] at hbreak
    rw [List.cons_append, layOut_cons]
    by_cases hc : c = '\r'
    · subst hc
      simp [step_return, ih hbreak.2]
    · simp [step_of_not_blank (Ne.symm hbreak.1) hc, inLine, ih hbreak.2]

/-- What stands inside a line is written as it is. -/
theorem layOut_append_of_ne {l : List Char} {d : Char} (hbreak : '\n' ∉ l ++ [d]) (hd : d ≠ '\r')
    (held : List Char) :
    layOut indent ⟨false, held⟩ (l ++ [d]) = (held ++ (l ++ [d]), inLine) := by
  rw [List.mem_append, not_or] at hbreak
  induction l generalizing held with
  | nil =>
    have hne : d ≠ '\n' := by simpa [eq_comm] using hbreak.2
    simp [layOut, step_of_not_blank hne hd]
  | cons c l ih =>
    simp only [List.mem_cons, not_or] at hbreak
    have hbreak' : '\n' ∉ l ∧ '\n' ∉ [d] := ⟨hbreak.1.2, by simpa using hbreak.2⟩
    rw [List.cons_append, layOut_cons]
    by_cases hc : c = '\r'
    · subst hc
      simp [step_return, ih hbreak']
    · simp [step_of_not_blank (Ne.symm hbreak.1.1) hc, inLine, ih hbreak']

/-- The rest of a line is written as it is, but for a carriage return in its break. -/
theorem layOut_inLine {l : List Char} (hbreak : '\n' ∉ l) :
    layOut indent inLine (l ++ ['\n']) = (dropBreak (l ++ ['\n']) ++ ['\n'], lineStart) := by
  rcases List.eq_nil_or_concat l with rfl | ⟨x, d, rfl⟩
  · rfl
  · rw [List.concat_eq_append] at hbreak ⊢
    by_cases hd : d = '\r'
    · subst hd
      have hx : '\n' ∉ x := fun hmem => hbreak (List.mem_append_left _ hmem)
      have hdrop : dropBreak (x ++ ['\r'] ++ ['\n']) = x := by
        rw [List.append_assoc]
        exact dropBreak_append_return x
      rw [layOut_append, inLine, layOut_append_return hx, hdrop]
      rfl
    · have hdrop : dropBreak (x ++ [d] ++ ['\n']) = x ++ [d] :=
        dropBreak_append_newline (by simpa using hd)
      rw [layOut_append, inLine, layOut_append_of_ne hbreak hd, hdrop]
      rfl

/-- A line without a break gets one. -/
theorem laidOut_inLine {l : List Char} (hbreak : '\n' ∉ l) :
    laidOut indent inLine l = l ++ ['\n'] := by
  rcases List.eq_nil_or_concat l with rfl | ⟨x, d, rfl⟩
  · rfl
  · rw [List.concat_eq_append] at hbreak ⊢
    by_cases hd : d = '\r'
    · subst hd
      have hx : '\n' ∉ x := fun hmem => hbreak (List.mem_append_left _ hmem)
      rw [laidOut, inLine, layOut_append_return hx]
      simp [finish]
    · rw [laidOut, inLine, layOut_append_of_ne hbreak hd]
      simp [finish, inLine]

/-- What a line becomes. -/
def relined (indent line : List Char) : List Char :=
  (if isBlank line then [] else indent ++ line) ++ ['\n']

/-- Only the end of a line matters to its break. -/
theorem dropBreak_append_cons {c : Char} (hc : c ≠ '\r') (s x : List Char) :
    dropBreak (s ++ c :: (x ++ ['\n'])) = s ++ c :: dropBreak (x ++ ['\n']) := by
  rcases List.eq_nil_or_concat x with rfl | ⟨y, d, rfl⟩
  · have hline : s ++ c :: ([] ++ ['\n']) = (s ++ [c]) ++ ['\n'] := by simp
    rw [hline, dropBreak_append_newline (by simpa using hc)]
    rfl
  · rw [List.concat_eq_append]
    by_cases hd : d = '\r'
    · subst hd
      have hline : s ++ c :: (y ++ ['\r'] ++ ['\n']) = (s ++ c :: y) ++ ['\r', '\n'] := by simp
      have hrest : y ++ ['\r'] ++ ['\n'] = y ++ ['\r', '\n'] := by simp
      rw [hline, hrest, dropBreak_append_return, dropBreak_append_return]
    · have hline : s ++ c :: (y ++ [d] ++ ['\n']) = (s ++ c :: (y ++ [d])) ++ ['\n'] := by simp
      have hlast : (s ++ c :: (y ++ [d])).getLast? = some d := by
        rw [show s ++ c :: (y ++ [d]) = (s ++ c :: y) ++ [d] by simp, List.getLast?_concat]
      rw [hline, dropBreak_append_newline (by simpa [hlast] using hd),
        dropBreak_append_newline (by simpa using hd)]

/-- The first character of a line that is no white space ends the blank part of it. -/
theorem layOut_append_cons {s : List Char} {c : Char} (hs : isBlank s = true) (hbreak : '\n' ∉ s)
    (hc : isSpace c = false) (x : List Char) :
    layOut indent lineStart (s ++ c :: x) =
      (indent ++ s ++ [c] ++ (layOut indent inLine x).1, (layOut indent inLine x).2) := by
  rw [layOut_append, lineStart, layOut_of_isBlank hs hbreak, layOut_cons, step_of_not_isSpace hc]
  rfl

/-- **A line is laid out by itself.** -/
theorem layOut_line {l : List Char} (hbreak : '\n' ∉ l) :
    layOut indent lineStart (l ++ ['\n']) =
      (relined indent (dropBreak (l ++ ['\n'])), lineStart) := by
  cases hblank : isBlank l with
  | true =>
    have hdrop : isBlank (dropBreak (l ++ ['\n'])) = true := by
      obtain ⟨b, -, heq⟩ := eq_dropBreak_append (l ++ ['\n'])
      have hall : isBlank (l ++ ['\n']) = true := by
        rw [isBlank_append, hblank]
        rfl
      rw [heq, isBlank_append, Bool.and_eq_true] at hall
      exact hall.1
    rw [layOut_append, lineStart, layOut_of_isBlank hblank hbreak, relined, if_pos hdrop]
    rfl
  | false =>
    obtain ⟨s, c, x, rfl, hs, hc⟩ := exists_of_not_isBlank hblank
    simp only [List.mem_append, List.mem_cons, not_or] at hbreak
    have hreturn : c ≠ '\r' := by
      rintro rfl
      exact absurd hc (by decide)
    have hline : s ++ c :: x ++ ['\n'] = s ++ c :: (x ++ ['\n']) := by simp
    rw [hline, layOut_append_cons hs hbreak.1 hc, layOut_inLine hbreak.2.2,
      dropBreak_append_cons hreturn, relined, isBlank_append_cons hc]
    simp

/-- A last line without a break is laid out as if it had one. -/
theorem laidOut_line {l : List Char} (hbreak : '\n' ∉ l) (hne : l ≠ []) :
    laidOut indent lineStart l = relined indent l := by
  cases hblank : isBlank l with
  | true =>
    have hempty : l.isEmpty = false := by simpa using hne
    rw [laidOut, lineStart, layOut_of_isBlank hblank hbreak, relined, if_pos hblank]
    simp [finish, hempty]
  | false =>
    obtain ⟨s, c, x, rfl, hs, hc⟩ := exists_of_not_isBlank hblank
    simp only [List.mem_append, List.mem_cons, not_or] at hbreak
    have hrest : (layOut indent inLine x).1 ++ (layOut indent inLine x).2.finish = x ++ ['\n'] :=
      laidOut_inLine hbreak.2.2
    rw [laidOut, layOut_append_cons hs hbreak.1 hc, relined, isBlank_append_cons hc]
    simp [hrest]

/-- **The lines of a text are laid out one behind the other.** -/
theorem laidOut_eq_flatMap (cs : List Char) :
    laidOut indent lineStart cs = (lines cs).flatMap (relined indent) := by
  induction hn : cs.length using Nat.strongRecOn generalizing cs with
  | _ n ih =>
    by_cases hbreak : '\n' ∈ cs
    · obtain ⟨l, rest, rfl, hl⟩ := List.eq_append_cons_of_mem hbreak
      have hrest := ih rest.length (by rw [← hn]; simp; omega) rest rfl
      have hsplit : l ++ '\n' :: rest = (l ++ ['\n']) ++ rest := by simp
      rw [lines, linesWithBreaks_append_newline hl, List.map_cons, List.flatMap_cons, ← lines,
        ← hrest, hsplit, laidOut_append, layOut_line hl]
    · cases cs with
      | nil => rfl
      | cons c cs =>
        have hne : c :: cs ≠ [] := List.cons_ne_nil c cs
        have hlast : (c :: cs).getLast? ≠ some '\n' := fun h => hbreak (List.mem_of_getLast? h)
        rw [laidOut_line hbreak hne, lines, linesWithBreaks_of_newline_not_mem hbreak hne,
          List.map_singleton, dropBreak_of_getLast?_ne hlast, List.flatMap_singleton]

end SnippetRunner
