import SnippetRunner.Proofs.Pieces
import SnippetRunner.Proofs.Scanning

/-!
# String literals

The string literal of a text (`literal`) has a quote mark at either end, and quote marks,
backslashes and line breaks escaped. Whatever the text holds, be it quote marks, braces or the
delimiters of comments,

* the lexer reads the literal back as the text (`step_literal`);
* the scanner sees nothing but a literal in it, and code behind it (`classify_literal`).
-/

namespace SnippetRunner

open Text Scan

namespace Lexer

/-- A character as it stands in a string literal. -/
def literalChar (c : Char) : List Char :=
  if c = '"' then ['\\', '"']
  else if c = '\\' then ['\\', '\\']
  else if c = '\n' then ['\\', 'n']
  else [c]

/-- A text as it stands in a string literal. -/
def literalBody (s : List Char) : List Char := s.flatMap literalChar

/-- The string literal of a text. -/
def literal (s : List Char) : List Char := '"' :: literalBody s ++ ['"']

theorem literalBody_cons (c : Char) (s : List Char) :
    literalBody (c :: s) = literalChar c ++ literalBody s :=
  rfl

/-- A character that a literal keeps is none of those with a meaning there. -/
theorem literalChar_cases (c : Char) :
    (∃ e, literalChar c = ['\\', e] ∧ simpleEscape? e = some c ∧ e ≠ 'u' ∧ e ≠ '\n') ∨
      (literalChar c = [c] ∧ c ≠ '"' ∧ c ≠ '\\' ∧ c ≠ '\n') := by
  unfold literalChar
  split_ifs with h₁ h₂ h₃
  · exact .inl ⟨'"', rfl, by rw [h₁]; rfl, by decide, by decide⟩
  · exact .inl ⟨'\\', rfl, by rw [h₂]; rfl, by decide, by decide⟩
  · exact .inl ⟨'n', rfl, by rw [h₃]; rfl, by decide, by decide⟩
  · exact .inr ⟨rfl, h₁, h₂, h₃⟩

theorem newline_not_mem_literal (s : List Char) : '\n' ∉ literal s := by
  have hbody : '\n' ∉ literalBody s := by
    intro h
    obtain ⟨c, -, hc⟩ := List.mem_flatMap.1 h
    rcases literalChar_cases c with ⟨e, hesc, -, -, hbreak⟩ | ⟨hesc, -, -, hbreak⟩
    · simp [hesc, hbreak.symm] at hc
    · simp [hesc, hbreak.symm] at hc
  simpa [literal] using hbody

/-! ## Reading a literal -/

theorem escape_of_simpleEscape? {e c : Char} (h : simpleEscape? e = some c) (hu : e ≠ 'u')
    (cs : List Char) : escape (e :: cs) = .ok (c, 1) := by
  unfold escape
  split
  · next heq => exact absurd heq (by simp)
  · next heq => exact absurd (List.cons.inj heq).1 hu
  · next heq =>
    obtain ⟨rfl, rfl⟩ := List.cons.inj heq
    rw [h]

/-- A character without a meaning of its own is read as itself. -/
theorem stringBody_plain {c : Char} (hquote : c ≠ '"') (hslash : c ≠ '\\') (hbreak : c ≠ '\n')
    (read : List Char) (n : Nat) (rest : List Char) :
    stringBody read n (c :: rest) = stringBody (c :: read) (n + 1) rest := by
  rw [stringBody, if_neg hquote, if_neg hbreak, if_neg hslash]

/-- An escape of one letter is read as what it stands for. -/
theorem stringBody_simple {e c : Char} (h : simpleEscape? e = some c) (hu : e ≠ 'u')
    (read : List Char) (n : Nat) (rest : List Char) :
    stringBody read n ('\\' :: e :: rest) = stringBody (c :: read) (n + 2) rest := by
  rw [stringBody, if_neg (by decide), if_neg (by decide), if_pos rfl,
    escape_of_simpleEscape? h hu]
  rfl

/-- **What is escaped is read back**, behind whatever was read before. -/
theorem stringBody_literalBody (read : List Char) (n : Nat) (s rest : List Char) :
    stringBody read n (literalBody s ++ '"' :: rest) =
      .ok (.string (String.ofList (read.reverse ++ s)), n + (literalBody s).length + 1) := by
  induction s generalizing read n with
  | nil => simp [literalBody, stringBody]
  | cons c s ih =>
    rw [literalBody_cons]
    rcases literalChar_cases c with ⟨e, hesc, hsimple, hu, -⟩ | ⟨hesc, hquote, hslash, hbreak⟩
    · rw [hesc, List.cons_append, List.cons_append, List.cons_append, List.nil_append,
        List.cons_append, stringBody_simple hsimple hu, ih]
      simp only [List.reverse_cons, List.append_assoc, List.cons_append, List.nil_append,
        List.length_cons, Except.ok.injEq, Prod.mk.injEq, true_and]
      omega
    · rw [hesc, List.cons_append, List.cons_append, List.nil_append,
        stringBody_plain hquote hslash hbreak, ih]
      simp only [List.reverse_cons, List.append_assoc, List.cons_append, List.nil_append,
        List.length_cons, Except.ok.injEq, Prod.mk.injEq, true_and]
      omega

/-- An escaped text does not start with a quote mark. -/
theorem head?_literalBody_ne (s : List Char) : (literalBody s).head? ≠ some '"' := by
  cases s with
  | nil => simp [literalBody]
  | cons c s =>
    rw [literalBody_cons]
    rcases literalChar_cases c with ⟨e, hesc, -⟩ | ⟨hesc, hquote, -⟩
    · simp [hesc]
    · simpa [hesc] using hquote

/-- **A literal is read as the text it was made of.** -/
theorem step_literal (s : List Char) {rest : List Char} (hrest : rest.head? ≠ some '"') :
    step '"' (literalBody s ++ '"' :: rest) =
      .token (.string (String.ofList s)) ((literalBody s).length + 1) := by
  have hblock : (literalBody s ++ '"' :: rest).take 2 ≠ ['"', '"'] := by
    have hhead := head?_literalBody_ne s
    cases hs : literalBody s with
    | nil =>
      intro h
      cases rest with
      | nil => simp at h
      | cons d rest => simp at h hrest; exact hrest h
    | cons d t =>
      rw [hs] at hhead
      intro h
      simp at h hhead
      exact hhead h.1
  have hstep : step '"' (literalBody s ++ '"' :: rest) =
      .ofReading (quoted (literalBody s ++ '"' :: rest)) := rfl
  rw [hstep, quoted, if_neg hblock, stringBody_literalBody]
  simp [Step.ofReading]

end Lexer

/-! ## Scanning a literal -/

namespace Scan

open Lexer

theorem classify_literalBody (s rest : List Char) :
    classify (.quoted '"' false) (literalBody s ++ '"' :: rest) =
      (literalBody s).map (·, .literal) ++ ('"', .literal) :: classify .code rest := by
  induction s with
  | nil => simp [literalBody, classify, Mode.step]
  | cons c s ih =>
    rw [literalBody_cons]
    rcases literalChar_cases c with ⟨e, hesc, -, -, hbreak⟩ | ⟨hesc, hquote, hslash, hbreak⟩
    · rw [hesc]
      simp [classify, Mode.step, hbreak, ih]
    · rw [hesc]
      simp [classify, Mode.step, hquote, hslash, hbreak, ih]

/-- **A literal is scanned as a literal, and what follows it as code.** -/
theorem classify_literal (s rest : List Char) :
    classify .code (literal s ++ rest) =
      (literal s).map (·, .literal) ++ classify .code rest := by
  have h := classify_literalBody s rest
  simp only [literal, List.cons_append, List.append_assoc, List.nil_append, classify]
  have hopening : Mode.step .code '"' (literalBody s ++ '"' :: rest).head? =
      (.literal, .quoted '"' false) := by
    simp [Mode.step]
  rw [hopening, h]
  simp

/-- Whether a character starts neither a literal nor a comment. -/
def isPlain (c : Char) : Bool := c ≠ '/' && c ≠ '"' && c ≠ '\''

/-- Plain characters are code, and lead to code. -/
theorem classify_append_of_isPlain {cs : List Char} (h : cs.all isPlain = true)
    (rest : List Char) :
    classify .code (cs ++ rest) = cs.map (·, .code) ++ classify .code rest := by
  induction cs with
  | nil => rfl
  | cons c cs ih =>
    rw [List.all_cons, Bool.and_eq_true] at h
    have hstep : Mode.step .code c (cs ++ rest).head? = (.code, .code) := by
      have hplain := h.1
      simp only [isPlain, Bool.and_eq_true, decide_eq_true_eq] at hplain
      simp [Mode.step, hplain]
    simp only [List.cons_append, classify, hstep, List.map_cons]
    rw [ih h.2]

end Scan

end SnippetRunner
