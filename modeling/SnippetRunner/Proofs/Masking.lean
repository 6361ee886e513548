import SnippetRunner.Proofs.Scanning

/-!
# Masking the parts of a text

The scanner goes through a text in parts: `classifyFrom` labels the characters of a part, `maskFrom`
is what is left of it, and `modeAfter` is where the scanner stands behind it. All depend on the
character that follows the part, and only if it may be the second character of a delimiter
(`maskFrom_eq_of_isPlain`).

White space stays white space (`isBlank_maskFrom`), and a line break leaves the scanner in code or
in a block comment, whatever white space stands around it (`modeAfter_of_isBlank`).
-/

namespace SnippetRunner.Scan

open Text

/-- The characters of a part of a text, each with its class. `next` is the character behind the
part. -/
def classifyFrom (mode : Mode) (next : Option Char) : List Char → List (Char × CharClass)
  | [] => []
  | c :: cs =>
    (c, (mode.step c (cs.head?.or next)).1) ::
      classifyFrom (mode.step c (cs.head?.or next)).2 next cs

/-- What is left of a part of a text. `next` is the character behind the part. -/
def maskFrom (mode : Mode) (next : Option Char) (cs : List Char) : List Char :=
  (classifyFrom mode next cs).flatMap maskedChar

/-- Where the scanner stands behind a part of a text. -/
def modeAfter (mode : Mode) (next : Option Char) : List Char → Mode
  | [] => mode
  | c :: cs => modeAfter (mode.step c (cs.head?.or next)).2 next cs

theorem head?_append_or (x y : List Char) (next : Option Char) :
    (x ++ y).head?.or next = x.head?.or (y.head?.or next) := by
  cases x <;> rfl

theorem maskFrom_cons (mode : Mode) (next : Option Char) (c : Char) (cs : List Char) :
    maskFrom mode next (c :: cs) =
      maskedChar (c, (mode.step c (cs.head?.or next)).1) ++
        maskFrom (mode.step c (cs.head?.or next)).2 next cs := rfl

theorem classifyFrom_append (mode : Mode) (next : Option Char) (x y : List Char) :
    classifyFrom mode next (x ++ y) =
      classifyFrom mode (y.head?.or next) x ++
        classifyFrom (modeAfter mode (y.head?.or next) x) next y := by
  induction x generalizing mode with
  | nil => rfl
  | cons c x ih =>
    rw [List.cons_append, classifyFrom, head?_append_or, ih, classifyFrom, modeAfter,
      List.cons_append]

theorem maskFrom_append (mode : Mode) (next : Option Char) (x y : List Char) :
    maskFrom mode next (x ++ y) =
      maskFrom mode (y.head?.or next) x ++
        maskFrom (modeAfter mode (y.head?.or next) x) next y := by
  rw [maskFrom, classifyFrom_append, List.flatMap_append]
  rfl

theorem modeAfter_append (mode : Mode) (next : Option Char) (x y : List Char) :
    modeAfter mode next (x ++ y) =
      modeAfter (modeAfter mode (y.head?.or next) x) next y := by
  induction x generalizing mode with
  | nil => rfl
  | cons c x ih => rw [List.cons_append, modeAfter, head?_append_or, ih, modeAfter]

theorem classify_eq_classifyFrom (mode : Mode) (cs : List Char) :
    classify mode cs = classifyFrom mode none cs := by
  induction cs generalizing mode with
  | nil => rfl
  | cons c cs ih => simp only [classify, ih, classifyFrom, Option.or_none]

theorem masked_eq_maskFrom (cs : List Char) : masked cs = maskFrom .code none cs := by
  rw [masked, classify_eq_classifyFrom, maskFrom]

/-! ## The character behind a part -/

/-- Whether a character is the second one of no delimiter. -/
def IsPlain (next : Option Char) : Prop := next ≠ some '/' ∧ next ≠ some '*'

theorem isPlain_none : IsPlain none := ⟨nofun, nofun⟩

theorem isPlain_of_isSpace {c : Char} (h : isSpace c = true) : IsPlain (some c) := by
  constructor <;> (rintro ⟨⟩; exact absurd h (by decide))

theorem step_congr {next next' : Option Char} (hslash : next = some '/' ↔ next' = some '/')
    (hstar : next = some '*' ↔ next' = some '*') (mode : Mode) (c : Char) :
    mode.step c next = mode.step c next' := by
  cases mode <;> simp only [Mode.step, hslash, hstar]

theorem step_eq_of_isPlain {next next' : Option Char} (h : IsPlain next) (h' : IsPlain next')
    (mode : Mode) (c : Char) : mode.step c next = mode.step c next' :=
  step_congr (iff_of_false h.1 h'.1) (iff_of_false h.2 h'.2) mode c

theorem maskFrom_eq_of_isPlain {next next' : Option Char} (h : IsPlain next) (h' : IsPlain next')
    (mode : Mode) (cs : List Char) :
    maskFrom mode next cs = maskFrom mode next' cs ∧
      modeAfter mode next cs = modeAfter mode next' cs := by
  induction cs generalizing mode with
  | nil => exact ⟨rfl, rfl⟩
  | cons c cs ih =>
    have hstep : mode.step c (cs.head?.or next) = mode.step c (cs.head?.or next') := by
      cases cs with
      | nil => exact step_eq_of_isPlain h h' mode c
      | cons d cs => rfl
    obtain ⟨hmask, hmode⟩ := ih (mode.step c (cs.head?.or next')).2
    simp only [maskFrom_cons, modeAfter, hstep, hmask, hmode, and_self]

/-! ## White space -/

/-- Whether the scanner stands between the two characters of a delimiter. -/
def Mode.IsHalfway (mode : Mode) : Prop :=
  mode = .lineOpening ∨ mode = .blockOpening ∨ mode = .blockClosing

/-- The scanner stands inside a delimiter only if the rest of it follows. -/
theorem not_isHalfway_step {next : Option Char} (h : IsPlain next) (mode : Mode) (c : Char) :
    ¬ (mode.step c next).2.IsHalfway := by
  obtain ⟨hslash, hstar⟩ := h
  cases mode <;> simp only [Mode.step, hslash, hstar, and_false, if_false] <;>
    (try split_ifs) <;> simp [Mode.IsHalfway]

theorem not_isHalfway_modeAfter {mode : Mode} {next : Option Char} (hmode : ¬ mode.IsHalfway)
    (h : IsPlain next) (cs : List Char) : ¬ (modeAfter mode next cs).IsHalfway := by
  cases hcs : cs.getLast? with
  | none =>
    rw [List.getLast?_eq_none_iff.1 hcs]
    exact hmode
  | some c =>
    obtain ⟨front, rfl⟩ := List.getLast?_eq_some_iff.1 hcs
    rw [modeAfter_append]
    exact not_isHalfway_step h _ c

theorem isBlank_maskedChar {c : Char} (hc : isSpace c = true) (cls : CharClass) :
    isBlank (maskedChar (c, cls)) = true := by
  unfold maskedChar
  dsimp only
  split
  · simp [isBlank, hc]
  · simp [isBlank]
    exact .inr rfl

theorem isBlank_maskFrom {s : List Char} (hs : isBlank s = true) (mode : Mode)
    (next : Option Char) : isBlank (maskFrom mode next s) = true := by
  induction s generalizing mode with
  | nil => rfl
  | cons c s ih =>
    rw [isBlank_cons, Bool.and_eq_true] at hs
    rw [maskFrom_cons, isBlank_append, isBlank_maskedChar hs.1, ih hs.2]
    rfl

theorem maskFrom_ne_nil {cs : List Char} (h : cs ≠ []) (mode : Mode) (next : Option Char) :
    maskFrom mode next cs ≠ [] := by
  cases cs with
  | nil => exact absurd rfl h
  | cons c cs =>
    have hchar (cls : CharClass) : maskedChar (c, cls) ≠ [] := by
      have hpos := c.utf8Size_pos
      unfold maskedChar
      dsimp only
      split
      · simp
      · simp only [ne_eq, List.replicate_eq_nil_iff]
        omega
    rw [maskFrom_cons]
    simp [hchar]

/-- Where the scanner stands on the next line. -/
def Mode.nextLine : Mode → Mode
  | blockComment => blockComment
  | _ => code

theorem Mode.not_isHalfway_nextLine (mode : Mode) : ¬ mode.nextLine.IsHalfway := by
  cases mode <;> simp [nextLine, IsHalfway]

theorem Mode.step_newline {mode : Mode} (h : ¬ mode.IsHalfway) (next : Option Char) :
    (mode.step '\n' next).2 = mode.nextLine := by
  cases mode <;> simp_all [step, nextLine, IsHalfway]

/-- White space does not change the line. -/
theorem Mode.nextLine_step {mode : Mode} {c : Char} (h : ¬ mode.IsHalfway)
    (hc : isSpace c = true) (next : Option Char) :
    ¬ (mode.step c next).2.IsHalfway ∧ (mode.step c next).2.nextLine = mode.nextLine := by
  have hslash : c ≠ '/' := by rintro rfl; exact absurd hc (by decide)
  have hstar : c ≠ '*' := by rintro rfl; exact absurd hc (by decide)
  have hquote : c ≠ '"' := by rintro rfl; exact absurd hc (by decide)
  have hmark : c ≠ '\'' := by rintro rfl; exact absurd hc (by decide)
  cases mode with
  | code => simp [step, hslash, hquote, hmark, nextLine, IsHalfway]
  | quoted mark escaped =>
    simp only [step]
    split_ifs <;> simp [nextLine, IsHalfway]
  | lineComment =>
    simp only [step]
    split_ifs <;> simp [nextLine, IsHalfway]
  | blockComment => simp [step, hstar, nextLine, IsHalfway]
  | lineOpening | blockOpening | blockClosing => simp [IsHalfway] at h

/-- White space at the start of a line leaves the scanner where it is. -/
theorem Mode.step_nextLine {c : Char} (hc : isSpace c = true) (mode : Mode)
    (next : Option Char) : (mode.nextLine.step c next).2 = mode.nextLine := by
  have hslash : c ≠ '/' := by rintro rfl; exact absurd hc (by decide)
  have hstar : c ≠ '*' := by rintro rfl; exact absurd hc (by decide)
  have hquote : c ≠ '"' := by rintro rfl; exact absurd hc (by decide)
  have hmark : c ≠ '\'' := by rintro rfl; exact absurd hc (by decide)
  cases mode <;> simp [nextLine, step, hslash, hstar, hquote, hmark]

theorem modeAfter_nextLine {s : List Char} (hs : isBlank s = true) (mode : Mode)
    (next : Option Char) : modeAfter mode.nextLine next s = mode.nextLine := by
  induction s with
  | nil => rfl
  | cons c s ih =>
    rw [isBlank_cons, Bool.and_eq_true] at hs
    rw [modeAfter, Mode.step_nextLine hs.1, ih hs.2]

/-- **White space with a line break in it leads to the next line.** -/
theorem modeAfter_of_isBlank {s : List Char} (hs : isBlank s = true) (hbreak : '\n' ∈ s)
    {mode : Mode} (hmode : ¬ mode.IsHalfway) (next : Option Char) :
    modeAfter mode next s = mode.nextLine := by
  induction s generalizing mode with
  | nil => simp at hbreak
  | cons c s ih =>
    rw [isBlank_cons, Bool.and_eq_true] at hs
    rw [modeAfter]
    by_cases hc : c = '\n'
    · subst hc
      rw [Mode.step_newline hmode, modeAfter_nextLine hs.2]
    · obtain ⟨hmode', hline⟩ := Mode.nextLine_step hmode hs.1 (s.head?.or next)
      have hrest : '\n' ∈ s := by simpa [Ne.symm hc] using hbreak
      rw [ih hs.2 hrest hmode', hline]

end SnippetRunner.Scan
