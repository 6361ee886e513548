import SnippetRunner.Proofs.LineBreaks

/-!
# Cutting the parts of a body

A body without comments that ends in code and outside of all brackets can be cut before another one
is put behind it, and every statement of a body without comments is cut into itself
(`split_recuts`).

* What follows a line break is looked at up to its first two characters that are no white space. So
  a semicolon hides what is behind it (`startsContinuation_append_semicolon`), and a text that goes
  on the line before it still does so if its end is cut off (`startsContinuation_of_append`).
* Of a statement nothing of which is read only the line matters (`splitFrom_of_isFresh`).
* Cutting a start of the rest behind what is read of a statement is cutting both as one text
  (`Pending.Alone`). A statement that is finished is such a text.
-/

namespace SnippetRunner

open Text Scan

/-- A line break that is in no comment is code, and so is what follows. -/
theorem Scan.Mode.step_newline_of_ne_comment {mode : Mode} {next : Option Char}
    (h : (mode.step '\n' next).1 ≠ .comment) (next' : Option Char) :
    mode.step '\n' next' = (.code, .code) := by
  cases mode with
  | code | quoted | lineComment => simp [Mode.step]
  | blockComment | lineOpening | blockOpening | blockClosing => simp [Mode.step] at h

namespace Fragment

/-! ## What stands behind a line break -/

section Lookahead

variable {t z : List Char}

/-- In a text without comments nothing but white space is skipped. -/
theorem skipToCode_append (hno : Uncommented .code t) (hz : z.head? ≠ some '/')
    (hblank : isBlank t = false) : skipToCode (t ++ z) = trimStart t ++ z := by
  induction t with
  | nil => cases hblank
  | cons c t ih =>
    rw [uncommented_cons] at hno
    cases hc : isSpace c with
    | true =>
      rw [Mode.step_of_isSpace hc] at hno
      rw [isBlank_cons, hc, Bool.true_and] at hblank
      rw [List.cons_append, skipToCode, if_pos hc, ih hno.2 hblank, trimStart, trimStart,
        List.dropWhile_cons_of_pos hc]
    | false =>
      have hslash : ¬ (c = '/' ∧ (t ++ z).head? = some '/') := by
        rintro ⟨rfl, hhead⟩
        cases t with
        | nil => exact hz hhead
        | cons d t =>
          obtain rfl : d = '/' := Option.some.inj hhead
          exact hno.1 rfl
      rw [List.cons_append, skipToCode, if_neg (by simp [hc]), if_neg hslash, trimStart_eq_self]
      · rfl
      · simpa using hc

theorem skipToCode_of_uncommented (hno : Uncommented .code t) (hblank : isBlank t = false) :
    skipToCode t = trimStart t := by
  have hend := skipToCode_append (z := []) hno (by simp) hblank
  rwa [List.append_nil, List.append_nil] at hend

/-- A semicolon hides what is behind it. -/
theorem startsContinuation_append_semicolon (hno : Uncommented .code t) (b : List Char) :
    startsContinuation (skipToCode (t ++ ';' :: b)) = startsContinuation (skipToCode t) := by
  cases hblank : isBlank t with
  | true =>
    rw [skipToCode_of_isBlank_append hblank, skipToCode_of_isBlank hblank, skipToCode,
      if_neg (by decide), if_neg (by simp)]
    rfl
  | false =>
    obtain ⟨c, x, hx, -⟩ := exists_trimStart_eq hblank
    rw [skipToCode_append hno (by simp) hblank, skipToCode_of_uncommented hno hblank, hx,
      List.cons_append, startsContinuation_cons, startsContinuation_cons]
    cases x <;> simp

/-- What a text goes on with, a start of it goes on with. -/
theorem startsContinuation_of_append (hno : Uncommented .code (t ++ z)) (hblank : isBlank t = false)
    (h : startsContinuation (skipToCode (t ++ z)) = true) :
    startsContinuation (skipToCode t) = true := by
  have hwhole : isBlank (t ++ z) = false := by rw [isBlank_append, hblank, Bool.false_and]
  obtain ⟨c, x, hx, -⟩ := exists_trimStart_eq hblank
  rw [skipToCode_of_uncommented hno hwhole, trimStart_append_of_not_isBlank hblank, hx,
    List.cons_append, startsContinuation_cons] at h
  rw [skipToCode_of_uncommented hno.of_append hblank, hx, startsContinuation_cons]
  cases x with
  | nil =>
    -- a plus sign at the end has none behind it
    simp only [Bool.or_eq_true, Bool.and_eq_true] at h ⊢
    exact h.imp_right fun hin => ⟨hin.1, by simp⟩
  | cons d x => exact h

theorem goesOn_append_semicolon (hno : Uncommented .code t) (read b : List Char) :
    goesOn read (t ++ ';' :: b) = goesOn read t := by
  rw [goesOn_eq_of_code, goesOn_eq_of_code, startsContinuation_append_semicolon hno]

theorem goesOn_of_append {read : List Char} (hno : Uncommented .code (t ++ z))
    (hblank : isBlank t = false) (h : goesOn read (t ++ z) = true) : goesOn read t = true := by
  rw [goesOn_eq_of_code, Bool.and_eq_true, Bool.or_eq_true] at h ⊢
  exact ⟨h.1, h.2.imp_right (startsContinuation_of_append hno hblank)⟩

end Lookahead

/-! ## One character -/

namespace Pending

variable {p q : Pending} {c : Char} {cls : CharClass} {rest : List Char}

/-- Only a line break asks what follows it. -/
theorem advance_of_ne (hc : c ≠ '\n') (p : Pending) (cls : CharClass) (rest rest' : List Char) :
    p.advance c cls rest = p.advance c cls rest' := by
  unfold advance
  rw [if_neg hc, if_neg hc]

theorem line_advance (p : Pending) (c : Char) (cls : CharClass) (rest : List Char) :
    (p.advance c cls rest).2.line = p.line + newlines [c] := by
  have hkeep (hc : c ≠ '\n') : newlines [c] = 0 := newlines_eq_zero (by simpa using Ne.symm hc)
  have hreads := reads_advance p c cls rest
  generalize (p.advance c cls rest).1 = out at hreads
  generalize (p.advance c cls rest).2 = q at hreads
  cases hreads with
  | endLine hc | goOn hc =>
    subst hc
    rfl
  | comment hc => rw [hkeep hc, Nat.add_zero]
  | push q hc _ _ _ hline => rw [hkeep hc, Nat.add_zero, hline]
  | close q hc _ _ _ hline => rw [hkeep hc, Nat.add_zero, ← hline]; rfl
  | semicolon hc => rw [hkeep (by rw [hc]; decide), Nat.add_zero]; rfl

/-- A statement ends where no bracket is open. -/
theorem isTop_of_read_advance (hcls : cls ≠ .comment) (h : (p.advance c cls rest).2.read = []) :
    (p.advance c cls rest).2.isTop = true := by
  have hpush : (p.push c).read ≠ [] := by
    unfold push
    split <;> exact List.cons_ne_nil _ _
  unfold advance at h ⊢
  by_cases hc : c = '\n'
  · rw [if_pos hc] at h ⊢
    split at h
    · next hend =>
      rw [if_pos hend]
      exact ((Bool.and_eq_true _ _).mp hend).1
    · exact absurd h (List.cons_ne_nil _ _)
  rw [if_neg hc] at h ⊢
  cases cls with
  | comment => exact absurd rfl hcls
  | literal => exact absurd h hpush
  | code =>
    dsimp only at h ⊢
    split_ifs at h ⊢ with h₁ h₂ h₃ h₄ h₅ h₆
    · exact absurd h hpush
    · exact absurd h hpush
    · exact absurd h hpush
    · exact ((Bool.and_eq_true _ _).mp h₅).1
    · exact absurd h hpush
    · exact h₆.2
    · exact absurd h hpush

/-- Whether nothing of a statement is read, and no bracket is open. -/
structure IsFresh (p : Pending) : Prop where
  blank : isBlank p.text = true
  top : p.isTop = true

/-- Whether a character is part of no statement that is not begun. -/
def IsQuiet (c : Char) (cls : CharClass) : Prop :=
  isSpace c = true ∨ cls = .comment ∨ c = ';' ∧ cls = .code

/-- Such a character finishes nothing, and still nothing is read behind it. -/
theorem IsFresh.advance_of_isQuiet (h : p.IsFresh) (hc : IsQuiet c cls) (rest : List Char) :
    (p.advance c cls rest).1 = [] ∧ (p.advance c cls rest).2.IsFresh := by
  have hfinish := finish_of_isBlank h.blank
  by_cases hbreak : c = '\n'
  · subst hbreak
    rw [advance_newline, goesOn_of_isBlank h.blank, h.top]
    exact ⟨hfinish, rfl, h.top⟩
  obtain hspace | rfl | ⟨rfl, rfl⟩ := hc
  · rw [advance_of_isSpace hspace hbreak]
    refine ⟨rfl, ?_⟩
    dsimp only
    split
    · exact h
    · refine ⟨?_, h.top⟩
      rw [text_spaces, isBlank_append, h.blank, isBlank_cons, hspace]
      rfl
  · have hstay : p.advance c .comment rest = ([], p) := by simp [advance, hbreak]
    rw [hstay]
    exact ⟨rfl, h⟩
  · have hend : p.advance ';' .code rest = (p.finish, p.clear) := by simp [advance, h.top]
    rw [hend]
    exact ⟨hfinish, rfl, h.top⟩

/-- Any other character is the first one of a statement. -/
theorem IsFresh.advance_eq (hp : p.IsFresh) (hq : q.IsFresh) (hline : p.line = q.line)
    (hc : ¬ IsQuiet c cls) (rest : List Char) :
    p.advance c cls rest = q.advance c cls rest := by
  simp only [IsQuiet, not_or, Bool.not_eq_true] at hc
  obtain ⟨hspace, hcomment, hsemicolon⟩ := hc
  have hp' := hp.top
  have hq' := hq.top
  simp only [isTop, Bool.and_eq_true, decide_eq_true_eq] at hp' hq'
  have hpush : p.push c = q.push c := by
    have hpblank := hp.blank
    have hqblank := hq.blank
    rw [isBlank_text] at hpblank hqblank
    simp [push, hpblank, hqblank, hspace, hline, hp', hq']
  have hbreak : c ≠ '\n' := by
    rintro rfl
    exact absurd hspace (by decide)
  unfold advance
  rw [if_neg hbreak, if_neg hbreak, hpush, hp'.1, hp'.2, hq'.1, hq'.2]
  cases cls with
  | comment => exact absurd rfl hcomment
  | literal => rfl
  | code =>
    have hno : c ≠ ';' := fun h => hsemicolon ⟨h, rfl⟩
    simp only [hno, false_and, if_false]

end Pending

open Pending

/-- Of a statement nothing of which is read only the line matters. -/
theorem splitFrom_of_isFresh {p q : Pending} (hp : p.IsFresh) (hq : q.IsFresh)
    (hline : p.line = q.line) (mode : Mode) (cs : List Char) :
    splitFrom mode p cs = splitFrom mode q cs := by
  induction cs generalizing mode p q with
  | nil => exact (finish_of_isBlank hp.blank).trans (finish_of_isBlank hq.blank).symm
  | cons c cs ih =>
    rw [splitFrom_cons, splitFrom_cons]
    by_cases hc : IsQuiet c (mode.step c cs.head?).1
    · obtain ⟨hpout, hpnext⟩ := hp.advance_of_isQuiet hc cs
      obtain ⟨hqout, hqnext⟩ := hq.advance_of_isQuiet hc cs
      have hnext : (p.advance c (mode.step c cs.head?).1 cs).2.line =
          (q.advance c (mode.step c cs.head?).1 cs).2.line := by
        rw [line_advance, line_advance, hline]
      rw [hpout, hqout, ih hpnext hqnext hnext]
    · rw [hp.advance_eq hq hline hc]

/-! ## In front of a semicolon -/

/-- The state behind a text. -/
def Pending.behind (mode : Mode) (p : Pending) : List Char → Pending
  | [] => p
  | c :: cs => behind (mode.step c cs.head?).2 (p.advance c (mode.step c cs.head?).1 cs).2 cs

/-- **A text that ends in code and outside of all brackets is cut before a semicolon as it is cut
alone**, and what follows is a body of its own. -/
theorem splitFrom_append_semicolon {mode : Mode} {p : Pending} {a : List Char}
    (hno : Uncommented mode a) (hmode : endMode mode a = .code)
    (htop : (p.behind mode a).isTop = true) (b : List Char) :
    splitFrom mode p (a ++ ';' :: b) =
      splitFrom mode p a ++ split b (p.line + newlines a) := by
  induction a generalizing mode p with
  | nil =>
    obtain rfl : mode = .code := hmode
    have hend : p.advance ';' .code b = (p.finish, p.clear) := by
      have htop' : p.isTop = true := htop
      simp [advance, htop']
    have hclear : p.clear.IsFresh := ⟨rfl, htop⟩
    have hempty : (Pending.empty p.line).IsFresh := ⟨rfl, rfl⟩
    rw [List.nil_append, splitFrom_cons, show Mode.step .code ';' b.head? = (.code, .code) from rfl,
      hend, splitFrom_of_isFresh hclear hempty rfl]
    rfl
  | cons c a ih =>
    obtain ⟨hcls, hno'⟩ := uncommented_cons.1 hno
    have hstep : mode.step c (a ++ ';' :: b).head? = mode.step c a.head? := by
      cases a with
      | nil => exact step_eq_of_isPlain ⟨by simp, by simp⟩ ⟨by simp, by simp⟩ mode c
      | cons d a => rfl
    have hadvance : p.advance c (mode.step c a.head?).1 (a ++ ';' :: b) =
        p.advance c (mode.step c a.head?).1 a := by
      by_cases hc : c = '\n'
      · subst hc
        rw [Mode.step_newline_of_ne_comment hcls] at hno'
        rw [advance_newline, advance_newline, goesOn_append_semicolon hno']
      · exact advance_of_ne hc p _ _ _
    have hline : newlines (c :: a) = newlines [c] + newlines a :=
      newlines_append [c] a
    rw [List.cons_append, splitFrom_cons, splitFrom_cons, hstep, hadvance, ih hno' hmode htop,
      line_advance, hline, Nat.add_assoc, List.append_assoc]

/-! ## A statement on its own -/

namespace Pending

variable {p q : Pending} {mode : Mode} {c : Char} {cs : List Char}

/-- Whether what is read of a statement, in front of a text without comments, is read as it is
alone: cutting a start of the text behind it is cutting both as one text. A start ends with a
character that is no white space. -/
structure Alone (p : Pending) (mode : Mode) (cs : List Char) : Prop where
  fresh : isBlank p.text = true → p.isTop = true ∧ mode = .code
  starts : isBlank p.text = false → ∃ d x, p.text = d :: x ∧ isSpace d = false
  /-- The same statements behind what is read of one. -/
  recut : isBlank p.text = false → ∀ x d z, cs = x ++ d :: z → isSpace d = false →
    split (p.text ++ (x ++ [d])) p.start = splitFrom mode p (x ++ [d])
  /-- The statement itself, if the text stops here. -/
  own : ∀ f ∈ p.finish, split f.text f.line = [f]

theorem alone_of_isFresh (h : p.IsFresh) (cs : List Char) : p.Alone .code cs where
  fresh _ := ⟨h.top, rfl⟩
  starts hp := absurd (hp.symm.trans h.blank) (by decide)
  recut hp := absurd (hp.symm.trans h.blank) (by decide)
  own f hf := by
    rw [finish_of_isBlank h.blank] at hf
    exact absurd hf List.not_mem_nil

theorem isBlank_push (p : Pending) (c : Char) :
    isBlank (p.push c).text = (isBlank p.text && isSpace c) := by
  cases hc : isSpace c with
  | true => rw [(text_push (.inr hc)).1, isBlank_append, isBlank_cons, hc]; rfl
  | false => rw [isBlank_text, isBlank_read_push p hc, Bool.and_false]

/-- What is read with one more character is either more of a statement or the start of one. -/
theorem Alone.push_cases (h : p.Alone mode (c :: cs)) (hq : isBlank (p.push c).text = false) :
    (isBlank p.text = false ∧ (p.push c).text = p.text ++ [c] ∧ (p.push c).start = p.start) ∨
      (p.IsFresh ∧ mode = .code ∧ isSpace c = false ∧ (p.push c).text = [c] ∧
        (p.push c).start = p.line) := by
  cases hp : isBlank p.text with
  | false => exact .inl ⟨rfl, text_push (.inl hp)⟩
  | true =>
    rw [isBlank_push, hp, Bool.true_and] at hq
    obtain ⟨htop, hmode⟩ := h.fresh hp
    exact .inr ⟨⟨hp, htop⟩, hmode, hq, text_push_of_isBlank hp hq⟩

theorem Alone.starts_push (h : p.Alone mode (c :: cs)) (hq : isBlank (p.push c).text = false) :
    ∃ d x, (p.push c).text = d :: x ∧ isSpace d = false := by
  obtain ⟨hp, htext, -⟩ | ⟨-, -, hc, htext, -⟩ := h.push_cases hq
  · obtain ⟨d, x, hx, hd⟩ := h.starts hp
    exact ⟨d, x ++ [c], by rw [htext, hx]; rfl, hd⟩
  · exact ⟨c, [], htext, hc⟩

/-- Cutting behind one more character is cutting that character first. -/
theorem Alone.split_push (h : p.Alone mode (c :: cs)) (hq : isBlank (p.push c).text = false)
    {x y z : List Char} {d : Char} (hy : c :: y = x ++ [d]) (hcs : c :: cs = x ++ d :: z)
    (hd : isSpace d = false) :
    split ((p.push c).text ++ y) (p.push c).start = splitFrom mode p (c :: y) := by
  obtain ⟨hp, htext, hstart⟩ | ⟨hfresh, rfl, -, htext, hstart⟩ := h.push_cases hq
  · rw [htext, hstart, List.append_assoc, List.singleton_append, hy]
    exact h.recut hp x d z hcs hd
  · have hempty : (Pending.empty p.line).IsFresh := ⟨rfl, rfl⟩
    rw [htext, hstart, split, splitFrom_of_isFresh hempty hfresh rfl]
    rfl

theorem finish_push_of_isSpace (hc : isSpace c = true) (htext : q.text = (p.push c).text)
    (hstart : q.start = (p.push c).start) : q.finish = p.finish := by
  obtain ⟨hpush, hstart'⟩ := text_push (r := p) (c := c) (.inr hc)
  have hblank : isBlank [c] = true := by simp [isBlank, hc]
  simp only [finish, htext, hpush, hstart, hstart', trim_append_of_isBlank_right hblank]

/-- A statement that ends with the character it is read up to is cut into itself. -/
theorem Alone.own_push (h : p.Alone mode (c :: cs)) (hc : c ≠ '\n')
    (hcls : (mode.step c cs.head?).1 ≠ .comment) (htext : q.text = (p.push c).text)
    (hstart : q.start = (p.push c).start)
    (hadvance : p.advance c (mode.step c cs.head?).1 cs = ([], q) ∨
      p.advance c (mode.step c cs.head?).1 cs = (q.finish, q.clear)) :
    ∀ f ∈ q.finish, split f.text f.line = [f] := by
  intro f hf
  cases hspace : isSpace c with
  | true =>
    rw [finish_push_of_isSpace hspace htext hstart] at hf
    exact h.own f hf
  | false =>
    have hblank : isBlank (p.push c).text = false := by rw [isBlank_push, hspace, Bool.and_false]
    have hlast : (p.push c).text.getLast? = some c := by
      rw [text, push]
      split <;> simp
    -- neither the first character of the statement nor the last one is white space
    obtain ⟨d, x, hx, hd⟩ := h.starts_push hblank
    have htrim : trim q.text = q.text := by
      rw [htext]
      refine trim_eq_self ?_ ?_
      · rw [hx]
        simpa using hd
      · rw [hlast]
        simpa using hspace
    have hsplit := h.split_push hblank (x := []) (y := []) rfl rfl hspace
    rw [List.append_nil, ← htext, ← hstart, splitFrom_cons, List.head?_nil, step_none_fst hcls,
      advance_of_ne hc p _ [] cs] at hsplit
    rw [mem_finish hf, htrim, hsplit]
    have hself : q.finish = [⟨q.text, q.start⟩] := by rw [finish_of_mem hf, mem_finish hf, htrim]
    obtain hadvance | hadvance := hadvance
    · rw [hadvance]
      exact hself
    · rw [hadvance, hself]
      rfl

/-- One more character that does not end the statement. -/
theorem Alone.push (h : p.Alone mode (c :: cs)) (hc : c ≠ '\n')
    (hcls : (mode.step c cs.head?).1 ≠ .comment) (htext : q.text = (p.push c).text)
    (hstart : q.start = (p.push c).start)
    (hadvance : p.advance c (mode.step c cs.head?).1 cs = ([], q)) :
    q.Alone (mode.step c cs.head?).2 cs where
  fresh hq := by
    rw [htext, isBlank_push, Bool.and_eq_true] at hq
    obtain ⟨hp, hspace⟩ := hq
    obtain ⟨htop, rfl⟩ := h.fresh hp
    rw [Mode.step_of_isSpace hspace] at hadvance ⊢
    rw [advance_of_isSpace hspace hc, if_neg (by decide)] at hadvance
    obtain rfl : p.spaces [c] = q := congrArg Prod.snd hadvance
    exact ⟨htop, rfl⟩
  starts hq := by
    rw [htext] at hq ⊢
    exact h.starts_push hq
  recut hq x d z hcs hd := by
    rw [htext] at hq
    have hstep : mode.step c (x ++ [d]).head? = mode.step c cs.head? := by
      rw [hcs]
      cases x <;> rfl
    have hsplit := h.split_push hq (x := c :: x) (y := x ++ [d]) (z := z) rfl
      (by rw [hcs]; rfl) hd
    rw [htext, hstart, hsplit, splitFrom_cons, hstep, advance_of_ne hc p _ (x ++ [d]) cs, hadvance]
    rfl
  own := h.own_push hc hcls htext hstart (.inl hadvance)

/-- A line break that does not end the statement. What makes it go on is in front of the line break,
or is left in any start of the next line. -/
theorem Alone.pushBreak (h : p.Alone mode ('\n' :: cs)) (hno : Uncommented .code cs)
    (hcls : (mode.step '\n' cs.head?).1 ≠ .comment)
    (hgo : (p.isTop && !goesOn p.text cs) = false) : p.pushBreak.Alone .code cs := by
  have hp : isBlank p.text = false := by
    by_contra hblank
    rw [Bool.not_eq_false] at hblank
    rw [(h.fresh hblank).1, goesOn_of_isBlank hblank] at hgo
    exact absurd hgo (by decide)
  refine ⟨fun hq => ?_, fun hq => ?_, fun hq x d z hcs hd => ?_, ?_⟩
  · rw [text_pushBreak, isBlank_append, hp] at hq
    cases hq
  · obtain ⟨d, x, hx, hd⟩ := h.starts hp
    exact ⟨d, x ++ ['\n'], by rw [text_pushBreak, hx]; rfl, hd⟩
  · have hstays : ¬ (p.isTop && !goesOn p.text (x ++ [d])) = true := by
      subst hcs
      have hshort : isBlank (x ++ [d]) = false := isBlank_append_cons hd x []
      have hsplit : x ++ d :: z = (x ++ [d]) ++ z := by simp
      rw [hsplit] at hno hgo
      rw [Bool.and_eq_true, Bool.not_eq_true']
      rintro ⟨htop, hend⟩
      rw [htop, Bool.true_and, Bool.not_eq_false'] at hgo
      rw [goesOn_of_append hno hshort hgo] at hend
      cases hend
    have hsplit := h.recut hp ('\n' :: x) d z (by rw [hcs]; rfl) hd
    rw [List.cons_append, splitFrom_cons,
      Mode.step_newline_of_ne_comment hcls, advance_newline, if_neg hstays] at hsplit
    rw [text_pushBreak, List.append_assoc]
    exact hsplit
  · rw [finish_pushBreak]
    exact h.own

end Pending

/-- **Every statement that is cut behind what is read of one is cut into itself.** -/
theorem split_of_mem_splitFrom {mode : Mode} {p : Pending} {cs : List Char}
    (hno : Uncommented mode cs) (hp : p.Alone mode cs) {f : Fragment}
    (hf : f ∈ splitFrom mode p cs) : split f.text f.line = [f] := by
  induction cs generalizing mode p with
  | nil => exact hp.own f hf
  | cons c cs ih =>
    obtain ⟨hcls, hno'⟩ := uncommented_cons.1 hno
    rw [splitFrom_cons] at hf
    by_cases hc : c = '\n'
    · subst hc
      rw [Mode.step_newline_of_ne_comment hcls] at hno' hf
      rw [advance_newline] at hf
      cases hend : p.isTop && !goesOn p.text cs with
      | true =>
        rw [if_pos hend] at hf
        have hfresh : p.clear.nextLine.IsFresh := ⟨rfl, ((Bool.and_eq_true _ _).mp hend).1⟩
        exact (List.mem_append.1 hf).elim (hp.own f) (ih hno' (alone_of_isFresh hfresh cs))
      | false =>
        rw [if_neg (by rw [hend]; decide)] at hf
        exact ih hno' (hp.pushBreak hno' hcls hend) hf
    have htop : (p.advance c (mode.step c cs.head?).1 cs).2.read = [] →
        (p.advance c (mode.step c cs.head?).1 cs).2.isTop = true := isTop_of_read_advance hcls
    have hreads := reads_advance p c (mode.step c cs.head?).1 cs
    obtain ⟨out, next, hadvance⟩ :
        ∃ out next, p.advance c (mode.step c cs.head?).1 cs = (out, next) :=
      ⟨_, _, rfl⟩
    rw [hadvance] at hf htop hreads
    -- behind the end of a statement the next one starts
    have hafter (hcode : (mode.step c cs.head?).1 = .code) (hread : next.read = [])
        (hmem : f ∈ splitFrom (mode.step c cs.head?).2 next cs) : split f.text f.line = [f] := by
      have hfresh : next.IsFresh := ⟨by rw [Pending.text, hread]; rfl, htop hread⟩
      rw [Mode.step_snd_of_code hcode] at hno' hmem
      exact ih hno' (alone_of_isFresh hfresh cs) hmem
    cases hreads with
    | endLine hbreak | goOn hbreak => exact absurd hbreak hc
    | comment _ hcomment => exact absurd hcomment hcls
    | push _ _ _ hread hstart =>
      have htext : next.text = (p.push c).text := congrArg List.reverse hread
      exact ih hno' (hp.push hc hcls htext hstart hadvance) hf
    | close q _ hcode hread hstart =>
      have htext : q.text = (p.push c).text := congrArg List.reverse hread
      exact (List.mem_append.1 hf).elim (hp.own_push hc hcls htext hstart (.inr hadvance) f)
        (hafter hcode rfl)
    | semicolon _ hcode => exact (List.mem_append.1 hf).elim (hp.own f) (hafter hcode rfl)

/-! ## Line numbers -/

/-- The same statement `k` lines further on. -/
def later (k : Nat) (f : Fragment) : Fragment := { f with line := f.line + k }

namespace Pending

/-- The same statement `k` lines further on, while it is read. -/
def later (k : Nat) (p : Pending) : Pending :=
  { p with start := p.start + k, line := p.line + k }

theorem push_later (k : Nat) (p : Pending) (c : Char) :
    (p.later k).push c = (p.push c).later k := by
  unfold push
  rw [apply_ite (later k)]
  rfl

theorem finish_later (k : Nat) (p : Pending) :
    (p.later k).finish = p.finish.map (Fragment.later k) := by
  have htext : (p.later k).text = p.text := rfl
  simp only [finish, htext]
  split <;> rfl

theorem advance_later (k : Nat) (p : Pending) (c : Char) (cls : CharClass) (rest : List Char) :
    (p.later k).advance c cls rest =
      ((p.advance c cls rest).1.map (Fragment.later k), (p.advance c cls rest).2.later k) := by
  have hbreak : (p.later k).pushBreak = p.pushBreak.later k := by
    simp only [later, Pending.pushBreak, Nat.add_right_comm]
  have hnext (q : Pending) : (q.later k).nextLine = q.nextLine.later k := by
    simp only [later, nextLine, Nat.add_right_comm]
  have hend (q : Pending) : (q.later k).clear = q.clear.later k := rfl
  have hclose : { (p.push c).later k with braces := (p.later k).braces - 1 } =
      { p.push c with braces := p.braces - 1 }.later k := rfl
  have htext (q : Pending) : (q.later k).text = q.text := rfl
  have htop (q : Pending) : (q.later k).isTop = q.isTop := rfl
  unfold advance
  simp only [hbreak, hnext, push_later, hclose, hend, htext, htop, finish_later]
  by_cases hc : c = '\n'
  · rw [if_pos hc, if_pos hc]
    split <;> rfl
  rw [if_neg hc, if_neg hc]
  cases cls with
  | comment | literal => rfl
  | code =>
    dsimp only
    split_ifs <;> rfl

end Pending

theorem splitFrom_later (k : Nat) (mode : Mode) (p : Pending) (cs : List Char) :
    splitFrom mode (p.later k) cs = (splitFrom mode p cs).map (later k) := by
  induction cs generalizing mode p with
  | nil => exact finish_later k p
  | cons c cs ih =>
    rw [splitFrom_cons, splitFrom_cons, advance_later, ih, List.map_append]

/-- Only the line numbers depend on the line a body starts on. -/
theorem split_eq_map_later (body : List Char) (line : Nat) :
    split body line = (split body 0).map (later line) := by
  have hline : Pending.empty line = (Pending.empty 0).later line := by
    simp [Pending.empty, Pending.later]
  rw [split, hline, splitFrom_later]
  rfl

theorem split_of_split_eq {text : List Char} {line : Nat} (h : split text line = [⟨text, line⟩])
    (line' : Nat) : split text line' = [⟨text, line'⟩] := by
  rw [split_eq_map_later] at h
  obtain ⟨f, hf, hlater⟩ := List.map_eq_singleton_iff.1 h
  obtain ⟨rfl, hline⟩ : f.text = text ∧ f.line + line = line := Fragment.mk.inj hlater
  rw [split_eq_map_later, hf, List.map_singleton, later, show f.line = 0 by omega, Nat.zero_add]

/-- **A body without comments is cut in its parts.** If it ends in code and outside of all brackets,
it can be cut before a semicolon and another body are put behind it; and each of its statements is
cut into itself, on whatever line it is read. -/
theorem split_recuts {a : List Char} (hno : Uncommented .code a) (line : Nat) :
    (endMode .code a = .code → ((Pending.empty line).behind .code a).isTop = true → ∀ b,
      split (a ++ ';' :: b) line = split a line ++ split b (line + newlines a)) ∧
    ∀ f ∈ split a line, ∀ line', split f.text line' = [⟨f.text, line'⟩] := by
  refine ⟨fun hmode htop b => splitFrom_append_semicolon hno hmode htop b, fun f hf line' => ?_⟩
  have hfresh : (Pending.empty line).IsFresh := ⟨rfl, rfl⟩
  exact split_of_split_eq (split_of_mem_splitFrom hno (alone_of_isFresh hfresh a) hf) line'

/-- An initializer and a loop over two lines each, and a call behind a literal that goes on. -/
def wrappedBody : List Char :=
  "int[] xs = \x7b1,\n2\x7d\nfor (int x : xs)\n  \x7b f(x); \x7d\ns = \"a;\x7d\"\n  .trim()".toList

/-- Another body, which starts with an operator and has a comment in it. -/
def operatorBody : List Char := "\n+ 1; // done\ng()".toList

theorem split_wrappedBody : Uncommented .code wrappedBody ∧ endMode .code wrappedBody = .code ∧
    ((Pending.empty 1).behind .code wrappedBody).isTop = true ∧
    (split wrappedBody 1).map line = [1, 3, 5] ∧
    split (wrappedBody ++ ';' :: operatorBody) 1 =
      split wrappedBody 1 ++ split operatorBody (1 + newlines wrappedBody) ∧
    ∀ f ∈ split wrappedBody 1, split f.text 7 = [⟨f.text, 7⟩] := by
  have hno : Uncommented .code wrappedBody := by
    unfold Uncommented
    decide +kernel
  have hmode : endMode .code wrappedBody = .code := by decide +kernel
  have htop : ((Pending.empty 1).behind .code wrappedBody).isTop = true := by decide +kernel
  have hcut := split_recuts hno 1
  exact ⟨hno, hmode, htop, by decide +kernel, hcut.1 hmode htop operatorBody,
    fun f hf => hcut.2 f hf 7⟩

end Fragment

end SnippetRunner
