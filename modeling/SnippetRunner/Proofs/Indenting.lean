import Mathlib.Data.List.Forall2
import SnippetRunner.Proofs.Rereading
import SnippetRunner.Proofs.Spacing
import SnippetRunner.Proofs.Splitting

/-!
# Statements of a text that is laid out anew

A body whose lines are laid out anew is cut into the same statements (`splitFrom_laidOut`), but for
white space around their line breaks and for the lines they stand on.

The two texts are read side by side. What is read of a statement is realigned (`Shifted`), and where
a line starts, white space may be read on either side alone (`Shifted.spaces_left`,
`Shifted.spaces_right`).
-/

namespace SnippetRunner

open Text Scan Margin

namespace Fragment

/-- The same statement `k` lines further on, but for white space around its line breaks. -/
def Shifted (k : Nat) (f g : Fragment) : Prop :=
  trimmedLines g.text = trimmedLines f.text ∧ g.line = f.line + k

/-! ## What follows a line break -/

section Continuation

variable {indent tail : List Char}

theorem skipToCode_of_isBlank_append {s : List Char} (hs : isBlank s = true) (cs : List Char) :
    skipToCode (s ++ cs) = skipToCode cs := by
  induction s with
  | nil => rfl
  | cons c s ih =>
    rw [isBlank_cons, Bool.and_eq_true] at hs
    rw [List.cons_append, skipToCode, if_pos hs.1, ih hs.2]

theorem skipToCode_of_isBlank {s : List Char} (hs : isBlank s = true) : skipToCode s = [] := by
  have hskip := skipToCode_of_isBlank_append hs []
  rwa [List.append_nil, skipToCode] at hskip

/-- Inside a line a text and its layout start with the same character, if it is none that ends
tokens. -/
theorem head?_laidOut_iff {d : Char} (hd : Lexer.endsToken d = false) (cs : List Char) :
    (laidOut indent inLine cs ++ tail).head? = some d ↔ cs.head? = some d := by
  have halike : Lexer.Alike cs (laidOut indent inLine cs ++ tail) := alike_laidOut cs tail
  obtain ⟨v, Z, Z', hcs, hout, hZ, hZ'⟩ := halike
  rw [hout, hcs]
  cases v with
  | nil => exact iff_of_false (hZ'.head?_ne hd) (hZ.head?_ne hd)
  | cons c v => rfl

theorem startsContinuation_cons (c : Char) (cs : List Char) :
    startsContinuation (c :: cs) = (c = '.' ||
      ("+*/%?:&|".toList.contains c && !(c = '+' && cs.head? = some '+'))) := rfl

theorem dropWhile_of_newline_not_mem {x : List Char} (hx : '\n' ∉ x) (y : List Char) :
    (x ++ y).dropWhile (· ≠ '\n') = y.dropWhile (· ≠ '\n') := by
  refine List.dropWhile_append_of_pos fun c hc => ?_
  simp only [decide_eq_true_eq]
  rintro rfl
  exact hx hc

theorem isBlank_append_of_isBlank {s t : List Char} (hs : isBlank s = true)
    (ht : isBlank t = true) :
    isBlank (s ++ t) = true := by
  rw [isBlank_append, hs, ht]
  rfl

variable (indent) in
/-- Behind the rest of a line stands the next line, laid out, or white space if there is none. -/
theorem dropWhile_laidOut_inLine (htail : isBlank tail = true) (cs : List Char) :
    (∃ rest, rest.length < cs.length ∧ cs.dropWhile (· ≠ '\n') = '\n' :: rest ∧
        (laidOut indent inLine cs ++ tail).dropWhile (· ≠ '\n') =
          '\n' :: (laidOut indent lineStart rest ++ tail)) ∨
      cs.dropWhile (· ≠ '\n') = [] ∧
        isBlank ((laidOut indent inLine cs ++ tail).dropWhile (· ≠ '\n')) = true := by
  by_cases hmem : '\n' ∈ cs
  · obtain ⟨l, rest, rfl, hl⟩ := List.eq_append_cons_of_mem hmem
    have hsplit : l ++ '\n' :: rest = (l ++ ['\n']) ++ rest := by simp
    refine .inl ⟨rest, ?_, ?_, ?_⟩
    · rw [List.length_append, List.length_cons]
      omega
    · rw [dropWhile_of_newline_not_mem hl]
      rfl
    · rw [hsplit, laidOut_append, layOut_inLine hl, List.append_assoc, List.append_assoc,
        dropWhile_of_newline_not_mem (newline_not_mem_dropBreak hl)]
      rfl
  · have hnone := dropWhile_of_newline_not_mem hmem []
    rw [List.append_nil] at hnone
    refine .inr ⟨hnone, ?_⟩
    rw [laidOut_inLine hmem, List.append_assoc, dropWhile_of_newline_not_mem hmem]
    exact isBlank_append_of_isBlank (s := ['\n']) rfl htail

/-- A line break is passed over. -/
theorem startsContinuation_newline (cs : List Char) :
    startsContinuation (skipToCode ('\n' :: cs)) = startsContinuation (skipToCode cs) := by
  rw [skipToCode, if_pos (by decide)]

/-- **What a layout starts with belongs to the line before it or not, as what the text starts
with.** -/
theorem startsContinuation_laidOut (hindent : isBlank indent = true) (htail : isBlank tail = true)
    {held : List Char} (hheld : isBlank held = true) (cs : List Char) :
    startsContinuation (skipToCode (laidOut indent ⟨true, held⟩ cs ++ tail)) =
      startsContinuation (skipToCode cs) := by
  induction hn : cs.length using Nat.strongRecOn generalizing held cs with
  | _ n ih =>
    cases cs with
    | nil =>
      rw [laidOut_nil, skipToCode_of_isBlank
        (isBlank_append_of_isBlank (isBlank_finish hheld) htail),
        skipToCode]
    | cons c cs =>
      have hlt : cs.length < n := by rw [← hn]; simp
      by_cases hbreak : c = '\n'
      · subst hbreak
        rw [laidOut_cons, step_newline, List.append_assoc]
        exact (startsContinuation_newline _).trans
          ((ih _ hlt rfl cs rfl).trans (startsContinuation_newline _).symm)
      cases hc : isSpace c with
      | true =>
        have hheld' : isBlank (held ++ [c]) = true :=
          isBlank_append_of_isBlank hheld (by simp [isBlank, hc])
        rw [laidOut_cons, step_of_blank rfl hc hbreak, List.nil_append, ih _ hlt hheld' cs rfl,
          skipToCode, if_pos hc]
      | false =>
        have hlead : isBlank (indent ++ held) = true := isBlank_append_of_isBlank hindent hheld
        have hnot : ¬ isSpace c = true := by simp [hc]
        have hfront : laidOut indent ⟨true, held⟩ (c :: cs) ++ tail =
            (indent ++ held) ++ c :: (laidOut indent inLine cs ++ tail) := by
          rw [laidOut_cons, step_of_not_isSpace hc]
          simp [lead]
        have hslash : (laidOut indent inLine cs ++ tail).head? = some '/' ↔ cs.head? = some '/' :=
          head?_laidOut_iff (by decide) cs
        have hplus : (laidOut indent inLine cs ++ tail).head? = some '+' ↔ cs.head? = some '+' :=
          head?_laidOut_iff (by decide) cs
        rw [hfront, skipToCode_of_isBlank_append hlead, skipToCode, skipToCode, if_neg hnot,
          if_neg hnot]
        simp only [hslash]
        split
        · -- behind a line comment the next line starts
          obtain ⟨rest, hrest, htext, hout⟩ | ⟨htext, hout⟩ :=
            dropWhile_laidOut_inLine indent htail cs
          · rw [htext, hout, startsContinuation_newline, startsContinuation_newline]
            exact ih _ (Nat.lt_trans hrest hlt) rfl rest rfl
          · rw [htext, skipToCode_of_isBlank hout, skipToCode]
        · rw [startsContinuation_cons, startsContinuation_cons, decide_eq_decide.2 hplus]

end Continuation

/-! ## Statements while they are read -/

namespace Pending

/-- The same statement while it is read, `k` lines further on, but for white space around its line
breaks. White space in front of a statement does not matter. -/
structure Shifted (k : Nat) (p q : Pending) : Prop where
  line_eq : q.line = p.line + k
  parens_eq : q.parens = p.parens
  braces_eq : q.braces = p.braces
  read : (isBlank p.text = true ∧ isBlank q.text = true) ∨
    Realigned p.text q.text ∧ q.start = p.start + k

/-- Whether a line starts behind what was read: nothing of a statement, or a line break and white
space. -/
def AtLine (p : Pending) : Prop :=
  isBlank p.text = true ∨ ∃ a u, p.text = a ++ u ∧ isBlank u = true ∧ '\n' ∈ u

/-- More white space. -/
def spaces (p : Pending) (s : List Char) : Pending := { p with read := s.reverse ++ p.read }

variable {k : Nat} {p q : Pending} {s : List Char}

@[simp] theorem text_spaces (p : Pending) (s : List Char) : (p.spaces s).text = p.text ++ s := by
  simp [text, spaces]

theorem AtLine.spaces (h : p.AtLine) (hs : isBlank s = true) : (p.spaces s).AtLine := by
  rw [AtLine, text_spaces]
  obtain hblank | ⟨a, u, htext, hu, hbreak⟩ := h
  · exact .inl (isBlank_append_of_isBlank hblank hs)
  · exact .inr ⟨a, u ++ s, by rw [htext, List.append_assoc], isBlank_append_of_isBlank hu hs,
      List.mem_append_left _ hbreak⟩

/-- White space at the start of a line is part of a gap. -/
theorem replaced_append_of_isBlank {a u : List Char} (hu : isBlank u = true) (hbreak : '\n' ∈ u)
    (hs : isBlank s = true) (hno : '\n' ∉ s) : Replaced Gap (a ++ u) (a ++ u ++ s) := by
  have hgap : Gap u (u ++ s) := by
    refine ⟨hu, isBlank_append_of_isBlank hu hs, ?_, hbreak, ?_⟩
    · rw [newlines_append, newlines_eq_zero hno, Nat.add_zero]
    · obtain ⟨c, u, rfl⟩ := List.exists_cons_of_ne_nil (List.ne_nil_of_mem hbreak)
      exact Iff.rfl
  have hreplaced := Replaced.intro (P := Gap) a [] hgap
  simpa using hreplaced

theorem Shifted.spaces_right (h : Shifted k p q) (hq : q.AtLine) (hs : isBlank s = true)
    (hno : '\n' ∉ s) : Shifted k p (q.spaces s) := by
  refine ⟨h.line_eq, h.parens_eq, h.braces_eq, ?_⟩
  rw [text_spaces]
  obtain ⟨hp, hblank⟩ | ⟨hread, hstart⟩ := h.read
  · exact .inl ⟨hp, isBlank_append_of_isBlank hblank hs⟩
  · obtain hblank | ⟨a, u, htext, hu, hbreak⟩ := hq
    · refine .inl ⟨?_, isBlank_append_of_isBlank hblank hs⟩
      rw [eq_of_realigned (f := isBlank) (fun h => h.spaced.isBlank_eq) hread, hblank]
    · rw [htext] at hread ⊢
      exact .inr ⟨hread.tail (replaced_append_of_isBlank hu hbreak hs hno), hstart⟩

theorem Shifted.spaces_left (h : Shifted k p q) (hp : p.AtLine) (hs : isBlank s = true)
    (hno : '\n' ∉ s) : Shifted k (p.spaces s) q := by
  refine ⟨h.line_eq, h.parens_eq, h.braces_eq, ?_⟩
  rw [text_spaces]
  obtain ⟨hblank, hq⟩ | ⟨hread, hstart⟩ := h.read
  · exact .inl ⟨isBlank_append_of_isBlank hblank hs, hq⟩
  · obtain hblank | ⟨a, u, htext, hu, hbreak⟩ := hp
    · refine .inl ⟨isBlank_append_of_isBlank hblank hs, ?_⟩
      rw [← eq_of_realigned (f := isBlank) (fun h => h.spaced.isBlank_eq) hread, hblank]
    · rw [htext] at hread ⊢
      exact .inr ⟨.head (replaced_append_of_isBlank hu hbreak hs hno).symm hread, hstart⟩

theorem Shifted.isBlank_eq (h : Shifted k p q) : isBlank p.text = isBlank q.text := by
  obtain ⟨hp, hq⟩ | ⟨hread, -⟩ := h.read
  · rw [hp, hq]
  · exact eq_of_realigned (f := isBlank) (fun h => h.spaced.isBlank_eq) hread

theorem Shifted.finish (h : Shifted k p q) :
    List.Forall₂ (Fragment.Shifted k) p.finish q.finish := by
  obtain ⟨hp, hq⟩ | ⟨hread, hstart⟩ := h.read
  · rw [finish_of_isBlank hp, finish_of_isBlank hq]
    exact .nil
  · have hempty : (trim p.text).isEmpty = (trim q.text).isEmpty := by
      rw [Bool.eq_iff_iff, List.isEmpty_iff, List.isEmpty_iff, trim_eq_nil_iff, trim_eq_nil_iff,
        h.isBlank_eq]
    have hskipped : isSkipped (trim p.text) = isSkipped (trim q.text) :=
      eq_of_realigned (f := fun t => isSkipped (trim t)) isSkipped_trim_eq hread
    have hlines : trimmedLines (trim p.text) = trimmedLines (trim q.text) :=
      eq_of_realigned (f := fun t => trimmedLines (trim t)) Replaced.trimmedLines_trim hread
    simp only [Pending.finish, hempty, hskipped]
    split
    · exact .nil
    · exact .cons ⟨hlines.symm, hstart⟩ .nil

/-- White space at the end of a statement is no part of it. -/
theorem finish_spaces (p : Pending) (hs : isBlank s = true) : (p.spaces s).finish = p.finish := by
  simp only [finish, text_spaces, trim_append_of_isBlank_right hs]
  rfl

theorem Shifted.pushBreak (h : Shifted k p q) : Shifted k p.pushBreak q.pushBreak := by
  refine ⟨?_, h.parens_eq, h.braces_eq, ?_⟩
  · simp only [Pending.pushBreak, h.line_eq]
    omega
  · rw [text_pushBreak, text_pushBreak]
    obtain ⟨hp, hq⟩ | ⟨hread, hstart⟩ := h.read
    · exact .inl ⟨isBlank_append_of_isBlank hp rfl, isBlank_append_of_isBlank hq rfl⟩
    · exact .inr ⟨hread.lift (· ++ ['\n']) fun t t' h => h.append _, hstart⟩

theorem Shifted.push (h : Shifted k p q) (c : Char) : Shifted k (p.push c) (q.push c) := by
  have hread := h.isBlank_eq
  rw [isBlank_text, isBlank_text] at hread
  unfold Pending.push
  rw [hread]
  split
  · exact ⟨h.line_eq, h.parens_eq, h.braces_eq, .inr ⟨.refl, h.line_eq⟩⟩
  · next hno =>
    refine ⟨h.line_eq, h.parens_eq, h.braces_eq, ?_⟩
    have htext (r : Pending) : Pending.text { r with read := c :: r.read } = r.text ++ [c] := by
      simp [text]
    rw [htext, htext]
    obtain ⟨hp, hq⟩ | ⟨hread', hstart⟩ := h.read
    · have hc : isBlank [c] = true := by
        rw [isBlank_text] at hq
        have hspace : isSpace c = true := by simpa [hq] using hno
        rw [isBlank_cons, hspace]
        rfl
      exact .inl ⟨isBlank_append_of_isBlank hp hc, isBlank_append_of_isBlank hq hc⟩
    · exact .inr ⟨hread'.lift (· ++ [c]) fun t t' h => h.append _, hstart⟩

theorem Shifted.clear (h : Shifted k p q) : Shifted k p.clear q.clear :=
  ⟨h.line_eq, h.parens_eq, h.braces_eq, .inl ⟨rfl, rfl⟩⟩

theorem Shifted.isTop_eq (h : Shifted k p q) : p.isTop = q.isTop := by
  simp only [isTop, h.parens_eq, h.braces_eq]

theorem isBlank_read_push (p : Pending) {c : Char} (hc : isSpace c = false) :
    isBlank (p.push c).read = false := by
  unfold Pending.push
  split <;> simp [isBlank_cons, hc]

/-- The same character, if it is no line break, does the same to both statements. -/
theorem Shifted.advance (h : Shifted k p q) {c : Char} (hc : c ≠ '\n') (cls : CharClass)
    (rest rest' : List Char) :
    List.Forall₂ (Fragment.Shifted k) (p.advance c cls rest).1 (q.advance c cls rest').1 ∧
      Shifted k (p.advance c cls rest).2 (q.advance c cls rest').2 := by
  have hpush := h.push c
  unfold Pending.advance
  rw [if_neg hc, if_neg hc]
  cases cls with
  | comment => exact ⟨.nil, h⟩
  | literal => exact ⟨.nil, hpush⟩
  | code =>
    have hclose : Shifted k { p.push c with braces := p.braces - 1 }
        { q.push c with braces := q.braces - 1 } :=
      ⟨hpush.line_eq, hpush.parens_eq, congrArg (· - 1) h.braces_eq, hpush.read⟩
    have hinit (hbrace : c = '}') :
        isInitializer (p.push c).text = isInitializer (q.push c).text := by
      obtain ⟨hblank, -⟩ | ⟨hread, -⟩ := hpush.read
      · subst hbrace
        rw [isBlank_text] at hblank
        have hnot : isBlank (p.push '}').read = false := isBlank_read_push p (by decide)
        rw [hblank] at hnot
        exact absurd hnot.symm Bool.false_ne_true
      · exact eq_of_realigned (f := isInitializer)
          (fun h => by
            rw [isInitializer_eq, isInitializer_eq]
            exact opensInitializer_eq (replaced_masked h)) hread
    dsimp only
    by_cases hopen : c = '(' ∨ c = '['
    · rw [if_pos hopen, if_pos hopen]
      exact ⟨.nil, hpush.line_eq, congrArg (· + 1) h.parens_eq, hpush.braces_eq, hpush.read⟩
    rw [if_neg hopen, if_neg hopen]
    by_cases hend : c = ')' ∨ c = ']'
    · rw [if_pos hend, if_pos hend]
      exact ⟨.nil, hpush.line_eq, congrArg (· - 1) h.parens_eq, hpush.braces_eq, hpush.read⟩
    rw [if_neg hend, if_neg hend]
    by_cases hlbrace : c = '{'
    · rw [if_pos hlbrace, if_pos hlbrace]
      exact ⟨.nil, hpush.line_eq, hpush.parens_eq, congrArg (· + 1) h.braces_eq, hpush.read⟩
    rw [if_neg hlbrace, if_neg hlbrace]
    by_cases hrbrace : c = '}'
    · rw [if_pos hrbrace, if_pos hrbrace, hclose.isTop_eq]
      have htext : isInitializer (Pending.text { p.push c with braces := p.braces - 1 }) =
          isInitializer (Pending.text { q.push c with braces := q.braces - 1 }) := hinit hrbrace
      rw [htext]
      split
      · exact ⟨hclose.finish, hclose.clear⟩
      · exact ⟨.nil, hclose⟩
    rw [if_neg hrbrace, if_neg hrbrace, h.isTop_eq]
    split
    · exact ⟨h.finish, h.clear⟩
    · exact ⟨.nil, hpush⟩

/-- A line break ends both statements or none. White space may stand in front of it on one side, if
it does not start with a space. -/
theorem Shifted.advance_newline (h : Shifted k p q) (hs : isBlank s = true) (hno : '\n' ∉ s)
    (hspace : s.head? ≠ some ' ') {rest rest' : List Char} (cls cls' : CharClass)
    (hrest : startsContinuation (skipToCode rest') = startsContinuation (skipToCode rest)) :
    List.Forall₂ (Fragment.Shifted k) ((p.spaces s).advance '\n' cls rest).1
        (q.advance '\n' cls' rest').1 ∧
      Shifted k ((p.spaces s).advance '\n' cls rest).2 (q.advance '\n' cls' rest').2 ∧
      ((p.spaces s).advance '\n' cls rest).2.AtLine ∧ (q.advance '\n' cls' rest').2.AtLine := by
  have hgoes : goesOn (p.spaces s).text rest = goesOn q.text rest' := by
    have hbehind (t : List Char) : goesOn t rest' = goesOn t rest := by simp only [goesOn, hrest]
    rw [text_spaces, goesOn_append_of_isBlank hs, hbehind]
    obtain ⟨hp, hq⟩ | ⟨hread, -⟩ := h.read
    · rw [goesOn_of_isBlank hp, goesOn_of_isBlank hq]
    · exact goesOn_eq_of_realigned hread rest
  have htop : (p.spaces s).isTop = q.isTop := h.isTop_eq
  unfold Pending.advance
  rw [if_pos rfl, if_pos rfl, hgoes, htop]
  split
  · refine ⟨?_, ⟨?_, h.parens_eq, h.braces_eq, .inl ⟨rfl, rfl⟩⟩, .inl rfl, .inl rfl⟩
    · rw [finish_spaces p hs]
      exact h.finish
    · simp only [Pending.nextLine, Pending.clear, spaces, h.line_eq]
      omega
  · have hline (r : Pending) : r.pushBreak.AtLine :=
      .inr ⟨r.text, ['\n'], text_pushBreak r, rfl, List.mem_cons_self⟩
    refine ⟨.nil, ?_, hline _, hline _⟩
    have hbreak := h.pushBreak
    refine ⟨hbreak.line_eq, hbreak.parens_eq, hbreak.braces_eq, ?_⟩
    rw [text_pushBreak, text_spaces, List.append_assoc]
    obtain ⟨hp, hq⟩ | ⟨hread, hstart⟩ := hbreak.read
    · rw [text_pushBreak, isBlank_append, Bool.and_eq_true] at hp
      exact .inl ⟨isBlank_append_of_isBlank hp.1 (isBlank_append_of_isBlank hs rfl), hq⟩
    · have hgap : Gap (s ++ ['\n']) ['\n'] := by
        refine ⟨isBlank_append_of_isBlank hs rfl, rfl, ?_,
          List.mem_append_right _ List.mem_cons_self,
          ?_⟩
        · rw [newlines_append, newlines_eq_zero hno, Nat.zero_add]
        · cases s with
          | nil => rfl
          | cons c s => exact iff_of_false hspace (by decide)
      have hreplaced := Replaced.intro (P := Gap) p.text [] hgap
      rw [List.append_nil, List.append_nil, ← text_pushBreak p] at hreplaced
      exact .inr ⟨.head hreplaced hread, hstart⟩

end Pending

/-! ## White space -/

open Pending

/-- White space at the end of a text finishes the statement. -/
theorem splitFrom_of_isBlank {s : List Char} (hs : isBlank s = true) (mode : Mode) (p : Pending) :
    splitFrom mode p s = p.finish := by
  induction s generalizing mode p with
  | nil => rfl
  | cons c s ih =>
    rw [isBlank_cons, Bool.and_eq_true] at hs
    have hone : isBlank [c] = true := by
      rw [isBlank_cons, hs.1]
      rfl
    rw [splitFrom_cons, ih hs.2]
    have hfinish {q : Pending} (hread : q.read = p.read ∨ q.read = c :: p.read)
        (hstart : q.start = p.start) : q.finish = p.finish := by
      have htext : trim q.text = trim p.text := by
        obtain hread | hread := hread
        · rw [Pending.text, hread, Pending.text]
        · rw [Pending.text, hread, List.reverse_cons, trim_append_of_isBlank_right hone,
            Pending.text]
      simp only [Pending.finish, htext, hstart]
    have hpush : p.push c = { p with read := c :: p.read } := by simp [Pending.push, hs.1]
    have hreads := reads_advance p c (mode.step c s.head?).1 s
    generalize (p.advance c (mode.step c s.head?).1 s).1 = out at hreads
    generalize (p.advance c (mode.step c s.head?).1 s).2 = q at hreads
    cases hreads with
    | endLine hc => exact (List.append_nil _)
    | goOn hc =>
      subst hc
      exact hfinish (.inr rfl) rfl
    | comment => rfl
    | push q _ _ hread hstart =>
      rw [hpush] at hread hstart
      exact hfinish (.inr hread) hstart
    | close q _ _ hread hstart =>
      rw [hpush] at hread hstart
      rw [hfinish (.inr hread) hstart]
      exact List.append_nil _
    | semicolon hc =>
      subst hc
      exact absurd hs.1 (by decide)

/-- White space is read of the statement, or belongs to a comment. -/
theorem Pending.advance_of_isSpace {c : Char} (hc : isSpace c = true) (hne : c ≠ '\n') (p : Pending)
    (cls : CharClass) (rest : List Char) :
    p.advance c cls rest = ([], if cls = .comment then p else p.spaces [c]) := by
  have hother {d : Char} (hd : isSpace d = false) : c ≠ d := by
    rintro rfl
    rw [hc] at hd
    exact Bool.false_ne_true hd.symm
  have hpush : p.push c = p.spaces [c] := by simp [Pending.push, Pending.spaces, hc]
  cases cls with
  | comment => simp [Pending.advance, hne]
  | literal => simp [Pending.advance, hne, hpush]
  | code =>
    simp [Pending.advance, hne, hpush, hother (d := '(') (by decide), hother (d := '[') (by decide),
      hother (d := ')') (by decide), hother (d := ']') (by decide), hother (d := '{') (by decide),
      hother (d := '}') (by decide), hother (d := ';') (by decide)]

/-- The class of white space at the start of a line. -/
theorem step_nextLine_fst {c : Char} (hc : isSpace c = true) (mode : Mode)
    (next next' : Option Char) :
    (mode.nextLine.step c next).1 = (mode.nextLine.step c next').1 := by
  have hslash : c ≠ '/' := by rintro rfl; exact absurd hc (by decide)
  have hstar : c ≠ '*' := by rintro rfl; exact absurd hc (by decide)
  cases mode <;> simp [Mode.nextLine, Mode.step, hslash, hstar]

/-- White space at the start of a line is read of the statement, or belongs to a comment. -/
theorem splitFrom_nextLine_append {s : List Char} (hs : isBlank s = true) (hno : '\n' ∉ s)
    (mode : Mode) (p : Pending) :
    ∃ s', isBlank s' = true ∧ '\n' ∉ s' ∧ ∀ cs,
      splitFrom mode.nextLine p (s ++ cs) = splitFrom mode.nextLine (p.spaces s') cs := by
  induction s generalizing p with
  | nil => exact ⟨[], rfl, List.not_mem_nil, fun cs => rfl⟩
  | cons c s ih =>
    rw [isBlank_cons, Bool.and_eq_true] at hs
    simp only [List.mem_cons, not_or] at hno
    have hstep (cs : List Char) : splitFrom mode.nextLine p (c :: s ++ cs) =
        splitFrom mode.nextLine
          (if (mode.nextLine.step c none).1 = .comment then p else p.spaces [c]) (s ++ cs) := by
      rw [List.cons_append, splitFrom_cons, advance_of_isSpace hs.1 (Ne.symm hno.1),
        List.nil_append,
        Mode.step_nextLine hs.1, step_nextLine_fst hs.1 mode _ none]
    split at hstep
    · obtain ⟨s', hs', hno', hread⟩ := ih hs.2 hno.2 p
      exact ⟨s', hs', hno', fun cs => (hstep cs).trans (hread cs)⟩
    · obtain ⟨s', hs', hno', hread⟩ := ih hs.2 hno.2 (p.spaces [c])
      refine ⟨c :: s', ?_, ?_, fun cs => (hstep cs).trans ((hread cs).trans ?_)⟩
      · rw [isBlank_cons, hs.1, hs']
        rfl
      · simp only [List.mem_cons, not_or]
        exact ⟨hno.1, hno'⟩
      · simp [Pending.spaces]

/-! ## The two texts side by side -/

section LaidOut

variable {indent tail : List Char} {k : Nat}

theorem laidOut_return_cons {c : Char} (hc : c ≠ '\n') (cs : List Char) :
    laidOut indent inLine ('\r' :: c :: cs) = '\r' :: laidOut indent inLine (c :: cs) := by
  rw [laidOut_cons, inLine, step_return, laidOut_cons, ← inLine]
  by_cases hreturn : c = '\r'
  · subst hreturn
    rw [step_return, laidOut_cons, inLine, step_return]
    rfl
  · rw [step_of_not_blank hc hreturn, laidOut_cons, inLine, step_of_not_blank hc hreturn]
    rfl

theorem laidOut_return_newline (cs : List Char) :
    laidOut indent inLine ('\r' :: '\n' :: cs) = '\n' :: laidOut indent lineStart cs := rfl

variable (indent tail k) in
/-- The text `cs` and its layout are cut into the same statements, from the start of a line on,
where white space may not have been written yet, and from inside a line on. -/
structure CutAlike (cs : List Char) : Prop where
  ofLineStart {p q : Pending} {held : List Char} (mode : Mode) : isBlank held = true →
    '\n' ∉ held → p.Shifted k q → p.AtLine → q.AtLine →
    List.Forall₂ (Shifted k) (splitFrom mode.nextLine p cs)
      (splitFrom mode.nextLine q (laidOut indent ⟨true, held⟩ cs ++ tail))
  ofInLine {mode : Mode} {p q : Pending} : (IsPlain cs.head? → ¬ mode.IsHalfway) → p.Shifted k q →
    List.Forall₂ (Shifted k) (splitFrom mode p cs)
      (splitFrom mode q (laidOut indent inLine cs ++ tail))

namespace CutAlike

variable {mode mode' : Mode} {p q : Pending} {c : Char} {cs s held : List Char}

/-- At the end of a text both statements are finished. -/
theorem forall₂_nil (htail : isBlank tail = true) (h : p.Shifted k q) {m : Margin}
    (hm : isBlank m.held = true) :
    List.Forall₂ (Shifted k) (splitFrom mode p [])
      (splitFrom mode' q (laidOut indent m [] ++ tail)) := by
  rw [laidOut_nil, splitFrom_of_isBlank (s := []) rfl,
    splitFrom_of_isBlank (isBlank_append_of_isBlank (isBlank_finish hm) htail)]
  exact h.finish

/-- Both texts come to a line break, in front of which a carriage return may be left out of the
layout. -/
theorem forall₂_newline (hcs : CutAlike indent tail k cs) (hindent : isBlank indent = true)
    (htail : isBlank tail = true) (hs : isBlank s = true) (hfree : '\n' ∉ s)
    (hspace : s.head? ≠ some ' ') (hmode : ¬ mode.IsHalfway) (hmode' : ¬ mode'.IsHalfway)
    (hline : mode.nextLine = mode'.nextLine) (h : p.Shifted k q) :
    List.Forall₂ (Shifted k) (splitFrom mode (p.spaces s) ('\n' :: cs))
      (splitFrom mode' q ('\n' :: (laidOut indent lineStart cs ++ tail))) := by
  have hrest : startsContinuation (skipToCode (laidOut indent lineStart cs ++ tail)) =
      startsContinuation (skipToCode cs) := startsContinuation_laidOut hindent htail rfl cs
  obtain ⟨hout, hnext, hp, hq⟩ := h.advance_newline hs hfree hspace (mode.step '\n' cs.head?).1
    (mode'.step '\n' (laidOut indent lineStart cs ++ tail).head?).1 hrest
  rw [splitFrom_cons, splitFrom_cons, Mode.step_newline hmode, Mode.step_newline hmode', ← hline]
  exact List.rel_append hout (hcs.ofLineStart mode rfl List.not_mem_nil hnext hp hq)

/-- Both texts come to the same character, and are inside a line behind it. -/
theorem forall₂_cons (hcs : CutAlike indent tail k cs) (hc : c ≠ '\n') (h : p.Shifted k q) :
    List.Forall₂ (Shifted k) (splitFrom mode p (c :: cs))
      (splitFrom mode q (c :: (laidOut indent inLine cs ++ tail))) := by
  have hstep : mode.step c (laidOut indent inLine cs ++ tail).head? = mode.step c cs.head? :=
    step_congr (head?_laidOut_iff (by decide) cs) (head?_laidOut_iff (by decide) cs) mode c
  obtain ⟨hout, hnext⟩ :=
    h.advance hc (mode.step c cs.head?).1 cs (laidOut indent inLine cs ++ tail)
  rw [splitFrom_cons, splitFrom_cons, hstep]
  exact List.rel_append hout
    (hcs.ofInLine (fun hplain => not_isHalfway_step hplain mode c) hnext)

/-- At the start of a line a break ends the line, white space is not written yet, and any other
character stands behind the indentation. -/
theorem forall₂_lineStart (hcs : CutAlike indent tail k cs) (hindent : isBlank indent = true)
    (hno : '\n' ∉ indent) (htail : isBlank tail = true) (hheld : isBlank held = true)
    (hfree : '\n' ∉ held) (h : p.Shifted k q) (hp : p.AtLine) (hq : q.AtLine) :
    List.Forall₂ (Shifted k) (splitFrom mode.nextLine p (c :: cs))
      (splitFrom mode.nextLine q (laidOut indent ⟨true, held⟩ (c :: cs) ++ tail)) := by
  by_cases hc : c = '\n'
  · subst hc
    rw [laidOut_cons, step_newline, List.append_assoc]
    exact hcs.forall₂_newline (s := []) hindent htail rfl List.not_mem_nil (by simp)
      mode.not_isHalfway_nextLine mode.not_isHalfway_nextLine rfl h
  cases hspace : isSpace c with
  | true =>
    have hone : isBlank [c] = true := by simp [isBlank, hspace]
    have hfree' : '\n' ∉ [c] := by simpa using Ne.symm hc
    obtain ⟨s, hs, hno', hread⟩ := splitFrom_nextLine_append hone hfree' mode p
    rw [laidOut_cons, step_of_blank rfl hspace hc, ← List.singleton_append, hread]
    exact hcs.ofLineStart mode (isBlank_append_of_isBlank hheld hone)
      (by simp [hfree, Ne.symm hc]) (h.spaces_left hp hs hno') (hp.spaces hs) hq
  | false =>
    have hlead : laidOut indent ⟨true, held⟩ (c :: cs) ++ tail =
        (indent ++ held) ++ c :: (laidOut indent inLine cs ++ tail) := by
      rw [laidOut_cons, step_of_not_isSpace hspace]
      simp [lead]
    obtain ⟨s, hs, hno', hread⟩ := splitFrom_nextLine_append
      (isBlank_append_of_isBlank hindent hheld) (by simp [hno, hfree]) mode q
    rw [hlead, hread]
    exact hcs.forall₂_cons hc (h.spaces_right hq hs hno')

/-- A carriage return is written inside a line, but not in front of a break. -/
theorem forall₂_return (ih : ∀ ds : List Char, ds.length ≤ cs.length → CutAlike indent tail k ds)
    (hindent : isBlank indent = true) (htail : isBlank tail = true) (hmode : ¬ mode.IsHalfway)
    (h : p.Shifted k q) :
    List.Forall₂ (Shifted k) (splitFrom mode p ('\r' :: cs))
      (splitFrom mode q (laidOut indent inLine ('\r' :: cs) ++ tail)) := by
  cases cs with
  | nil =>
    rw [splitFrom_of_isBlank (s := ['\r']) rfl,
      splitFrom_of_isBlank (isBlank_append_of_isBlank (by rfl) htail)]
    exact h.finish
  | cons d ds =>
    by_cases hd : d = '\n'
    · subst hd
      have hds : CutAlike indent tail k ds := ih ds (by simp)
      obtain ⟨hmode', hline⟩ := Mode.nextLine_step (c := '\r') hmode (by decide) (some '\n')
      rw [laidOut_return_newline, List.cons_append, splitFrom_cons,
        advance_of_isSpace (by decide) (by decide), List.nil_append]
      split
      · exact hds.forall₂_newline
          (s := []) hindent htail rfl List.not_mem_nil (by simp) hmode' hmode
          hline h
      · exact hds.forall₂_newline
          (s := ['\r']) hindent htail rfl (by decide) (by decide) hmode' hmode
          hline h
    · rw [laidOut_return_cons hd, List.cons_append]
      exact (ih (d :: ds) (Nat.le_refl _)).forall₂_cons (by decide) h

/-- Inside a line each character is written as it is, but for carriage returns. -/
theorem forall₂_inLine (ih : ∀ ds : List Char, ds.length ≤ cs.length → CutAlike indent tail k ds)
    (hindent : isBlank indent = true) (htail : isBlank tail = true)
    (hmode : IsPlain (c :: cs).head? → ¬ mode.IsHalfway) (h : p.Shifted k q) :
    List.Forall₂ (Shifted k) (splitFrom mode p (c :: cs))
      (splitFrom mode q (laidOut indent inLine (c :: cs) ++ tail)) := by
  have hcs : CutAlike indent tail k cs := ih cs (Nat.le_refl _)
  by_cases hc : c = '\n'
  · subst hc
    have hnot := hmode (isPlain_of_isSpace (by decide))
    rw [laidOut_cons, step_newline, List.append_assoc]
    exact hcs.forall₂_newline (s := []) hindent htail rfl List.not_mem_nil (by simp) hnot hnot rfl h
  by_cases hreturn : c = '\r'
  · subst hreturn
    exact forall₂_return ih hindent htail (hmode (isPlain_of_isSpace (by decide))) h
  · rw [laidOut_cons, inLine, step_of_not_blank hc hreturn]
    exact hcs.forall₂_cons hc h

end CutAlike

/-- **A text laid out anew is cut into the same statements**, from the start of a line on and from
inside a line on. -/
theorem splitFrom_laidOut (hindent : isBlank indent = true) (hno : '\n' ∉ indent)
    (htail : isBlank tail = true) (cs : List Char) : CutAlike indent tail k cs := by
  induction hn : cs.length using Nat.strongRecOn generalizing cs with
  | _ n ih =>
    cases cs with
    | nil =>
      exact ⟨fun mode hheld _ h _ _ => CutAlike.forall₂_nil htail h hheld,
        fun _ h => CutAlike.forall₂_nil htail h rfl⟩
    | cons c cs =>
      have ih' (ds : List Char) (hle : ds.length ≤ cs.length) : CutAlike indent tail k ds :=
        ih _ (by rw [← hn, List.length_cons]; omega) ds rfl
      exact ⟨fun mode hheld hfree h hp hq =>
          (ih' cs (Nat.le_refl _)).forall₂_lineStart hindent hno htail hheld hfree h hp hq,
        fun hmode h => CutAlike.forall₂_inLine ih' hindent htail hmode h⟩

end LaidOut

/-! ## White space at the end -/

theorem head?_append_iff {s : List Char} (hs : isBlank s = true) {d : Char} (hd : isSpace d = false)
    (cs : List Char) : (cs ++ s).head? = some d ↔ cs.head? = some d := by
  cases cs with
  | nil =>
    have hled : LedBy isSpace s :=
      fun c hc => List.all_eq_true.1 hs c (List.mem_of_mem_head? hc)
    exact iff_of_false (hled.head?_ne hd) nofun
  | cons c cs => rfl

/-- White space at the end of a text belongs to no line that goes on. -/
theorem startsContinuation_append {s : List Char} (hs : isBlank s = true) (cs : List Char) :
    startsContinuation (skipToCode (cs ++ s)) = startsContinuation (skipToCode cs) := by
  fun_induction skipToCode cs with
  | case1 => rw [List.nil_append, skipToCode_of_isBlank hs]
  | case2 c cs hc ih => rw [List.cons_append, skipToCode, if_pos hc, ih]
  | case3 c cs hc hcomment ih =>
    have hslash := (head?_append_iff hs (by decide) cs).2 hcomment.2
    rw [List.cons_append, skipToCode, if_neg hc, if_pos ⟨hcomment.1, hslash⟩]
    by_cases hmem : '\n' ∈ cs
    · obtain ⟨l, rest, rfl, hl⟩ := List.eq_append_cons_of_mem hmem
      rw [dropWhile_of_newline_not_mem hl] at ih ⊢
      rw [List.append_assoc, dropWhile_of_newline_not_mem hl]
      exact ih
    · have hnone := dropWhile_of_newline_not_mem hmem []
      rw [List.append_nil, List.dropWhile_nil] at hnone
      have hend : isBlank (s.dropWhile (· ≠ '\n')) = true := by
        refine List.all_eq_true.2 fun c hc => List.all_eq_true.1 hs c ?_
        exact (List.dropWhile_suffix _).subset hc
      rw [dropWhile_of_newline_not_mem hmem, skipToCode_of_isBlank hend, hnone, skipToCode]
  | case4 c cs hc hcomment =>
    have hcomment' : ¬ (c = '/' ∧ (cs ++ s).head? = some '/') :=
      fun h => hcomment ⟨h.1, (head?_append_iff hs (by decide) cs).1 h.2⟩
    have hplus : (cs ++ s).head? = some '+' ↔ cs.head? = some '+' :=
      head?_append_iff hs (by decide) cs
    rw [List.cons_append, skipToCode, if_neg hc, if_neg hcomment', startsContinuation_cons,
      startsContinuation_cons, decide_eq_decide.2 hplus]

/-- White space at the end of a body is no statement. -/
theorem splitFrom_append_of_isBlank {s : List Char} (hs : isBlank s = true) (mode : Mode)
    (p : Pending) (cs : List Char) : splitFrom mode p (cs ++ s) = splitFrom mode p cs := by
  induction cs generalizing mode p with
  | nil =>
    rw [List.nil_append, splitFrom_of_isBlank hs]
    rfl
  | cons c cs ih =>
    have hstep : mode.step c (cs ++ s).head? = mode.step c cs.head? :=
      step_congr (head?_append_iff hs (by decide) cs) (head?_append_iff hs (by decide) cs) mode c
    have hgoes : goesOn p.text (cs ++ s) = goesOn p.text cs := by
      rw [goesOn, goesOn, startsContinuation_append hs]
    have hadvance (cls : CharClass) : p.advance c cls (cs ++ s) = p.advance c cls cs := by
      unfold Pending.advance
      rw [hgoes]
    rw [List.cons_append, splitFrom_cons, splitFrom_cons, hstep, hadvance, ih]

end Fragment

end SnippetRunner
