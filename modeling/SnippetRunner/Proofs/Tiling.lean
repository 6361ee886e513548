import Mathlib.Data.List.Chain
import Mathlib.Data.List.Induction
import SnippetRunner.Proofs.Classes

/-!
# Where tokens stand

The spans of the tokens tile the text (`lex_tiles`). Each is the place of a part of the text, with
the line and the column of its first character (`Span.StandsIn`); they follow one another, with
nothing but white space and comments between them (`IsFiller`), and the last one is the end of the
text. The span of a lexical error is the place of a part of the text as well.

* A position counts the characters in front of it (`Position.start_after`), so the place of a piece
  can be read off the text (`standsIn_ofText`).
* What the lexer skips in one step is white space or a comment (`isFiller_of_step`). Steps follow
  one another until there is a token, so the gap in front of it is filled (`Cuts.isChain_place`).
-/

namespace SnippetRunner

open Text Lexer

/-! ## Places of parts of a text -/

/-- What stands behind the last line break of a text. -/
def lastLine (cs : List Char) : List Char := (cs.reverse.takeWhile (· ≠ '\n')).reverse

theorem lastLine_append_newline (cs : List Char) : lastLine (cs ++ ['\n']) = [] := by
  simp [lastLine]

theorem lastLine_append_singleton {c : Char} (hc : c ≠ '\n') (cs : List Char) :
    lastLine (cs ++ [c]) = lastLine cs ++ [c] := by
  simp [lastLine, hc]

/-- A span is the place of a part of the text: it is bounded by characters, and its line and its
column count the line breaks in front of it and the characters behind the last of these. -/
def Span.StandsIn (span : Span) (source : List Char) : Prop :=
  ∃ front text back, source = front ++ (text ++ back) ∧
    span = ⟨byteSize front, byteSize front + byteSize text, newlines front + 1,
      (lastLine front).length + 1⟩

/-- A position counts what stands in front of it. -/
theorem Position.start_after (cs : List Char) :
    Position.start.after cs = ⟨byteSize cs, newlines cs + 1, (lastLine cs).length + 1⟩ := by
  induction cs using List.reverseRecOn with
  | nil => rfl
  | append_singleton cs c ih =>
    rw [after_append, ih, after_cons, after_nil, step]
    split
    · next hc =>
      subst hc
      rw [lastLine_append_newline, newlines_append, byteSize_append]
      rfl
    · next hc =>
      have hline : newlines [c] = 0 := newlines_eq_zero (by simpa using Ne.symm hc)
      rw [lastLine_append_singleton hc, newlines_append, hline, byteSize_append, List.length_append]
      rfl

theorem standsIn_ofText (front text back : List Char) :
    (Span.ofText (Position.start.after front) text).StandsIn (front ++ (text ++ back)) := by
  refine ⟨front, text, back, rfl, ?_⟩
  rw [Position.start_after, Span.ofText]

/-! ## What stands between tokens -/

/-- White space and comments in front of the rest of a text. -/
inductive IsFiller : List Char → List Char → Prop
  | nil (rest : List Char) : IsFiller [] rest
  | space {c : Char} {text rest : List Char} :
      isSpace c = true → IsFiller text rest → IsFiller (c :: text) rest
  | comment {text more rest : List Char} :
      IsComment text (more ++ rest) → IsFiller more rest → IsFiller (text ++ more) rest

theorem IsFiller.append {text more rest : List Char} (h : IsFiller text (more ++ rest))
    (h' : IsFiller more rest) : IsFiller (text ++ more) rest := by
  generalize hbehind : more ++ rest = behind at h
  induction h with
  | nil => exact h'
  | space hc _ ih => exact .space hc (ih hbehind)
  | comment hcomment _ ih =>
    subst hbehind
    rw [List.append_assoc]
    rw [← List.append_assoc] at hcomment
    exact .comment hcomment (ih rfl)

/-- Between two byte offsets a text has nothing but white space and comments. -/
def FilledBetween (source : List Char) (start stop : Nat) : Prop :=
  ∃ front gap back, source = front ++ (gap ++ back) ∧ byteSize front = start ∧
    byteSize (front ++ gap) = stop ∧ IsFiller gap back

theorem FilledBetween.le {source : List Char} {start stop : Nat}
    (h : FilledBetween source start stop) : start ≤ stop := by
  obtain ⟨front, gap, back, -, rfl, rfl, -⟩ := h
  rw [byteSize_append]
  exact Nat.le_add_right _ _

/-- What the lexer skips in one step is white space or a comment. -/
theorem Lexer.isFiller_of_step {c : Char} {u Y : List Char}
    (h : step c (u ++ Y) = .blank u.length) : IsFiller (c :: u) Y := by
  obtain ⟨hspace, rfl⟩ | ⟨rfl, y, hy, rfl | ⟨rfl, rfl⟩⟩ | ⟨rfl, w, rfl, hcount⟩ := blank_of_step h
  · exact .space hspace (.nil Y)
  · have hcomment : IsComment ('/' :: '/' :: y) (['\n'] ++ Y) := .line hy (by simp)
    exact .comment hcomment (.space (by decide) (.nil Y))
  · have hcomment : IsComment ('/' :: '/' :: y) ([] ++ []) := .line hy (by simp)
    have hfiller := IsFiller.comment hcomment (.nil [])
    rwa [List.append_nil] at hfiller
  · obtain ⟨v, rfl, hclosed⟩ := commentLength?_append_iff.1 hcount
    have hcomment : IsComment ('/' :: '*' :: (v ++ ['*', '/'])) ([] ++ Y) := .block hclosed
    have hfiller := IsFiller.comment hcomment (.nil Y)
    rwa [List.append_nil] at hfiller

/-! ## Tilings -/

/-- The spans of the tokens, and the end of the text behind them. -/
def Lexemes.spans (tokens : Lexemes) : List Span := tokens.list.map Lexeme.span ++ [tokens.stop]

/-- The tokens tile a text. -/
structure Lexemes.Tile (tokens : Lexemes) (source : List Char) : Prop where
  stands : ∀ s ∈ tokens.spans, s.StandsIn source
  /-- Each token ends where the next one starts or in front of it. -/
  ordered : tokens.spans.Pairwise fun s s' => s.stop ≤ s'.start
  nonempty : ∀ t ∈ tokens.list, t.span.start < t.span.stop
  /-- The gaps, that in front of the first token included. -/
  filled : (Span.ofText .start [] :: tokens.spans).IsChain
    fun s s' => FilledBetween source s.stop s'.start
  start_stop : tokens.stop.start = byteSize source
  stop_stop : tokens.stop.stop = byteSize source

/-- Places with gaps between them are apart. -/
theorem pairwise_of_isChain {source : List Char} {spans : List Span}
    (hstands : ∀ s ∈ spans, s.StandsIn source)
    (h : spans.IsChain fun s s' => FilledBetween source s.stop s'.start) :
    spans.Pairwise fun s s' => s.stop ≤ s'.start := by
  let Apart (s s' : Span) : Prop := s.stop ≤ s'.start ∧ s'.start ≤ s'.stop
  have htrans : Trans Apart Apart Apart := ⟨fun h h' => ⟨by omega, h'.2⟩⟩
  have hchain : spans.IsChain Apart := by
    refine h.imp_of_mem_imp fun s s' _ hs' hgap => ⟨hgap.le, ?_⟩
    obtain ⟨front, text, back, -, rfl⟩ := hstands s' hs'
    exact Nat.le_add_right _ _
  exact hchain.pairwise.imp And.left

namespace Lexer

/-- In front of every token of a text, and in front of its end, stands the filler behind the token
before. -/
theorem Cuts.isChain_place {cs : List Char} {ps : List Piece} (h : Cuts cs ps [])
    (front : List Char) {gap : List Char} (hgap : IsFiller gap cs) {s : Span}
    (hs : s.stop = byteSize front) :
    (s :: ((place (Position.start.after (front ++ gap)) ps).map Lexeme.span ++
      [Span.ofText (Position.start.after (front ++ (gap ++ cs))) []])).IsChain
        fun s s' => FilledBetween (front ++ (gap ++ cs)) s.stop s'.start := by
  -- the gap is what was skipped since the last token
  generalize hrest : ([] : List Char) = rest at h
  induction h generalizing front gap s with
  | nil cs =>
    subst hrest
    refine .cons_cons ⟨front, gap, [], rfl, hs.symm, ?_, hgap⟩ (.singleton _)
    rw [List.append_nil, Span.ofText, Position.start_after]
  | @blank c u cs rest ps hstep _ ih =>
    have hgap' : IsFiller (gap ++ c :: u) cs := hgap.append (isFiller_of_step hstep)
    have hchain := ih front hgap' hs hrest
    rw [place, ← Position.after_append]
    simpa only [List.append_assoc] using hchain
  | @token c u cs rest t ps hstep _ ih =>
    have hchain := ih (front ++ gap ++ c :: u) (.nil cs)
      (s := Span.ofText (Position.start.after (front ++ gap)) (c :: u))
      (by simp [Span.ofText, Position.start_after, Nat.add_assoc]) hrest
    rw [place, ← Position.after_append]
    refine .cons_cons ⟨front, gap, c :: u ++ cs, rfl, hs.symm, ?_, hgap⟩ ?_
    · rw [Span.ofText, Position.start_after]
    · change List.IsChain _ (_ :: (_ ++ _))
      simpa only [List.append_assoc, List.nil_append, List.append_nil] using hchain

theorem standsIn_of_mem_place {cs : List Char} {ps : List Piece} (h : Cuts cs ps []) {t : Lexeme}
    (ht : t ∈ place .start ps) : t.span.StandsIn cs := by
  obtain ⟨qs, q, rs, rfl, -, hspan⟩ := mem_place_iff.1 ht
  have hsplit : cs = spell qs ++ (q.text ++ spell rs) := by
    simpa [spell] using h.spell
  rw [hspan, hsplit]
  exact standsIn_ofText _ _ _

theorem Cuts.text_ne_nil {cs rest : List Char} {ps : List Piece} (h : Cuts cs ps rest) {q : Piece}
    (hq : q ∈ ps) : q.text ≠ [] := by
  induction h with
  | nil => simp at hq
  | blank _ _ ih | token _ _ ih =>
    rcases List.mem_cons.1 hq with rfl | hq
    · exact List.cons_ne_nil _ _
    · exact ih hq

/-- A fault is found in a part of the text. -/
theorem standsIn_of_lexFrom (front : List Char) {cs : List Char} {e : LexError}
    (h : lexFrom (Position.start.after front) cs = .error e) : e.span.StandsIn (front ++ cs) := by
  generalize hp : Position.start.after front = p at h
  fun_induction lexFrom p cs generalizing front with
  | case1 => exact absurd h nofun
  | case2 p c cs n hstep ih =>
    have hlater := ih (front ++ c :: cs.take n) (by rw [Position.after_append, hp]) h
    simpa using hlater
  | case3 p c cs why n hstep =>
    obtain rfl := Except.error.inj h
    have hsplit : front ++ c :: cs = front ++ (c :: cs.take n ++ cs.drop n) := by simp
    rw [← hp, hsplit]
    exact standsIn_ofText _ _ _
  | case4 => exact absurd h nofun
  | case5 p c cs t n hstep e' hrest ih =>
    obtain rfl := Except.error.inj h
    have hlater := ih (front ++ c :: cs.take n) (by rw [Position.after_append, hp]) hrest
    simpa using hlater

end Lexer

/-- **The spans of the tokens tile the text.** They are places of parts of it, apart from each other
and in order, with only white space and comments around them, and the last one is the end of the
text. The span of an error is the place of a part of the text as well. -/
theorem lex_tiles (cs : List Char) :
    match lex cs with
    | .ok tokens => tokens.Tile cs
    | .error e => e.span.StandsIn cs := by
  split
  · next tokens hlex =>
    obtain ⟨ps, hcuts, rfl⟩ := exists_cuts_of_lex hlex
    have hstop : (Span.ofText (Position.start.after cs) []).StandsIn cs := by
      simpa using standsIn_ofText cs [] []
    have hstands : ∀ s ∈ Lexemes.spans ⟨place .start ps, Span.ofText (Position.start.after cs) []⟩,
        s.StandsIn cs := by
      intro s hs
      rcases List.mem_append.1 hs with hs | hs
      · obtain ⟨t, ht, rfl⟩ := List.mem_map.1 hs
        exact standsIn_of_mem_place hcuts ht
      · rwa [List.mem_singleton.1 hs]
    have hfilled := hcuts.isChain_place [] (.nil cs) (s := Span.ofText .start []) rfl
    refine ⟨hstands, pairwise_of_isChain hstands hfilled.tail, fun t ht => ?_, hfilled, ?_, ?_⟩
    · obtain ⟨qs, q, rs, rfl, -, hspan⟩ := mem_place_iff.1 ht
      obtain ⟨c, u, htext⟩ := List.exists_cons_of_ne_nil (hcuts.text_ne_nil (q := q) (by simp))
      have hpos := c.utf8Size_pos
      rw [hspan, htext, Span.ofText, byteSize_cons]
      dsimp only
      omega
    · rw [Position.start_after, Span.ofText]
    · rw [Position.start_after, Span.ofText]
      exact Nat.add_zero _
  · next e hlex =>
    have herror : lexFrom .start cs = .error e := by
      rw [lex] at hlex
      cases hread : lexFrom .start cs with
      | error e' =>
        rw [hread] at hlex
        exact congrArg Except.error (Except.error.inj hlex)
      | ok r =>
        rw [hread] at hlex
        cases hlex
    exact standsIn_of_lexFrom [] herror

/-- Offsets count bytes and columns count characters. -/
example : (lex "é /* ü\n*/ x".toList).toOption.map Lexemes.spans =
    some [⟨0, 2, 1, 1⟩, ⟨12, 13, 2, 4⟩, ⟨13, 13, 2, 5⟩] := by decide +kernel

end SnippetRunner
