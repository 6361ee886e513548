import Mathlib.Data.List.Basic
import SnippetRunner.Proofs.Multiline
import SnippetRunner.Proofs.Pieces

/-!
# Reading a text that is laid out anew

Laying out the lines of a text (`laidOut`) and trimming a line change its white space and its
comments, and leave its tokens as they are.

* A text laid out anew has the tokens of the text (`Cuts.laidOut`); a text block, which is a token
  of more than one line, may get another payload (`reindented`).
* White space at the end of a text may be replaced by a line feed (`Cuts.reads`).
-/

namespace SnippetRunner

open Text Lexer Margin

/-! ## The pieces of a text that has tokens -/

namespace Lexer

theorem throughBreak_le (cs : List Char) : throughBreak cs ≤ cs.length := by
  induction cs with
  | nil => exact Nat.le_refl _
  | cons c cs ih =>
    rw [throughBreak, List.length_cons]
    split <;> omega

theorem commentLength?_le {cs : List Char} {n : Nat} (h : commentLength? cs = some n) :
    n ≤ cs.length := by
  induction cs generalizing n with
  | nil => simp [commentLength?] at h
  | cons c cs ih =>
    rw [commentLength?] at h
    split at h
    · next hend =>
      obtain ⟨d, hd⟩ := List.head?_eq_some_iff.1 hend.2
      obtain rfl := Option.some.inj h
      rw [hd]
      simp
    · obtain ⟨k, hk, rfl⟩ := Option.map_eq_some_iff.1 h
      exact Nat.succ_le_succ (ih hk)

/-- A step takes no more characters than there are. -/
theorem le_of_step_blank {c : Char} {cs : List Char} {n : Nat} (h : step c cs = .blank n) :
    n ≤ cs.length := by
  obtain ⟨-, rfl⟩ | ⟨-, -, rfl⟩ | ⟨-, hstar, k, hk, rfl⟩ := step_eq_blank h
  · exact Nat.zero_le _
  · exact throughBreak_le cs
  · obtain ⟨ds, rfl⟩ := List.head?_eq_some_iff.1 hstar
    exact Nat.succ_le_succ (commentLength?_le hk)

theorem le_of_step_token {c : Char} {cs : List Char} {t : Token} {n : Nat}
    (h : step c cs = .token t n) : n ≤ cs.length := by
  have hlast {d : Char} (hget : cs[n - 1]? = some d) : n ≤ cs.length := by
    obtain ⟨hlt, -⟩ := List.getElem?_eq_some_iff.1 hget
    omega
  obtain ⟨-, ⟨-, hread⟩ | ⟨-, hread⟩ | hle⟩ := step_eq_token h
  · exact hlast (getElem?_of_quoted hread)
  · exact hlast (getElem?_of_charBody hread)
  · exact hle cs [] (List.append_nil cs).symm ledBy_nil

/-- A text that has tokens is cut into pieces to its end. -/
theorem exists_cuts_of_lexFrom {cs : List Char} {p : Position} {r : List Lexeme × Position}
    (h : lexFrom p cs = .ok r) : ∃ ps, Cuts cs ps [] := by
  induction hn : cs.length using Nat.strongRecOn generalizing cs p r with
  | _ n ih =>
    cases cs with
    | nil => exact ⟨[], .nil []⟩
    | cons c cs =>
      have hshorter (k : Nat) : (cs.drop k).length < n := by
        rw [← hn, List.length_drop, List.length_cons]
        omega
      have hsplit (k : Nat) : c :: cs = c :: cs.take k ++ cs.drop k := by
        rw [List.cons_append, List.take_append_drop]
      rw [lexFrom_cons] at h
      split at h
      · next k hstep =>
        obtain ⟨ps, hcuts⟩ := ih _ (hshorter k) h rfl
        refine ⟨⟨c :: cs.take k, none⟩ :: ps, ?_⟩
        rw [hsplit k]
        refine .blank ?_ hcuts
        rw [List.take_append_drop, List.length_take_of_le (le_of_step_blank hstep), hstep]
      · simp at h
      · next t k hstep =>
        split at h
        · next rest stop hrest =>
          obtain ⟨ps, hcuts⟩ := ih _ (hshorter k) hrest rfl
          refine ⟨⟨c :: cs.take k, some t⟩ :: ps, ?_⟩
          rw [hsplit k]
          refine .token ?_ hcuts
          rw [List.take_append_drop, List.length_take_of_le (le_of_step_token hstep), hstep]
        · simp at h

/-- **A text that has tokens is cut into pieces to its end**, and these are where its tokens
stand. -/
theorem exists_cuts_of_lex {cs : List Char} {tokens : Lexemes} (h : lex cs = .ok tokens) :
    ∃ ps, Cuts cs ps [] ∧
      tokens = ⟨place .start ps, Span.ofText (Position.start.after cs) []⟩ := by
  have hread := h
  rw [lex] at hread
  cases hpieces : lexFrom .start cs with
  | error e =>
    rw [hpieces] at hread
    cases hread
  | ok r =>
    obtain ⟨ps, hcuts⟩ := exists_cuts_of_lexFrom hpieces
    rw [lex_of_cuts hcuts] at h
    exact ⟨ps, hcuts, (Except.ok.inj h).symm⟩

/-- The place of a part of a text leads back to it. -/
theorem text_ofText (front text back : List Char) :
    (Span.ofText (Position.start.after front) text).text (front ++ (text ++ back)) = text := by
  have hslice := slice_append front text back
  rw [byteSize_append] at hslice
  simpa [Span.text, Span.ofText, Position.start] using hslice

/-- A piece that spells a token is the text of that token. -/
theorem exists_mem_place {ps : List Piece} {q : Piece} (h : q ∈ ps) {token : Token}
    (hq : q.token = some token) (front rest : List Char) :
    ∃ t ∈ place (Position.start.after front) ps, t.token = token ∧
      t.span.text (front ++ (Lexer.spell ps ++ rest)) = q.text := by
  induction ps generalizing front with
  | nil => simp at h
  | cons q' ps ih =>
    obtain ⟨text, token'⟩ := q'
    have hsplit : front ++ (Lexer.spell (⟨text, token'⟩ :: ps) ++ rest) =
        (front ++ text) ++ (Lexer.spell ps ++ rest) := by
      simp [Lexer.spell]
    have hplace : (Position.start.after front).after text = Position.start.after (front ++ text) :=
      (Position.after_append _ _ _).symm
    rcases List.mem_cons.1 h with rfl | hmem
    · obtain rfl : token' = some token := hq
      refine ⟨_, List.mem_cons_self, rfl, ?_⟩
      rw [hsplit, List.append_assoc]
      exact text_ofText front text _
    · obtain ⟨t, ht, htoken, htext⟩ := ih hmem (front ++ text)
      rw [hsplit]
      refine ⟨t, ?_, htoken, htext⟩
      cases token' with
      | none =>
        rw [place, hplace]
        exact ht
      | some t' =>
        rw [place, hplace]
        exact List.mem_cons_of_mem _ ht

/-! ## The pieces of parts -/

theorem step_lineComment (cs : List Char) :
    step '/' ('/' :: cs) = .blank (throughBreak ('/' :: cs)) := rfl

theorem step_lineComment_append {y : List Char} (hy : '\n' ∉ y) (Y : List Char) :
    step '/' ('/' :: (y ++ ['\n']) ++ Y) = .blank ('/' :: (y ++ ['\n'])).length := by
  have hline : '\n' ∉ '/' :: y := by
    simp only [List.mem_cons, not_or]
    exact ⟨by decide, hy⟩
  have hcount := throughBreak_append_newline hline Y
  have hsplit : '/' :: (y ++ ['\n']) ++ Y = '/' :: (y ++ '\n' :: Y) := by simp
  rw [hsplit, step_lineComment]
  simpa using hcount

theorem step_blockComment {cs : List Char} {n : Nat} (h : commentLength? cs = some n) :
    step '/' ('*' :: cs) = .blank (n + 1) := by
  simp [step, h, show isSpace '/' = false by decide]

/-- A text that ends with a line feed is cut into the same pieces in front of any other. -/
theorem Cuts.extend {cs : List Char} {ps : List Piece} (h : Cuts cs ps [])
    (hend : ∀ d ∈ cs.getLast?, d = '\n') (X : List Char) : Cuts (cs ++ X) ps X := by
  generalize hrest : ([] : List Char) = rest at h
  induction h with
  | nil =>
    subst hrest
    exact .nil X
  | @blank c u cs rest ps hstep hcuts ih =>
    have htail : ∀ d ∈ cs.getLast?, d = '\n' :=
      fun d hd => hend d (by rw [List.getLast?_append, hd]; rfl)
    rw [List.append_assoc]
    refine .blank ?_ (ih htail hrest)
    obtain ⟨hspace, rfl⟩ | ⟨rfl, y, hy, hu⟩ | ⟨rfl, w, rfl, hcount⟩ := blank_of_step hstep
    · rw [Lexer.step, if_pos hspace]
      rfl
    · rcases hu with rfl | ⟨rfl, rfl⟩
      · exact step_lineComment_append hy _
      · -- a comment that the text ends in has no line feed at its end
        obtain ⟨l, d, hl⟩ : ∃ l d, '/' :: y = l ++ [d] :=
          ⟨('/' :: y).dropLast, ('/' :: y).getLast (List.cons_ne_nil _ y),
            (List.dropLast_concat_getLast _).symm⟩
        have hlast := hend d (by
          rw [List.append_nil, hl, ← List.cons_append, List.getLast?_concat]
          rfl)
        have hmem : d ∈ '/' :: y := by simp [hl]
        rw [hlast] at hmem
        simp [hy] at hmem
    · rw [List.cons_append, step_blockComment (commentLength?_append hcount _)]
      rfl
  | @token c u cs rest t ps hstep hcuts ih =>
    have htail : ∀ d ∈ cs.getLast?, d = '\n' :=
      fun d hd => hend d (by rw [List.getLast?_append, hd]; rfl)
    rw [List.append_assoc]
    refine .token (step_of_alike hstep ?_) (ih htail hrest)
    rcases List.eq_nil_or_concat cs with rfl | ⟨x, d, rfl⟩
    · -- no token ends with a line feed
      have hlast := getLast?_of_step hstep
      rw [List.append_nil] at hend
      obtain ⟨d, hd⟩ : ∃ d, (c :: u).getLast? = some d :=
        ⟨_, List.getLast?_eq_some_getLast (List.cons_ne_nil c u)⟩
      have hspace := hlast d hd
      rw [hend d hd] at hspace
      exact absurd hspace (by decide)
    · rw [List.concat_eq_append] at htail ⊢
      obtain rfl := htail d List.getLast?_concat
      exact ⟨x, ['\n'], '\n' :: X, rfl, by simp, ledBy_cons (by decide),
        ledBy_cons (by decide)⟩

/-- What is left of a text is a part of it. -/
theorem Cuts.length_le {cs rest : List Char} {ps : List Piece} (h : Cuts cs ps rest) :
    rest.length ≤ cs.length := by
  rw [h.spell, List.length_append]
  exact Nat.le_add_left _ _

/-- The pieces of a text are those of a part in front and those of the rest. -/
theorem Cuts.exists_append {cs rest rest' : List Char} {ps qs : List Piece} (h : Cuts cs ps rest)
    (h' : Cuts cs qs rest') (hle : rest'.length ≤ rest.length) :
    ∃ qs', qs = ps ++ qs' ∧ Cuts rest qs' rest' := by
  induction h generalizing qs with
  | nil => exact ⟨qs, rfl, h'⟩
  | @blank c u cs rest ps hstep hcuts ih =>
    have hshorter := hcuts.length_le
    generalize hwhole : c :: u ++ cs = whole at h'
    cases h' with
    | nil =>
      rw [← hwhole] at hle
      simp only [List.length_append, List.length_cons] at hle
      omega
    | @blank c' u' cs' _ qs hstep' hcuts' =>
      rw [List.cons_append, List.cons_append, List.cons.injEq] at hwhole
      obtain ⟨rfl, hrest⟩ := hwhole
      rw [← hrest, hstep] at hstep'
      obtain ⟨rfl, rfl⟩ := List.append_inj hrest (Step.blank.inj hstep')
      obtain ⟨qs', rfl, hqs'⟩ := ih hcuts' hle
      exact ⟨qs', rfl, hqs'⟩
    | token hstep' hcuts' =>
      rw [List.cons_append, List.cons_append, List.cons.injEq] at hwhole
      obtain ⟨rfl, hrest⟩ := hwhole
      rw [← hrest, hstep] at hstep'
      exact absurd hstep' nofun
  | @token c u cs rest t ps hstep hcuts ih =>
    have hshorter := hcuts.length_le
    generalize hwhole : c :: u ++ cs = whole at h'
    cases h' with
    | nil =>
      rw [← hwhole] at hle
      simp only [List.length_append, List.length_cons] at hle
      omega
    | blank hstep' hcuts' =>
      rw [List.cons_append, List.cons_append, List.cons.injEq] at hwhole
      obtain ⟨rfl, hrest⟩ := hwhole
      rw [← hrest, hstep] at hstep'
      exact absurd hstep' nofun
    | @token c' u' cs' _ t' qs hstep' hcuts' =>
      rw [List.cons_append, List.cons_append, List.cons.injEq] at hwhole
      obtain ⟨rfl, hrest⟩ := hwhole
      rw [← hrest, hstep] at hstep'
      obtain ⟨rfl, hlength⟩ := Step.token.inj hstep'
      obtain ⟨rfl, rfl⟩ := List.append_inj hrest hlength
      obtain ⟨qs', rfl, hqs'⟩ := ih hcuts' hle
      exact ⟨qs', rfl, hqs'⟩

end Lexer

/-! ## White space -/

namespace Lexer

/-- White space has no tokens. -/
theorem cuts_of_isBlank {s : List Char} (h : isBlank s = true) (X : List Char) :
    Cuts (s ++ X) (s.map .space) X := by
  induction s with
  | nil => exact .nil X
  | cons c s ih =>
    simp only [isBlank, List.all_cons, Bool.and_eq_true] at h
    have hstep : step c ([] ++ (s ++ X)) = .blank ([] : List Char).length := by
      rw [step, if_pos h.1]
      rfl
    exact .blank hstep (ih h.2)

theorem tokensOf_spaces (s : List Char) : tokensOf (s.map .space) = [] := by
  induction s with
  | nil => rfl
  | cons c s ih => rw [List.map_cons, tokensOf, List.filterMap_cons, ← tokensOf, ih]; rfl

/-- `Reads cs ts X`: the lexer takes the tokens `ts` off the text `cs`, and leaves `X`. -/
def Reads (cs : List Char) (ts : List Token) (X : List Char) : Prop :=
  ∃ ps, Cuts cs ps X ∧ tokensOf ps = ts

namespace Reads

variable {cs X Y : List Char} {ts us : List Token}

theorem refl (X : List Char) : Reads X [] X := ⟨[], .nil X, rfl⟩

theorem append (h : Reads cs ts X) (h' : Reads X us Y) : Reads cs (ts ++ us) Y := by
  obtain ⟨ps, hcuts, rfl⟩ := h
  obtain ⟨qs, hcuts', rfl⟩ := h'
  exact ⟨ps ++ qs, hcuts.append hcuts', tokensOf_append ps qs⟩

/-- What has no meaning may stand in front. -/
theorem blank {c : Char} {u : List Char} (hstep : step c (u ++ cs) = .blank u.length)
    (h : Reads cs ts X) : Reads (c :: u ++ cs) ts X := by
  obtain ⟨ps, hcuts, rfl⟩ := h
  exact ⟨_, .blank hstep hcuts, rfl⟩

theorem token {c : Char} {u : List Char} {t : Token}
    (hstep : step c (u ++ cs) = .token t u.length) (h : Reads cs ts X) :
    Reads (c :: u ++ cs) (t :: ts) X := by
  obtain ⟨ps, hcuts, rfl⟩ := h
  exact ⟨_, .token hstep hcuts, rfl⟩

/-- White space may stand in front. -/
theorem of_isBlank {s : List Char} (hs : isBlank s = true) (h : Reads cs ts X) :
    Reads (s ++ cs) ts X := by
  obtain ⟨ps, hcuts, rfl⟩ := h
  exact ⟨_, (cuts_of_isBlank hs cs).append hcuts, by
    rw [tokensOf_append, tokensOf_spaces, List.nil_append]⟩

end Reads

end Lexer

/-! ## The text up to the next white space -/

section Alike

variable {indent : List Char}

theorem Lexer.Alike.cons {Y Y' : List Char} (h : Alike Y Y') (c : Char) :
    Alike (c :: Y) (c :: Y') := by
  obtain ⟨v, Z, Z', rfl, rfl, hZ, hZ'⟩ := h
  exact ⟨c :: v, Z, Z', rfl, rfl, hZ, hZ'⟩

theorem Lexer.Alike.of_ledBy {Z Z' : List Char} (hZ : LedBy endsToken Z)
    (hZ' : LedBy endsToken Z') :
    Alike Z Z' := ⟨[], Z, Z', rfl, rfl, hZ, hZ'⟩

theorem ledBy_laidOut_return (cs X : List Char) :
    LedBy endsToken (laidOut indent ⟨false, ['\r']⟩ cs ++ X) := by
  cases cs with
  | nil => exact ledBy_cons (by decide)
  | cons c cs =>
    rw [laidOut_cons]
    by_cases hbreak : c = '\n'
    · subst hbreak
      exact ledBy_cons (by decide)
    by_cases hreturn : c = '\r'
    · subst hreturn
      exact ledBy_cons (by decide)
    · rw [step_of_not_blank hbreak hreturn]
      exact ledBy_cons (by decide)

/-- **Inside a line a text and its layout are alike.** -/
theorem alike_laidOut (cs X : List Char) : Alike cs (laidOut indent inLine cs ++ X) := by
  induction cs with
  | nil => exact .of_ledBy ledBy_nil (ledBy_cons (by decide))
  | cons c cs ih =>
    rw [laidOut_cons]
    by_cases hbreak : c = '\n'
    · subst hbreak
      exact .of_ledBy (ledBy_cons (by decide)) (ledBy_cons (by decide))
    by_cases hreturn : c = '\r'
    · subst hreturn
      exact .of_ledBy (ledBy_cons (by decide)) (ledBy_laidOut_return cs X)
    · rw [inLine, step_of_not_blank hbreak hreturn]
      exact ih.cons c

end Alike

/-! ## One piece -/

namespace Lexer

/-- The token that a step takes with the given number of characters. -/
def Step.token? (n : Nat) : Step → Option Token
  | .token t k => if k = n then some t else none
  | _ => none

/-- The token that a text spells. -/
def spelled? : List Char → Option Token
  | [] => none
  | c :: u => (step c u).token? u.length

theorem spelled?_of_step {c : Char} {u : List Char} {t : Token}
    (h : step c u = .token t u.length) : spelled? (c :: u) = some t :=
  (congrArg (Step.token? u.length) h).trans (if_pos rfl)

/-- The token of a piece whose lines are laid out anew. It is another one at most where the piece
takes more than one line. -/
def Piece.reindented (indent : List Char) (q : Piece) : Option Token :=
  q.token.bind fun t => if '\n' ∈ q.text then spelled? (layOut indent inLine q.text).1 else some t

/-- The tokens of pieces whose lines are laid out anew. -/
def reindented (indent : List Char) (ps : List Piece) : List Token :=
  ps.filterMap (Piece.reindented indent)

end Lexer

section Piece

variable {indent T u X Z : List Char} {c : Char} {m : Margin}

theorem isBlank_finish (hm : isBlank m.held = true) : isBlank m.finish = true := by
  unfold finish
  split
  · split <;> rfl
  · rw [isBlank_append, hm]
    rfl

/-- A character that is no white space starts the written part of its line. -/
theorem laidOut_of_not_isSpace (hc : isSpace c = false) (cs : List Char) :
    laidOut indent m (c :: cs) = m.lead indent ++ laidOut indent inLine (c :: cs) := by
  rw [laidOut_cons, laidOut_cons, step_of_not_isSpace hc, step_of_not_isSpace hc]
  simp [lead, inLine]

/-- A line comment may stand in front. -/
theorem Lexer.Reads.lineComment {y Y : List Char} {ts : List Token} (hy : '\n' ∉ y)
    (h : Reads Y ts X) : Reads ('/' :: '/' :: (y ++ '\n' :: Y)) ts X := by
  have hsplit : '/' :: '/' :: (y ++ '\n' :: Y) = '/' :: ('/' :: (y ++ ['\n'])) ++ Y := by simp
  rw [hsplit]
  exact .blank (step_lineComment_append hy Y) h

/-- A line comment is read as one from its new line. -/
theorem reads_laidOut_of_lineComment {y : List Char} {ts : List Token} (hy : '\n' ∉ y)
    (hu : u = '/' :: (y ++ ['\n']) ∨ u = '/' :: y ∧ T = [])
    (hT : Reads (laidOut indent lineStart T ++ X) ts Z) :
    Reads (laidOut indent inLine ('/' :: (u ++ T)) ++ X) ts Z := by
  have hline : '\n' ∉ ['/', '/'] ++ y := by
    simp only [List.mem_append, not_or]
    exact ⟨by decide, hy⟩
  rcases hu with rfl | ⟨rfl, rfl⟩
  · have hsplit : '/' :: ('/' :: (y ++ ['\n']) ++ T) = (['/', '/'] ++ y) ++ ['\n'] ++ T := by simp
    have hfirst : ['/', '/'] ++ y ++ ['\n'] = ['/'] ++ '/' :: (y ++ ['\n']) := by simp
    rw [hsplit, laidOut_append, layOut_inLine hline, hfirst, dropBreak_append_cons (by decide)]
    have hread := hT.lineComment (newline_not_mem_dropBreak hy)
    simpa using hread
  · have hwhole : '\n' ∉ '/' :: '/' :: y := hline
    rw [List.append_nil, laidOut_inLine hwhole]
    have hread := hT.lineComment hy
    simpa [laidOut_nil, finish, lineStart] using hread

/-- A block comment is read as one from its new lines. -/
theorem reads_laidOut_of_blockComment {w : List Char} {ts : List Token}
    (hindent : isBlank indent = true)
    (hcount : commentLength? (w ++ T) = some w.length)
    (hT : Reads (laidOut indent inLine T ++ X) ts Z) :
    Reads (laidOut indent inLine ('/' :: '*' :: (w ++ T)) ++ X) ts Z := by
  obtain ⟨out, hout, hlength⟩ := commentLength?_layOut (m := inLine) hindent rfl hcount
  have hwritten : laidOut indent inLine ('/' :: '*' :: (w ++ T)) ++ X =
      '/' :: ('*' :: out) ++ (laidOut indent inLine T ++ X) := by
    rw [laidOut_cons, laidOut_cons, step_of_not_isSpace (by decide),
      step_of_not_isSpace (by decide), laidOut_append, hout]
    simp [lead, inLine]
  rw [hwritten]
  refine .blank ?_ hT
  rw [List.cons_append, step_blockComment (hlength _)]
  rfl

theorem step_quote (cs : List Char) : Lexer.step '"' cs = .ofReading (quoted cs) := by
  rw [Lexer.step, if_neg (by decide), if_neg (by simp), if_neg (by simp), if_pos rfl]

/-- A token is read from its new lines, a text block perhaps with another payload. -/
theorem reads_laidOut_of_token {t : Token} {ts : List Token} (hindent : isBlank indent = true)
    (hstep : Lexer.step c (u ++ T) = .token t u.length)
    (hT : Reads (laidOut indent inLine T ++ X) ts Z) :
    Reads (laidOut indent inLine (c :: (u ++ T)) ++ X)
      ((Piece.reindented indent ⟨c :: u, some t⟩).toList ++ ts) Z := by
  have hlast := getLast?_of_step hstep
  obtain ⟨hspace, -⟩ := step_eq_token hstep
  have hnewline : c ≠ '\n' := by
    rintro rfl
    exact absurd hspace (by decide)
  rw [← List.cons_append, laidOut_append]
  by_cases hbreak : '\n' ∈ u
  · obtain ⟨rfl, hblock, hread⟩ := block_of_step hstep hbreak
    obtain ⟨u', hout, t', hagain⟩ := quoted_layOut hindent hblock hread
    have hstep' (Z : List Char) : Lexer.step '"' (u' ++ Z) = .token t' u'.length := by
      rw [step_quote, Step.ofReading_eq_token]
      exact hagain Z
    have hspelled : spelled? ('"' :: u') = some t' := by
      have hwhole := hstep' []
      rw [List.append_nil] at hwhole
      exact spelled?_of_step hwhole
    have hpiece : Piece.reindented indent ⟨'"' :: u, some t⟩ = some t' := by
      rw [Piece.reindented, Option.bind_some, if_pos (List.mem_cons_of_mem _ hbreak), hout,
        hspelled]
    rw [hpiece, hout, List.append_assoc]
    exact .token (hstep' _) hT
  · have hmem : '\n' ∉ c :: u := by
      simp only [List.mem_cons, not_or]
      exact ⟨Ne.symm hnewline, hbreak⟩
    have hpiece : Piece.reindented indent ⟨c :: u, some t⟩ = some t := by
      rw [Piece.reindented, Option.bind_some, if_neg hmem]
    have hout : layOut indent inLine (c :: u) = (c :: u, inLine) := by
      obtain ⟨l, d, hl⟩ : ∃ l d, c :: u = l ++ [d] :=
        ⟨(c :: u).dropLast, (c :: u).getLast (List.cons_ne_nil c u),
          (List.dropLast_concat_getLast _).symm⟩
      have hd : d ≠ '\r' := by
        rintro rfl
        exact absurd (hlast '\r' (by simp [hl])) (by decide)
      rw [hl] at hmem ⊢
      rw [inLine, layOut_append_of_ne hmem hd, List.nil_append, inLine]
    rw [hpiece, hout, List.append_assoc]
    exact .token (step_of_alike hstep (alike_laidOut T X)) hT

/-- What is laid out of a text has the tokens of the pieces in front, and then those of the rest. -/
theorem Lexer.Cuts.laidOut_append {cs rest : List Char} {ps : List Piece} {ts : List Token}
    (h : Cuts cs ps rest) (hindent : isBlank indent = true) (hm : isBlank m.held = true)
    (hrest : ∀ m : Margin, isBlank m.held = true →
      Reads (SnippetRunner.laidOut indent m rest ++ X) ts Z) :
    Reads (SnippetRunner.laidOut indent m cs ++ X) (reindented indent ps ++ ts) Z := by
  induction h generalizing m with
  | nil => exact hrest m hm
  | @blank c u cs rest ps hstep _ ih =>
    change Reads (SnippetRunner.laidOut indent m (c :: (u ++ cs)) ++ X)
      (reindented indent ps ++ ts) Z
    obtain ⟨hspace, rfl⟩ | ⟨rfl, y, hy, hu⟩ | ⟨rfl, w, rfl, hcount⟩ := blank_of_step hstep
    · obtain ⟨hwritten, hheld⟩ := isBlank_step indent hspace hm
      rw [List.nil_append, laidOut_cons, List.append_assoc]
      exact .of_isBlank hwritten (ih hheld hrest)
    · rw [laidOut_of_not_isSpace (by decide), List.append_assoc]
      exact .of_isBlank (isBlank_lead hindent hm)
        (reads_laidOut_of_lineComment hy hu (ih rfl hrest))
    · rw [laidOut_of_not_isSpace (by decide), List.append_assoc]
      exact .of_isBlank (isBlank_lead hindent hm)
        (reads_laidOut_of_blockComment hindent hcount (ih rfl hrest))
  | @token c u cs rest t ps hstep _ ih =>
    have hread := reads_laidOut_of_token hindent hstep (ih (m := inLine) rfl hrest)
    have htokens : reindented indent (⟨c :: u, some t⟩ :: ps) =
        (Piece.reindented indent ⟨c :: u, some t⟩).toList ++ reindented indent ps := by
      rw [reindented, List.filterMap_cons, ← reindented]
      cases Piece.reindented indent ⟨c :: u, some t⟩ <;> rfl
    rw [htokens, List.cons_append, laidOut_of_not_isSpace (step_eq_token hstep).1,
      List.append_assoc,
      List.append_assoc]
    exact .of_isBlank (isBlank_lead hindent hm) hread

/-- **A text laid out anew has the tokens of the text**, those of more than one line perhaps with
another payload. -/
theorem Lexer.Cuts.laidOut {cs : List Char} {ps : List Piece} (h : Cuts cs ps [])
    (hindent : isBlank indent = true) (hm : isBlank m.held = true) (X : List Char) :
    Reads (laidOut indent m cs ++ X) (reindented indent ps) X := by
  have hrest (m : Margin) (hm : isBlank m.held = true) :
      Reads (SnippetRunner.laidOut indent m [] ++ X) [] X :=
    .of_isBlank (isBlank_finish hm) (.refl X)
  have hread := h.laidOut_append hindent hm hrest
  rwa [List.append_nil] at hread

end Piece

/-! ## Text blocks -/

namespace Lexer

/-- A piece that spells a token of more than one line is a text block. -/
theorem Cuts.isPrefix_of_newline_mem {cs rest : List Char} {ps : List Piece} (h : Cuts cs ps rest)
    {q : Piece} (hq : q ∈ ps) (htoken : q.token ≠ none) (hbreak : '\n' ∈ q.text) :
    blockMark <+: q.text := by
  induction h with
  | nil => simp at hq
  | blank _ _ ih =>
    rcases List.mem_cons.1 hq with rfl | hq
    · exact absurd rfl htoken
    · exact ih hq
  | @token c u cs rest t ps hstep _ ih =>
    rcases List.mem_cons.1 hq with rfl | hq
    · have hfirst : '\n' ≠ c := by
        rintro rfl
        exact absurd (step_eq_token hstep).1 (by decide)
      have hmem : '\n' ∈ u := by simpa [hfirst] using hbreak
      obtain ⟨rfl, hblock, hread⟩ := block_of_step hstep hmem
      obtain ⟨x, w, -, rfl, -⟩ := exists_of_quoted hblock hread
      exact ⟨x ++ '\n' :: w, rfl⟩
    · exact ih hq

/-- Without text blocks all tokens keep their payload. -/
theorem reindented_eq_tokensOf {ps : List Piece} (indent : List Char)
    (h : ∀ q ∈ ps, q.token ≠ none → '\n' ∉ q.text) : reindented indent ps = tokensOf ps := by
  refine List.filterMap_congr fun q hq => ?_
  obtain ⟨text, token⟩ := q
  cases token with
  | none => rfl
  | some t => exact if_neg (h _ hq (by simp))

end Lexer

/-- A result that is there and passes a check. The check can be evaluated. -/
theorem exists_ok_of_any {ε α : Type} {x : Except ε α} {check : α → Bool}
    (h : x.toOption.any check = true) : ∃ a, x = .ok a ∧ check a = true := by
  cases x with
  | error e => simp [Except.toOption] at h
  | ok a => exact ⟨a, rfl, h⟩

/-- Whether a token is a text block. -/
def Lexeme.IsTextBlock (source : List Char) (t : Lexeme) : Prop :=
  blockMark <+: t.span.text source

instance (source : List Char) (t : Lexeme) : Decidable (t.IsTextBlock source) :=
  inferInstanceAs (Decidable (_ <+: _))

/-- No piece of a text without text blocks spells a token of more than one line. -/
theorem Lexer.Cuts.newline_not_mem {cs : List Char} {ps : List Piece} (h : Cuts cs ps [])
    (hblock : ∀ t ∈ place .start ps, ¬ t.IsTextBlock cs) {q : Piece} (hq : q ∈ ps)
    (htoken : q.token ≠ none) : '\n' ∉ q.text := by
  intro hbreak
  obtain ⟨token, htoken'⟩ := Option.ne_none_iff_exists'.1 htoken
  obtain ⟨t, ht, -, htext⟩ := exists_mem_place hq htoken' [] []
  refine hblock t ht ?_
  have hspell : cs = [] ++ (Lexer.spell ps ++ []) := h.spell
  rw [Lexeme.IsTextBlock, hspell, htext]
  exact h.isPrefix_of_newline_mem hq htoken hbreak

/-! ## The end of a text -/

section Tail

variable {rest v b : List Char} {ps : List Piece}

/-- What does not end with white space ends in front of the white space at the end. -/
theorem exists_of_append_eq {x y : List Char} (h : x ++ y = v ++ b) (hb : isBlank b = true)
    (hlast : ∀ d ∈ x.getLast?, isSpace d = false) : ∃ v', v = x ++ v' ∧ y = v' ++ b := by
  obtain ⟨v', rfl, rfl⟩ | ⟨s, rfl, rfl⟩ := List.append_eq_append_iff.1 h
  · exact ⟨v', rfl, rfl⟩
  · obtain rfl : s = [] := by
      by_contra hne
      obtain ⟨d, hd⟩ : ∃ d, s.getLast? = some d := by
        cases hs : s.getLast? with
        | none => exact absurd (List.getLast?_eq_none_iff.1 hs) hne
        | some d => exact ⟨d, rfl⟩
      have hspace := hlast d (by rw [List.getLast?_append, hd]; rfl)
      have hmem := List.mem_append_left y (List.mem_of_getLast? hd)
      rw [List.all_eq_true.1 hb d hmem] at hspace
      exact absurd hspace.symm Bool.false_ne_true
    exact ⟨[], by simp, rfl⟩

/-- White space has no tokens. -/
theorem Lexer.Cuts.tokensOf_eq_nil {cs : List Char} (h : Cuts cs ps rest)
    (hblank : isBlank (Lexer.spell ps) = true) : tokensOf ps = [] := by
  induction h with
  | nil => rfl
  | @blank c u _ _ ps _ _ ih =>
    have hrest : isBlank (Lexer.spell (⟨c :: u, none⟩ :: ps)) =
      (isBlank (c :: u) && isBlank (Lexer.spell ps)) := isBlank_append _ _
    rw [hrest, Bool.and_eq_true] at hblank
    exact ih hblank.2
  | @token c u _ _ t ps hstep _ _ =>
    have hfirst : isSpace c = true := by
      have hall := List.all_eq_true.1 hblank
      exact hall c (List.mem_cons_self)
    rw [(step_eq_token hstep).1] at hfirst
    exact absurd hfirst Bool.false_ne_true

/-- A line comment may lose white space at its end, and gets a line feed. -/
theorem reads_of_lineComment {y : List Char} {ts : List Token} {X : List Char} (hy : '\n' ∉ y)
    (hspell : y ++ '\n' :: Lexer.spell ps = v ++ b)
    (hblank : isBlank (Lexer.spell ps) = true → ts = [])
    (hb : isBlank b = true)
    (hread : ∀ v', Lexer.spell ps = v' ++ b → Reads (v' ++ '\n' :: X) ts X) :
    Reads ('/' :: '/' :: (v ++ '\n' :: X)) ts X := by
  obtain ⟨s, rfl, hs⟩ | ⟨s, rfl, rfl⟩ := List.append_eq_append_iff.1 hspell
  · cases s with
    | nil =>
      -- the break of the comment is the start of what is dropped
      rw [List.nil_append] at hs
      have htokens : ts = [] := by
        refine hblank ?_
        rw [← hs] at hb
        simp only [isBlank, List.all_cons, Bool.and_eq_true] at hb ⊢
        exact hb.2
      rw [List.append_nil, htokens]
      exact .lineComment hy (.refl X)
    | cons d s =>
      obtain ⟨rfl, hs'⟩ := List.cons.inj hs
      rw [List.append_assoc]
      exact .lineComment hy (hread s hs')
  · have hpart : '\n' ∉ v := fun hmem => hy (List.mem_append_left _ hmem)
    have htokens : ts = [] := by
      refine hblank ?_
      rw [isBlank_append, Bool.and_eq_true] at hb
      have hrest := hb.2
      simp only [isBlank, List.all_cons, Bool.and_eq_true] at hrest ⊢
      exact hrest.2
    rw [htokens]
    exact .lineComment hpart (.refl X)

/-- **White space at the end of a text, and what follows it, may be replaced by a line feed and
other text.** -/
theorem Lexer.Cuts.reads {cs : List Char} (h : Cuts cs ps rest) (hspell : Lexer.spell ps = v ++ b)
    (hb : isBlank b = true) (hrest : LedBy endsToken (b ++ rest)) (X : List Char) :
    Reads (v ++ '\n' :: X) (tokensOf ps) X := by
  have hend : Reads ('\n' :: X) [] X := .of_isBlank (s := ['\n']) rfl (.refl X)
  induction h generalizing v with
  | nil =>
    obtain ⟨rfl, rfl⟩ := List.append_eq_nil_iff.1 hspell.symm
    exact hend
  | @blank c u cs rest ps hstep hcuts ih =>
    have hspell : (c :: u) ++ Lexer.spell ps = v ++ b := hspell
    have htokens : tokensOf (⟨c :: u, none⟩ :: ps) = tokensOf ps := rfl
    rw [htokens]
    have hblank := hcuts.tokensOf_eq_nil
    obtain ⟨hspace, rfl⟩ | ⟨rfl, y, hy, hu⟩ | ⟨rfl, w, rfl, hcount⟩ := blank_of_step hstep
    · cases v with
      | nil =>
        rw [← List.nil_append b, ← hspell, isBlank_append, Bool.and_eq_true] at hb
        rw [hblank hb.2]
        exact hend
      | cons d v =>
        obtain ⟨rfl, hspell'⟩ := List.cons.inj hspell
        exact .of_isBlank (s := [c]) (by simp [isBlank, hspace]) (ih hspell' hrest)
    · have hslashes (u' : List Char) (h : '/' :: '/' :: u' ++ Lexer.spell ps = v ++ b) :
          ∃ v', v = '/' :: '/' :: v' ∧ u' ++ Lexer.spell ps = v' ++ b :=
        exists_of_append_eq (x := ['/', '/']) h hb (by rintro d ⟨⟩; rfl)
      rcases hu with rfl | ⟨rfl, rfl⟩
      · obtain ⟨v, rfl, hspell'⟩ := hslashes _ hspell
        rw [List.append_assoc] at hspell'
        exact reads_of_lineComment hy hspell' hblank hb fun v' h => ih h hrest
      · obtain ⟨v, rfl, hspell'⟩ := hslashes _ hspell
        cases hcuts
        rw [Lexer.spell, List.flatMap_nil, List.append_nil] at hspell'
        rw [hspell'] at hy
        exact .lineComment (fun hmem => hy (List.mem_append_left _ hmem)) (.refl X)
    · have hlast : ∀ d ∈ ('/' :: '*' :: w).getLast?, isSpace d = false := by
        rw [List.getLast?_cons, List.getLast?_cons, getLast?_of_commentLength? hcount]
        rintro d ⟨⟩
        rfl
      obtain ⟨v, rfl, hspell'⟩ := exists_of_append_eq hspell hb hlast
      rw [List.append_assoc]
      refine .blank ?_ (ih hspell' hrest)
      rw [List.cons_append, step_blockComment (commentLength?_append hcount _)]
      rfl
  | @token c u cs rest t ps hstep hcuts ih =>
    have hspell : (c :: u) ++ Lexer.spell ps = v ++ b := hspell
    obtain ⟨v, rfl, hspell'⟩ := exists_of_append_eq hspell hb (getLast?_of_step hstep)
    have halike : Alike cs (v ++ '\n' :: X) := by
      refine ⟨v, b ++ rest, '\n' :: X, ?_, rfl, hrest, ledBy_cons (by decide)⟩
      rw [hcuts.spell, hspell', List.append_assoc]
    rw [List.append_assoc]
    exact .token (step_of_alike hstep halike) (ih hspell' hrest)

end Tail

end SnippetRunner
