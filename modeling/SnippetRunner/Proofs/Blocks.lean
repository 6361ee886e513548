import SnippetRunner.Proofs.CodeWords
import SnippetRunner.Proofs.Indenting
import SnippetRunner.Proofs.Twins

/-!
# Blocks in a text and in its layout

What stands between two braces among the tokens of a text stands between two braces in the text
(`exists_blockPieces`), and in a layout of the text without indentation there is a block in its
place (`exists_blockPieces_laidOut`). The lines of the block are the same there, but for white space
at their ends (`trimmedLines_written`), and it is cut into the same statements
(`Fragment.split_written`).
-/

namespace SnippetRunner

open Text Lexer Margin Scan

namespace Lexer

/-- A piece that is a sign is the one spelling of that sign. -/
theorem Cuts.text_of_sign {cs rest text : List Char} {ps : List Piece} {s : Sign}
    (h : Cuts cs (⟨text, some (.sign s)⟩ :: ps) rest) :
    (⟨text, some (.sign s)⟩ : Piece) = .sign s ∧ Cuts (Lexer.spell ps ++ rest) ps rest := by
  cases h with
  | token hstep hcuts =>
    rw [text_of_step_sign hstep, Piece.sign]
    exact ⟨rfl, hcuts.spell ▸ hcuts⟩

theorem exists_of_place_eq_append {p : Position} {ps : List Piece} {xs ys : List Lexeme} {t : Token}
    {span : Span} (h : place p ps = xs ++ ⟨t, span⟩ :: ys) :
    ∃ front text back, ps = front ++ ⟨text, some t⟩ :: back ∧ place p front = xs ∧
      span = Span.ofText (p.after (spell front)) text ∧
      place (p.after (spell front ++ text)) back = ys := by
  induction ps generalizing p xs with
  | nil => exact absurd h (by simp [place])
  | cons q ps ih =>
    obtain ⟨text, token⟩ := q
    -- a piece in front
    have hcons (ts : List Lexeme) {xs : List Lexeme}
        (hplace : ∀ front, place p (⟨text, token⟩ :: front) = ts ++ place (p.after text) front)
        (h : place (p.after text) ps = xs ++ ⟨t, span⟩ :: ys) :
        ∃ front text' back, ⟨text, token⟩ :: ps = front ++ ⟨text', some t⟩ :: back ∧
          place p front = ts ++ xs ∧ span = Span.ofText (p.after (spell front)) text' ∧
          place (p.after (spell front ++ text')) back = ys := by
      obtain ⟨front, text', back, rfl, rfl, rfl, rfl⟩ := ih h
      have hspell : spell (⟨text, token⟩ :: front) = text ++ spell front := rfl
      refine ⟨⟨text, token⟩ :: front, text', back, rfl, hplace front, ?_, ?_⟩
      · rw [hspell, Position.after_append]
      · rw [hspell, List.append_assoc, Position.after_append p text]
    cases token with
    | none => exact hcons [] (fun _ => rfl) h
    | some token =>
      cases xs with
      | nil =>
        obtain ⟨hfirst, rfl⟩ := List.cons.inj h
        obtain ⟨rfl, rfl⟩ := Lexeme.mk.inj hfirst
        exact ⟨[], text, ps, rfl, rfl, rfl, rfl⟩
      | cons x xs =>
        obtain ⟨rfl, hrest⟩ := List.cons.inj h
        exact hcons [_] (fun _ => rfl) hrest

end Lexer

/-- The lines of a text as they are written without an indentation, up to the end of the text. -/
def written (m : Margin) (cs : List Char) : List Char :=
  (layOut [] m cs).1 ++ (layOut [] m cs).2.held

theorem written_append (m : Margin) (xs ys : List Char) :
    written m (xs ++ ys) = (layOut [] m xs).1 ++ written (layOut [] m xs).2 ys := by
  rw [written, layOut_append, List.append_assoc, written]

/-- The end of a line is written as it is. -/
theorem written_of_newline_not_mem {l : List Char} (h : '\n' ∉ l) (m : Margin) :
    written m l = m.held ++ l := by
  induction l generalizing m with
  | nil => simp [written, layOut]
  | cons c l ih =>
    simp only [List.mem_cons, not_or] at h
    have hstep : (m.step [] c).1 ++ (m.step [] c).2.held = m.held ++ [c] := by
      rw [Margin.step, if_neg (Ne.symm h.1)]
      split
      · split <;> simp [inLine]
      · split
        · next hreturn => rw [hreturn]
        · simp [inLine]
    rw [← List.singleton_append, written_append, ih h.2]
    have hone : layOut [] m [c] = m.step [] c := by simp [layOut]
    rw [hone, ← List.append_assoc, hstep, List.append_assoc]

/-- **What is written has the lines of the text**, but for white space at their ends. -/
theorem trimmedLines_written {m : Margin} (hm : m = lineStart ∨ m = inLine) (cs : List Char) :
    trimmedLines (written m cs) = trimmedLines cs := by
  induction hn : cs.length using Nat.strongRecOn generalizing m cs with
  | _ n ih =>
    by_cases hmem : '\n' ∈ cs
    · obtain ⟨l, rest, rfl, hl⟩ := List.eq_append_cons_of_mem hmem
      have hlt : rest.length < n := by
        rw [← hn]
        simp only [List.length_append, List.length_cons]
        omega
      have hsplit : l ++ '\n' :: rest = (l ++ ['\n']) ++ rest := by simp
      have hfree := newline_not_mem_dropBreak hl
      obtain ⟨x, hx, htrim, hout⟩ : ∃ x, '\n' ∉ x ∧ trim x = trim l ∧
          layOut [] m (l ++ ['\n']) = (x ++ ['\n'], lineStart) := by
        have htrim : trim (dropBreak (l ++ ['\n'])) = trim l := by
          rw [trim_dropBreak]
          exact trim_append_of_isBlank_right rfl
        rcases hm with rfl | rfl
        · rw [layOut_line hl, relined]
          split
          · next hblank =>
            refine ⟨[], List.not_mem_nil, ?_, rfl⟩
            rw [← htrim, trim_eq_nil_iff.2 hblank]
            rfl
          · exact ⟨_, hfree, htrim, rfl⟩
        · exact ⟨_, hfree, htrim, layOut_inLine hl⟩
      rw [hsplit, written_append, hout, ← hsplit, List.append_assoc, List.singleton_append,
        trimmedLines_append_newline, trimmedLines_append_newline,
        trimmedLines_of_newline_not_mem hx, trimmedLines_of_newline_not_mem hl, htrim,
        ih _ hlt (.inl rfl) rest rfl]
    · rw [written_of_newline_not_mem hmem]
      rcases hm with rfl | rfl <;> rfl

/-- The pieces of a block. -/
def blockPieces (front body back : List Piece) : List Piece :=
  front ++ .sign .lbrace :: (body ++ .sign .rbrace :: back)

/-- What stands between two braces among the tokens of a text is what stands between them in the
text. -/
theorem exists_blockPieces {p : Position} {cs rest : List Char} {ps : List Piece}
    {xs mid ys : List Lexeme} {o c : Span} (hcuts : Cuts cs ps rest)
    (h : place p ps = xs ++ ⟨.sign .lbrace, o⟩ :: (mid ++ ⟨.sign .rbrace, c⟩ :: ys)) :
    ∃ front body back, ps = blockPieces front body back ∧ place p front = xs ∧
      place (p.after (spell front ++ ['{'])) body = mid ∧
      o = Span.ofText (p.after (spell front)) ['{'] ∧
      c = Span.ofText (p.after (spell front ++ '{' :: spell body)) ['}'] := by
  obtain ⟨front, text, behind, rfl, hfront, rfl, hbehind⟩ := exists_of_place_eq_append h
  obtain ⟨mid', -, hcuts⟩ := hcuts.exists_mid
  obtain ⟨hopen, hcuts⟩ := hcuts.text_of_sign
  obtain ⟨body, text', back, rfl, hbody, rfl, -⟩ := exists_of_place_eq_append hbehind
  obtain ⟨mid', -, hcuts⟩ := hcuts.exists_mid
  obtain ⟨hclose, -⟩ := hcuts.text_of_sign
  obtain rfl : text = ['{'] := congrArg Piece.text hopen
  obtain rfl : text' = ['}'] := congrArg Piece.text hclose
  refine ⟨front, body, back, rfl, hfront, hbody, rfl, ?_⟩
  rw [← Position.after_append, List.append_assoc, List.singleton_append]

/-- The text between two braces. -/
theorem text_between (x b y : List Char) :
    (between (Span.ofText (Position.start.after x) ['{'])
      (Span.ofText (Position.start.after (x ++ '{' :: b)) ['}'])).text (x ++ '{' :: (b ++ y)) =
        b := by
  have hsplit : x ++ '{' :: (b ++ y) = (x ++ ['{']) ++ (b ++ y) := by simp
  have hstart : (Span.ofText (Position.start.after x) ['{']).stop = byteSize (x ++ ['{']) := by
    simp [Span.ofText, Position.start]
  have hstop : (Span.ofText (Position.start.after (x ++ '{' :: b)) ['}']).start =
      byteSize ((x ++ ['{']) ++ b) := by
    simp [Span.ofText, Position.start, Nat.add_assoc]
  rw [Span.text, between, hstart, hstop, hsplit]
  exact slice_append _ _ _

/-- What stands in front of a character in a layout is white space. -/
theorem laidOut_cons_eq {c : Char} (hc : isSpace c = false) (m : Margin) (cs : List Char) :
    laidOut [] m (c :: cs) = m.held ++ c :: laidOut [] inLine cs := by
  have hlead : m.lead [] = m.held := by
    unfold lead
    split <;> rfl
  rw [laidOut_cons, step_of_not_isSpace hc, hlead, List.append_assoc, List.singleton_append]

theorem reads_laidOut_cons {c : Char} (hc : isSpace c = false) {m : Margin}
    (hm : isBlank m.held = true) (cs X : List Char) :
    Reads (laidOut [] m (c :: cs) ++ X) [] (c :: (laidOut [] inLine cs ++ X)) := by
  rw [laidOut_cons_eq hc, List.append_assoc]
  exact .of_isBlank hm (.refl _)

/-- **A block is laid out as a block**, with the same tokens in front and inside, and with the lines
of its text inside. -/
theorem exists_blockPieces_laidOut {cs X : List Char} {front body back qs : List Piece}
    (h : Cuts cs (blockPieces front body back) [])
    (hblock : ∀ q ∈ blockPieces front body back, q.token ≠ none → '\n' ∉ q.text)
    (hqs : Cuts (laidOut [] lineStart cs ++ X) qs []) :
    ∃ front' body' back', qs = blockPieces front' body' back' ∧ tokensOf front' = tokensOf front ∧
      tokensOf body' = tokensOf body ∧ spell body' = written inLine (spell body) := by
  -- the parts of the text
  obtain ⟨mid, hfront, hmid⟩ := h.exists_mid
  rw [← List.singleton_append] at hmid
  obtain ⟨rest, hopen, hrest⟩ := hmid.exists_mid
  obtain ⟨last, hbody, hlast⟩ := hrest.exists_mid
  rw [← List.singleton_append] at hlast
  obtain ⟨rest', hclose, -⟩ := hlast.exists_mid
  obtain rfl : mid = '{' :: rest := hopen.spell
  obtain rfl : last = '}' :: rest' := hclose.spell
  obtain rfl : rest = spell body ++ '}' :: rest' := hbody.spell
  have hempty : isBlank ([] : List Char) = true := rfl
  -- the parts of the layout
  obtain ⟨front', hfront', htokens⟩ := hfront.laidOut_append (m := lineStart) hempty rfl
    fun m hm => reads_laidOut_cons (by decide) hm _ X
  obtain ⟨body', hbody', htokens'⟩ := hbody.laidOut_append (m := inLine) hempty rfl
    fun m hm => reads_laidOut_cons (by decide) hm _ X
  obtain ⟨qs₁, rfl, hqs₁⟩ := hfront'.exists_append hqs (Nat.zero_le _)
  obtain ⟨qs₂, rfl, hqs₂⟩ :=
    (Cuts.token (u := []) rfl (.nil _) : Cuts _ [.sign .lbrace] _).exists_append hqs₁
      (Nat.zero_le _)
  obtain ⟨qs₃, rfl, hqs₃⟩ := hbody'.exists_append hqs₂ (Nat.zero_le _)
  obtain ⟨back', rfl, -⟩ :=
    (Cuts.token (u := []) rfl (.nil _) : Cuts _ [.sign .rbrace] _).exists_append hqs₃
      (Nat.zero_le _)
  refine ⟨front', body', back', rfl, ?_, ?_, ?_⟩
  · rw [List.append_nil] at htokens
    rw [htokens]
    exact reindented_eq_tokensOf _ fun q hq => hblock q (List.mem_append_left _ hq)
  · rw [List.append_nil] at htokens'
    rw [htokens']
    exact reindented_eq_tokensOf _ fun q hq => hblock q (by simp [blockPieces, hq])
  · have hspell := hbody'.spell
    rw [laidOut_append, laidOut_cons_eq (by decide), ← List.append_assoc, ← written,
      List.append_assoc] at hspell
    exact (List.append_cancel_right hspell).symm

theorem isBlank_held {indent : List Char} {m : Margin} (hm : isBlank m.held = true)
    (cs : List Char) : isBlank (layOut indent m cs).2.held = true := by
  induction cs generalizing m with
  | nil => exact hm
  | cons c cs ih =>
    rw [layOut_cons]
    refine ih ?_
    cases hc : isSpace c with
    | true => exact (isBlank_step indent hc hm).2
    | false => rw [step_of_not_isSpace hc]; rfl

/-- A body is cut into the same statements as it is written in another place. -/
theorem Fragment.split_written (cs : List Char) (n k : Nat) :
    List.Forall₂ (Shifted k) (split cs n) (split (written inLine cs) (n + k)) := by
  have hempty : Pending.Shifted k (.empty n) (.empty (n + k)) := ⟨rfl, rfl, rfl, .inl ⟨rfl, rfl⟩⟩
  have hsplit : List.Forall₂ (Shifted k) (splitFrom .code (.empty n) cs)
      (splitFrom .code (.empty (n + k)) (laidOut [] inLine cs ++ [])) :=
    (splitFrom_laidOut rfl List.not_mem_nil rfl cs).ofInLine
      (fun _ => by simp [Mode.IsHalfway]) hempty
  have hheld : isBlank (layOut [] inLine cs).2.held = true := isBlank_held rfl cs
  rw [List.append_nil, laidOut, splitFrom_append_of_isBlank (isBlank_finish hheld)] at hsplit
  rw [written, split, split, splitFrom_append_of_isBlank hheld]
  exact hsplit

end SnippetRunner
