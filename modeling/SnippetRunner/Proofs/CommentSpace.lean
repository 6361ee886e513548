import SnippetRunner.Proofs.Indenting
import SnippetRunner.Proofs.Squeezing

/-!
# Splitting a text with white space for its comments

Comments are white space to the splitting of a body: put in white space for each of its comments,
and the same statements stand on the same lines, squeezed white space aside
(`split_spacedOut`). That is so

* if in every piece of the body comments stand apart from what is no white space, and not directly
  behind a word that makes a declaration of the piece (`CommentsApart`);
* if a comment in front of the next line does not hide how that line starts, wherever that decides
  (`Pending.LooksPast`).

The two texts are read side by side (`Alongside`). Where a comment looks like an operator, the text
with the comment goes on while the other one has ended its statement; it ends the same statement at
the next line break (`Owes`), if there is one in front of the next code.
-/

namespace SnippetRunner

open Text Scan

namespace Scan

variable {x : Char × CharClass} {xs zs : List (Char × CharClass)}

theorem exists_classify_of_append {mode : Mode} {cs : List Char} (h : classify mode cs = zs ++ xs) :
    ∃ mode' cs', classify mode' cs' = xs := by
  induction zs generalizing mode cs with
  | nil => exact ⟨mode, cs, h⟩
  | cons z zs ih =>
    cases cs with
    | nil => exact absurd h nofun
    | cons c cs =>
      rw [classify, List.cons_append, List.cons.injEq] at h
      exact ih h.2

/-- Behind code and behind a line break a scan is not inside of a literal. -/
theorem Scanned.behind (h : Scanned (zs ++ x :: xs)) (hx : x.2 = .code ∨ x.1 = '\n') :
    Scanned xs := by
  obtain ⟨mode, cs, -, hcs⟩ := h
  obtain ⟨mode, cs, hcs⟩ := exists_classify_of_append hcs
  cases cs with
  | nil => exact absurd hcs nofun
  | cons c cs =>
    rw [classify, List.cons.injEq] at hcs
    obtain ⟨rfl, rfl⟩ := hcs
    refine ⟨_, cs, ?_, rfl⟩
    obtain hcode | hbreak := hx
    · rw [Mode.step_snd_of_code hcode]
      rfl
    · rw [show c = '\n' from hbreak, settled_step_newline]

end Scan

namespace Fragment

/-! ## The next line -/

/-- Whether what follows a line break decides if a text goes on: it does in front of a member, but
not in front of nothing. -/
def asksAhead (read : List Char) : Bool := goesOn read ['.'] && !goesOn read []

/-- Whether a text goes on whatever follows it. -/
theorem goesOn_eq_of_code (t rest : List Char) :
    goesOn t rest = (!(trim (masked t)).isEmpty &&
      ((awaitsBody (trim (masked t)) || endsWithOperator (trim (masked t))) ||
        startsContinuation (skipToCode rest))) := rfl

theorem startsContinuation_skipToCode_nil : startsContinuation (skipToCode []) = false := by
  rw [skipToCode]
  rfl

theorem startsContinuation_skipToCode_member :
    startsContinuation (skipToCode ['.']) = true := by
  rw [skipToCode, if_neg (by decide), if_neg (by decide)]
  rfl

/-- What follows a text decides if the text goes on, or it does not matter. -/
theorem goesOn_eq_ite (t rest : List Char) :
    goesOn t rest =
      if asksAhead t = true then startsContinuation (skipToCode rest) else goesOn t [] := by
  simp only [asksAhead, goesOn_eq_of_code, startsContinuation_skipToCode_nil,
    startsContinuation_skipToCode_member]
  generalize (trim (masked t)).isEmpty = empty
  generalize (awaitsBody (trim (masked t)) || endsWithOperator (trim (masked t))) = decided
  cases empty <;> cases decided <;> simp

theorem goesOn_of_asksAhead {t : List Char} (h : asksAhead t = true) (rest : List Char) :
    goesOn t rest = startsContinuation (skipToCode rest) := by
  rw [goesOn_eq_ite, if_pos h]

theorem goesOn_of_not_asksAhead {t : List Char} (h : asksAhead t = false) (rest rest' : List Char) :
    goesOn t rest = goesOn t rest' := by
  rw [goesOn_eq_ite, goesOn_eq_ite t rest', h]
  rfl

theorem asksAhead_append_of_isBlank {s : List Char} (hs : isBlank s = true) (t : List Char) :
    asksAhead (t ++ s) = asksAhead t := by
  rw [asksAhead, asksAhead, goesOn_append_of_isBlank hs, goesOn_append_of_isBlank hs]

/-- Whether a comment does not hide how the next line starts: it starts in the same way with white
space in the place of the comments, or it seems to go on, and then there is one more line break in
front of the next code. -/
def SeesPast (xs : List (Char × CharClass)) : Prop :=
  let seen := startsContinuation (skipToCode (xs.map Prod.fst))
  seen = startsContinuation (skipToCode (spacedOut xs)) ∨
    seen = true ∧ '\n' ∈ (spacedOut xs).takeWhile isSpace

/-- Whether no comment hides how the next line starts, wherever that decides if a statement goes
on. -/
def Pending.LooksPast (p : Pending) : List (Char × CharClass) → Prop
  | [] => True
  | x :: xs =>
    (x.1 = '\n' → p.isTop = true → asksAhead p.text = true → SeesPast xs) ∧
      LooksPast (p.advance x.1 x.2 (xs.map Prod.fst)).2 xs

instance (xs : List (Char × CharClass)) : Decidable (SeesPast xs) :=
  inferInstanceAs (Decidable (_ ∨ _))

instance decidableLooksPast : (p : Pending) → (xs : List (Char × CharClass)) →
    Decidable (p.LooksPast xs)
  | _, [] => isTrue trivial
  | p, x :: xs =>
    have := decidableLooksPast (p.advance x.1 x.2 (xs.map Prod.fst)).2 xs
    inferInstanceAs (Decidable (_ ∧ _))

/-- The same statement on the same line, but for how much white space stands where there is some. -/
structure SameButSpace (f g : Fragment) : Prop where
  line_eq : f.line = g.line
  squeezed_eq : squeezed f.text = squeezed g.text

/-! ## Pieces -/

variable {p q : Pending} {x : Char × CharClass} {piece xs : List (Char × CharClass)}

theorem exists_mem_piecesIn (p : Pending) (piece xs : List (Char × CharClass)) :
    ∃ own ∈ piecesIn p piece xs, piece <+: own := by
  induction xs generalizing p piece with
  | nil => exact ⟨piece, List.mem_singleton.2 rfl, List.prefix_rfl⟩
  | cons x xs ih =>
    have hcut : (∃ own ∈ (p.cut piece x (xs.map Prod.fst)).1, piece <+: own) ∨
        piece <+: (p.cut piece x (xs.map Prod.fst)).2 := by
      unfold Pending.cut
      dsimp only
      split_ifs <;> simp
    rw [piecesIn]
    obtain ⟨own, hown, hlead⟩ | hlead := hcut
    · exact ⟨own, List.mem_append_left _ hown, hlead⟩
    · obtain ⟨own, hown, hmore⟩ := ih (p.advance x.1 x.2 (xs.map Prod.fst)).2 _
      exact ⟨own, List.mem_append_right _ hown, hlead.trans hmore⟩

theorem CommentsApart.of_append_left {own more : List (Char × CharClass)}
    (h : CommentsApart (own ++ more)) : CommentsApart own := by
  obtain ⟨hapart, hbehind⟩ := h
  refine ⟨hapart.of_append_left, fun word hword hno => hbehind word hword ?_⟩
  rw [List.dropWhile_append]
  split
  · next hempty =>
    rw [List.isEmpty_iff.1 hempty] at hno
    simp [CommentBehind] at hno
  · exact hno.append more

/-- Comments stand apart in what was read of a piece. -/
theorem commentsApart_of_pieces (h : ∀ own ∈ piecesIn p piece xs, CommentsApart own) :
    CommentsApart piece := by
  obtain ⟨own, hown, more, rfl⟩ := exists_mem_piecesIn p piece xs
  exact (h _ hown).of_append_left

/-- Comments stand apart in a piece when a brace is read that may end it. -/
theorem commentsApart_of_pieces_brace
    (h : ∀ own ∈ piecesIn p piece (('}', .code) :: xs), CommentsApart own) :
    CommentsApart (piece ++ [('}', .code)]) := by
  rw [piecesIn] at h
  unfold Pending.cut at h
  simp only [Char.reduceEq, if_false, if_true] at h
  split at h
  · exact h _ (List.mem_append_left _ (List.mem_singleton.2 rfl))
  · exact commentsApart_of_pieces fun own hown => h own (List.mem_append_right _ hown)

theorem CommentsApart.of_lead {lead own : List (Char × CharClass)}
    (h : CommentsApart (lead ++ own)) (hlead : ∀ x ∈ lead, isGap x = true) : CommentsApart own := by
  obtain ⟨hapart, hbehind⟩ := h
  rw [List.dropWhile_append_of_pos hlead] at hbehind
  exact ⟨hapart.of_append_right, hbehind⟩

/-! ## The two texts side by side -/

/-- What was read of a piece `piece`, with its comments dropped and with white space for them: white
space, or a statement behind white space. The characters `xs` follow the piece. -/
inductive SideBySide (t t' : List Char) (start start' : Nat) :
    List (Char × CharClass) → List (Char × CharClass) → Prop
  | blank {piece xs : List (Char × CharClass)} : (∀ x ∈ piece, isGap x = true) → Scanned xs →
      isBlank t = true → isBlank t' = true → SideBySide t t' start start' piece xs
  | statement {lead own xs : List (Char × CharClass)} : (∀ x ∈ lead, isGap x = true) →
      StartsStatement own → Scanned (own ++ xs) → t = keptOf own → t' = spacedOut own →
      start' = start → SideBySide t t' start start' (lead ++ own) xs

namespace SideBySide

variable {t t' : List Char} {start start' : Nat}

/-- Behind code and behind a line break a scan is not inside of a literal. -/
theorem scanned (h : SideBySide t t' start start' piece (x :: xs))
    (hx : x.2 = .code ∨ x.1 = '\n') : Scanned xs := by
  cases h with
  | blank _ hscan => exact Scanned.behind (show Scanned ([] ++ x :: xs) from hscan) hx
  | statement _ _ hscan => exact hscan.behind hx

/-- White space in front of a statement stands in code. -/
theorem isGap_of_isSpace (h : Scanned (x :: xs)) (hspace : isSpace x.1 = true) :
    isGap x = true := by
  obtain ⟨c, cls⟩ := x
  cases cls with
  | comment => rfl
  | code => simpa [isGap, isCodeSpace] using hspace
  | literal =>
    rw [h.isSpace_of_literal] at hspace
    exact absurd hspace Bool.false_ne_true

/-- White space in front of both statements, or a comment in front of the one. -/
theorem gap (hpiece : ∀ y ∈ piece, isGap y = true) (hscan : Scanned (x :: xs))
    (hx : isGap x = true) (ht : isBlank t = true) (ht' : isBlank t' = true) {s s' : List Char}
    (hs : isBlank s = true) (hs' : isBlank s' = true) :
    SideBySide (t ++ s) (t' ++ s') start start' (piece ++ [x]) xs := by
  have hliteral : x.2 ≠ .literal := by
    intro hliteral
    simp [isGap, isCodeSpace, hliteral] at hx
  refine .blank (fun y hy => ?_) (hscan.of_cons hliteral) (isBlank_append_of_isBlank ht hs)
    (isBlank_append_of_isBlank ht' hs')
  rcases List.mem_append.1 hy with hy | hy
  · exact hpiece y hy
  · rw [List.mem_singleton.1 hy]
    exact hx

/-- One more character of both statements, or of a comment in the one. -/
theorem more (start : Nat) {lead own : List (Char × CharClass)}
    (hlead : ∀ y ∈ lead, isGap y = true) (hstart : StartsStatement own)
    (hscan : Scanned (own ++ x :: xs)) :
    SideBySide (keptOf own ++ keptOf [x]) (spacedOut own ++ spacedOut [x]) start start
      (lead ++ own ++ [x]) xs := by
  obtain ⟨y, ys, rfl, hy⟩ := hstart
  rw [List.append_assoc, ← keptOf_append, ← spacedOut_append]
  exact .statement hlead ⟨y, ys ++ [x], rfl, hy⟩ (by simpa using hscan) rfl rfl rfl

theorem of_isKept (hx : isKept x = true) : keptOf [x] = [x.1] ∧ spacedOut [x] = [x.1] := by
  rw [keptOf_cons_of_isKept hx, spacedOut_cons, spacedChar_fst_of_isKept hx]
  exact ⟨rfl, rfl⟩

end SideBySide

theorem isBlank_of_startsStatement {own : List (Char × CharClass)} (h : StartsStatement own) :
    isBlank (keptOf own) = false ∧ isBlank (spacedOut own) = false := by
  obtain ⟨x, xs, rfl, hx⟩ := h
  obtain ⟨hkept, hsame⟩ := spacedChar_of_not_isGap (isGap_of_solid hx)
  rw [keptOf_cons_of_isKept hkept, spacedOut_cons, hsame, isBlank_cons, isBlank_cons, hx.2]
  exact ⟨rfl, rfl⟩

namespace Pending

/-- The same statement while it is read, with its comments dropped and with white space for them. -/
structure Alongside (p q : Pending) (piece xs : List (Char × CharClass)) : Prop where
  line_eq : q.line = p.line
  parens_eq : q.parens = p.parens
  braces_eq : q.braces = p.braces
  read : SideBySide p.text q.text p.start q.start piece xs

theorem Alongside.isTop_eq (h : Alongside p q piece xs) : p.isTop = q.isTop := by
  simp only [isTop, h.parens_eq, h.braces_eq]

theorem Alongside.goesOn_eq (h : Alongside p q piece xs) (hapart : Apart piece)
    (next : List Char) : goesOn p.text next = goesOn q.text next := by
  cases h.read with
  | blank _ _ hp hq => rw [goesOn_of_isBlank hp, goesOn_of_isBlank hq]
  | statement _ hstart hscan hp hq =>
    rw [hp, hq]
    exact goesOn_keptOf hscan hstart hapart.of_append_right next

theorem Alongside.finish (h : Alongside p q piece xs) (hapart : CommentsApart piece) :
    List.Forall₂ SameButSpace p.finish q.finish := by
  cases h.read with
  | blank _ _ hp hq =>
    rw [finish_of_isBlank hp, finish_of_isBlank hq]
    exact .nil
  | @statement lead own _ hlead hstart hscan hp hq hline =>
    obtain ⟨hskip, hsqueezed⟩ := squeezed_trim_keptOf hscan hstart (hapart.of_lead hlead)
    obtain ⟨hkept, hspaced⟩ := isBlank_of_startsStatement hstart
    simp only [Pending.finish, hp, hq, isEmpty_trim, hkept, hspaced, hskip, Bool.false_or]
    split
    · exact .nil
    · exact .cons ⟨hline.symm, hsqueezed⟩ .nil

theorem Alongside.clear (h : Alongside p q piece xs) {ys : List (Char × CharClass)}
    (hys : Scanned ys) : Alongside p.clear q.clear [] ys :=
  ⟨h.line_eq, h.parens_eq, h.braces_eq, .blank nofun hys rfl rfl⟩

theorem Alongside.nextLine (h : Alongside p q piece xs) :
    Alongside p.nextLine q.nextLine piece xs :=
  ⟨congrArg (· + 1) h.line_eq, h.parens_eq, h.braces_eq, h.read⟩

/-- A comment in the one text, and white space in the other. -/
theorem Alongside.comment (h : Alongside p q piece (x :: xs)) (hx : x.2 = .comment)
    (hne : x.1 ≠ '\n') : Alongside p (q.spaces [' ']) (piece ++ [x]) xs := by
  refine ⟨h.line_eq, h.parens_eq, h.braces_eq, ?_⟩
  have hdropped : keptOf [x] = [] := by simp [keptOf, isKept, hx, hne]
  have hspaced : spacedOut [x] = [' '] := by
    rw [spacedOut_cons, show x = (x.1, .comment) from Prod.ext rfl hx, spacedChar_comment hne]
    rfl
  rw [text_spaces]
  show SideBySide p.text _ p.start q.start _ xs
  cases h.read with
  | blank hpiece hscan hp hq =>
    have hgap : SideBySide (p.text ++ []) (q.text ++ [' ']) p.start q.start (piece ++ [x]) xs :=
      SideBySide.gap hpiece hscan (by simp [isGap, hx]) hp hq rfl (by decide)
    rwa [List.append_nil] at hgap
  | @statement lead own _ hlead hstart hscan hp hq hline =>
    have hmore := SideBySide.more p.start hlead hstart hscan
    rw [hdropped, hspaced, List.append_nil, ← hp, ← hq] at hmore
    rwa [hline]

/-- One more line break in both texts. -/
theorem Alongside.pushBreak (h : Alongside p q piece (x :: xs)) (hx : x.1 = '\n') :
    Alongside p.pushBreak q.pushBreak (piece ++ [x]) xs := by
  refine ⟨congrArg (· + 1) h.line_eq, h.parens_eq, h.braces_eq, ?_⟩
  obtain ⟨hkept, hspaced⟩ := SideBySide.of_isKept (x := x) (by simp [isKept, hx])
  rw [text_pushBreak, text_pushBreak]
  show SideBySide _ _ p.start q.start _ xs
  cases h.read with
  | blank hpiece hscan hp hq =>
    have hgap : isGap x = true :=
      SideBySide.isGap_of_isSpace hscan (by rw [hx]; decide)
    exact SideBySide.gap hpiece hscan hgap hp hq rfl rfl
  | @statement lead own _ hlead hstart hscan hp hq hline =>
    have hmore := SideBySide.more p.start hlead hstart hscan
    rw [hkept, hspaced, hx, ← hp, ← hq] at hmore
    rwa [hline]

theorem text_push_of_isBlank {r : Pending} {c : Char} (hr : isBlank r.text = true)
    (hc : isSpace c = false) : (r.push c).text = [c] ∧ (r.push c).start = r.line := by
  rw [isBlank_text] at hr
  rw [Pending.push, if_pos (by simp [hr, hc])]
  exact ⟨rfl, rfl⟩

theorem text_push {r : Pending} {c : Char} (h : isBlank r.text = false ∨ isSpace c = true) :
    (r.push c).text = r.text ++ [c] ∧ (r.push c).start = r.start := by
  rw [isBlank_text] at h
  have hnot : (isBlank r.read && !isSpace c) = false := by
    obtain h | h := h <;> simp [h]
  rw [Pending.push, if_neg (by simp [hnot])]
  exact ⟨by simp [text], rfl⟩

/-- One more character of both texts that is no comment. -/
theorem Alongside.push (h : Alongside p q piece (x :: xs)) (hx : x.2 ≠ .comment) :
    Alongside (p.push x.1) (q.push x.1) (piece ++ [x]) xs := by
  have hkeep (r : Pending) : (r.push x.1).parens = r.parens ∧ (r.push x.1).braces = r.braces := by
    unfold Pending.push
    split <;> exact ⟨rfl, rfl⟩
  obtain ⟨hkept, hspaced⟩ := SideBySide.of_isKept (x := x) (by simp [isKept, hx])
  refine ⟨by rw [line_push, line_push, h.line_eq], by rw [(hkeep q).1, (hkeep p).1, h.parens_eq],
    by rw [(hkeep q).2, (hkeep p).2, h.braces_eq], ?_⟩
  cases h.read with
  | blank hpiece hscan hp hq =>
    cases hspace : isSpace x.1 with
    | true =>
      have hblank : isBlank [x.1] = true := by simp [isBlank, hspace]
      obtain ⟨hptext, hpstart⟩ := text_push (r := p) (.inr hspace)
      obtain ⟨hqtext, hqstart⟩ := text_push (r := q) (.inr hspace)
      rw [hptext, hqtext, hpstart, hqstart]
      exact SideBySide.gap hpiece hscan (SideBySide.isGap_of_isSpace hscan hspace) hp hq hblank
        hblank
    | false =>
      obtain ⟨hptext, hpstart⟩ := text_push_of_isBlank hp hspace
      obtain ⟨hqtext, hqstart⟩ := text_push_of_isBlank hq hspace
      rw [hptext, hqtext, hpstart, hqstart]
      exact .statement hpiece ⟨x, [], rfl, hx, hspace⟩ hscan hkept.symm hspaced.symm h.line_eq
  | @statement lead own _ hlead hstart hscan hp hq hline =>
    obtain ⟨hpblank, hqblank⟩ := isBlank_of_startsStatement hstart
    obtain ⟨hptext, hpstart⟩ := text_push (r := p) (c := x.1) (.inl (by rw [hp, hpblank]))
    obtain ⟨hqtext, hqstart⟩ := text_push (r := q) (c := x.1) (.inl (by rw [hq, hqblank]))
    have hmore := SideBySide.more p.start hlead hstart hscan
    rw [hkept, hspaced, ← hp, ← hq] at hmore
    rwa [hptext, hqtext, hpstart, hqstart, hline]

/-- A brace that is read makes an initializer of both texts or of none. -/
theorem Alongside.isInitializer_eq (h : Alongside p q piece xs) (hapart : Apart piece)
    (hblank : isBlank p.text = false) : isInitializer p.text = isInitializer q.text := by
  cases h.read with
  | blank _ _ hp _ =>
    rw [hp] at hblank
    exact absurd hblank.symm Bool.false_ne_true
  | statement _ hstart hscan hp hq =>
    rw [hp, hq]
    exact isInitializer_keptOf hscan hstart hapart.of_append_right

/-- A character of code, if it is no line break, does the same to both statements. -/
theorem Alongside.advance_code {c : Char} (h : Alongside p q piece ((c, .code) :: xs))
    (hc : c ≠ '\n') (rest rest' : List Char) (hapart : CommentsApart piece)
    (hbrace : c = '}' → CommentsApart (piece ++ [(c, .code)])) :
    List.Forall₂ SameButSpace (p.advance c .code rest).1 (q.advance c .code rest').1 ∧
      Alongside (p.advance c .code rest).2 (q.advance c .code rest').2
        (p.cut piece (c, .code) rest).2 xs := by
  have hpush : Alongside (p.push c) (q.push c) (piece ++ [(c, .code)]) xs := h.push (by simp)
  have hscan := h.read.scanned (.inl rfl)
  unfold Pending.advance Pending.cut
  rw [if_neg hc, if_neg hc, if_neg hc]
  dsimp only
  by_cases hrbrace : c = '}'
  · subst hrbrace
    have hclose : Alongside { p.push '}' with braces := p.braces - 1 }
        { q.push '}' with braces := q.braces - 1 } (piece ++ [('}', .code)]) xs :=
      ⟨hpush.line_eq, hpush.parens_eq, congrArg (· - 1) h.braces_eq, hpush.read⟩
    have hblank : isBlank (p.push '}').text = false := by
      rw [isBlank_text]
      exact isBlank_read_push p (by decide)
    have hinit := hclose.isInitializer_eq (hbrace rfl).apart hblank
    simp only [Char.reduceEq, or_self, if_false, if_true, ← hclose.isTop_eq, ← hinit]
    split
    · exact ⟨hclose.finish (hbrace rfl), hclose.clear hscan⟩
    · exact ⟨.nil, hclose⟩
  have hother : ¬ (c, CharClass.code) = ('}', .code) := fun heq => hrbrace (congrArg Prod.fst heq)
  rw [if_neg hother, ← h.isTop_eq]
  by_cases hends : c = ';' ∧ p.isTop = true
  · obtain ⟨rfl, htop⟩ := hends
    simp only [Char.reduceEq, or_self, if_false, htop, and_self, if_true]
    exact ⟨h.finish hapart, h.clear hscan⟩
  have hnot : ¬ ((c, CharClass.code) = (';', .code) ∧ p.isTop = true) :=
    fun heq => hends ⟨congrArg Prod.fst heq.1, heq.2⟩
  rw [if_neg hnot, if_neg hrbrace, if_neg hrbrace, if_neg hends, if_neg hends]
  split
  · exact ⟨.nil, hpush.line_eq, congrArg (· + 1) h.parens_eq, hpush.braces_eq, hpush.read⟩
  split
  · exact ⟨.nil, hpush.line_eq, congrArg (· - 1) h.parens_eq, hpush.braces_eq, hpush.read⟩
  split
  · exact ⟨.nil, hpush.line_eq, hpush.parens_eq, congrArg (· + 1) h.braces_eq, hpush.read⟩
  · exact ⟨.nil, hpush⟩

/-- The same character, if it is no line break, does the same to both statements. -/
theorem Alongside.advance (h : Alongside p q piece (x :: xs)) (hx : x.1 ≠ '\n')
    (rest rest' : List Char) (hapart : CommentsApart piece)
    (hbrace : x = ('}', .code) → CommentsApart (piece ++ [x])) :
    List.Forall₂ SameButSpace (p.advance x.1 x.2 rest).1
        (q.advance (spacedChar x).1 (spacedChar x).2 rest').1 ∧
      Alongside (p.advance x.1 x.2 rest).2 (q.advance (spacedChar x).1 (spacedChar x).2 rest').2
        (p.cut piece x rest).2 xs := by
  obtain ⟨c, cls⟩ := x
  cases cls with
  | code => exact h.advance_code hx rest rest' hapart fun hc => hbrace (by rw [hc])
  | comment =>
    have hcut : p.cut piece (c, .comment) rest = ([], piece ++ [(c, .comment)]) := by
      simp [Pending.cut, show c ≠ '\n' from hx]
    have hadvance : p.advance c .comment rest = ([], p) := by
      simp [Pending.advance, show c ≠ '\n' from hx]
    have hspace : q.advance ' ' .code rest' = ([], q.spaces [' ']) :=
      advance_of_isSpace (by decide) (by decide) q .code rest'
    rw [spacedChar_comment hx, hcut, hadvance, hspace]
    exact ⟨.nil, h.comment rfl hx⟩
  | literal =>
    have hcut : p.cut piece (c, .literal) rest = ([], piece ++ [(c, .literal)]) := by
      simp [Pending.cut, show c ≠ '\n' from hx]
    have hadvance (r : Pending) (rest : List Char) :
        r.advance c .literal rest = ([], r.push c) := by
      simp [Pending.advance, show c ≠ '\n' from hx]
    rw [spacedChar_of_ne (by decide), hcut, hadvance, hadvance]
    exact ⟨.nil, h.push (by simp)⟩

/-! ## Where the one text goes on and the other does not -/

/-- The statement `fs` was finished in the text with white space for its comments, and is still read
in the other one; up to the next line break nothing but white space stands in the former. -/
structure Owes (p q : Pending) (fs : List Fragment) (xs : List (Char × CharClass)) : Prop where
  line_eq : q.line = p.line
  top : p.isTop = true ∧ q.isTop = true
  blank : isBlank q.text = true
  asks : asksAhead p.text = true
  finish : List.Forall₂ SameButSpace p.finish fs
  scanned : ∃ zs, Scanned (zs ++ xs)
  newline_mem : '\n' ∈ (spacedOut xs).takeWhile isSpace
  stops : startsContinuation (skipToCode (spacedOut xs)) = false

variable {fs : List Fragment}

theorem spacedChar_fst_of_newline (hx : x.1 = '\n') : (spacedChar x).1 = '\n' := by
  rw [spacedChar_fst_of_isKept (by simp [isKept, hx]), hx]

/-- A line break at the end of a statement is no part of it. -/
theorem finish_pushBreak (p : Pending) : p.pushBreak.finish = p.finish := by
  have hbreak : isBlank ['\n'] = true := by decide
  simp only [Pending.finish, text_pushBreak, trim_append_of_isBlank_right hbreak]
  rfl

/-- White space, and a comment in the one text, in front of the line break. -/
theorem Owes.advance (h : Owes p q fs (x :: xs)) (hx : x.1 ≠ '\n') (rest rest' : List Char) :
    (p.advance x.1 x.2 rest).1 = [] ∧
      (q.advance (spacedChar x).1 (spacedChar x).2 rest').1 = [] ∧
      Owes (p.advance x.1 x.2 rest).2 (q.advance (spacedChar x).1 (spacedChar x).2 rest').2 fs
        xs := by
  obtain ⟨hline, htop, hblank, hasks, hfinish, ⟨zs, hscan⟩, hbreak, hstops⟩ := h
  rw [spacedOut_cons] at hbreak hstops
  have hspace : isSpace (spacedChar x).1 = true := by
    by_contra hno
    rw [List.takeWhile_cons_of_neg hno] at hbreak
    exact List.not_mem_nil hbreak
  have hne : (spacedChar x).1 ≠ '\n' := by
    obtain ⟨c, cls⟩ := x
    cases cls with
    | comment =>
      rw [spacedChar_comment hx]
      decide
    | code | literal => exact hx
  rw [List.takeWhile_cons_of_pos hspace, List.mem_cons] at hbreak
  rw [skipToCode, if_pos hspace] at hstops
  have hone : isBlank [(spacedChar x).1] = true := by simp [isBlank, hspace]
  have hq : q.advance (spacedChar x).1 (spacedChar x).2 rest' =
      ([], q.spaces [(spacedChar x).1]) := by
    rw [advance_of_isSpace hspace hne, if_neg (spacedChar_snd_ne x)]
  have hqblank : isBlank (q.spaces [(spacedChar x).1]).text = true := by
    rw [text_spaces]
    exact isBlank_append_of_isBlank hblank hone
  have hscan' : ∃ zs, Scanned (zs ++ xs) := ⟨zs ++ [x], by simpa using hscan⟩
  have hrest := hbreak.resolve_left (Ne.symm hne)
  rw [hq]
  by_cases hcls : x.2 = .comment
  · have hp : p.advance x.1 x.2 rest = ([], p) := by simp [Pending.advance, hx, hcls]
    rw [hp]
    exact ⟨rfl, rfl, hline, htop, hqblank, hasks, hfinish, hscan', hrest, hstops⟩
  · have hsame : spacedChar x = x := spacedChar_of_ne hcls
    rw [hsame] at hspace hone
    rw [advance_of_isSpace hspace hx, if_neg hcls]
    refine ⟨rfl, rfl, hline, htop, hqblank, ?_, ?_, hscan', hrest, hstops⟩
    · rw [text_spaces, asksAhead_append_of_isBlank hone, hasks]
    · rw [finish_spaces p hone]
      exact hfinish

/-- At the line break the one text ends the statement, or it still seems to go on, and there is one
more line break. -/
theorem Owes.advance_newline (h : Owes p q fs (x :: xs)) (hx : x.1 = '\n') (hsees : SeesPast xs)
    (rest : List Char) (piece : List (Char × CharClass)) :
    q.advance (spacedChar x).1 (spacedChar x).2 rest = ([], q.clear.nextLine) ∧
      (p.advance x.1 x.2 (xs.map Prod.fst) = (p.finish, p.clear.nextLine) ∧
          (p.cut piece x (xs.map Prod.fst)).2 = [] ∧
            Alongside p.clear.nextLine q.clear.nextLine [] xs ∨
        p.advance x.1 x.2 (xs.map Prod.fst) = ([], p.pushBreak) ∧
          Owes p.pushBreak q.clear.nextLine fs xs) := by
  obtain ⟨hline, ⟨hptop, hqtop⟩, hblank, hasks, hfinish, ⟨zs, hscan⟩, -, hstops⟩ := h
  have hspaced := spacedChar_fst_of_newline hx
  have hspace : isSpace (spacedChar x).1 = true := by rw [hspaced]; decide
  rw [spacedOut_cons, skipToCode, if_pos hspace] at hstops
  have hbreak : isBlank ['\n'] = true := by decide
  have hbrackets : q.parens = p.parens ∧ q.braces = p.braces := by
    simp only [isTop, Bool.and_eq_true, decide_eq_true_eq] at hptop hqtop
    exact ⟨hqtop.1.trans hptop.1.symm, hqtop.2.trans hptop.2.symm⟩
  refine ⟨?_, ?_⟩
  · simp only [Pending.advance, hspaced, if_true, hqtop, goesOn_of_isBlank hblank, Bool.not_false,
      Bool.and_self, finish_of_isBlank hblank]
  · cases hseen : startsContinuation (skipToCode (xs.map Prod.fst)) with
    | false =>
      refine .inl ⟨?_, ?_, congrArg (· + 1) hline, hbrackets.1, hbrackets.2,
        .blank (fun y hy => absurd hy List.not_mem_nil) (hscan.behind (.inr hx)) rfl rfl⟩
      · simp only [Pending.advance, hx, if_true, hptop, goesOn_of_asksAhead hasks, hseen,
          Bool.not_false, Bool.and_self]
      · simp only [Pending.cut, hx, if_true, hptop, goesOn_of_asksAhead hasks, hseen,
          Bool.not_false, Bool.and_self]
    | true =>
      have hmore : '\n' ∈ (spacedOut xs).takeWhile isSpace := by
        obtain heq | hmore := hsees
        · rw [hseen, hstops] at heq
          exact absurd heq.symm Bool.false_ne_true
        · exact hmore.2
      refine .inr ⟨?_, congrArg (· + 1) hline, ⟨hptop, hqtop⟩, rfl, ?_, ?_,
        ⟨zs ++ [x], by simpa using hscan⟩, hmore, hstops⟩
      · simp only [Pending.advance, hx, if_true, hptop, goesOn_of_asksAhead hasks, hseen,
          Bool.not_true, Bool.and_false, Bool.false_eq_true, if_false]
      · rw [text_pushBreak, asksAhead_append_of_isBlank hbreak, hasks]
      · rwa [finish_pushBreak]

/-- A line break ends both statements, or none, or the one of the text with white space for its
comments. -/
theorem Alongside.advance_newline (h : Alongside p q piece (x :: xs)) (hx : x.1 = '\n')
    (hsees : p.isTop = true → asksAhead p.text = true → SeesPast xs)
    (hapart : CommentsApart piece) :
    List.Forall₂ SameButSpace (p.advance x.1 x.2 (xs.map Prod.fst)).1
          (q.advance (spacedChar x).1 (spacedChar x).2 (spacedOut xs)).1 ∧
        Alongside (p.advance x.1 x.2 (xs.map Prod.fst)).2
          (q.advance (spacedChar x).1 (spacedChar x).2 (spacedOut xs)).2
          (p.cut piece x (xs.map Prod.fst)).2 xs ∨
      (p.advance x.1 x.2 (xs.map Prod.fst)).1 = [] ∧
        Owes (p.advance x.1 x.2 (xs.map Prod.fst)).2
          (q.advance (spacedChar x).1 (spacedChar x).2 (spacedOut xs)).2
          (q.advance (spacedChar x).1 (spacedChar x).2 (spacedOut xs)).1 xs := by
  have hscan := h.read.scanned (.inr hx)
  have hbreak := spacedChar_fst_of_newline hx
  have hfinish := h.finish hapart
  have hgoes := h.goesOn_eq hapart.apart (spacedOut xs)
  have htogether (hsame : goesOn p.text (xs.map Prod.fst) = goesOn q.text (spacedOut xs)) :
      List.Forall₂ SameButSpace (p.advance x.1 x.2 (xs.map Prod.fst)).1
          (q.advance (spacedChar x).1 (spacedChar x).2 (spacedOut xs)).1 ∧
        Alongside (p.advance x.1 x.2 (xs.map Prod.fst)).2
          (q.advance (spacedChar x).1 (spacedChar x).2 (spacedOut xs)).2
          (p.cut piece x (xs.map Prod.fst)).2 xs := by
    simp only [Pending.advance, Pending.cut, hx, hbreak, if_true, ← h.isTop_eq, ← hsame]
    split
    · exact ⟨hfinish, (h.clear hscan).nextLine⟩
    · exact ⟨.nil, h.pushBreak hx⟩
  cases htop : p.isTop with
  | false =>
    refine .inl ?_
    have hqtop : q.isTop = false := by rw [← h.isTop_eq, htop]
    simp only [Pending.advance, Pending.cut, hx, hbreak, if_true, htop, hqtop, Bool.false_and,
      Bool.false_eq_true, if_false]
    exact ⟨.nil, h.pushBreak hx⟩
  | true =>
    cases hasks : asksAhead p.text with
    | false => exact .inl (htogether ((goesOn_of_not_asksAhead hasks _ _).trans hgoes))
    | true =>
      have hseen := goesOn_of_asksAhead hasks (xs.map Prod.fst)
      have hspaced := hgoes.symm.trans (goesOn_of_asksAhead hasks (spacedOut xs))
      obtain heq | ⟨htrue, hmore⟩ := hsees htop hasks
      · exact .inl (htogether (hseen.trans (heq.trans hspaced.symm)))
      cases hstops : startsContinuation (skipToCode (spacedOut xs)) with
      | true => exact .inl (htogether (hseen.trans (htrue.trans (hspaced.trans hstops).symm)))
      | false =>
        -- the comment looks like an operator, and only white space stands behind it on its line
        refine .inr ?_
        have hqtop : q.isTop = true := by rw [← h.isTop_eq, htop]
        have hnl : isBlank ['\n'] = true := by decide
        have hblank : isBlank ([] : List Char) = true := rfl
        simp only [Pending.advance, hx, hbreak, if_true, htop, hqtop, hseen, htrue, hspaced, hstops,
          Bool.not_true, Bool.not_false, Bool.and_false, Bool.and_self, Bool.false_eq_true,
          if_false]
        refine ⟨trivial, congrArg (· + 1) h.line_eq, ⟨htop, hqtop⟩, hblank, ?_, ?_, ⟨[], hscan⟩,
          hmore, hstops⟩
        · rw [text_pushBreak, asksAhead_append_of_isBlank hnl, hasks]
        · rwa [finish_pushBreak]

end Pending

open Pending

/-! ## Bodies -/

/-- **From related states on, the same statements are read.** -/
theorem forall₂_splitIn (xs : List (Char × CharClass)) :
    (∀ (p q : Pending) (piece : List (Char × CharClass)), p.Alongside q piece xs →
      (∀ own ∈ piecesIn p piece xs, CommentsApart own) → p.LooksPast xs →
        List.Forall₂ SameButSpace (splitIn p xs) (splitIn q (xs.map spacedChar))) ∧
    (∀ (p q : Pending) (piece : List (Char × CharClass)) (fs : List Fragment), p.Owes q fs xs →
      (∀ own ∈ piecesIn p piece xs, CommentsApart own) → p.LooksPast xs →
        List.Forall₂ SameButSpace (splitIn p xs) (fs ++ splitIn q (xs.map spacedChar))) := by
  induction xs with
  | nil =>
    refine ⟨fun p q piece h hpieces _ => h.finish (commentsApart_of_pieces hpieces),
      fun p q piece fs h _ _ => ?_⟩
    exact absurd h.newline_mem List.not_mem_nil
  | cons x xs ih =>
    have hrest : (xs.map spacedChar).map Prod.fst = spacedOut xs := by simp [spacedOut]
    have hmap : (x :: xs).map spacedChar = spacedChar x :: xs.map spacedChar := rfl
    have htail {p : Pending} {piece : List (Char × CharClass)}
        (h : ∀ own ∈ piecesIn p piece (x :: xs), CommentsApart own) :
        ∀ own ∈ piecesIn (p.advance x.1 x.2 (xs.map Prod.fst)).2
          (p.cut piece x (xs.map Prod.fst)).2 xs, CommentsApart own :=
      fun own hown => h own (List.mem_append_right _ hown)
    refine ⟨fun p q piece h hpieces hpast => ?_, fun p q piece fs h hpieces hpast => ?_⟩
    · rw [hmap, splitIn, splitIn, hrest]
      have hapart := commentsApart_of_pieces hpieces
      by_cases hx : x.1 = '\n'
      · obtain ⟨hout, hnext⟩ | ⟨hout, hnext⟩ := h.advance_newline hx (hpast.1 hx) hapart
        · exact List.rel_append hout (ih.1 _ _ _ hnext (htail hpieces) hpast.2)
        · rw [hout]
          exact ih.2 _ _ _ _ hnext (htail hpieces) hpast.2
      · have hbrace (hbrace : x = ('}', .code)) : CommentsApart (piece ++ [x]) := by
          subst hbrace
          exact commentsApart_of_pieces_brace hpieces
        obtain ⟨hout, hnext⟩ := h.advance hx (xs.map Prod.fst) (spacedOut xs) hapart hbrace
        exact List.rel_append hout (ih.1 _ _ _ hnext (htail hpieces) hpast.2)
    · rw [hmap, splitIn, splitIn, hrest]
      by_cases hx : x.1 = '\n'
      · have hsees := hpast.1 hx h.top.1 h.asks
        have hpieces' := htail hpieces
        have hpast' := hpast.2
        obtain ⟨hq, ⟨hp, hcut, hnext⟩ | ⟨hp, hnext⟩⟩ :=
          h.advance_newline hx hsees (spacedOut xs) piece
        · rw [hp, hcut] at hpieces'
          rw [hp] at hpast' ⊢
          rw [hq]
          exact List.rel_append h.finish (ih.1 _ _ _ hnext hpieces' hpast')
        · rw [hp] at hpieces' hpast' ⊢
          rw [hq]
          exact ih.2 _ _ _ _ hnext hpieces' hpast'
      · obtain ⟨hp, hq, hnext⟩ := h.advance hx (xs.map Prod.fst) (spacedOut xs)
        rw [hp, hq]
        exact ih.2 _ _ _ _ hnext (htail hpieces) hpast.2

/-- **Comments are white space to the splitting of a body**: with white space in their place the
same statements stand on the same lines, squeezed white space aside, if comments stand apart in
every piece of the body, and no comment hides how the next line starts where that decides. -/
theorem split_spacedOut {body : List Char} {line : Nat}
    (hapart : ∀ piece ∈ pieces body line, CommentsApart piece)
    (hpast : (Pending.empty line).LooksPast (classify .code body)) :
    List.Forall₂ SameButSpace (split body line)
      (split (spacedOut (classify .code body)) line) := by
  have hstart : (Pending.empty line).Alongside (Pending.empty line) [] (classify .code body) :=
    ⟨rfl, rfl, rfl, .blank nofun ⟨.code, body, rfl, rfl⟩ rfl rfl⟩
  have hclass : classify .code (spacedOut (classify .code body)) =
      (classify .code body).map spacedChar := classify_spacedOut .code body
  rw [split, split, splitFrom_eq_splitIn, splitFrom_eq_splitIn, hclass]
  exact (forall₂_splitIn _).1 _ _ _ hstart hapart hpast

/-- Comments behind code, on a line of their own, behind an import and in front of a line that goes
on. -/
theorem split_spacedOut_notes :
    List.Forall₂ SameButSpace
      (split "int a = 1 /* one */\n/* two */\nimport /* three */ x;\nb = a // four\n  + 2;".toList
        1)
      (split "int a = 1          \n         \nimport             x;\nb = a        \n  + 2;".toList
        1) := by
  have hspaced : spacedOut (classify .code
      "int a = 1 /* one */\n/* two */\nimport /* three */ x;\nb = a // four\n  + 2;".toList) =
      "int a = 1          \n         \nimport             x;\nb = a        \n  + 2;".toList := by
    decide +kernel
  rw [← hspaced]
  exact split_spacedOut (by decide +kernel) (by decide +kernel)

/-- A comment hides that the next line is a statement of its own. -/
example : ¬ (Pending.empty 1).LooksPast
    (classify .code "int a = 1\n/* note */ int b = 2".toList) := by
  decide +kernel

end Fragment

end SnippetRunner
