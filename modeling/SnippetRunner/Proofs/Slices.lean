import Mathlib.Data.List.TakeWhile
import SnippetRunner.Proofs.Classes

/-!
# Reading a part of a text

The lexer looks behind a token only to see where it ends, and the end of the text ends it as well.
So a step that takes some characters off a text takes them off every text that ends sooner behind
them (`token_of_isPrefix`, `blank_of_isPrefix`), and pieces that are cut off a text are cut off what
they spell (`Cuts.of_isPrefix`).

What makes this work for names and numbers is that they are runs (`IsRun`): more text makes a run
longer or leaves it as it is, and a run is all of itself.
-/

namespace SnippetRunner

open Text

namespace Lexer

/-! ## Runs -/

/-- What a function takes off the front of a text as far as it can. -/
structure IsRun (run : List Char → List Char) : Prop where
  isPrefix (cs : List Char) : run cs <+: cs
  mono {cs ds : List Char} : cs <+: ds → run cs <+: run ds
  idem (cs : List Char) : run (run cs) = run cs

variable {u V Y : List Char}

/-- A run that does not reach behind some characters is the same with less behind them. -/
theorem IsRun.append_eq {run : List Char → List Char} (hrun : IsRun run) (hV : V <+: Y)
    (h : (run (u ++ Y)).length ≤ u.length) : run (u ++ V) = run (u ++ Y) := by
  have hle : run (u ++ V) <+: run (u ++ Y) := hrun.mono ((List.prefix_append_right_inj u).2 hV)
  refine hle.eq_of_length_le ?_
  have hinside : run (u ++ Y) <+: u :=
    List.prefix_of_prefix_length_le (hrun.isPrefix _) (List.prefix_append u Y) h
  have hge : run (run (u ++ Y)) <+: run (u ++ V) :=
    hrun.mono (hinside.trans (List.prefix_append u V))
  rw [hrun.idem] at hge
  exact hge.length_le

theorem isRun_takeWhile (p : Char → Bool) : IsRun fun cs => cs.takeWhile p where
  isPrefix _ := List.takeWhile_prefix p
  mono := by
    rintro cs ds ⟨more, rfl⟩
    induction cs with
    | nil => exact List.nil_prefix
    | cons c cs ih =>
      rw [List.cons_append, List.takeWhile_cons, List.takeWhile_cons]
      split
      · exact (List.prefix_cons_inj c).2 ih
      · exact List.nil_prefix
  idem _ := List.takeWhile_idem

theorem isRun_digitRun (isDigit : Char → Bool) : IsRun (digitRun isDigit) := isRun_takeWhile _

theorem fractionRun_point {d : Char} (hd : d.isDigit = true) (rest : List Char) :
    fractionRun ('.' :: d :: rest) = '.' :: digitRun Char.isDigit (d :: rest) := if_pos hd

theorem exists_of_fractionRun_ne_nil {cs : List Char} (h : fractionRun cs ≠ []) :
    ∃ d rest, d.isDigit = true ∧ cs = '.' :: d :: rest := by
  unfold fractionRun at h
  split at h
  · next d rest =>
    split at h
    · next hd => exact ⟨d, rest, hd, rfl⟩
    · exact absurd rfl h
  · exact absurd rfl h

theorem isRun_fractionRun : IsRun fractionRun where
  isPrefix := fractionRun_isPrefix
  mono := by
    rintro cs ds ⟨more, rfl⟩
    by_cases hnil : fractionRun cs = []
    · rw [hnil]
      exact List.nil_prefix
    · obtain ⟨d, rest, hd, rfl⟩ := exists_of_fractionRun_ne_nil hnil
      rw [List.cons_append, List.cons_append, fractionRun_point hd, fractionRun_point hd]
      exact (List.prefix_cons_inj '.').2
        ((isRun_digitRun Char.isDigit).mono (List.prefix_append (d :: rest) more))
  idem cs := by
    by_cases hnil : fractionRun cs = []
    · rw [hnil]
      rfl
    · obtain ⟨d, rest, hd, rfl⟩ := exists_of_fractionRun_ne_nil hnil
      have hidem := (isRun_digitRun Char.isDigit).idem (d :: rest)
      rw [digitRun_cons hd] at hidem
      rw [fractionRun_point hd, digitRun_cons hd, fractionRun_point hd, hidem]

/-- Whether a text starts like an exponent: a letter, at most one sign, and a digit. -/
def IsExponent (e : Char) (signs : List Char) (d : Char) : Prop :=
  (e = 'e' ∨ e = 'E') ∧ signs.length ≤ 1 ∧ (∀ c ∈ signs, c = '+' ∨ c = '-') ∧ d.isDigit = true

theorem exponentRun_append_cons {e d : Char} {signs : List Char} (h : IsExponent e signs d)
    (rest : List Char) :
    exponentRun (e :: (signs ++ d :: rest)) =
      e :: (signs ++ digitRun Char.isDigit (d :: rest)) := by
  obtain ⟨he, hlength, hsigns, hd⟩ := h
  have hne : ¬(d = '+' ∨ d = '-') := by
    rintro (rfl | rfl) <;> exact absurd hd (by decide)
  have hrun : signRun (signs ++ d :: rest) = signs := by
    rw [signRun, List.takeWhile_append_of_pos (by simpa using hsigns), List.takeWhile_cons_of_neg
      (by simpa using hne), List.append_nil]
  rw [exponentRun_cons, hrun, List.drop_left, if_pos ⟨he, hlength, by simpa using hd⟩,
    List.cons_append]

theorem exists_of_exponentRun_ne_nil {cs : List Char} (h : exponentRun cs ≠ []) :
    ∃ e signs d rest, IsExponent e signs d ∧ cs = e :: (signs ++ d :: rest) := by
  cases cs with
  | nil => exact absurd rfl h
  | cons e cs =>
    rw [exponentRun_cons] at h
    split at h
    · next hexponent =>
      obtain ⟨he, hlength, hdigit⟩ := hexponent
      cases hdrop : cs.drop (signRun cs).length with
      | nil => simp [hdrop] at hdigit
      | cons d rest =>
        have hsigns : ∀ c ∈ signRun cs, c = '+' ∨ c = '-' := by
          intro c hc
          simpa using List.mem_takeWhile_imp hc
        have hsplit : signRun cs ++ d :: rest = cs := by
          rw [← hdrop]
          conv_rhs => rw [← List.take_append_drop (signRun cs).length cs]
          rw [take_length_of_isPrefix (show signRun cs <+: cs from List.takeWhile_prefix _)]
        exact ⟨e, signRun cs, d, rest, ⟨he, hlength, hsigns, by simpa [hdrop] using hdigit⟩,
          by rw [hsplit]⟩
    · exact absurd rfl h

theorem isRun_exponentRun : IsRun exponentRun where
  isPrefix := exponentRun_isPrefix
  mono := by
    rintro cs ds ⟨more, rfl⟩
    by_cases hnil : exponentRun cs = []
    · rw [hnil]
      exact List.nil_prefix
    · obtain ⟨e, signs, d, rest, h, rfl⟩ := exists_of_exponentRun_ne_nil hnil
      have hsplit : e :: (signs ++ d :: rest) ++ more = e :: (signs ++ d :: (rest ++ more)) := by
        simp
      rw [hsplit, exponentRun_append_cons h, exponentRun_append_cons h]
      refine (List.prefix_cons_inj e).2 ((List.prefix_append_right_inj signs).2 ?_)
      exact (isRun_digitRun Char.isDigit).mono (List.prefix_append (d :: rest) more)
  idem cs := by
    by_cases hnil : exponentRun cs = []
    · rw [hnil]
      rfl
    · obtain ⟨e, signs, d, rest, h, rfl⟩ := exists_of_exponentRun_ne_nil hnil
      have hidem := (isRun_digitRun Char.isDigit).idem (d :: rest)
      rw [digitRun_cons h.2.2.2] at hidem
      rw [exponentRun_append_cons h, digitRun_cons h.2.2.2, exponentRun_append_cons h, hidem]

/-! ## Numbers and signs -/

/-- A character that is still there with less text was there before. -/
theorem head?_of_isPrefix {d : Char} (hV : V <+: Y) (h : V.head? = some d) : Y.head? = some d := by
  obtain ⟨more, rfl⟩ := hV
  obtain ⟨V, rfl⟩ := List.head?_eq_some_iff.1 h
  rfl

theorem hasSuffix_of_isPrefix {letters : List Char} (hV : V <+: Y)
    (h : hasSuffix letters V = true) : hasSuffix letters Y = true := by
  rw [hasSuffix, Option.any_eq_true] at h ⊢
  obtain ⟨d, hd, hletter⟩ := h
  exact ⟨d, head?_of_isPrefix hV hd, hletter⟩

/-- A suffix behind some characters is seen from those among which it is counted. -/
theorem hasSuffix_drop_eq {letters : List Char} (hV : V <+: Y) {k : Nat} (hk : k ≤ u.length)
    (h : hasSuffix letters ((u ++ Y).drop k) = true → k < u.length) :
    hasSuffix letters ((u ++ V).drop k) = hasSuffix letters ((u ++ Y).drop k) := by
  rw [List.drop_append_of_le_length hk, List.drop_append_of_le_length hk] at *
  cases hdrop : u.drop k with
  | cons c u => rfl
  | nil =>
    rw [hdrop, List.nil_append] at h
    have hnone : hasSuffix letters Y = false := by
      rw [Bool.eq_false_iff]
      exact fun hsuffix => absurd (List.drop_eq_nil_iff.1 hdrop) (Nat.not_le.2 (h hsuffix))
    refine (Bool.eq_false_iff.2 fun hsuffix => ?_).trans hnone.symm
    exact absurd (hasSuffix_of_isPrefix hV hsuffix) (Bool.eq_false_iff.1 hnone)

theorem hexBody_of_isPrefix {t : Token} {n : Nat} (hV : V <+: Y) (hn : n ≤ u.length)
    (h : hexBody (u ++ Y) = .ok (t, n)) : hexBody (u ++ V) = .ok (t, n) := by
  have hle : (digitRun isHexDigit (u ++ Y)).length +
      (if hasSuffix ['l', 'L'] ((u ++ Y).drop (digitRun isHexDigit (u ++ Y)).length) then 1
        else 0) ≤ u.length := by
    unfold hexBody at h
    dsimp only at h
    split at h
    · simp at h
    · split at h
      · next hlong =>
        obtain ⟨-, rfl⟩ := Prod.mk.inj (Except.ok.inj h)
        rwa [if_pos hlong]
      · split at h
        · simp at h
        · next hlong _ =>
          obtain ⟨-, rfl⟩ := Prod.mk.inj (Except.ok.inj h)
          rw [if_neg hlong]
          exact hn
  have hrun := (isRun_digitRun isHexDigit).append_eq (u := u) hV (by omega)
  have hlong : hasSuffix ['l', 'L'] ((u ++ V).drop (digitRun isHexDigit (u ++ Y)).length) =
      hasSuffix ['l', 'L'] ((u ++ Y).drop (digitRun isHexDigit (u ++ Y)).length) := by
    refine hasSuffix_drop_eq hV (by omega) fun hsuffix => ?_
    rw [if_pos hsuffix] at hle
    omega
  unfold hexBody at h ⊢
  dsimp only at h ⊢
  rw [hrun, hlong]
  exact h

/-- A run that lies behind some characters of `u`, and in `u`. -/
theorem IsRun.append_drop_eq {run : List Char → List Char} (h : IsRun run) (hV : V <+: Y) {k : Nat}
    (hk : k + (run ((u ++ Y).drop k)).length ≤ u.length) :
    run ((u ++ V).drop k) = run ((u ++ Y).drop k) := by
  have hdrop (Z : List Char) : (u ++ Z).drop k = u.drop k ++ Z :=
    List.drop_append_of_le_length (by omega)
  rw [hdrop, hdrop] at *
  refine h.append_eq hV ?_
  rw [List.length_drop]
  omega

theorem number_of_isPrefix {first : Char} {t : Token} {n : Nat} (hV : V <+: Y) (hn : n ≤ u.length)
    (h : number first (u ++ Y) = .ok (t, n)) : number first (u ++ V) = .ok (t, n) := by
  unfold number at h ⊢
  by_cases hhex : first = '0' ∧ hasSuffix ['x', 'X'] (u ++ Y) = true
  · rw [if_pos hhex] at h
    split at h
    · next token m hread =>
      obtain ⟨rfl, rfl⟩ := Prod.mk.inj (Except.ok.inj h)
      obtain ⟨c, u, rfl⟩ := List.exists_cons_of_length_pos (by omega : 0 < u.length)
      rw [List.length_cons] at hn
      have hbody : hexBody (u ++ V) = .ok (token, m) := hexBody_of_isPrefix hV (by omega) hread
      rw [if_pos ⟨hhex.1, hhex.2⟩, List.cons_append, List.drop_one, List.tail_cons, hbody]
    · simp at h
  have hhex' : ¬(first = '0' ∧ hasSuffix ['x', 'X'] (u ++ V) = true) := fun hx =>
    hhex ⟨hx.1, hasSuffix_of_isPrefix ((List.prefix_append_right_inj u).2 hV) hx.2⟩
  rw [if_neg hhex] at h
  rw [if_neg hhex']
  let whole := digitRun Char.isDigit (u ++ Y)
  let fraction := fractionRun ((u ++ Y).drop whole.length)
  let exponent := exponentRun ((u ++ Y).drop (whole.length + fraction.length))
  let body := whole.length + fraction.length + exponent.length
  have hle : body + (if hasSuffix ['f', 'F', 'd', 'D'] ((u ++ Y).drop body) ||
      hasSuffix ['l', 'L'] ((u ++ Y).drop body) then 1 else 0) ≤ u.length := by
    dsimp only at h
    split at h
    · obtain ⟨-, rfl⟩ := Prod.mk.inj (Except.ok.inj h)
      exact hn
    · split at h
      · simp at h
      · obtain ⟨-, rfl⟩ := Prod.mk.inj (Except.ok.inj h)
        exact hn
  have hlength : whole.length + fraction.length + exponent.length ≤ u.length :=
    Nat.le_trans (Nat.le_add_right _ _) hle
  -- the runs of digits end in front of the suffix, and it is one of the characters
  have hwhole : digitRun Char.isDigit (u ++ V) = whole :=
    (isRun_digitRun Char.isDigit).append_eq hV (show whole.length ≤ u.length by omega)
  have hfraction : fractionRun ((u ++ V).drop whole.length) = fraction :=
    isRun_fractionRun.append_drop_eq hV (show whole.length + fraction.length ≤ u.length by omega)
  have hexponent : exponentRun ((u ++ V).drop (whole.length + fraction.length)) = exponent :=
    isRun_exponentRun.append_drop_eq hV hlength
  have hfloating : hasSuffix ['f', 'F', 'd', 'D'] ((u ++ V).drop body) =
      hasSuffix ['f', 'F', 'd', 'D'] ((u ++ Y).drop body) := by
    refine hasSuffix_drop_eq hV hlength fun hsuffix => ?_
    rw [hsuffix, Bool.true_or, if_pos rfl] at hle
    exact hle
  have hlong : hasSuffix ['l', 'L'] ((u ++ V).drop body) =
      hasSuffix ['l', 'L'] ((u ++ Y).drop body) := by
    refine hasSuffix_drop_eq hV hlength fun hsuffix => ?_
    rw [hsuffix, Bool.or_true, if_pos rfl] at hle
    exact hle
  simp only [hwhole, hfraction, hexponent]
  rw [hfloating, hlong]
  exact h

theorem read?_of_isPrefix {c : Char} {s : Sign} (hV : V <+: Y) (hs : s.text.length ≤ u.length + 1)
    (h : Sign.read? (c :: (u ++ Y)) = some s) : Sign.read? (c :: (u ++ V)) = some s := by
  have hcut : c :: (u ++ V) <+: c :: (u ++ Y) :=
    (List.prefix_cons_inj c).2 ((List.prefix_append_right_inj u).2 hV)
  obtain ⟨hlead, front, back, hall, hfront⟩ := List.find?_eq_some_iff_append.1 h
  refine List.find?_eq_some_iff_append.2 ⟨?_, front, back, hall, fun s' hs' => ?_⟩
  · rw [List.isPrefixOf_iff_prefix] at hlead ⊢
    have hinside : s.text.toList <+: c :: u := by
      refine List.prefix_of_prefix_length_le hlead (List.prefix_append (c :: u) Y) ?_
      rwa [String.length_toList]
    exact hinside.trans (List.prefix_append (c :: u) V)
  · have hno := hfront s' hs'
    rw [Bool.not_eq_true', Bool.eq_false_iff, ne_eq, List.isPrefixOf_iff_prefix] at hno ⊢
    exact fun hlead' => hno (hlead'.trans hcut)

/-! ## One step -/

/-- **A token is taken again from a text that ends sooner behind it.** -/
theorem token_of_isPrefix {c : Char} {t : Token} (hV : V <+: Y)
    (h : step c (u ++ Y) = .token t u.length) : step c (u ++ V) = .token t u.length := by
  have hhead {d : Char} : (u ++ V).head? = some d → (u ++ Y).head? = some d :=
    head?_of_isPrefix ((List.prefix_append_right_inj u).2 hV)
  unfold step at h ⊢
  by_cases hspace : isSpace c = true
  · simp [hspace] at h
  rw [if_neg hspace] at h ⊢
  by_cases hline : c = '/' ∧ (u ++ Y).head? = some '/'
  · simp [hline] at h
  rw [if_neg hline] at h
  rw [if_neg fun hslash => hline ⟨hslash.1, hhead hslash.2⟩]
  by_cases hopen : c = '/' ∧ (u ++ Y).head? = some '*'
  · rw [if_pos hopen] at h
    split at h <;> simp at h
  rw [if_neg hopen] at h
  rw [if_neg fun hstar => hopen ⟨hstar.1, hhead hstar.2⟩]
  by_cases hquote : c = '"'
  · rw [if_pos hquote, Step.ofReading_eq_token] at h ⊢
    exact quoted_append h (head?_of_isPrefix hV)
  rw [if_neg hquote] at h ⊢
  by_cases hmark : c = '\''
  · rw [if_pos hmark, Step.ofReading_eq_token] at h ⊢
    exact charBody_append h (Nat.le_refl _) V
  rw [if_neg hmark] at h ⊢
  by_cases hdigit : c.isDigit = true
  · rw [if_pos hdigit, Step.ofReading_eq_token] at h ⊢
    exact number_of_isPrefix hV (Nat.le_refl _) h
  rw [if_neg hdigit] at h ⊢
  by_cases hstart : isIdentStart c = true
  · rw [if_pos hstart] at h ⊢
    have hlength : ((u ++ Y).takeWhile isIdentPart).length = u.length := (Step.token.inj h).2
    have hrun : (u ++ V).takeWhile isIdentPart = (u ++ Y).takeWhile isIdentPart :=
      (isRun_takeWhile isIdentPart).append_eq hV (Nat.le_of_eq hlength)
    rw [word, hrun]
    exact h
  rw [if_neg hstart] at h ⊢
  split at h
  · next s hread =>
    obtain ⟨rfl, hlength⟩ := Step.token.inj h
    rw [read?_of_isPrefix hV (by omega) hread]
    exact congrArg _ hlength
  · simp at h

/-- What has no meaning has none in a text that ends sooner behind it. -/
theorem blank_of_isPrefix {c : Char} (hV : V <+: Y) (h : step c (u ++ Y) = .blank u.length) :
    step c (u ++ V) = .blank u.length := by
  obtain ⟨hspace, rfl⟩ | ⟨rfl, y, hy, rfl | ⟨rfl, rfl⟩⟩ | ⟨rfl, w, rfl, hcount⟩ := blank_of_step h
  · simp [step, hspace]
  · exact step_lineComment_append hy V
  · obtain rfl := List.prefix_nil.1 hV
    exact h
  · have hcount' : commentLength? (w ++ V) = some w.length :=
      commentLength?_append_iff.2 (commentLength?_append_iff.1 hcount)
    exact step_blockComment hcount'

/-- **Pieces that are cut off a text are cut off one that ends sooner behind them.** -/
theorem Cuts.of_isPrefix {cs rest : List Char} {ps : List Piece} (h : Cuts cs ps rest)
    (hV : V <+: rest) : Cuts (Lexer.spell ps ++ V) ps V := by
  have hbehind {cs rest : List Char} {ps : List Piece} (h : Cuts cs ps rest) (hV : V <+: rest) :
      Lexer.spell ps ++ V <+: cs := by
    rw [h.spell]
    exact (List.prefix_append_right_inj _).2 hV
  induction h with
  | nil => exact .nil V
  | blank hstep hcuts ih =>
    exact .cons_blank (blank_of_isPrefix (hbehind hcuts hV) hstep) (ih hV)
  | token hstep hcuts ih =>
    exact .cons_token (token_of_isPrefix (hbehind hcuts hV) hstep) (ih hV)

end Lexer

end SnippetRunner
