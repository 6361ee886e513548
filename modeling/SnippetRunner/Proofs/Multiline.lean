import SnippetRunner.Proofs.Layout
import SnippetRunner.Proofs.Lookahead

/-!
# Comments and text blocks laid out anew

A block comment and a text block are what the lexer takes as one over several lines. Laying out
the lines changes white space inside them, and where they end stays the same.

* A block comment is laid out as one (`commentLength?_layOut`).
* A text block is laid out as one, perhaps of another payload (`quoted_layOut`).
* Every other token stands on one line (`block_of_step`).
-/

namespace SnippetRunner

open Text Lexer Margin

variable {indent : List Char} {m : Margin}

/-! ## What is written of a part of a text -/

/-- What is written when white space is read, is white space, and so is what is held then. -/
theorem isBlank_step {c : Char} (indent : List Char) (hc : isSpace c = true)
    (hm : isBlank m.held = true) :
    isBlank (m.step indent c).1 = true ∧ isBlank (m.step indent c).2.held = true := by
  have hreturn : isBlank ['\r'] = true := rfl
  have hsingle : isBlank [c] = true := by simp [isBlank, hc]
  unfold Margin.step
  split
  · exact ⟨rfl, rfl⟩
  split
  · exact ⟨rfl, by rw [isBlank_append, hm, hsingle]; rfl⟩
  split
  · exact ⟨hm, hreturn⟩
  · exact ⟨by rw [isBlank_append, hm, hsingle]; rfl, rfl⟩

theorem isBlank_lead (hindent : isBlank indent = true) (hm : isBlank m.held = true) :
    isBlank (m.lead indent) = true := by
  unfold lead
  split
  · rw [isBlank_append, hindent, hm]
    rfl
  · exact hm

/-- What is written inside a line starts as the text does, or with white space. -/
theorem exists_cons_of_layOut {d : Char} {w out : List Char}
    (h : layOut indent inLine (d :: w) = (out, inLine)) :
    ∃ e out', out = e :: out' ∧ (e = d ∨ isSpace e = true) := by
  by_cases hbreak : d = '\n'
  · subst hbreak
    rw [layOut_cons, step_newline] at h
    exact ⟨'\n', _, (Prod.mk.inj h).1.symm, .inl rfl⟩
  by_cases hreturn : d = '\r'
  · subst hreturn
    rw [layOut_cons, inLine, step_return] at h
    -- the carriage return is held, and written unless a line feed follows
    cases w with
    | nil => exact absurd (Prod.mk.inj h).2 (by simp [layOut])
    | cons e w =>
      rw [layOut_cons] at h
      by_cases he : e = '\n'
      · subst he
        exact ⟨'\n', _, (Prod.mk.inj h).1.symm, .inr rfl⟩
      by_cases he' : e = '\r'
      · subst he'
        exact ⟨'\r', _, (Prod.mk.inj h).1.symm, .inl rfl⟩
      · rw [step_of_not_blank he he'] at h
        exact ⟨'\r', _, (Prod.mk.inj h).1.symm, .inl rfl⟩
  · rw [layOut_cons, inLine, step_of_not_blank hbreak hreturn] at h
    exact ⟨d, _, (Prod.mk.inj h).1.symm, .inl rfl⟩

/-- Text without white space is written as it is. -/
theorem layOut_of_spaceless {w : List Char} (hw : w.all (fun c => !isSpace c) = true) :
    layOut indent inLine w = (w, inLine) := by
  induction w with
  | nil => rfl
  | cons c w ih =>
    simp only [List.all_cons, Bool.and_eq_true, Bool.not_eq_true'] at hw
    rw [layOut_cons, step_of_not_isSpace hw.1, ih hw.2]
    rfl

theorem layOut_cons_of_spaceless {c : Char} {w : List Char} (hc : isSpace c = false)
    (hw : w.all (fun c => !isSpace c) = true) (T : List Char) :
    layOut indent m (c :: (w ++ T)) =
      (m.lead indent ++ c :: (w ++ (layOut indent inLine T).1), (layOut indent inLine T).2) := by
  rw [layOut_cons, step_of_not_isSpace hc, layOut_append, layOut_of_spaceless hw]
  simp

/-! ## Block comments -/

/-- What is no star belongs to the comment. -/
theorem commentLength?_append_of_isBlank {s : List Char} (hs : isBlank s = true) (Y : List Char) :
    commentLength? (s ++ Y) = (commentLength? Y).map (· + s.length) := by
  induction s with
  | nil => simp
  | cons c s ih =>
    simp only [isBlank, List.all_cons, Bool.and_eq_true] at hs
    have hne : c ≠ '*' := by
      rintro rfl
      exact absurd hs.1 (by decide)
    rw [List.cons_append, commentLength?, if_neg (fun h => hne h.1), ih hs.2, Option.map_map]
    rfl

theorem pos_of_commentLength? {w : List Char} {n : Nat} (h : commentLength? w = some n) :
    0 < n := by
  cases w with
  | nil => simp [commentLength?] at h
  | cons c w =>
    rw [commentLength?] at h
    split at h
    · obtain rfl := Option.some.inj h
      exact Nat.two_pos
    · obtain ⟨k, -, rfl⟩ := Option.map_eq_some_iff.1 h
      exact Nat.succ_pos k

/-- The rest of a comment is the one delimiter, or a character and the rest of a comment. -/
theorem commentLength?_cons {c : Char} {w Y : List Char}
    (h : commentLength? (c :: w ++ Y) = some (c :: w).length) :
    (c = '*' ∧ w = ['/']) ∨
      (¬(c = '*' ∧ (w ++ Y).head? = some '/') ∧ commentLength? (w ++ Y) = some w.length) := by
  rw [List.cons_append, commentLength?] at h
  split at h
  · next hend =>
    obtain ⟨rfl, hslash⟩ := hend
    obtain ⟨d, rfl⟩ : ∃ d, w = [d] := List.length_eq_one_iff.1 (by simpa using h.symm)
    obtain rfl : d = '/' := by simpa using hslash
    exact .inl ⟨rfl, rfl⟩
  · next hend =>
    obtain ⟨n, hn, hlen⟩ := Option.map_eq_some_iff.1 h
    obtain rfl : n = w.length := by simpa using hlen
    exact .inr ⟨hend, hn⟩

/-- A comment is read from the characters it takes. -/
theorem commentLength?_append {w Y : List Char} (h : commentLength? (w ++ Y) = some w.length)
    (Y' : List Char) : commentLength? (w ++ Y') = some w.length := by
  induction w with
  | nil => exact absurd (pos_of_commentLength? h) (Nat.lt_irrefl 0)
  | cons c w ih =>
    obtain ⟨rfl, rfl⟩ | ⟨hend, hrest⟩ := commentLength?_cons h
    · rfl
    · cases w with
      | nil => exact absurd (pos_of_commentLength? hrest) (Nat.lt_irrefl 0)
      | cons d w =>
        have hend' : ¬(c = '*' ∧ (d :: w ++ Y').head? = some '/') := by simpa using hend
        rw [List.cons_append, commentLength?, if_neg hend', ih hrest]
        rfl

theorem getLast?_of_commentLength? {w Y : List Char}
    (h : commentLength? (w ++ Y) = some w.length) : w.getLast? = some '/' := by
  induction w with
  | nil => exact absurd (pos_of_commentLength? h) (Nat.lt_irrefl 0)
  | cons c w ih =>
    obtain ⟨rfl, rfl⟩ | ⟨-, hrest⟩ := commentLength?_cons h
    · rfl
    · rw [List.getLast?_cons, ih hrest]
      rfl

/-- **A block comment that is laid out anew ends where it did.** -/
theorem commentLength?_layOut {w Y : List Char} (hindent : isBlank indent = true)
    (hm : isBlank m.held = true) (h : commentLength? (w ++ Y) = some w.length) :
    ∃ out, layOut indent m w = (out, inLine) ∧
      ∀ Z, commentLength? (out ++ Z) = some out.length := by
  induction w generalizing m with
  | nil => exact absurd (pos_of_commentLength? h) (Nat.lt_irrefl 0)
  | cons c w ih =>
    obtain ⟨rfl, rfl⟩ | ⟨hend, hn⟩ := commentLength?_cons h
    · have hout : layOut indent m ['*', '/'] = (m.lead indent ++ ['*', '/'], inLine) :=
        layOut_cons_of_spaceless (w := ['/']) (by decide) (by decide) []
      refine ⟨m.lead indent ++ ['*', '/'], hout, fun Z => ?_⟩
      rw [List.append_assoc, commentLength?_append_of_isBlank (isBlank_lead hindent hm)]
      simp [commentLength?, Nat.add_comm]
    · cases hc : isSpace c with
      | true =>
        obtain ⟨hwritten, hheld⟩ := isBlank_step indent hc hm
        obtain ⟨out, hout, hlength⟩ := ih hheld hn
        refine ⟨(m.step indent c).1 ++ out, by rw [layOut_cons, hout], fun Z => ?_⟩
        rw [List.append_assoc, commentLength?_append_of_isBlank hwritten, hlength]
        simp [Nat.add_comm]
      | false =>
        obtain ⟨out, hout, hlength⟩ := ih (m := inLine) rfl hn
        refine ⟨m.lead indent ++ c :: out, ?_, fun Z => ?_⟩
        · rw [layOut_cons, step_of_not_isSpace hc, hout]
          simp
        -- a star that ends no comment is followed by no slash in the new text either
        · have hend' : ¬(c = '*' ∧ (out ++ Z).head? = some '/') := by
            rintro ⟨rfl, hslash⟩
            cases w with
            | nil => exact absurd (pos_of_commentLength? hn) (Nat.lt_irrefl 0)
            | cons d w =>
              obtain ⟨e, out', rfl, he⟩ := exists_cons_of_layOut hout
              obtain rfl : e = '/' := by simpa using hslash
              rcases he with rfl | he
              · exact hend ⟨rfl, rfl⟩
              · exact absurd he (by decide)
          rw [List.append_assoc, commentLength?_append_of_isBlank (isBlank_lead hindent hm),
            List.cons_append, commentLength?, if_neg hend', hlength]
          simp
          omega

/-! ## Text blocks -/

section Block

variable {w Y : List Char} {t : Token} {k : Nat}

/-- White space in front belongs to the content of a block. -/
theorem blockBody_append_of_isBlank {s : List Char} (hs : isBlank s = true) (read : List Char)
    (k : Nat) (Y : List Char) :
    blockBody read k (s ++ Y) = blockBody (s.reverse ++ read) (k + s.length) Y := by
  induction s generalizing read k with
  | nil => rfl
  | cons c s ih =>
    simp only [isBlank, List.all_cons, Bool.and_eq_true] at hs
    have hquote : c ≠ '"' := by
      rintro rfl
      exact absurd hs.1 (by decide)
    have hslash : c ≠ '\\' := by
      rintro rfl
      exact absurd hs.1 (by decide)
    rw [List.cons_append, blockBody, if_neg (fun h => hquote h.1), if_neg hslash, ih hs.2]
    simp only [List.reverse_cons, List.append_assoc, List.singleton_append, List.length_cons,
      Nat.add_assoc, Nat.add_comm 1]

/-- Behind the backslash and its letter an escape has only that letter and hexadecimal digits. -/
theorem mem_unicodeEscape {value : Char} (h : unicodeEscape (w ++ Y) = .ok (value, w.length)) :
    ∀ c ∈ w, c = 'u' ∨ isHexDigit c = true := by
  unfold unicodeEscape at h
  dsimp only at h
  generalize hmarks : (w ++ Y).takeWhile (· = 'u') = marks at h
  generalize hdigits : ((w ++ Y).drop marks.length).take 4 = digits at h
  split at h
  · simp at h
  · next hfour =>
    have hlen : marks.length + 4 = w.length := by
      split at h
      · exact congrArg Prod.snd (Except.ok.inj h)
      · simp at h
    have hle : digits.length ≤ 4 := by
      rw [← hdigits]
      exact List.length_take_le _ _
    have hall : digits.takeWhile isHexDigit = digits :=
      (List.takeWhile_prefix isHexDigit).eq_of_length_le (by omega)
    have hlead : (w ++ Y).take marks.length = marks := by
      rw [← hmarks]
      exact (List.prefix_iff_eq_take.1 (List.takeWhile_prefix _)).symm
    have hsplit : w = marks ++ digits := by
      rw [← hlead, ← hdigits, ← List.take_add, hlen, List.take_left]
    have hus := List.all_takeWhile (p := (· = 'u')) (l := w ++ Y)
    have hhex := List.all_takeWhile (p := isHexDigit) (l := digits)
    rw [hmarks, List.all_eq_true] at hus
    rw [hall, List.all_eq_true] at hhex
    intro c hc
    rw [hsplit, List.mem_append] at hc
    exact hc.imp (fun hc => by simpa using hus c hc) (hhex c)

/-- An escape is one character that is no white space, and hexadecimal digits behind it. -/
theorem exists_of_escape {value : Char} (h : escape (w ++ Y) = .ok (value, w.length)) :
    ∃ c e, w = c :: e ∧ isSpace c = false ∧ ∀ d ∈ e, d = 'u' ∨ isHexDigit d = true := by
  cases w with
  | nil => exact absurd (pos_of_escape h) (Nat.lt_irrefl 0)
  | cons c w =>
    refine ⟨c, w, rfl, ?_⟩
    by_cases hc : c = 'u'
    · subst hc
      rw [List.cons_append, escape_cons_u] at h
      cases hread : unicodeEscape (w ++ Y) with
      | error e => simp [hread] at h
      | ok r =>
        obtain ⟨value', n⟩ := r
        rw [hread] at h
        obtain ⟨rfl, hn⟩ := Prod.mk.inj (Except.ok.inj h)
        obtain rfl : n = w.length := by simpa using hn
        exact ⟨by decide, mem_unicodeEscape hread⟩
    · rw [List.cons_append] at h
      unfold escape at h
      split at h
      · next heq => simp at heq
      · next heq => exact absurd (List.cons.inj heq).1 hc
      · next d _ _ heq =>
        obtain ⟨rfl, -⟩ := List.cons.inj heq
        split at h
        · next hsimple =>
          obtain rfl : w = [] := by simpa using (Prod.mk.inj (Except.ok.inj h)).2.symm
          refine ⟨?_, by simp⟩
          by_contra hspace
          have hspace' : isSpace c = true := by simpa using hspace
          have hnone := of_isSpace (p := fun c => (simpleEscape? c).isNone) (by decide) hspace'
          rw [hsimple] at hnone
          exact absurd hnone Bool.false_ne_true
        · simp at h

/-- An escape has no white space. -/
theorem spaceless_of_escape {value : Char} (h : escape (w ++ Y) = .ok (value, w.length)) :
    w.all (fun c => !isSpace c) = true := by
  obtain ⟨c, e, rfl, hc, he⟩ := exists_of_escape h
  rw [List.all_cons, hc, Bool.not_false, Bool.true_and, List.all_eq_true]
  intro d hd
  rcases he d hd with rfl | hhex
  · rfl
  · by_contra hspace
    have hnone := isHexDigit_of_endsToken (c := d) (endsToken_of_isSpace (by simpa using hspace))
    rw [hhex] at hnone
    exact absurd hnone.symm Bool.false_ne_true

/-- The two characters that would close a block are not there in the new text either. -/
theorem take_two_ne_of_layOut {out Z : List Char} (h : layOut indent inLine w = (out, inLine))
    (hw : 2 ≤ w.length) (hquotes : w.take 2 ≠ ['"', '"']) : (out ++ Z).take 2 ≠ ['"', '"'] := by
  obtain ⟨d, e, w, rfl⟩ : ∃ d e w', w = d :: e :: w' := by
    match w, hw with
    | d :: e :: w, _ => exact ⟨d, e, w, rfl⟩
  intro hnew
  by_cases hd : d = '"'
  · subst hd
    rw [layOut_cons, step_of_not_isSpace (by decide)] at h
    obtain ⟨hout, hstop⟩ := Prod.mk.inj h
    have hrest : layOut indent inLine (e :: w) = ((layOut indent inLine (e :: w)).1, inLine) :=
      Prod.ext rfl hstop
    obtain ⟨f, out', hrest, hf⟩ := exists_cons_of_layOut hrest
    rw [← hout, hrest] at hnew
    obtain rfl : f = '"' := by simpa [lead, inLine] using hnew
    rcases hf with rfl | hf
    · exact hquotes rfl
    · exact absurd hf (by decide)
  · obtain ⟨f, out', rfl, hf⟩ := exists_cons_of_layOut h
    obtain ⟨rfl, -⟩ : f = '"' ∧ _ := by simpa using hnew
    rcases hf with rfl | hf
    · exact hd rfl
    · exact absurd hf (by decide)

/-- Whether a text is the end of a text block with its delimiter: whatever was read before and
whatever follows, the block ends behind it, with the same payload. -/
def EndsBlock (out : List Char) : Prop :=
  ∀ read k, ∃ t, ∀ Z, blockBody read k (out ++ Z) = .ok (t, k + out.length)

theorem endsBlock_blockMark : EndsBlock blockMark := by
  refine fun read k => ⟨.string (String.ofList (stripIndentation read.reverse)), fun Z => ?_⟩
  rw [blockMark, List.cons_append, blockBody, if_pos ⟨rfl, rfl⟩]
  rfl

theorem EndsBlock.append_of_isBlank {s out : List Char} (h : EndsBlock out)
    (hs : isBlank s = true) : EndsBlock (s ++ out) := by
  intro read k
  obtain ⟨t, ht⟩ := h (s.reverse ++ read) (k + s.length)
  refine ⟨t, fun Z => ?_⟩
  rw [List.append_assoc, blockBody_append_of_isBlank hs, ht, List.length_append, Nat.add_assoc]

theorem EndsBlock.escape {e out : List Char} {value : Char} (h : EndsBlock out)
    (hescape : Lexer.escape (e ++ Y) = .ok (value, e.length)) : EndsBlock ('\\' :: (e ++ out)) := by
  intro read k
  obtain ⟨t, ht⟩ := h (value :: read) (k + 1 + e.length)
  refine ⟨t, fun Z => ?_⟩
  have hquote : ¬('\\' = '"' ∧ (e ++ out ++ Z).take 2 = ['"', '"']) := fun hquote =>
    absurd hquote.1 (by decide)
  rw [List.cons_append, blockBody, if_neg hquote, if_pos rfl, List.append_assoc,
    escape_append hescape (Nat.le_refl _) (out ++ Z)]
  dsimp only
  rw [List.drop_left, ht]
  simp only [List.length_append, List.length_cons]
  congr 2
  omega

theorem EndsBlock.cons {c : Char} {out : List Char} (h : EndsBlock out) (hslash : c ≠ '\\')
    (hclose : ∀ Z, ¬(c = '"' ∧ (out ++ Z).take 2 = ['"', '"'])) : EndsBlock (c :: out) := by
  intro read k
  obtain ⟨t, ht⟩ := h (c :: read) (k + 1)
  refine ⟨t, fun Z => ?_⟩
  rw [List.cons_append, blockBody, if_neg (hclose Z), if_neg hslash, ht, List.length_cons]
  congr 2
  omega

/-- If what is read behind a character and `n` more ends within `w`, all these stand in `w`. -/
theorem exists_append_of_blockBody {c : Char} {n : Nat} {read cs cs' : List Char}
    (hcs : w ++ Y = c :: cs) (h : blockBody read (k + 1 + n) cs' = .ok (t, k + w.length)) :
    ∃ e v, w = c :: (e ++ v) ∧ e.length = n ∧ cs = e ++ (v ++ Y) ∧
      k + w.length = k + 1 + n + v.length := by
  have hle := le_of_blockBody h
  obtain ⟨u, rfl, rfl⟩ :=
    exists_cons_of_lt (k := k) (n := k + w.length) hcs (by omega) (Nat.le_refl _)
  rw [List.length_cons] at hle ⊢
  refine ⟨u.take n, u.drop n, by rw [List.take_append_drop], ?_, ?_, ?_⟩
  · rw [List.length_take]
    omega
  · rw [← List.append_assoc, List.take_append_drop]
  · rw [List.length_drop]
    omega

/-- **A text block that is laid out anew ends where it did.** -/
theorem blockBody_layOut {read : List Char} (hindent : isBlank indent = true)
    (hm : isBlank m.held = true) (h : blockBody read k (w ++ Y) = .ok (t, k + w.length)) :
    ∃ out, layOut indent m w = (out, inLine) ∧ EndsBlock out := by
  have hlead := isBlank_lead hindent hm
  generalize hcs : w ++ Y = cs at h
  fun_induction blockBody read k cs generalizing w m with
  | case1 => simp at h
  | case2 read k c cs hclose =>
    obtain ⟨rfl, hquotes⟩ := hclose
    have hlen : w.length = 3 := by
      have hn := (Prod.mk.inj (Except.ok.inj h)).2
      omega
    obtain ⟨u, rfl, rfl⟩ := exists_cons_of_lt (k := 0) (n := 3) hcs (by omega) (by omega)
    have hu : u.length = 2 := by simpa using hlen
    obtain rfl : u = ['"', '"'] := by rwa [← hu, List.take_left] at hquotes
    have hout : layOut indent m blockMark = (m.lead indent ++ blockMark, inLine) :=
      layOut_cons_of_spaceless (w := ['"', '"']) (by decide) (by decide) []
    exact ⟨_, hout, endsBlock_blockMark.append_of_isBlank hlead⟩
  | case3 read k cs value n hescape hclose ih =>
    obtain ⟨e, v, rfl, rfl, rfl, hcount⟩ := exists_append_of_blockBody hcs h
    rw [List.drop_left, hcount] at h
    rw [List.drop_left] at ih
    obtain ⟨out, hout, hends⟩ := ih (m := inLine) rfl rfl rfl h
    refine ⟨m.lead indent ++ '\\' :: (e ++ out), ?_, ?_⟩
    · rw [layOut_cons_of_spaceless (by decide) (spaceless_of_escape hescape), hout]
    · exact (hends.escape hescape).append_of_isBlank hlead
  | case4 => simp at h
  | case5 read k c cs hclose hslash ih =>
    obtain ⟨e, u, rfl, he, rfl, hcount⟩ := exists_append_of_blockBody (n := 0) hcs h
    obtain rfl := List.eq_nil_of_length_eq_zero he
    rw [hcount] at h
    cases hc : isSpace c with
    | true =>
      obtain ⟨hwritten, hheld⟩ := isBlank_step indent hc hm
      obtain ⟨out, hout, hends⟩ := ih hheld (isBlank_lead hindent hheld) rfl h
      exact ⟨(m.step indent c).1 ++ out, by rw [List.nil_append, layOut_cons, hout],
        hends.append_of_isBlank hwritten⟩
    | false =>
      obtain ⟨out, hout, hends⟩ := ih (m := inLine) rfl rfl rfl h
      refine ⟨m.lead indent ++ c :: out, ?_, ?_⟩
      · rw [List.nil_append, layOut_cons, step_of_not_isSpace hc, hout]
        simp
      · -- the block does not end here, and neither does what is written
        refine (hends.cons hslash fun Z => ?_).append_of_isBlank hlead
        have hle := le_of_blockBody h
        rintro ⟨rfl, hquotes⟩
        refine take_two_ne_of_layOut hout (by omega) (fun htwo => hclose ⟨rfl, ?_⟩) hquotes
        rw [List.nil_append, List.take_append_of_le_length (by omega), htwo]

theorem throughBreak_append {x : List Char} (h : '\n' ∉ x) (Y : List Char) :
    throughBreak (x ++ Y) = x.length + throughBreak Y := by
  induction x with
  | nil => simp
  | cons c x ih =>
    simp only [List.mem_cons, not_or] at h
    rw [List.cons_append, throughBreak, if_neg (Ne.symm h.1), ih h.2, List.length_cons]
    omega

theorem throughBreak_append_newline {x : List Char} (h : '\n' ∉ x) (Y : List Char) :
    throughBreak (x ++ '\n' :: Y) = x.length + 1 := by
  rw [throughBreak_append h, throughBreak, if_pos rfl]

/-- What stands in triple quote marks is read from the lines behind the opening ones. -/
theorem quoted_of_block {x : List Char} (h : '\n' ∉ x) (w : List Char) :
    quoted ('"' :: '"' :: (x ++ '\n' :: w)) = blockBody [] (x.length + 3) w := by
  have htake : ('"' :: '"' :: (x ++ '\n' :: w)).take 2 = ['"', '"'] := rfl
  have hopening : 2 + (x.length + 1) = x.length + 3 := by omega
  have hdrop : ('"' :: '"' :: (x ++ '\n' :: w)).drop (x.length + 3) = w := by
    simp [List.drop_append]
  rw [quoted, if_pos htake]
  dsimp only
  rw [List.drop_succ_cons, List.drop_succ_cons, List.drop_zero, throughBreak_append_newline h,
    hopening, hdrop]

/-- The content of a text block starts on the line behind its opening delimiter. -/
theorem exists_of_quoted {u : List Char} (hblock : (u ++ Y).take 2 = ['"', '"'])
    (h : quoted (u ++ Y) = .ok (t, u.length)) :
    ∃ x w, '\n' ∉ x ∧ u = '"' :: '"' :: (x ++ '\n' :: w) ∧
      blockBody [] (x.length + 3) (w ++ Y) = .ok (t, x.length + 3 + w.length) := by
  have hread := h
  rw [quoted, if_pos hblock] at hread
  have hle := le_of_blockBody hread
  rw [List.take_append_of_le_length (by omega)] at hblock
  obtain ⟨v, rfl⟩ : ∃ v, u = '"' :: '"' :: v :=
    ⟨u.drop 2, by rw [← List.take_append_drop 2 u, hblock]; rfl⟩
  by_cases hbreak : '\n' ∈ v
  · obtain ⟨x, w, rfl, hx⟩ := List.eq_append_cons_of_mem hbreak
    have hsplit : '"' :: '"' :: (x ++ '\n' :: w) ++ Y = '"' :: '"' :: (x ++ '\n' :: (w ++ Y)) := by
      simp
    have hcount : ('"' :: '"' :: (x ++ '\n' :: w)).length = x.length + 3 + w.length := by
      simp only [List.length_cons, List.length_append]
      omega
    rw [hsplit, quoted_of_block hx, hcount] at h
    exact ⟨x, w, hx, rfl, h⟩
  · have hdrop : ('"' :: '"' :: v ++ Y).drop 2 = v ++ Y := rfl
    rw [hdrop, throughBreak_append hbreak, List.length_cons, List.length_cons] at hle
    omega

/-- **A text block is laid out as one**, perhaps of another payload. -/
theorem quoted_layOut {u : List Char} (hindent : isBlank indent = true)
    (hblock : (u ++ Y).take 2 = ['"', '"']) (h : quoted (u ++ Y) = .ok (t, u.length)) :
    ∃ u', layOut indent inLine ('"' :: u) = ('"' :: u', inLine) ∧ ∃ t', ∀ Z,
      quoted (u' ++ Z) = .ok (t', u'.length) := by
  obtain ⟨x, w, hx, rfl, hread⟩ := exists_of_quoted hblock h
  obtain ⟨out, hout, hagain⟩ := blockBody_layOut (m := lineStart) hindent rfl hread
  have hy := newline_not_mem_dropBreak hx
  generalize hline : dropBreak (x ++ ['\n']) = y at hy
  obtain ⟨t', ht'⟩ := hagain [] (y.length + 3)
  refine ⟨'"' :: '"' :: (y ++ '\n' :: out), ?_, t', fun Z => ?_⟩
  · have hsplit : '"' :: '"' :: '"' :: (x ++ '\n' :: w) =
        (['"', '"', '"'] ++ x) ++ ['\n'] ++ w := by
      simp
    have hopening : '\n' ∉ ['"', '"', '"'] ++ x := by
      simp only [List.mem_append, not_or]
      exact ⟨by decide, hx⟩
    have hfirst : ['"', '"', '"'] ++ x ++ ['\n'] = ['"', '"'] ++ '"' :: (x ++ ['\n']) := by simp
    rw [hsplit, layOut_append, layOut_inLine hopening, hfirst, dropBreak_append_cons (by decide),
      hline, hout]
    simp
  · have hsplit : '"' :: '"' :: (y ++ '\n' :: out) ++ Z =
        '"' :: '"' :: (y ++ '\n' :: (out ++ Z)) := by
      simp
    rw [hsplit, quoted_of_block hy, ht']
    simp only [List.length_cons, List.length_append]
    congr 2
    omega

/-! ## Tokens of one line -/

theorem newline_not_mem_of_spaceless (h : w.all (fun c => !isSpace c) = true) : '\n' ∉ w := by
  intro hmem
  have hspace := List.all_eq_true.1 h '\n' hmem
  exact absurd hspace (by decide)

theorem newline_not_mem_of_escape {value : Char} {u : List Char} {n : Nat}
    (h : escape (u ++ Y) = .ok (value, n)) (hn : n ≤ u.length) : '\n' ∉ u.take n := by
  have hlen : (u.take n).length = n := by simp [hn]
  rw [← List.take_append_drop n u, List.append_assoc] at h
  have hread : escape (u.take n ++ (u.drop n ++ Y)) = .ok (value, (u.take n).length) := by
    rw [h, hlen]
  exact newline_not_mem_of_spaceless (spaceless_of_escape hread)

theorem newline_not_mem_of_stringBody {read : List Char}
    (h : stringBody read k (w ++ Y) = .ok (t, k + w.length)) : '\n' ∉ w := by
  generalize hcs : w ++ Y = cs at h
  fun_induction stringBody read k cs generalizing w with
  | case1 => simp at h
  | case2 read k cs =>
    have hlen : w.length = 1 := by
      have hn := (Prod.mk.inj (Except.ok.inj h)).2
      omega
    obtain ⟨u, rfl, rfl⟩ := exists_cons_of_lt (k := 0) (n := 1) hcs (by omega) (by omega)
    obtain rfl : u = [] := by simpa using hlen
    decide
  | case3 => simp at h
  | case4 read k cs value n hescape hquote hbreak ih =>
    have hlt := lt_of_stringBody h
    obtain ⟨u, rfl, rfl⟩ :=
      exists_cons_of_lt (k := k) (n := k + w.length) hcs (by omega) (Nat.le_refl _)
    rw [List.length_cons] at hlt h
    have hn : n ≤ u.length := by omega
    rw [List.drop_append_of_le_length hn] at h ih
    have hcount : k + (u.length + 1) = k + 1 + n + (u.drop n).length := by
      rw [List.length_drop]
      omega
    rw [hcount] at h
    have hrest := ih rfl h
    have hfirst := newline_not_mem_of_escape hescape hn
    rw [← List.take_append_drop n u]
    simp only [List.mem_cons, List.mem_append, not_or]
    exact ⟨by decide, hfirst, hrest⟩
  | case5 => simp at h
  | case6 read k c cs hquote hbreak hslash ih =>
    have hlt := lt_of_stringBody h
    obtain ⟨u, rfl, rfl⟩ :=
      exists_cons_of_lt (k := k) (n := k + w.length) hcs (by omega) (Nat.le_refl _)
    have hcount : k + (c :: u).length = k + 1 + u.length := by
      rw [List.length_cons]
      omega
    rw [hcount] at h
    simp only [List.mem_cons, not_or]
    exact ⟨Ne.symm hbreak, ih rfl h⟩

theorem newline_not_mem_of_charBody (h : charBody (w ++ Y) = .ok (t, w.length)) : '\n' ∉ w := by
  cases w with
  | nil => exact List.not_mem_nil
  | cons c w =>
    rw [List.cons_append, charBody_cons] at h
    split at h
    · simp at h
    · next hend =>
      split at h
      · simp at h
      · next value n hread =>
        split at h
        · next hmark =>
          have hlen : w.length = n + 1 := by
            have hcount := (Prod.mk.inj (Except.ok.inj h)).2
            simp only [List.length_cons] at hcount
            omega
          have hfirst : '\n' ∉ w.take n := by
            split at hread
            · exact newline_not_mem_of_escape hread (by omega)
            · obtain ⟨-, rfl⟩ := Prod.mk.inj (Except.ok.inj hread)
              simp
          have hlast : w.drop n = ['\''] := by
            obtain ⟨d, hd⟩ : ∃ d, w.drop n = [d] :=
              List.length_eq_one_iff.1 (by rw [List.length_drop]; omega)
            rw [List.drop_append_of_le_length (by omega), hd] at hmark
            rw [hd, show d = '\'' by simpa using hmark]
          rw [← List.take_append_drop n w, hlast]
          simp only [List.mem_cons, List.mem_append, not_or]
          exact ⟨fun hbreak => hend (.inr hbreak.symm), hfirst, by decide, List.not_mem_nil⟩
        · simp at h

/-- **Only a text block takes more than one line.** -/
theorem block_of_step {c : Char} {u : List Char} (h : step c (u ++ Y) = .token t u.length)
    (hbreak : '\n' ∈ u) :
    c = '"' ∧ (u ++ Y).take 2 = ['"', '"'] ∧ quoted (u ++ Y) = .ok (t, u.length) := by
  obtain ⟨-, ⟨hquote, hread⟩ | ⟨-, hread⟩ | hle⟩ := step_eq_token h
  · refine ⟨hquote, ?_, hread⟩
    by_contra hblock
    rw [quoted, if_neg hblock, ← Nat.zero_add u.length] at hread
    exact newline_not_mem_of_stringBody hread hbreak
  · exact absurd hbreak (newline_not_mem_of_charBody hread)
  · obtain ⟨x, y, rfl, -⟩ := List.eq_append_cons_of_mem hbreak
    have hlen := hle x ('\n' :: (y ++ Y)) (by simp) (ledBy_cons (by decide))
    rw [List.length_append, List.length_cons] at hlen
    omega

end Block

/-! ## Pieces without meaning -/

/-- **What has no meaning** is a white space character, a line comment up to its line feed or to
the end of the text, or a block comment. -/
theorem blank_of_step {c : Char} {u Y : List Char} (h : Lexer.step c (u ++ Y) = .blank u.length) :
    (isSpace c = true ∧ u = []) ∨
      (c = '/' ∧ ∃ y, '\n' ∉ y ∧ (u = '/' :: (y ++ ['\n']) ∨ u = '/' :: y ∧ Y = [])) ∨
      (c = '/' ∧ ∃ w, u = '*' :: w ∧ commentLength? (w ++ Y) = some w.length) := by
  have hhead {d : Char} (hd : (u ++ Y).head? = some d) (hu : 0 < u.length) : ∃ v, u = d :: v := by
    cases u with
    | nil => exact absurd hu (Nat.lt_irrefl 0)
    | cons e v => exact ⟨v, by rw [show e = d by simpa using hd]⟩
  obtain ⟨hspace, hlen⟩ | ⟨rfl, hslash, hlen⟩ | ⟨rfl, hstar, k, hcount, hlen⟩ := step_eq_blank h
  · exact .inl ⟨hspace, List.length_eq_zero_iff.1 hlen⟩
  · refine .inr (.inl ⟨rfl, ?_⟩)
    obtain ⟨v, rfl⟩ : ∃ v, u = '/' :: v := by
      refine hhead hslash ?_
      obtain ⟨cs, hcs⟩ := List.head?_eq_some_iff.1 hslash
      rw [hlen, hcs]
      exact Nat.succ_pos _
    have hline {x : List Char} (hx : '\n' ∉ x) : '\n' ∉ '/' :: x := by
      simp only [List.mem_cons, not_or]
      exact ⟨by decide, hx⟩
    by_cases hbreak : '\n' ∈ v
    · obtain ⟨y, z, rfl, hy⟩ := List.eq_append_cons_of_mem hbreak
      have hcount := throughBreak_append_newline (hline hy) (z ++ Y)
      have hsplit : '/' :: (y ++ '\n' :: z) ++ Y = '/' :: y ++ '\n' :: (z ++ Y) := by simp
      rw [hsplit, hcount] at hlen
      obtain rfl : z = [] := by
        rw [← List.length_eq_zero_iff]
        simp only [List.length_cons, List.length_append] at hlen
        omega
      exact ⟨y, hy, .inl rfl⟩
    · rw [throughBreak_append (hline hbreak)] at hlen
      refine ⟨v, hbreak, .inr ⟨rfl, ?_⟩⟩
      cases Y with
      | nil => rfl
      | cons d cs =>
        rw [throughBreak] at hlen
        split at hlen <;> omega
  · obtain ⟨w, rfl⟩ := hhead hstar (by omega)
    obtain rfl : w.length = k := by simpa using hlen
    exact .inr (.inr ⟨rfl, w, rfl, hcount⟩)

end SnippetRunner
