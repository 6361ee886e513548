import SnippetRunner.Proofs.LineBreaks
import SnippetRunner.Proofs.Operators

/-!
# Line breaks around operators

An expression that is assigned may be broken into lines around its binary operators. A break behind
an operator never ends the statement. A break in front of one ends it, outside of all brackets,
unless the operator is among `+ * / % && ||` (`BinaryOp.opensLine`) or the text in front of it goes
on by itself (`split_assignment_eq_iff`); a line that starts with `-` or a comparison is not seen as
a continuation.

* The classes of an expression are those of its tokens. So it ends in code, with all its brackets
  closed (`Cuts.inCode`, `Cuts.parensIn_classified`).
* `OperatorIn` is what the text around an operator has to say about breaks there; it holds of every
  operator of a parsed expression (`exists_operatorIn`).
-/

namespace SnippetRunner

open Text Scan Lexer Grammar ExprParser Fragment

/-! ## The characters of tokens -/

/-- Whether the last character, if it is code, is not half of an increment. -/
def EndsPlain (xs : List (Char × CharClass)) : Prop :=
  ∀ x ∈ xs.getLast?, x.2 = .code → x.1 ≠ '+' ∧ x.1 ≠ '-'

theorem Scan.Uncommented.of_append_right {a b : List Char} (h : Uncommented .code (a ++ b))
    (hmode : modeAfter .code b.head? a = .code) : Uncommented .code b := by
  intro x hx
  refine h x ?_
  rw [classify_eq_classifyFrom] at hx ⊢
  rw [classifyFrom_append, Option.or_none, hmode]
  exact List.mem_append_right _ hx

namespace Lexer

variable {cs rest : List Char} {ps qs rs : List Piece}

/-- Without comments only white space has no meaning. -/
theorem isSpace_of_step_blank {c : Char} {u Y : List Char} (h : step c (u ++ Y) = .blank u.length)
    (hno : Uncommented .code (c :: u ++ Y)) : isSpace c = true ∧ u = [] := by
  obtain hspace | ⟨rfl, y, -, hu⟩ | ⟨rfl, w, rfl, -⟩ := blank_of_step h
  · exact hspace
  · obtain rfl | ⟨rfl, -⟩ := hu <;> exact absurd rfl (uncommented_cons.1 hno).1
  · exact absurd rfl (uncommented_cons.1 hno).1

/-- A text on one line has no text blocks. -/
theorem Cuts.onOneLine (h : Cuts cs ps rest) (hbreak : '\n' ∉ cs) :
    ∀ q ∈ ps, q.token ≠ none → '\n' ∉ q.text := fun q hq _ hmem =>
  hbreak (by
    rw [h.spell]
    exact List.mem_append_left _ (List.mem_flatMap.2 ⟨q, hq, hmem⟩))

/-- **In a text without comments the scanner is in code behind every piece**, and what spells no
token is white space. -/
theorem Cuts.inCode (h : Cuts cs ps rest) (hno : Uncommented .code cs)
    (hline : ∀ q ∈ ps, q.token ≠ none → '\n' ∉ q.text) :
    modeAfter .code rest.head? (Lexer.spell ps) = .code ∧
      ∀ q ∈ ps, q.token = none → isBlank q.text = true := by
  -- a piece that leaves the scanner in code, and those behind it
  have hcons {u cs rest : List Char} {t : Option Token} {ps : List Piece} (hcuts : Cuts cs ps rest)
      (hmode : modeAfter .code cs.head? u = .code)
      (hlater : modeAfter .code rest.head? (Lexer.spell ps) = .code) :
      modeAfter .code rest.head? (Lexer.spell (⟨u, t⟩ :: ps)) = .code := by
    have hhead : (Lexer.spell ps).head?.or rest.head? = cs.head? := by
      rw [hcuts.spell, List.head?_append]
    rw [Lexer.spell, List.flatMap_cons, ← Lexer.spell, modeAfter_append, hhead, hmode, hlater]
  induction h with
  | nil => exact ⟨rfl, fun q hq => absurd hq List.not_mem_nil⟩
  | @blank c u cs rest ps hstep hcuts ih =>
    obtain ⟨hspace, rfl⟩ := isSpace_of_step_blank hstep hno
    have hmode : modeAfter .code cs.head? [c] = .code := by
      rw [modeAfter, Mode.step_of_isSpace hspace]
      rfl
    obtain ⟨hlater, hblank⟩ := ih (hno.of_append_right hmode) (List.forall_mem_cons.1 hline).2
    exact ⟨hcons hcuts hmode hlater,
      List.forall_mem_cons.2 ⟨fun _ => by simp [isBlank, hspace], hblank⟩⟩
  | @token c u cs rest t ps hstep hcuts ih =>
    obtain ⟨hfirst, hlater⟩ := List.forall_mem_cons.1 hline
    have hmode := (labels_of_token hstep fun hmem =>
      hfirst (Option.some_ne_none t) (List.mem_cons_of_mem c hmem)).2
    obtain ⟨hlater, hblank⟩ := ih (hno.of_append_right hmode) hlater
    exact ⟨hcons hcuts hmode hlater,
      List.forall_mem_cons.2 ⟨fun hnone => absurd hnone (Option.some_ne_none t), hblank⟩⟩

/-- The classes of a text without text blocks are those of its pieces, and so are those of its
fronts. -/
theorem Cuts.classify_front (h : Cuts cs (qs ++ rs) []) (hno : Uncommented .code cs)
    (hline : ∀ q ∈ qs ++ rs, q.token ≠ none → '\n' ∉ q.text) :
    classify .code (Lexer.spell qs) = qs.flatMap Piece.classified ∧
      modeAfter .code (Lexer.spell rs).head? (Lexer.spell qs) = .code := by
  have hspell : cs = Lexer.spell qs ++ Lexer.spell rs := by
    rw [h.spell, List.append_nil, Lexer.spell_append]
  constructor
  · have hclass := h.classify_eq hline
    rw [List.flatMap_append] at hclass
    refine classify_of_append (b := Lexer.spell rs) (hspell ▸ hclass) (map_fst_classified qs)
      fun x hx => hno x ?_
    rw [hclass]
    exact List.mem_append_left _ hx
  · obtain ⟨mid, hfront, hback⟩ := h.exists_mid
    obtain rfl : mid = Lexer.spell rs := by rw [hback.spell, List.append_nil]
    exact (hfront.inCode hno fun q hq => hline q (List.mem_append_left _ hq)).1

/-- A token is taken in one step. -/
theorem Cuts.exists_step {text : List Char} {t : Token}
    (h : Cuts cs (qs ++ ⟨text, some t⟩ :: rs) rest) :
    ∃ c u, text = c :: u ∧ step c (u ++ (Lexer.spell rs ++ rest)) = .token t u.length := by
  obtain ⟨mid, -, hmid⟩ := h.exists_mid
  cases hmid with
  | @token c u cs _ _ _ hstep hcuts => exact ⟨c, u, rfl, by rwa [← hcuts.spell]⟩

/-- The code of a token is made of characters of words, or it spells a sign. -/
theorem code_of_step {c : Char} {u Y : List Char} {t : Token} {x : Char × CharClass}
    (h : step c (u ++ Y) = .token t u.length) (hx : x ∈ Piece.classified ⟨c :: u, some t⟩)
    (hcode : x.2 = .code) :
    isWordChar x.1 = true ∨ ∃ s, t = .sign s ∧ x.1 ∈ s.text.toList := by
  obtain ⟨d, hd, rfl⟩ := List.mem_map.1 hx
  have ht : t.isQuoted = false := by
    rw [Bool.eq_false_iff]
    intro hquoted
    simp [Piece.classOf, hquoted] at hcode
  obtain hchars | ⟨s, rfl, htext, -⟩ := spelling_of_not_isQuoted h ht
  · exact .inl (hchars d hd)
  · exact .inr ⟨s, rfl, htext ▸ hd⟩

/-- A token that is no delimiter has none in code. -/
theorem isInner_of_step {c : Char} {u Y : List Char} {t : Token} {x : Char × CharClass}
    (h : step c (u ++ Y) = .token t u.length) (ht : ¬ t.IsDelimiter)
    (hx : x ∈ Piece.classified ⟨c :: u, some t⟩) (hno : x.2 ≠ .comment) : IsInner x := by
  refine ⟨hno, fun hcode => ?_⟩
  obtain hword | ⟨s, rfl, hmem⟩ := code_of_step h hx hcode
  · exact ⟨ne_of_isIn hword (by decide), ne_of_isIn hword (by decide),
      ne_of_isIn hword (by decide)⟩
  · have hall : s.text.toList.all (fun c => c != ';' && c != '{' && c != '}') = true := by
      cases s with
      | semicolon | lbrace | rbrace => exact absurd (by simp [Token.IsDelimiter]) ht
      | _ => decide
    simpa [and_assoc] using List.all_eq_true.1 hall x.1 hmem

/-- A token opens and closes in code what it does as a token. -/
theorem parensIn_of_step {c : Char} {u Y : List Char} {t : Token}
    (h : step c (u ++ Y) = .token t u.length) (parens : Nat) :
    parensIn parens (Piece.classified ⟨c :: u, some t⟩) = t.parensAfter parens := by
  by_cases hsign : ∃ s, t = .sign s
  · obtain ⟨s, rfl⟩ := hsign
    rw [text_of_step_sign h]
    cases s <;> rfl
  · have heq : t.parensAfter parens = parens := by
      cases t with
      | sign s => exact absurd ⟨s, rfl⟩ hsign
      | _ => rfl
    rw [heq]
    refine parensIn_of_isFlat (fun x hx hcode => ?_) parens
    obtain hword | ⟨s, ht, -⟩ := code_of_step h hx hcode
    · exact ⟨ne_of_isIn hword (by decide), ne_of_isIn hword (by decide),
        ne_of_isIn hword (by decide), ne_of_isIn hword (by decide)⟩
    · exact absurd ⟨s, ht⟩ hsign

/-- **The brackets that tokens leave open are those that their characters leave open.** -/
theorem Cuts.parensIn_classified (h : Cuts cs ps rest)
    (hblank : ∀ q ∈ ps, q.token = none → isBlank q.text = true) (parens : Nat) :
    parensIn parens (ps.flatMap Piece.classified) =
      (tokensOf ps).foldl Token.parensAfter parens := by
  induction h generalizing parens with
  | nil => rfl
  | @blank c u cs rest ps hstep hcuts ih =>
    obtain ⟨hspace, hlater⟩ := List.forall_mem_cons.1 hblank
    have hflat : ∀ x ∈ Piece.classified ⟨c :: u, none⟩, IsFlat x := by
      intro x hx
      obtain ⟨d, hd, rfl⟩ := List.mem_map.1 hx
      exact isFlat_of_isSpace (List.all_eq_true.1 (hspace rfl) d hd) _
    rw [List.flatMap_cons, parensIn_append, parensIn_of_isFlat hflat, ih hlater]
    rfl
  | @token c u cs rest t ps hstep hcuts ih =>
    rw [List.flatMap_cons, parensIn_append, parensIn_of_step hstep,
      ih (List.forall_mem_cons.1 hblank).2]
    rfl

/-- The token at the end of an operand does not end with half of an increment. -/
theorem endsPlain_of_endsOperand {c : Char} {u Y : List Char} {t : Token}
    (h : step c (u ++ Y) = .token t u.length) (ht : t.EndsOperand) :
    EndsPlain (Piece.classified ⟨c :: u, some t⟩) := by
  rintro ⟨d, k⟩ hd hcode
  obtain ⟨e, he, heq⟩ := Option.map_eq_some_iff.1 (List.getLast?_map ▸ hd)
  obtain ⟨rfl, rfl⟩ := Prod.mk.inj heq
  change e ≠ '+' ∧ e ≠ '-'
  have hpart (hpart : isIdentPart e = true) : e ≠ '+' ∧ e ≠ '-' := by
    constructor <;> rintro rfl <;> exact absurd hpart (by decide)
  have hliteral (hquoted : t.isQuoted = true) : e ≠ '+' ∧ e ≠ '-' := by
    simp [Piece.classOf, hquoted] at hcode
  obtain ⟨-, hread⟩ | ⟨-, hread⟩ | ⟨hdigit, hread⟩ | ⟨hstart, hread⟩ | ⟨s, -, hs, -, -⟩ :=
    token_of_step h
  · exact hliteral (isQuoted_of_quoted hread)
  · exact hliteral (isQuoted_of_charBody hread)
  · have hlast := (isNumeral_number hread c (isIdentPart_of_isDigit hdigit)).2
    rw [List.getLast?_cons, ← List.getLastD_eq_getLast?] at he
    rw [List.take_left, Option.some.inj he] at hlast
    exact hpart hlast
  · refine hpart ?_
    rcases List.mem_cons.1 (List.mem_of_getLast? he) with rfl | hmem
    · exact isIdentPart_of_isIdentStart hstart
    · exact List.all_eq_true.1 (takeWhile_of_word hread).2 e hmem
  · rw [hs] at h ht
    rw [text_of_step_sign h] at he
    obtain rfl | rfl := ht s rfl
    · obtain rfl : ')' = e := Option.some.inj he
      decide
    · obtain rfl : ']' = e := Option.some.inj he
      decide

/-- The longest sign is read. -/
theorem next_of_step_plus {Y : List Char} {n : Nat} (h : step '+' Y = .token (.sign .plus) n) :
    Y.head? ≠ some '+' := by
  intro hhead
  obtain ⟨Y, rfl⟩ := List.head?_eq_some_iff.1 hhead
  have hread : step '+' ('+' :: Y) = .token (.sign .plusPlus) 1 := rfl
  rw [hread] at h
  cases h

/-- Two slashes start a comment. -/
theorem next_of_step_slash {Y : List Char} {n : Nat} (h : step '/' Y = .token (.sign .slash) n) :
    Y.head? ≠ some '/' := by
  intro hhead
  obtain ⟨Y, rfl⟩ := List.head?_eq_some_iff.1 hhead
  rw [step_lineComment] at h
  cases h

theorem token_eq_none_of_place {p : Position} (h : place p ps = []) :
    ∀ q ∈ ps, q.token = none := by
  have htokens : tokensOf ps = [] := by rw [← map_token_place p, h, List.map_nil]
  exact List.filterMap_eq_nil_iff.1 htokens

/-- What ends with the token of an operand does not end with half of an increment. -/
theorem Cuts.endsPlain (h : Cuts cs (ps ++ rs) rest)
    (hblank : ∀ q ∈ ps, q.token = none → isBlank q.text = true) {p : Position}
    {front : List Lexeme} {last : Lexeme} (hplace : place p ps = front ++ [last])
    (hlast : last.token.EndsOperand) : EndsPlain (ps.flatMap Piece.classified) := by
  obtain ⟨token, span⟩ := last
  obtain ⟨qs, text, bs, rfl, -, -, hbs⟩ := exists_of_place_eq_append hplace
  rw [List.append_assoc, List.cons_append] at h
  obtain ⟨c, u, rfl, hstep⟩ := h.exists_step
  intro x hx hcode
  rw [List.flatMap_append, List.flatMap_cons, List.getLast?_append, List.getLast?_append] at hx
  cases hspaces : (bs.flatMap Piece.classified).getLast? with
  | none =>
    obtain ⟨y, hy⟩ : ∃ y, (Piece.classified ⟨c :: u, some token⟩).getLast? = some y :=
      ⟨_, List.getLast?_eq_some_getLast (List.cons_ne_nil _ _)⟩
    rw [hspaces, Option.none_or, hy, Option.some_or] at hx
    exact endsPlain_of_endsOperand hstep hlast x (hy.trans hx) hcode
  | some y =>
    -- white space behind the token
    rw [hspaces, Option.some_or, Option.some_or] at hx
    obtain rfl := Option.some.inj hx
    obtain ⟨q, hq, hy⟩ := List.mem_flatMap.1 (List.mem_of_getLast? hspaces)
    obtain ⟨d, hd, rfl⟩ := List.mem_map.1 hy
    have hspace := List.all_eq_true.1
      (hblank q (by simp [hq]) (token_eq_none_of_place hbs q hq)) d hd
    constructor <;> rintro rfl <;> exact absurd hspace (by decide)

/-- Text with a token in it is not blank. -/
theorem Cuts.not_isBlank_spell (h : Cuts cs (qs ++ ps) rest) {p : Position} {first : Lexeme}
    {back : List Lexeme} (hplace : place p ps = first :: back) :
    isBlank (Lexer.spell ps) = false := by
  obtain ⟨token, span⟩ := first
  obtain ⟨bs, text, rs, rfl, -⟩ := exists_of_place_eq_append
    (hplace.trans (List.nil_append _).symm)
  rw [← List.append_assoc] at h
  obtain ⟨c, u, rfl, hstep⟩ := h.exists_step
  rw [Lexer.spell, List.flatMap_append, List.flatMap_cons, isBlank_append, isBlank_append,
    isBlank_cons, (step_eq_token hstep).1]
  simp

end Lexer

/-! ## Operators in the text -/

theorem text_of_binaryOp? {s : Sign} {op : BinaryOp} (h : binaryOp? s = some op) :
    s.text = op.symbol := by
  cases s <;> cases h <;> rfl

/-- What the text `f` in front of an operator and the text `g` behind it have to say about breaks
around the operator. -/
structure OperatorIn (op : BinaryOp) (f g : List Char) : Prop where
  inCode : modeAfter .code op.symbol.toList.head? f = .code
  inCode_behind : modeAfter .code g.head? (f ++ op.symbol.toList) = .code
  classify_eq : classify .code (f ++ op.symbol.toList) =
    classify .code f ++ op.symbol.toList.map (·, .code)
  endsPlain : EndsPlain (classify .code f)
  solid : isBlank g = false
  /-- The operator is not half of an increment. -/
  not_increment : op = .add → g.head? ≠ some '+'
  /-- The operator starts no comment. -/
  not_comment : op = .div → g.head? ≠ some '/'

/-- **What an operator has around it.** -/
theorem exists_operatorIn {e : List Char} {ps : List Piece} {root : Expr} {op : BinaryOp}
    {t : Lexeme} (hcuts : Cuts e ps []) (hno : Uncommented .code e) (hbreak : '\n' ∉ e)
    (hroot : Derives (.expr 0 root) (place .start ps)) (h : root.IsOperator op t)
    (ht : t ∈ place .start ps) :
    ∃ f g, e = f ++ (op.symbol.toList ++ g) ∧ OperatorIn op f g ∧ t.span.start = byteSize f ∧
      t.span.stop = byteSize (f ++ op.symbol.toList) := by
  have htiles := lex_tiles e
  rw [lex_of_cuts hcuts] at htiles
  obtain ⟨front, last, sign, first, back, hplace, htoken, hop, hends⟩ :=
    h.exists_place hroot (apart_place _ _) htiles.nonempty ht
  obtain ⟨token, span⟩ := t
  obtain rfl : token = .sign sign := htoken
  have hsplit : front ++ last :: ⟨.sign sign, span⟩ :: first :: back =
      (front ++ [last]) ++ ⟨.sign sign, span⟩ :: (first :: back) := by simp
  obtain ⟨qs, text, rs, rfl, hqs, rfl, hrs⟩ := exists_of_place_eq_append (hplace.trans hsplit)
  obtain ⟨c, u, rfl, hstep⟩ := hcuts.exists_step
  rw [List.append_nil] at hstep
  have htext : c :: u = op.symbol.toList := by
    rw [← text_of_binaryOp? hop, text_of_step_sign hstep]
  obtain ⟨hclass, hmode⟩ := hcuts.classify_front hno (hcuts.onOneLine hbreak)
  have hblank := (hcuts.inCode hno (hcuts.onOneLine hbreak)).2
  have hplain := hcuts.endsPlain (fun q hq => hblank q (List.mem_append_left _ hq)) hqs hends
  have hcuts' : Cuts e ((qs ++ [⟨c :: u, some (.sign sign)⟩]) ++ rs) [] := by simpa using hcuts
  obtain ⟨hclass', hmode'⟩ := hcuts'.classify_front hno (hcuts'.onOneLine hbreak)
  rw [spell_append, List.flatMap_append, ← hclass] at hclass'
  rw [spell_append] at hmode'
  rw [← hclass] at hplain
  have hspell : Lexer.spell [⟨c :: u, some (.sign sign)⟩] = op.symbol.toList := by
    simp [Lexer.spell, htext]
  have hclassified : [Piece.mk (c :: u) (some (.sign sign))].flatMap Piece.classified =
      op.symbol.toList.map (·, .code) := by
    simp [← htext, Piece.classified, Piece.classOf, Token.isQuoted]
  rw [hspell] at hclass' hmode'
  rw [hclassified] at hclass'
  refine ⟨Lexer.spell qs, Lexer.spell rs, ?_, ⟨?_, hmode', hclass', hplain,
    hcuts'.not_isBlank_spell hrs, ?_, ?_⟩, ?_, ?_⟩
  · rw [hcuts.spell, ← htext]
    simp [Lexer.spell]
  · rw [← htext]
    simpa [Lexer.spell] using hmode
  · rintro rfl
    obtain rfl : sign = .plus := by cases sign <;> first | rfl | cases hop
    obtain ⟨rfl, rfl⟩ := List.cons.inj htext
    exact next_of_step_plus hstep
  · rintro rfl
    obtain rfl : sign = .slash := by cases sign <;> first | rfl | cases hop
    obtain ⟨rfl, rfl⟩ := List.cons.inj htext
    exact next_of_step_slash hstep
  · simp [Span.ofText, Position.start]
  · simp [Span.ofText, Position.start, ← htext]

/-! ## Breaks behind an operator -/

section EndsPlain

variable {xs ys : List (Char × CharClass)}

theorem EndsPlain.append (h : EndsPlain xs) (h' : EndsPlain ys) : EndsPlain (xs ++ ys) := by
  intro x hx
  rw [List.getLast?_append] at hx
  cases hys : ys.getLast? with
  | none => exact h x (by rwa [hys, Option.none_or] at hx)
  | some y => exact h' x (by rwa [hys, Option.some_or, ← hys] at hx)

theorem endsPlain_of_isBlank {s : List Char} (hs : isBlank s = true) :
    EndsPlain (s.map (·, .code)) := by
  intro x hx _
  obtain ⟨c, hc, rfl⟩ := List.mem_map.1 (List.mem_of_getLast? hx)
  have hspace := List.all_eq_true.1 hs c hc
  constructor <;> rintro rfl <;> exact absurd hspace (by decide)

theorem EndsPlain.spreadIn {gap : Nat → List Char} (h : EndsPlain xs) (p : Nat) :
    EndsPlain (spreadIn gap p xs) := by
  obtain rfl | ⟨ys, y, rfl⟩ := List.eq_nil_or_concat xs
  · exact h
  · rw [List.concat_eq_append] at h ⊢
    intro x hx
    refine h x ?_
    simpa [spreadIn_append, SnippetRunner.spreadIn] using hx

/-- What is blanked out does not end with half of an increment either. -/
theorem EndsPlain.masked (h : EndsPlain xs) :
    ∀ c ∈ (xs.flatMap maskedChar).getLast?, c ≠ '+' ∧ c ≠ '-' := by
  obtain rfl | ⟨ys, ⟨d, k⟩, rfl⟩ := List.eq_nil_or_concat xs
  · exact nofun
  · rw [List.concat_eq_append] at h ⊢
    intro c hc
    have hd := h (d, k) List.getLast?_concat
    rw [List.flatMap_append, List.flatMap_singleton, List.getLast?_append] at hc
    unfold maskedChar at hc
    dsimp only at hc
    split at hc
    · next hshown =>
      obtain rfl : d = c := by simpa using hc
      obtain hcode | rfl := hshown
      · exact hd hcode
      · decide
    · obtain ⟨n, hn⟩ := Nat.exists_eq_succ_of_ne_zero (Nat.ne_of_gt d.utf8Size_pos)
      obtain rfl : ' ' = c := by simpa [hn, List.replicate_succ'] using hc
      decide

end EndsPlain

/-- The operators that a line may start with when it goes on with the line before. -/
def BinaryOp.opensLine : BinaryOp → Bool
  | .add | .mul | .div | .rem | .and | .or => true
  | _ => false

namespace BinaryOp

theorem exists_symbol_eq_append (op : BinaryOp) : ∃ m d, op.symbol.toList = m ++ [d] ∧
    d ∈ "+-*/%=&|<>?:,.".toList ∧ (d = '+' ∨ d = '-' → m = []) := by
  refine ⟨op.symbol.toList.dropLast, op.symbol.toList.getLast (by cases op <;> decide),
    (List.dropLast_concat_getLast _).symm, ?_, ?_⟩ <;> cases op <;> decide

theorem exists_symbol_eq_cons (op : BinaryOp) : ∃ c u, op.symbol.toList = c :: u :=
  List.exists_cons_of_ne_nil (by cases op <;> decide)

end BinaryOp

namespace Fragment

/-- A text that ends with an operator wants something behind it, unless that is the end of an
increment. -/
theorem endsWithOperator_trim {code : List Char} {d : Char} (hcode : isBlank code = false)
    (hd : d ∈ "+-*/%=&|<>?:,.".toList)
    (hplain : d = '+' ∨ d = '-' → ∀ c ∈ code.getLast?, c ≠ '+' ∧ c ≠ '-') :
    endsWithOperator (trim (code ++ [d])) = true := by
  have hspace : isSpace d = false := by
    have hall : "+-*/%=&|<>?:,.".toList.all (fun d => !isSpace d) = true := by decide
    simpa using List.all_eq_true.1 hall d hd
  have htrim : trim (code ++ [d]) = trimStart code ++ [d] := by
    rw [trim, trimStart_append_of_not_isBlank hcode, trimEnd_eq_self (by simpa using hspace)]
  have hincrement (e : Char) (he : e = '+' ∨ e = '-') :
      beforeTail? [e, e] (trimStart code ++ [d]) = none := by
    rw [Option.eq_none_iff_forall_ne_some]
    intro before hbefore
    have hsplit : trimStart code ++ [d] = (before ++ [e]) ++ [e] := by
      simpa using beforeTail?_eq_some_iff.1 hbefore
    obtain ⟨hfront, hlast⟩ := List.append_inj' hsplit rfl
    obtain rfl : d = e := by simpa using hlast
    obtain ⟨s, hs⟩ := List.dropWhile_suffix isSpace (l := code)
    have hend : code.getLast? = some d := by
      rw [← hs, ← trimStart, hfront, ← List.append_assoc, List.getLast?_concat]
    have hne := hplain he d hend
    exact he.elim hne.1 hne.2
  rw [htrim, endsWithOperator, List.getLast?_concat, Option.any_some, List.contains_eq_mem,
    show "++".toList = ['+', '+'] from rfl, show "--".toList = ['-', '-'] from rfl,
    hincrement '+' (.inl rfl), hincrement '-' (.inr rfl)]
  simpa using hd

section Assignment

variable {gap : Nat → List Char} {x f g : List Char} {op : BinaryOp}

theorem isBlank_target_append (hx : isIdentifier x = true) (r : List Char) :
    isBlank (target x ++ r) = false := by
  obtain ⟨c, cs, rfl, hc, -⟩ := exists_cons_of_isIdentifier hx
  rw [target, List.cons_append, List.cons_append, isBlank_cons,
    isSpace_of_isIdentPart (isIdentPart_of_isIdentStart hc), Bool.false_and]

/-- What is shown of the front of an assignment: its target, and what is shown of its value. -/
theorem masked_target_spread (hx : isIdentifier x = true) (hno : Uncommented .code (f ++ g))
    (hgap : Spreads gap (f ++ g)) :
    masked (target x ++ spread gap 0 f) =
      target x ++ (spreadIn gap 0 (classify .code f)).flatMap maskedChar := by
  have htarget : ((target x).map fun c => (c, CharClass.code)).flatMap maskedChar = target x :=
    flatMap_maskedChar.1 fun _ _ => rfl
  have hno' : ∀ y ∈ classifyFrom .code none f, y.2 ≠ .comment := by
    rw [← classify_eq_classifyFrom]
    exact hno.of_append
  have hclass := (classifyFrom_target_spread hx hno' hgap.isBlank_gap
    fun a c b hf hne => hgap.inCode (g := b ++ g) (by simp [hf]) hne).1
  rw [masked, classify_eq_classifyFrom, hclass, List.flatMap_append, htarget,
    classify_eq_classifyFrom]

/-- **Behind an operator an assignment goes on.** -/
theorem goesOn_behind_operator (hx : isIdentifier x = true) (h : OperatorIn op f g)
    (hno : Uncommented .code (f ++ (op.symbol.toList ++ g)))
    (hgap : Spreads gap (f ++ (op.symbol.toList ++ g))) :
    goesOn (target x ++ spread gap 0 (f ++ op.symbol.toList)) [] = true := by
  rw [← List.append_assoc] at hno hgap
  obtain ⟨m, d, hsymbol, hd, hm⟩ := op.exists_symbol_eq_append
  -- the code in front of the last character of the operator
  let value := spreadIn gap 0 (classify .code f ++ m.map (·, .code)) ++
    (gap (byteSize (f ++ m))).map (·, .code)
  have hmasked : masked (target x ++ spread gap 0 (f ++ op.symbol.toList)) =
      target x ++ value.flatMap maskedChar ++ [d] := by
    have hfst : ((classify .code f ++ m.map (·, CharClass.code)).map Prod.fst) = f ++ m := by
      rw [List.map_append, map_fst_classify, map_fst_map_code]
    rw [masked_target_spread hx hno hgap, h.classify_eq, hsymbol, List.map_append,
      ← List.append_assoc, spreadIn_append, hfst, Nat.zero_add]
    simp [value, spreadIn, maskedChar]
  have hblank : isBlank (target x ++ value.flatMap maskedChar) = false :=
    isBlank_target_append hx _
  have hplain : d = '+' ∨ d = '-' →
      ∀ c ∈ (target x ++ value.flatMap maskedChar).getLast?, c ≠ '+' ∧ c ≠ '-' := by
    intro hincrement
    have hvalue : EndsPlain value := by
      simp only [value, hm hincrement, List.map_nil, List.append_nil]
      exact (h.endsPlain.spreadIn 0).append (endsPlain_of_isBlank (hgap.isBlank_gap _))
    intro c hc
    rw [List.getLast?_append] at hc
    cases hlast : (value.flatMap maskedChar).getLast? with
    | some c' =>
      rw [hlast, Option.some_or, ← hlast] at hc
      exact hvalue.masked c hc
    | none =>
      rw [hlast, Option.none_or, target, List.getLast?_append] at hc
      obtain rfl : ' ' = c := Option.some.inj hc
      decide
  have hends := endsWithOperator_trim hblank hd hplain
  rw [goesOn_eq_of_code, hmasked, hends, isEmpty_trim, isBlank_append, hblank]
  simp

/-! ## Breaks in front of an operator -/

/-- An assignment goes on by itself, or because of what follows. -/
theorem goesOn_eq_or (hx : isIdentifier x = true) (hno : Uncommented .code (f ++ g))
    (hgap : Spreads gap (f ++ g)) (rest : List Char) :
    goesOn (target x ++ spread gap 0 f) rest =
      (goesOn (target x ++ spread gap 0 f) [] || startsContinuation (skipToCode rest)) := by
  have hne : (trim (masked (target x ++ spread gap 0 f))).isEmpty = false := by
    rw [isEmpty_trim, masked_target_spread hx hno hgap, isBlank_target_append hx]
  simp only [goesOn_eq_of_code, hne, startsContinuation_skipToCode_nil, Bool.not_false,
    Bool.true_and, Bool.or_false]

/-- What is put into a text is white space, so it starts with nothing else. -/
theorem head?_of_spread (hblank : ∀ p, isBlank (gap p) = true) {p : Nat} {d : Char}
    (hd : isSpace d = false) (h : (spread gap p g ++ [';']).head? = some d) :
    g.head? = some d ∨ d = ';' := by
  cases g with
  | nil => exact .inr (Option.some.inj h).symm
  | cons c g =>
    rw [spread] at h
    cases hgap : gap p with
    | nil =>
      rw [hgap] at h
      exact .inl h
    | cons w ws =>
      rw [hgap] at h
      obtain rfl : w = d := Option.some.inj h
      have hspace := hgap ▸ hblank p
      rw [isBlank_cons, hd] at hspace
      exact absurd hspace Bool.false_ne_true

/-- The first character of an operator decides whether a line goes on with it. -/
theorem startsContinuation_symbol {c : Char} {u rest : List Char}
    (hsymbol : op.symbol.toList = c :: u) (hplus : op = .add → rest.head? ≠ some '+')
    (hslash : op = .div → rest.head? ≠ some '/') :
    startsContinuation (skipToCode (c :: rest)) = op.opensLine := by
  have hall : op.symbol.toList.head?.all (fun c => !isSpace c &&
      ((c = '.' || "+*/%?:&|".toList.contains c) == op.opensLine) &&
      (c != '+' || op = .add) && (c != '/' || op = .div)) = true := by
    cases op <;> decide
  rw [hsymbol, List.head?_cons, Option.all_some] at hall
  simp only [Bool.and_eq_true, Bool.not_eq_true', beq_iff_eq, Bool.or_eq_true, bne_iff_ne,
    decide_eq_true_eq, ne_eq, ← imp_iff_not_or] at hall
  obtain ⟨⟨⟨hspace, hopens⟩, hadd⟩, hdiv⟩ := hall
  have hskip : skipToCode (c :: rest) = c :: rest := by
    rw [skipToCode, if_neg (by simp [hspace]), if_neg]
    rintro ⟨rfl, hnext⟩
    exact hslash (hdiv rfl) hnext
  have hfirst : (c = '+' && rest.head? = some '+') = false := by
    rw [Bool.eq_false_iff]
    intro hboth
    rw [Bool.and_eq_true, decide_eq_true_eq, decide_eq_true_eq] at hboth
    exact hplus (hadd hboth.1) hboth.2
  rw [hskip, startsContinuation_cons, hfirst, Bool.not_false, Bool.and_true]
  exact hopens

/-- **In front of an operator an assignment goes on by itself, or because a line may start with the
operator.** -/
theorem goesOn_before_operator (hx : isIdentifier x = true) (h : OperatorIn op f g)
    (hno : Uncommented .code (f ++ (op.symbol.toList ++ g)))
    (hgap : Spreads gap (f ++ (op.symbol.toList ++ g))) {c : Char} {u : List Char} (p : Nat)
    (hsymbol : op.symbol.toList = c :: u) :
    goesOn (target x ++ spread gap 0 f) (c :: spread gap p (u ++ g) ++ [';']) =
      (goesOn (target x ++ spread gap 0 f) [] || op.opensLine) := by
  have hnext {d : Char} (hd : isSpace d = false) (hsemicolon : d ≠ ';') (hu : u = [])
      (hg : g.head? ≠ some d) : (spread gap p (u ++ g) ++ [';']).head? ≠ some d := by
    intro hhead
    rw [hu, List.nil_append] at hhead
    exact (head?_of_spread hgap.isBlank_gap hd hhead).elim hg hsemicolon
  rw [goesOn_eq_or hx hno hgap, List.cons_append, startsContinuation_symbol hsymbol]
  · rintro rfl
    exact hnext (by decide) (by decide) (List.cons.inj hsymbol).2.symm (h.not_increment rfl)
  · rintro rfl
    exact hnext (by decide) (by decide) (List.cons.inj hsymbol).2.symm (h.not_comment rfl)

end Assignment

end Fragment

/-! ## Broken assignments -/

/-- Whether a layout puts in white space around binary operators only, directly in front of them
and directly behind them. -/
structure AroundOperators (gap : Nat → List Char) (root : Expr) (ts : List Lexeme) : Prop where
  isBlank_gap (p : Nat) : isBlank (gap p) = true
  exists_operator {p : Nat} : gap p ≠ [] →
    ∃ op, ∃ t ∈ ts, root.IsOperator op t ∧ (p = t.span.start ∨ p = t.span.stop)

section Broken

variable {gap : Nat → List Char} {x e : List Char} {root : Expr} {ps : List Piece}

/-- The code of a text without comments neither ends a statement nor opens or closes a block, if its
tokens do not. -/
theorem isInner_of_cuts (hcuts : Cuts e ps []) (hno : Uncommented .code e)
    (hline : ∀ q ∈ ps, q.token ≠ none → '\n' ∉ q.text)
    (hinner : ∀ t ∈ place .start ps, ¬ t.token.IsDelimiter) :
    ∀ y ∈ classify .code e, IsInner y := by
  have hblank := (hcuts.inCode hno hline).2
  intro y hy
  have hcomment := hno y hy
  rw [hcuts.classify_eq hline] at hy
  obtain ⟨⟨text, token⟩, hq, hmem⟩ := List.mem_flatMap.1 hy
  cases token with
  | none =>
    obtain ⟨d, hd, rfl⟩ := List.mem_map.1 hmem
    exact isInner_of_isSpace (List.all_eq_true.1 (hblank _ hq rfl) d hd) hcomment
  | some t =>
    obtain ⟨u, hu, rfl, -⟩ := exists_mem_place hq rfl [] []
    obtain ⟨qs, rs, rfl⟩ := List.append_of_mem hq
    obtain ⟨c, v, rfl, hstep⟩ := hcuts.exists_step
    exact isInner_of_step hstep (hinner u hu) hmem hcomment

/-- The characters of an expression without comments neither end a statement nor open a block, and
close the brackets they open. -/
theorem isInner_of_derives (hcuts : Cuts e ps []) (hno : Uncommented .code e) (hbreak : '\n' ∉ e)
    (hclosed : IsClosed (place .start ps)) :
    (∀ y ∈ classify .code e, IsInner y) ∧ openIn e = 0 ∧ modeAfter .code none e = .code := by
  have hspell : e = Lexer.spell ps := by rw [hcuts.spell, List.append_nil]
  have hblank := (hcuts.inCode hno (hcuts.onOneLine hbreak)).2
  have hcuts' : Cuts e (ps ++ []) [] := by rwa [List.append_nil]
  obtain ⟨hclass, hmode⟩ := hcuts'.classify_front hno (hcuts'.onOneLine hbreak)
  rw [← hspell] at hclass hmode
  refine ⟨isInner_of_cuts hcuts hno (hcuts.onOneLine hbreak) hclosed.not_isDelimiter, ?_, hmode⟩
  rw [openIn, hclass, hcuts.parensIn_classified hblank, ← map_token_place .start]
  exact hclosed.parens_eq 0

/-- White space around operators is put into code, and in front of something solid. -/
theorem AroundOperators.spreads (hcuts : Cuts e ps []) (hno : Uncommented .code e)
    (hbreak : '\n' ∉ e) (hroot : Derives (.expr 0 root) (place .start ps))
    (h : AroundOperators gap root (place .start ps)) : Spreads gap e := by
  have hplace {f : List Char} {c : Char} {g : List Char} (he : e = f ++ c :: g)
      (hne : gap (byteSize f) ≠ []) :
      modeAfter .code (some c) f = .code ∧ isBlank (c :: g) = false := by
    obtain ⟨op, t, ht, hop, hp⟩ := h.exists_operator hne
    obtain ⟨f', g', he', hin, hstart, hstop⟩ := exists_operatorIn hcuts hno hbreak hroot hop ht
    obtain ⟨c', u, hsymbol⟩ := op.exists_symbol_eq_cons
    have hsolid : isBlank (op.symbol.toList ++ g') = false := by
      rw [isBlank_append, hin.solid, Bool.and_false]
    obtain hp | hp := hp
    · obtain ⟨rfl, hrest⟩ := append_inj_of_byteSize (he.symm.trans he') (hp.trans hstart)
      have hmode := hin.inCode
      have hhead : op.symbol.toList.head? = some c := by
        have hfirst := congrArg List.head? hrest
        rw [List.head?_cons, List.head?_append_of_ne_nil _ (by simp [hsymbol])] at hfirst
        exact hfirst.symm
      rw [hhead] at hmode
      exact ⟨hmode, hrest ▸ hsolid⟩
    · obtain ⟨rfl, rfl⟩ :=
        append_inj_of_byteSize (he.symm.trans (he'.trans (List.append_assoc ..).symm))
        (hp.trans hstop)
      exact ⟨hin.inCode_behind, hin.solid⟩
  exact ⟨h.isBlank_gap, fun he hne => (hplace he hne).1, fun he hne => (hplace he hne).2⟩

/-- **An assignment that is broken into lines around its binary operators is one statement exactly
if no line break outside of all brackets stands in front of an operator that opens no line**, unless
the text in front of the break goes on by itself. Breaks behind operators never end it. -/
theorem split_assignment_eq_iff {tokens : Lexemes} (hx : isIdentifier x = true)
    (hword : Keyword.ofText? (String.ofList x) = none) (hlex : lex e = .ok tokens)
    (hparse : Expr.parse e = .ok root) (hbreak : '\n' ∉ e) (hno : Uncommented .code e)
    (htypes : ClosedTypeArguments tokens.list) (hgap : AroundOperators gap root tokens.list)
    (line : Nat) :
    split (target x ++ spread gap 0 e ++ [';']) line =
        [⟨trim (target x ++ spread gap 0 e), line⟩] ↔
      ∀ op, ∀ t ∈ tokens.list, root.IsOperator op t → '\n' ∈ gap t.span.start →
        op.opensLine = true ∨ openIn (slice 0 t.span.start e) ≠ 0 ∨
          goesOn (target x ++ spread gap 0 (slice 0 t.span.start e)) [] = true := by
  unfold Expr.parse at hparse
  rw [hlex] at hparse
  obtain ⟨ps, hcuts, rfl⟩ := exists_cuts_of_lex hlex
  have hroot : Derives (.expr 0 root) (place .start ps) := whole_eq_ok_iff.1 hparse
  obtain ⟨hinner, hopen, hmode⟩ :=
    isInner_of_derives hcuts hno hbreak (hroot.isClosed htypes)
  have hspreads := hgap.spreads hcuts hno hbreak hroot
  rw [split_spread_eq_iff hx hword hinner hmode hopen hbreak hspreads]
  have hfront (f g : List Char) : slice 0 (byteSize f) (f ++ g) = f := slice_append [] f g
  constructor
  · intro h op t ht hop hmem
    obtain ⟨f, g, rfl, hin, hstart, -⟩ := exists_operatorIn hcuts hno hbreak hroot hop ht
    obtain ⟨c, u, hsymbol⟩ := op.exists_symbol_eq_cons
    have hgoes := h f c (u ++ g) (by rw [hsymbol]; rfl) (hstart ▸ hmem)
    rw [goesOn_before_operator hx hin hno hspreads _ hsymbol, Bool.or_eq_true] at hgoes
    rw [hstart, hfront]
    tauto
  · intro h f c g he hmem
    obtain ⟨op, t, ht, hop, hp⟩ := hgap.exists_operator (List.ne_nil_of_mem hmem)
    obtain ⟨f', g', rfl, hin, hstart, hstop⟩ := exists_operatorIn hcuts hno hbreak hroot hop ht
    obtain hp | hp := hp
    · obtain ⟨rfl, hrest⟩ := append_inj_of_byteSize he (hstart.symm.trans hp.symm)
      obtain ⟨c', u, hsymbol⟩ := op.exists_symbol_eq_cons
      rw [hsymbol, List.cons_append, List.cons.injEq] at hrest
      obtain ⟨rfl, rfl⟩ := hrest
      have hcarried := h op t ht hop (hp ▸ hmem)
      rw [hstart, hfront] at hcarried
      rw [goesOn_before_operator hx hin hno hspreads _ hsymbol, Bool.or_eq_true]
      tauto
    · obtain ⟨rfl, rfl⟩ := append_inj_of_byteSize ((List.append_assoc ..).trans he)
        (hstop.symm.trans hp.symm)
      have hbehind := goesOn_behind_operator hx hin hno hspreads
      rw [← List.append_assoc] at hno hspreads
      rw [goesOn_eq_or hx hno hspreads, hbehind]
      exact .inr rfl

end Broken

/-- A difference on one line. -/
def difference : List Char := "a- b".toList

/-- The operator of the difference. -/
def minusToken : Lexeme := ⟨.sign .minus, ⟨1, 2, 1, 2⟩⟩

/-- The tokens of the difference. -/
def differenceTokens : Lexemes :=
  ⟨[⟨.ident "a", ⟨0, 1, 1, 1⟩⟩, minusToken, ⟨.ident "b", ⟨3, 4, 1, 4⟩⟩], ⟨4, 4, 1, 5⟩⟩

/-- The difference as an expression. -/
def differenceTree : Expr :=
  .binary .sub (.ident "a" ⟨0, 1, 1, 1⟩) (.ident "b" ⟨3, 4, 1, 4⟩) ⟨0, 4, 1, 1⟩

/-- A line break in front of the second token. -/
def breakBefore (p : Nat) : List Char := if p = 1 then ['\n'] else []

theorem isOperator_minusToken : differenceTree.IsOperator .sub minusToken :=
  ⟨_, _, _, .root, Nat.le_refl 1, Nat.le_succ 2⟩

theorem derives_differenceTree : Derives (.expr 0 differenceTree) differenceTokens.list := by
  have hoperand {level : Nat} (name : String) (span : Span) (h : level ≤ 9) :
      Derives (.expr level (.ident name span)) [⟨.ident name, span⟩] :=
    (Derives.ident name span).mono h (Nat.le_refl 9)
  have hbinary := Derives.binary (s := .minus) ⟨1, 2, 1, 2⟩ rfl
    (hoperand "a" ⟨0, 1, 1, 1⟩ (by decide)) (hoperand "b" ⟨3, 4, 1, 4⟩ (by decide))
  exact hbinary.mono (Nat.zero_le _) (by decide)

theorem aroundOperators_breakBefore :
    AroundOperators breakBefore differenceTree differenceTokens.list := by
  refine ⟨fun p => ?_, fun {p} hne => ?_⟩
  · unfold breakBefore
    split <;> rfl
  · refine ⟨.sub, minusToken, by simp [differenceTokens], isOperator_minusToken, .inl ?_⟩
    by_contra hp
    exact hne (if_neg hp)

/-- **A line that starts with a minus sign ends the assignment in front of it**, which is cut
short. -/
theorem split_assignment_difference :
    isIdentifier ['x'] = true ∧ Keyword.ofText? (String.ofList ['x']) = none ∧
      lex difference = .ok differenceTokens ∧ Expr.parse difference = .ok differenceTree ∧
      '\n' ∉ difference ∧ Uncommented .code difference ∧
      ClosedTypeArguments differenceTokens.list ∧
      AroundOperators breakBefore differenceTree differenceTokens.list ∧
      split "x = a\n- b;".toList 1 ≠ [⟨"x = a\n- b".toList, 1⟩] := by
  have hx : isIdentifier ['x'] = true := by decide
  have hword : Keyword.ofText? (String.ofList ['x']) = none := by decide
  have hlex : lex difference = .ok differenceTokens := by with_unfolding_all rfl
  have hparse : Expr.parse difference = .ok differenceTree := by
    rw [Expr.parse, hlex]
    exact whole_eq_ok_iff.2 derives_differenceTree
  have hbreak : '\n' ∉ difference := by decide
  have hno : Uncommented .code difference := by
    have hall : ∀ p ∈ classify .code difference, p.2 ≠ .comment := by decide +kernel
    exact hall
  have htypes : ClosedTypeArguments differenceTokens.list :=
    closedTypeArguments_of_forall (by simp [differenceTokens, minusToken])
  refine ⟨hx, hword, hlex, hparse, hbreak, hno, htypes, aroundOperators_breakBefore,
    fun hsplit => ?_⟩
  -- the text in front of the break does not go on by itself
  have hone := (split_assignment_eq_iff hx hword hlex hparse hbreak hno htypes
    aroundOperators_breakBefore 1).1 hsplit .sub minusToken (by simp [differenceTokens])
    isOperator_minusToken (by decide)
  revert hone
  decide +kernel

end SnippetRunner
