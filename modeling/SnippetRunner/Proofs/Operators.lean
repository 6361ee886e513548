import SnippetRunner.Proofs.Nodes
import SnippetRunner.Proofs.Tiling

/-!
# Operators among the tokens of an expression

An expression closes the brackets it opens, and has no semicolons and no braces, if that is so of
its type arguments (`Derives.isClosed`); these are skipped by the parser, whatever stands in them.

The operator of a node is the token between the two operands (`Expr.IsOperator`). It is a sign with
the spelling of the operator, and the token in front of it ends an operand
(`IsOperator.exists_place`).
-/

namespace SnippetRunner

open Text Lexer Grammar

/-! ## Closed brackets -/

/-- The parentheses and brackets that are open behind a token. -/
def Token.parensAfter (parens : Nat) : Token → Nat
  | .sign .lparen | .sign .lbracket => parens + 1
  | .sign .rparen | .sign .rbracket => parens - 1
  | _ => parens

/-- Whether a token is a semicolon or a brace. -/
def Token.IsDelimiter (t : Token) : Prop :=
  t = .sign .semicolon ∨ t = .sign .lbrace ∨ t = .sign .rbrace

/-- Whether a token can end an operand: it is no sign but a closing one. -/
def Token.EndsOperand (t : Token) : Prop := ∀ s, t = .sign s → s = .rparen ∨ s = .rbracket

/-- Whether a token is neither a bracket nor a semicolon. -/
def Token.isFlat : Token → Bool
  | .sign s => s ∉ [Sign.semicolon, .lbrace, .rbrace, .lparen, .rparen, .lbracket, .rbracket]
  | _ => true

/-- Tokens without semicolons and braces that close the parentheses and brackets they open. -/
structure IsClosed (ts : List Lexeme) : Prop where
  not_isDelimiter : ∀ t ∈ ts, ¬ t.token.IsDelimiter
  parens_eq : ∀ parens, (ts.map Lexeme.token).foldl Token.parensAfter parens = parens

namespace IsClosed

variable {ts us : List Lexeme}

theorem nil : IsClosed [] := ⟨nofun, fun _ => rfl⟩

theorem append (h : IsClosed ts) (h' : IsClosed us) : IsClosed (ts ++ us) := by
  refine ⟨fun t ht => ?_, fun parens => ?_⟩
  · exact (List.mem_append.1 ht).elim (h.not_isDelimiter t) (h'.not_isDelimiter t)
  · rw [List.map_append, List.foldl_append, h.parens_eq, h'.parens_eq]

theorem one {t : Token} (ht : t.isFlat = true) (span : Span) : IsClosed [⟨t, span⟩] := by
  refine ⟨fun u hu => ?_, fun parens => ?_⟩
  · rw [List.mem_singleton.1 hu]
    rintro (rfl | rfl | rfl) <;> exact absurd ht (by decide)
  · cases t with
    | sign s => cases s <;> first | rfl | exact absurd ht (by decide)
    | _ => rfl

theorem not_isDelimiter_group (h : ∀ t ∈ ts, ¬ t.token.IsDelimiter) {s r : Sign}
    (hs : (s, r) ∈ [(Sign.lparen, Sign.rparen), (.lbracket, .rbracket)]) (opening closing : Span) :
    ∀ t ∈ ⟨.sign s, opening⟩ :: ts ++ [⟨.sign r, closing⟩], ¬ t.token.IsDelimiter := by
  have hsigns : ((s, r) = (.lparen, .rparen)) ∨ ((s, r) = (.lbracket, .rbracket)) := by
    simpa using hs
  intro t ht
  rw [List.mem_append, List.mem_cons, List.mem_singleton] at ht
  obtain (rfl | ht) | rfl := ht
  · obtain ⟨rfl, rfl⟩ | ⟨rfl, rfl⟩ := hsigns.imp Prod.mk.inj Prod.mk.inj <;>
      simp [Token.IsDelimiter]
  · exact h t ht
  · obtain ⟨rfl, rfl⟩ | ⟨rfl, rfl⟩ := hsigns.imp Prod.mk.inj Prod.mk.inj <;>
      simp [Token.IsDelimiter]

/-- What stands in parentheses or in brackets. -/
theorem group (h : IsClosed ts) {s r : Sign}
    (hs : (s, r) ∈ [(Sign.lparen, Sign.rparen), (.lbracket, .rbracket)]) (opening closing : Span) :
    IsClosed (⟨.sign s, opening⟩ :: ts ++ [⟨.sign r, closing⟩]) := by
  have hsigns : ((s, r) = (.lparen, .rparen)) ∨ ((s, r) = (.lbracket, .rbracket)) := by
    simpa using hs
  refine ⟨not_isDelimiter_group h.not_isDelimiter hs opening closing, fun parens => ?_⟩
  obtain ⟨rfl, rfl⟩ | ⟨rfl, rfl⟩ := hsigns.imp Prod.mk.inj Prod.mk.inj <;>
    simp [h.parens_eq, Token.parensAfter]

end IsClosed

namespace ExprParser

variable {ts us front back : List Lexeme}

/-- Whether all type arguments of constructor calls close the brackets they open. -/
def ClosedTypeArguments (ts : List Lexeme) : Prop :=
  ∀ front span name ns gs back, ts = front ++ (⟨.keyword .newKw, span⟩ :: ns ++ (gs ++ back)) →
    SpellsName name ns → TypeArguments gs → IsClosed gs

/-- Whether the type arguments of all constructor calls have a property. -/
def EachTypeArguments (P : List Lexeme → Prop) (ts : List Lexeme) : Prop :=
  ∀ front span name ns gs back, ts = front ++ (⟨.keyword .newKw, span⟩ :: ns ++ (gs ++ back)) →
    SpellsName name ns → TypeArguments gs → P gs

namespace EachTypeArguments

variable {P : List Lexeme → Prop}

theorem left (h : EachTypeArguments P (ts ++ us)) : EachTypeArguments P ts := by
  rintro front span name ns gs back rfl
  exact h front span name ns gs (back ++ us) (by simp)

theorem right (h : EachTypeArguments P (ts ++ us)) : EachTypeArguments P us := by
  rintro front span name ns gs back rfl
  exact h (ts ++ front) span name ns gs back (by simp)

theorem tail {t : Lexeme} (h : EachTypeArguments P (t :: ts)) : EachTypeArguments P ts :=
  right (show EachTypeArguments P ([t] ++ ts) from h)

theorem of_forall (h : ∀ t ∈ ts, t.token ≠ .keyword .newKw) : EachTypeArguments P ts := by
  rintro front span name ns gs back rfl
  exact absurd rfl (h ⟨.keyword .newKw, span⟩ (by simp))

end EachTypeArguments

theorem closedTypeArguments_of_forall (h : ∀ t ∈ ts, t.token ≠ .keyword .newKw) :
    ClosedTypeArguments ts :=
  EachTypeArguments.of_forall h

/-- A property of tokens that is put together as brackets are: of single tokens that are no
brackets, of groups, and one behind another. -/
structure IsBracketwise (P : List Lexeme → Prop) : Prop where
  nil : P []
  append {ts us : List Lexeme} : P ts → P us → P (ts ++ us)
  one {t : Token} : t.isFlat = true → ∀ span, P [⟨t, span⟩]
  group {ts : List Lexeme} {s r : Sign} : P ts →
    (s, r) ∈ [(Sign.lparen, Sign.rparen), (.lbracket, .rbracket)] →
    ∀ opening closing, P (⟨.sign s, opening⟩ :: ts ++ [⟨.sign r, closing⟩])

theorem isBracketwise_isClosed : IsBracketwise IsClosed where
  nil := .nil
  append := .append
  one := .one
  group h hs opening closing := h.group hs opening closing

namespace IsBracketwise

variable {P : List Lexeme → Prop}

theorem cons (hP : IsBracketwise P) {t : Lexeme} (h : P [t]) (h' : P ts) : P (t :: ts) :=
  hP.append h h'

theorem name (hP : IsBracketwise P) {name : String} (h : SpellsName name ts) : P ts := by
  induction h with
  | one name span => exact hP.one rfl span
  | more point part span _ ih =>
    exact hP.append ih (hP.cons (hP.one rfl point) (hP.one rfl span))

/-- **The tokens of an expression are put together as brackets are**, if its type arguments are. -/
theorem derives (hP : IsBracketwise P) {p : Part} (h : Derives p ts)
    (htypes : EachTypeArguments P ts) : P ts := by
  induction h with
  | @literal t value hvalue =>
    refine hP.one ?_ t.span
    cases ht : t.token with
    | sign s => exact absurd hvalue (by simp [ht, literal?])
    | _ => rfl
  | ident name span => exact hP.one rfl span
  | group _ _ ih => exact hP.group (ih htypes.left.tail) (by decide) _ _
  | call name span opening closing _ ih =>
    exact hP.cons (hP.one rfl span)
      (hP.group (ih htypes.left.tail.tail) (by decide) opening closing)
  | @construct name ns gs ts es span opening closing hname hgs _ ih =>
    have hlist : P gs := htypes [] span name ns gs
      (⟨.sign .lparen, opening⟩ :: ts ++ [⟨.sign .rparen, closing⟩]) (by simp) hname hgs
    have hargs : EachTypeArguments P ts := htypes.right.left.right.tail
    have hgroup := hP.group (ih hargs) (s := .lparen) (r := .rparen) (by decide) opening closing
    have hname' := hP.cons (hP.one (t := .keyword .newKw) rfl span) (hP.name hname)
    simpa using hP.append hname' (hP.append hlist hgroup)
  | field point name span _ ih =>
    exact hP.append (ih htypes.left) (hP.cons (hP.one rfl point) (hP.one rfl span))
  | @method e es rs ts point name span opening closing _ _ ih ihargs =>
    have hargs : EachTypeArguments P ts := htypes.left.right.tail.tail.tail
    have hgroup := hP.group (ihargs hargs) (s := .lparen) (r := .rparen) (by decide) opening closing
    have hmethod := hP.append (ih htypes.left.left)
      (hP.cons (hP.one (t := .sign .dot) rfl point)
        (hP.cons (hP.one (t := .ident name) rfl span) hgroup))
    simpa using hmethod
  | @index e i rs ts opening closing _ _ ih ihposition =>
    have hposition : EachTypeArguments P ts := htypes.left.right.tail
    have hgroup := hP.group (ihposition hposition) (s := .lbracket) (r := .rbracket) (by decide)
      opening closing
    simpa using hP.append (ih htypes.left.left) hgroup
  | @unary op e ts s span hop _ ih =>
    have hflat : (Token.sign s).isFlat = true := by cases s <;> cases hop <;> rfl
    exact hP.cons (hP.one hflat span) (ih htypes.tail)
  | @cast target e ts name opening span closing _ _ ih =>
    have hgroup := hP.group (hP.one (t := .ident name) rfl span) (s := .lparen)
      (r := .rparen) (by decide) opening closing
    exact hP.append hgroup (ih htypes.tail.tail.tail)
  | @binary op a b as bs s span hop _ _ ih ihright =>
    have hflat : (Token.sign s).isFlat = true := by cases s <;> cases hop <;> rfl
    exact hP.append (ih htypes.left) (hP.cons (hP.one hflat span) (ihright htypes.right.tail))
  | @ternary c a b cs as bs question colon _ _ _ ih ihyes ihno =>
    have hyes := hP.cons (hP.one (t := .sign .question) rfl question)
      (ihyes htypes.left.right.tail)
    have hno := hP.cons (hP.one (t := .sign .colon) rfl colon) (ihno htypes.right.tail)
    exact hP.append (hP.append (ih htypes.left.left) hyes) hno
  | loosen _ _ ih => exact ih htypes
  | noArgs => exact hP.nil
  | lastArg _ ih => exact ih htypes
  | moreArgs comma _ _ ih ihlater =>
    exact hP.append (ih htypes.left) (hP.cons (hP.one rfl comma) (ihlater htypes.right.tail))

end IsBracketwise

/-- **An expression closes the brackets it opens**, if its type arguments do. -/
theorem Derives.isClosed {p : Part} (h : Derives p ts) (htypes : ClosedTypeArguments ts) :
    IsClosed ts :=
  isBracketwise_isClosed.derives h htypes

/-! ## Operators and their operands -/

/-- An expression ends with a token that can end an operand. -/
theorem Derives.exists_last {level : Nat} {e : Expr} (h : Derives (.expr level e) ts) :
    ∃ us t, ts = us ++ [t] ∧ t.token.EndsOperand := by
  have happend (xs : List Lexeme) {ys : List Lexeme}
      (h : ∃ us t, ys = us ++ [t] ∧ t.token.EndsOperand) :
      ∃ us t, xs ++ ys = us ++ [t] ∧ t.token.EndsOperand := by
    obtain ⟨us, t, rfl, ht⟩ := h
    exact ⟨xs ++ us, t, by rw [List.append_assoc], ht⟩
  have hone {t : Lexeme} (ht : t.token.EndsOperand) :
      ∃ us u, [t] = us ++ [u] ∧ u.token.EndsOperand := ⟨[], t, rfl, ht⟩
  generalize hp : Part.expr level e = p at h
  induction h generalizing level e with
  | noArgs | lastArg | moreArgs => cases hp
  | @literal t value hvalue =>
    exact hone fun s hs => absurd hvalue (by simp [hs, literal?])
  | ident => exact hone fun s hs => absurd hs Token.noConfusion
  | group | call | method => exact happend _ (hone (by simp [Token.EndsOperand]))
  | construct => exact happend _ (happend _ (hone (by simp [Token.EndsOperand])))
  | index => exact happend _ (hone (by simp [Token.EndsOperand]))
  | field => exact happend _ (happend [_] (hone (by simp [Token.EndsOperand])))
  | unary _ _ _ ih => exact happend [_] (ih rfl)
  | cast _ _ _ _ _ ih => exact happend [_, _, _] (ih rfl)
  | binary _ _ _ _ _ ih => exact happend _ (happend [_] (ih rfl))
  | ternary _ _ _ _ _ _ _ ih => exact happend _ (happend [_] (ih rfl))
  | loosen _ _ ih =>
    cases hp
    exact ih rfl

/-- A binary node is spelled by two operands with its operator between them, perhaps in
parentheses. -/
theorem Derives.exists_operator {level : Nat} {op : BinaryOp} {a b : Expr} {s : Span}
    (h : Derives (.expr level (.binary op a b s)) ts) :
    ∃ front as sign span bs back, ts = front ++ (as ++ ⟨.sign sign, span⟩ :: bs) ++ back ∧
      binaryOp? sign = some op ∧ Derives (.expr 0 a) as ∧ Derives (.expr 0 b) bs := by
  generalize hp : Part.expr level (.binary op a b s) = p at h
  induction h generalizing level s with
  | @group e ts opening closing _ _ ih =>
    cases e with
    | binary op' a' b' s' =>
      cases hp
      obtain ⟨front, as, sign, span, bs, back, rfl, hrest⟩ := ih rfl
      exact ⟨⟨.sign .lparen, opening⟩ :: front, as, sign, span, bs,
        back ++ [⟨.sign .rparen, closing⟩], by simp, hrest⟩
    | _ => cases hp
  | @binary op' a' b' as bs sign span hop ha hb _ _ =>
    cases hp
    have hlevel := op.level_le
    exact ⟨[], as, sign, span, bs, [], by simp, hop, ha.mono (Nat.zero_le _) (by omega),
      hb.mono (Nat.zero_le _) (by omega)⟩
  | loosen _ _ ih =>
    cases hp
    exact ih rfl
  | _ => cases hp

end ExprParser

open ExprParser

/-- A token between the two operands of a binary node. -/
def Expr.IsOperator (root : Expr) (op : BinaryOp) (t : Lexeme) : Prop :=
  ∃ a b s, root.IsNode (.binary op a b s) ∧ a.span.stop ≤ t.span.start ∧
    t.span.stop ≤ b.span.start

/-- Of tokens that stand one behind the other the one at hand is between two neighbours. -/
theorem eq_of_between {front back : List Lexeme} {last mid first t : Lexeme}
    (hapart : Apart (front ++ last :: mid :: first :: back))
    (ht : t ∈ front ++ last :: mid :: first :: back) (hne : t.span.start < t.span.stop)
    (hstart : last.span.stop ≤ t.span.start) (hstop : t.span.stop ≤ first.span.start) :
    t = mid := by
  rw [List.mem_append, List.mem_cons, List.mem_cons, List.mem_cons] at ht
  obtain hfront | rfl | rfl | rfl | hback := ht
  · have hbefore : t.span.stop ≤ last.span.start := hapart.stop_le_start hfront List.mem_cons_self
    have hlast := hapart.start_le last (by simp)
    omega
  · omega
  · rfl
  · omega
  · have hbehind : first.span.stop ≤ t.span.start := by
      have hsplit : front ++ last :: mid :: first :: back =
          (front ++ [last, mid, first]) ++ back := by simp
      exact (hsplit ▸ hapart).stop_le_start (by simp) hback
    have hfirst := hapart.start_le first (by simp)
    omega

/-- **The operator of a node is a sign that spells it**, behind a token that ends an operand and in
front of another one. -/
theorem Expr.IsOperator.exists_place {root : Expr} {op : BinaryOp} {t : Lexeme}
    (h : root.IsOperator op t) {ts : List Lexeme} (hroot : Derives (.expr 0 root) ts)
    (hapart : Apart ts) (hnonempty : ∀ u ∈ ts, u.span.start < u.span.stop) (ht : t ∈ ts) :
    ∃ front last sign first back, ts = front ++ last :: t :: first :: back ∧
      t.token = .sign sign ∧ binaryOp? sign = some op ∧ last.token.EndsOperand := by
  obtain ⟨a, b, s, hnode, hstart, hstop⟩ := h
  obtain ⟨front, us, back, rfl, hus⟩ := hnode.exists_stretch hroot
  obtain ⟨front', as, sign, span, bs, back', rfl, hop, has, hbs⟩ := hus.exists_operator
  have hinner := hapart.stretch.stretch
  obtain ⟨_, last, -, hlast, haspan⟩ := has.extent (hinner.sublist (List.sublist_append_left _ _))
  obtain ⟨first, _, hfirst, -, hbspan⟩ := hbs.extent
    (hinner.sublist ((List.sublist_cons_self _ _).trans (List.sublist_append_right as _)))
  rw [haspan] at hstart
  rw [hbspan] at hstop
  obtain ⟨as', last', rfl, hends⟩ := has.exists_last
  obtain rfl : last' = last := by simpa using hlast
  obtain ⟨bs', rfl⟩ := List.head?_eq_some_iff.1 hfirst
  have hshape : front ++ (front' ++ (as' ++ [last'] ++ ⟨.sign sign, span⟩ :: first :: bs') ++
      back') ++ back = (front ++ front' ++ as') ++ last' :: ⟨.sign sign, span⟩ :: first ::
        (bs' ++ back' ++ back) := by simp
  have hne := hnonempty t ht
  rw [hshape] at hapart ht ⊢
  obtain rfl := eq_of_between hapart ht hne hstart hstop
  exact ⟨_, _, sign, _, _, rfl, rfl, hop, hends⟩

end SnippetRunner
