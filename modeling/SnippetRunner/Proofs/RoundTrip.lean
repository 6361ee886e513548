import SnippetRunner.Proofs.Derivations
import SnippetRunner.Proofs.Spelling

/-!
# Printing an expression and reading it back

`Expr.printed` writes an expression with single spaces between its tokens, and with parentheses only
around operands that bind less tightly than their place asks for. It is read back as the same tree,
up to spans (`exists_parse_printed`).

What is written is derived by the grammar (`Expr.isDerived`). The one place where this asks for
more than the levels of the grammar is a group that would be taken for a cast: no group that is
written has a single name in it (`castAt?_of_derives`).
-/

namespace SnippetRunner

open Text Lexer ExprParser

/-! ## Printing -/

/-- The token of a literal. -/
def Literal.token : Literal → Token
  | int n => .int n
  | long n => .long n
  | double x => .double x
  | string s => .string s
  | char c => .char c
  | bool b => .keyword (if b then .trueKw else .falseKw)
  | null => .keyword .nullKw

/-- The sign of an operator between operands. -/
def BinaryOp.sign : BinaryOp → Sign
  | add => .plus | sub => .minus | mul => .star | div => .slash | rem => .percent
  | eq => .equal | ne => .notEqual | lt => .less | le => .lessEqual | gt => .greater
  | ge => .greaterEqual
  | and => .andAnd | or => .orOr

/-- The sign of an operator before an operand. -/
def UnaryOp.sign : UnaryOp → Sign
  | neg => .minus | plus => .plus | not => .bang

/-- The name of a type that a cast converts to. -/
def CastTarget.typeName : CastTarget → String
  | int => "int" | long => "long" | floating => "double"

/-- The tokens of a name with points in it. -/
def typeTokens (name : String) : List Token :=
  match splitAtEach (· = '.') name.toList with
  | [] => []
  | part :: parts =>
    .ident (String.ofList part) :: parts.flatMap fun part =>
      [.sign .dot, .ident (String.ofList part)]

namespace Expr

/-- How tightly an expression binds. -/
def level : Expr → Nat
  | ternary .. => 0
  | binary op .. => op.level + 1
  | unary .. | cast .. => 7
  | method .. | field .. | index .. => 8
  | literal .. | ident .. | call .. | construct .. => 9

/-- The tokens of an operand, in parentheses if it binds less tightly than its place asks for. -/
def within (place : Nat) (e : Expr) (ts : List Token) : List Token :=
  if e.level < place then .sign .lparen :: ts ++ [.sign .rparen] else ts

mutual

/-- The tokens of an expression. -/
def tokens : Expr → List Token
  | literal v _ => [v.token]
  | ident name _ => [.ident name]
  | unary op e _ => .sign op.sign :: within 7 e e.tokens
  | binary op a b _ =>
    within (op.level + 1) a a.tokens ++ .sign op.sign :: within (op.level + 2) b b.tokens
  | ternary c a b _ =>
    within 1 c c.tokens ++ .sign .question :: a.tokens ++ .sign .colon :: b.tokens
  | cast target e _ =>
    .sign .lparen :: .ident target.typeName :: .sign .rparen :: within 7 e e.tokens
  | call name args _ => .ident name :: .sign .lparen :: argTokens args ++ [.sign .rparen]
  | method e name args _ =>
    within 8 e e.tokens ++ .sign .dot :: .ident name :: .sign .lparen :: argTokens args ++
      [.sign .rparen]
  | field e name _ => within 8 e e.tokens ++ [.sign .dot, .ident name]
  | index e i _ => within 8 e e.tokens ++ .sign .lbracket :: i.tokens ++ [.sign .rbracket]
  | construct name args _ =>
    .keyword .newKw :: typeTokens name ++ (.sign .lparen :: argTokens args ++ [.sign .rparen])

/-- The tokens of arguments, with commas between them. -/
def argTokens : List Expr → List Token
  | [] => []
  | [e] => e.tokens
  | e :: es => e.tokens ++ .sign .comma :: argTokens es

end

/-- The text of an expression: its tokens with single spaces between them. -/
def printed (e : Expr) : List Char := spaced e.tokens

end Expr

/-! ## What can be printed -/

/-- Whether the lexer may produce the literal. -/
def Literal.IsRead (v : Literal) : Prop :=
  ∃ source tokens, lex source = .ok tokens ∧ ∃ t ∈ tokens.list, literal? t.token = some v

/-- Whether a name is an identifier and no reserved word. -/
def IsName (name : String) : Prop := isIdentifier name.toList = true ∧ Keyword.ofText? name = none

/-- Whether a name is made of names with points between them. -/
def IsTypeName (name : String) : Prop :=
  ∀ part ∈ splitAtEach (· = '.') name.toList, IsName (String.ofList part)

namespace Expr

mutual

/-- Whether an expression can be printed: it has no double literals, its other literals are those
that the lexer may produce, and its names are names. -/
def IsPrintable : Expr → Prop
  | literal v _ => v.IsRead ∧ ∀ x, v ≠ .double x
  | ident name _ => IsName name
  | unary _ e _ => e.IsPrintable
  | binary _ a b _ => a.IsPrintable ∧ b.IsPrintable
  | ternary c a b _ => c.IsPrintable ∧ a.IsPrintable ∧ b.IsPrintable
  | cast _ e _ => e.IsPrintable
  | call name args _ => IsName name ∧ AllPrintable args
  | method e name args _ => e.IsPrintable ∧ IsName name ∧ AllPrintable args
  | field e name _ => e.IsPrintable ∧ IsName name
  | index e i _ => e.IsPrintable ∧ i.IsPrintable
  | construct name args _ => IsTypeName name ∧ AllPrintable args

/-- Whether all arguments can be printed. -/
def AllPrintable : List Expr → Prop
  | [] => True
  | e :: es => e.IsPrintable ∧ AllPrintable es

end

/-- The tree of an expression, without the places of its nodes. -/
def shape (e : Expr) : Expr := e.mapSpans fun _ => default

theorem shape_withSpan (e : Expr) (s : Span) : (e.withSpan s).shape = e.shape := by
  rw [shape, mapSpans_withSpan, shape]
  cases e <;> rfl

theorem level_shape (e : Expr) : e.shape.level = e.level := by
  cases e <;> simp [shape, mapSpans, level]

theorem level_le (e : Expr) : e.level ≤ 9 := by
  cases e with
  | binary op =>
    have hop := op.level_le
    simp only [level]
    omega
  | _ => simp [level]

end Expr

/-! ## Groups -/

namespace ExprParser

/-- What an expression of one token is. -/
theorem Derives.level_of_singleton {level : Nat} {e : Expr} {ts : List Lexeme}
    (h : Derives (.expr level e) ts) (hone : ts.length = 1) : e.level = 9 := by
  generalize hp : Part.expr level e = p at h
  induction h generalizing level e with
  | noArgs => cases hp
  | lastArg => cases hp
  | moreArgs => cases hp
  | loosen _ _ ih => cases hp; exact ih hone rfl
  | literal => cases hp; rfl
  | ident => cases hp; rfl
  | unary _ _ h =>
    have hpos := h.pos
    rw [List.length_cons] at hone
    omega
  | binary _ _ h _ =>
    have hpos := h.pos
    rw [List.length_append, List.length_cons] at hone
    omega
  | _ =>
    simp only [List.length_append, List.length_cons] at hone
    omega

/-- Tokens that do not start with a name and a closing parenthesis. -/
def NoNameInParens (ts : List Lexeme) : Prop :=
  ∀ name span t us, ts = ⟨.ident name, span⟩ :: t :: us → t.token ≠ .sign .rparen

theorem NoNameInParens.append {ts us : List Lexeme} {t : Lexeme} (h : NoNameInParens ts)
    (hpos : 0 < ts.length) (ht : t.token ≠ .sign .rparen) : NoNameInParens (ts ++ t :: us) := by
  intro name span t' vs heq
  match ts, hpos with
  | [x], _ =>
    obtain ⟨rfl, -⟩ := (List.cons.inj (List.cons.inj heq).2)
    exact ht
  | x :: y :: ts, _ =>
    obtain ⟨rfl, htail⟩ := List.cons.inj heq
    obtain ⟨rfl, -⟩ := List.cons.inj htail
    exact h name span y ts rfl

/-- No expression is followed by a closing parenthesis in its own tokens. -/
theorem Derives.noNameInParens {level : Nat} {e : Expr} {ts : List Lexeme}
    (h : Derives (.expr level e) ts) : NoNameInParens ts := by
  generalize hp : Part.expr level e = p at h
  induction h generalizing level e with
  | noArgs => cases hp
  | lastArg => cases hp
  | moreArgs => cases hp
  | loosen _ _ ih => exact ih rfl
  | literal => exact nofun
  | ident => exact nofun
  | group => exact nofun
  | call => rintro _ _ _ _ ⟨⟩; exact nofun
  | construct => exact nofun
  | field _ _ _ h ih => exact (ih rfl).append h.pos nofun
  | method _ _ _ _ _ h _ ih _ =>
    rw [List.append_assoc]
    exact (ih rfl).append h.pos nofun
  | index _ _ h _ ih _ =>
    rw [List.append_assoc]
    exact (ih rfl).append h.pos nofun
  | unary => exact nofun
  | cast => exact nofun
  | @binary op _ _ _ _ s _ hop h _ ih _ =>
    refine (ih rfl).append h.pos ?_
    rintro ⟨⟩
    cases hop
  | ternary _ _ h _ _ ih _ _ =>
    rw [List.append_assoc]
    exact (ih rfl).append h.pos nofun

/-- A group with more than one token in it is no cast. -/
theorem castAt?_of_derives {level : Nat} {e : Expr} {ts : List Lexeme}
    (h : Derives (.expr level e) ts) (hlevel : e.level < 9) (opening closing : Span) :
    castAt? (⟨.sign .lparen, opening⟩ :: ts ++ [⟨.sign .rparen, closing⟩]) = none := by
  unfold castAt?
  split
  · next hcast =>
    exfalso
    match ts, h with
    | [], h => exact absurd h.pos (Nat.lt_irrefl 0)
    | [t], h => exact absurd (h.level_of_singleton rfl) (Nat.ne_of_lt hlevel)
    | t :: t' :: us, h =>
      simp only [List.cons_append, List.cons.injEq] at hcast
      obtain ⟨-, rfl, rfl, -⟩ := hcast
      exact h.noNameInParens _ _ _ _ rfl rfl
  · rfl

end ExprParser

/-! ## What is printed is derived -/

theorem exists_concat_of_map {token : Token} {tokens : List Token} {ts : List Lexeme}
    (h : ts.map Lexeme.token = tokens ++ [token]) :
    ∃ us span, ts = us ++ [⟨token, span⟩] ∧ us.map Lexeme.token = tokens := by
  obtain ⟨us, vs, rfl, hus, hvs⟩ := List.map_eq_append_iff.1 h
  obtain ⟨span, ws, rfl, hws⟩ := exists_cons_of_map hvs
  obtain rfl := List.map_eq_nil_iff.1 hws
  exact ⟨us, span, rfl, hus⟩

/-- The names between the points of a name make up the name. -/
theorem exists_splitAtEach (cs : List Char) :
    ∃ part parts, splitAtEach (· = '.') cs = part :: parts ∧
      part ++ parts.flatMap (fun part => '.' :: part) = cs := by
  induction cs with
  | nil => exact ⟨[], [], rfl, rfl⟩
  | cons c cs ih =>
    obtain ⟨part, parts, hparts, hjoin⟩ := ih
    rw [splitAtEach, hparts]
    by_cases hpoint : c = '.'
    · subst hpoint
      exact ⟨[], part :: parts, rfl, by simpa using hjoin⟩
    · exact ⟨c :: part, parts, by simp [hpoint, consPart], by rw [List.cons_append, hjoin]⟩

/-- Further names behind points spell a longer name. -/
theorem ExprParser.SpellsName.append {name : String} {ts us : List Lexeme} (h : SpellsName name ts)
    {parts : List (List Char)}
    (hus : us.map Lexeme.token =
      parts.flatMap fun part => [.sign .dot, .ident (String.ofList part)]) :
    SpellsName (name ++ String.ofList (parts.flatMap fun part => '.' :: part)) (ts ++ us) := by
  induction parts generalizing name ts us with
  | nil =>
    obtain rfl : us = [] := by simpa using hus
    simpa using h
  | cons part parts ih =>
    obtain ⟨point, us', rfl, hus'⟩ := exists_cons_of_map hus
    obtain ⟨span, us, rfl, hrest⟩ := exists_cons_of_map hus'
    have hlonger := ih (h.more point (String.ofList part) span) hrest
    have hname : name ++ "." ++ String.ofList part ++
        String.ofList (parts.flatMap fun part => '.' :: part) =
          name ++ String.ofList ((part :: parts).flatMap fun part => '.' :: part) := by
      apply String.toList_injective
      simp
    rw [hname] at hlonger
    simpa using hlonger

theorem spellsName_of_tokens {name : String} {ts : List Lexeme}
    (hts : ts.map Lexeme.token = typeTokens name) : SpellsName name ts := by
  obtain ⟨part, parts, hparts, hjoin⟩ := exists_splitAtEach name.toList
  rw [typeTokens, hparts] at hts
  obtain ⟨span, us, rfl, hus⟩ := exists_cons_of_map hts
  have hname := (SpellsName.one (String.ofList part) span).append hus
  rwa [← String.ofList_append, hjoin, String.ofList_toList] at hname

theorem literal?_token (v : Literal) : literal? v.token = some v := by
  cases v with
  | bool b => cases b <;> rfl
  | _ => rfl

theorem binaryOp?_sign (op : BinaryOp) : binaryOp? op.sign = some op := by cases op <;> rfl

theorem unaryOp?_sign (op : UnaryOp) : unaryOp? op.sign = some op := by cases op <;> rfl

theorem ofTypeName?_typeName (target : CastTarget) :
    CastTarget.ofTypeName? target.typeName = some target := by
  cases target <;> rfl

namespace Expr

/-- Whether such tokens are derived as the expression, up to spans. -/
def IsDerived (place : Nat) (e : Expr) (tokens : List Token) : Prop :=
  ∀ ts : List Lexeme, ts.map Lexeme.token = tokens →
    ∃ e', Derives (.expr place e') ts ∧ e'.shape = e.shape

/-- An operand is derived at its place. -/
theorem IsDerived.within {e : Expr} {tokens : List Token} (h : IsDerived e.level e tokens)
    {place : Nat} (hplace : place ≤ 9) : IsDerived place e (e.within place tokens) := by
  intro ts hts
  unfold Expr.within at hts
  split at hts
  · next hlevel =>
    obtain ⟨opening, us, rfl, hus⟩ := exists_cons_of_map hts
    obtain ⟨us, closing, rfl, hinner⟩ := exists_concat_of_map hus
    obtain ⟨e', hderives, hshape⟩ := h us hinner
    have hsame : e'.level = e.level := by rw [← level_shape, hshape, level_shape]
    have hloose := hderives.mono (Nat.zero_le _) e.level_le
    have hgroup := Derives.group hloose (castAt?_of_derives hloose (by omega) opening closing)
    exact ⟨_, hgroup.mono hplace (Nat.le_refl 9), by rw [shape_withSpan, hshape]⟩
  · next hlevel =>
    obtain ⟨e', hderives, hshape⟩ := h ts hts
    exact ⟨e', hderives.mono (by omega) e.level_le, hshape⟩

theorem IsDerived.loosen {e : Expr} {tokens : List Token} (h : IsDerived e.level e tokens) :
    IsDerived 0 e tokens := by
  intro ts hts
  obtain ⟨e', hderives, hshape⟩ := h ts hts
  exact ⟨e', hderives.mono (Nat.zero_le _) e.level_le, hshape⟩

/-- Whether such tokens are derived as arguments, up to spans. -/
def AreDerived (es : List Expr) (tokens : List Token) : Prop :=
  ∀ ts : List Lexeme, ts.map Lexeme.token = tokens →
    ∃ es', Derives (.args es') ts ∧
      mapSpansAll (fun _ => default) es' = mapSpansAll (fun _ => default) es

/-! ### One production at a time -/

section Productions

variable {e a b c i : Expr} {args : List Expr}

theorem isDerived_literal (v : Literal) (s : Span) : IsDerived 9 (.literal v s) [v.token] := by
  intro ts hts
  obtain ⟨span, us, rfl, hus⟩ := exists_cons_of_map hts
  obtain rfl := List.map_eq_nil_iff.1 hus
  exact ⟨_, .literal (literal?_token v), rfl⟩

theorem isDerived_ident (name : String) (s : Span) :
    IsDerived 9 (.ident name s) [.ident name] := by
  intro ts hts
  obtain ⟨span, us, rfl, hus⟩ := exists_cons_of_map hts
  obtain rfl := List.map_eq_nil_iff.1 hus
  exact ⟨_, .ident name span, rfl⟩

theorem IsDerived.unary (he : IsDerived e.level e e.tokens) (op : UnaryOp) (s : Span) :
    IsDerived 7 (.unary op e s) (tokens (.unary op e s)) := by
  intro ts hts
  obtain ⟨span, us, rfl, hus⟩ := exists_cons_of_map hts
  obtain ⟨e', hderives, hshape⟩ := he.within (by decide) us hus
  exact ⟨_, .unary span (unaryOp?_sign op) hderives, by simpa [shape, mapSpans] using hshape⟩

theorem IsDerived.binary (ha : IsDerived a.level a a.tokens) (hb : IsDerived b.level b b.tokens)
    (op : BinaryOp) (s : Span) :
    IsDerived (op.level + 1) (.binary op a b s) (tokens (.binary op a b s)) := by
  intro ts hts
  have hlevel := op.level_le
  obtain ⟨as, us, rfl, has, hus⟩ := List.map_eq_append_iff.1 hts
  obtain ⟨span, bs, rfl, hbs⟩ := exists_cons_of_map hus
  obtain ⟨a', ha, hsame⟩ := ha.within (by omega) as has
  obtain ⟨b', hb, hsame'⟩ := hb.within (by omega) bs hbs
  exact ⟨_, .binary span (binaryOp?_sign op) ha hb, by
    simpa [shape, mapSpans] using ⟨hsame, hsame'⟩⟩

theorem IsDerived.ternary (hc : IsDerived c.level c c.tokens) (ha : IsDerived a.level a a.tokens)
    (hb : IsDerived b.level b b.tokens) (s : Span) :
    IsDerived 0 (.ternary c a b s) (tokens (.ternary c a b s)) := by
  intro ts hts
  obtain ⟨us, vs, rfl, hus, hvs⟩ := List.map_eq_append_iff.1 hts
  obtain ⟨cs, ws, rfl, hcs, hws⟩ := List.map_eq_append_iff.1 hus
  obtain ⟨question, as, rfl, has⟩ := exists_cons_of_map hws
  obtain ⟨colon, bs, rfl, hbs⟩ := exists_cons_of_map hvs
  obtain ⟨c', hc, hsame⟩ := hc.within (by decide) cs hcs
  obtain ⟨a', ha, hsame'⟩ := ha.loosen as has
  obtain ⟨b', hb, hsame''⟩ := hb.loosen bs hbs
  exact ⟨_, .ternary question colon hc ha hb, by
    simpa [shape, mapSpans] using ⟨hsame, hsame', hsame''⟩⟩

theorem IsDerived.cast (he : IsDerived e.level e e.tokens) (target : CastTarget) (s : Span) :
    IsDerived 7 (.cast target e s) (tokens (.cast target e s)) := by
  intro ts hts
  obtain ⟨opening, us, rfl, hus⟩ := exists_cons_of_map hts
  obtain ⟨span, vs, rfl, hvs⟩ := exists_cons_of_map hus
  obtain ⟨closing, ws, rfl, hws⟩ := exists_cons_of_map hvs
  obtain ⟨e', hderives, hshape⟩ := he.within (by decide) ws hws
  exact ⟨_, .cast opening span closing (ofTypeName?_typeName target) hderives, by
    simpa [shape, mapSpans] using hshape⟩

theorem AreDerived.call (hargs : AreDerived args (argTokens args)) (name : String) (s : Span) :
    IsDerived 9 (.call name args s) (tokens (.call name args s)) := by
  intro ts hts
  obtain ⟨span, us, rfl, hus⟩ := exists_cons_of_map hts
  obtain ⟨opening, vs, rfl, hvs⟩ := exists_cons_of_map hus
  obtain ⟨ws, closing, rfl, hws⟩ := exists_concat_of_map hvs
  obtain ⟨args', hargs, hsame⟩ := hargs ws hws
  exact ⟨_, .call name span opening closing hargs, by simpa [shape, mapSpans] using hsame⟩

theorem IsDerived.method (he : IsDerived e.level e e.tokens)
    (hargs : AreDerived args (argTokens args)) (name : String) (s : Span) :
    IsDerived 8 (.method e name args s) (tokens (.method e name args s)) := by
  intro ts hts
  obtain ⟨us, closing, rfl, hus⟩ := exists_concat_of_map hts
  obtain ⟨rs, vs, rfl, hrs, hvs⟩ := List.map_eq_append_iff.1 hus
  obtain ⟨point, ws, rfl, hws⟩ := exists_cons_of_map hvs
  obtain ⟨span, xs, rfl, hxs⟩ := exists_cons_of_map hws
  obtain ⟨opening, ys, rfl, hys⟩ := exists_cons_of_map hxs
  obtain ⟨e', hderives, hshape⟩ := he.within (by decide) rs hrs
  obtain ⟨args', hargs, hsame⟩ := hargs ys hys
  exact ⟨_, .method point name span opening closing hderives hargs, by
    simpa [shape, mapSpans] using ⟨hshape, hsame⟩⟩

theorem IsDerived.field (he : IsDerived e.level e e.tokens) (name : String) (s : Span) :
    IsDerived 8 (.field e name s) (tokens (.field e name s)) := by
  intro ts hts
  obtain ⟨rs, us, rfl, hrs, hus⟩ := List.map_eq_append_iff.1 hts
  obtain ⟨point, vs, rfl, hvs⟩ := exists_cons_of_map hus
  obtain ⟨span, ws, rfl, hws⟩ := exists_cons_of_map hvs
  obtain rfl := List.map_eq_nil_iff.1 hws
  obtain ⟨e', hderives, hshape⟩ := he.within (by decide) rs hrs
  exact ⟨_, .field point name span hderives, by simpa [shape, mapSpans] using hshape⟩

theorem IsDerived.index (he : IsDerived e.level e e.tokens) (hi : IsDerived i.level i i.tokens)
    (s : Span) : IsDerived 8 (.index e i s) (tokens (.index e i s)) := by
  intro ts hts
  obtain ⟨us, closing, rfl, hus⟩ := exists_concat_of_map hts
  obtain ⟨rs, vs, rfl, hrs, hvs⟩ := List.map_eq_append_iff.1 hus
  obtain ⟨opening, is, rfl, his⟩ := exists_cons_of_map hvs
  obtain ⟨e', hderives, hshape⟩ := he.within (by decide) rs hrs
  obtain ⟨i', hi, hsame⟩ := hi.loosen is his
  exact ⟨_, .index opening closing hderives hi, by
    simpa [shape, mapSpans] using ⟨hshape, hsame⟩⟩

theorem AreDerived.construct (hargs : AreDerived args (argTokens args)) (name : String) (s : Span) :
    IsDerived 9 (.construct name args s) (tokens (.construct name args s)) := by
  intro ts hts
  obtain ⟨span, us, rfl, hus⟩ := exists_cons_of_map hts
  obtain ⟨ns, vs, rfl, hns, hvs⟩ := List.map_eq_append_iff.1 hus
  obtain ⟨opening, ws, rfl, hws⟩ := exists_cons_of_map hvs
  obtain ⟨xs, closing, rfl, hxs⟩ := exists_concat_of_map hws
  obtain ⟨args', hargs, hsame⟩ := hargs xs hxs
  exact ⟨_, .construct span opening closing (spellsName_of_tokens hns) .none hargs, by
    simpa [shape, mapSpans] using hsame⟩

theorem areDerived_nil : AreDerived [] (argTokens []) := by
  intro ts hts
  obtain rfl := List.map_eq_nil_iff.1 hts
  exact ⟨[], .noArgs, rfl⟩

theorem IsDerived.areDerived_singleton (he : IsDerived e.level e e.tokens) :
    AreDerived [e] (argTokens [e]) := by
  intro ts hts
  obtain ⟨e', hderives, hshape⟩ := he.loosen ts hts
  exact ⟨[e'], .lastArg hderives, congrArg (fun e => [e]) hshape⟩

theorem AreDerived.cons (he : IsDerived e.level e e.tokens)
    (hargs : AreDerived (a :: args) (argTokens (a :: args))) :
    AreDerived (e :: a :: args) (argTokens (e :: a :: args)) := by
  intro ts hts
  obtain ⟨us, vs, rfl, hus, hvs⟩ := List.map_eq_append_iff.1 hts
  obtain ⟨comma, ws, rfl, hws⟩ := exists_cons_of_map hvs
  obtain ⟨e', hderives, hshape⟩ := he.loosen us hus
  obtain ⟨args', hlater, hsame⟩ := hargs ws hws
  cases args' with
  | nil => simp [mapSpansAll] at hsame
  | cons a' args' =>
    exact ⟨_, .moreArgs comma hderives hlater, congrArg₂ List.cons hshape hsame⟩

end Productions

mutual

/-- **What is printed is derived by the grammar.** -/
theorem isDerived : ∀ e : Expr, IsDerived e.level e e.tokens
  | .literal v s => isDerived_literal v s
  | .ident name s => isDerived_ident name s
  | .unary op e s => (isDerived e).unary op s
  | .binary op a b s => (isDerived a).binary (isDerived b) op s
  | .ternary c a b s => (isDerived c).ternary (isDerived a) (isDerived b) s
  | .cast target e s => (isDerived e).cast target s
  | .call name args s => (areDerived args).call name s
  | .method e name args s => (isDerived e).method (areDerived args) name s
  | .field e name s => (isDerived e).field name s
  | .index e i s => (isDerived e).index (isDerived i) s
  | .construct name args s => (areDerived args).construct name s

/-- What is printed for arguments is derived by the grammar. -/
theorem areDerived : ∀ es : List Expr, AreDerived es (argTokens es)
  | [] => areDerived_nil
  | [e] => (isDerived e).areDerived_singleton
  | e :: next :: es => .cons (isDerived e) (areDerived (next :: es))

end

/-! ## What is printed is spelled -/

/-- The literals that the lexer may produce are those with a spelling, doubles aside. -/
theorem isRead_iff {v : Literal} (hdouble : ∀ x, v ≠ .double x) :
    v.IsRead ↔ v.token.IsSpelled := by
  refine ⟨?_, fun h => ?_⟩
  rotate_left
  · have hspelled : ∀ t ∈ [v.token], t.IsSpelled := by simpa using h
    obtain ⟨ps, hcuts, htokens⟩ := exists_cuts_spaced hspelled
    have hplaced := map_token_place .start ps
    rw [htokens] at hplaced
    obtain ⟨span, us, hplace, -⟩ := exists_cons_of_map hplaced
    exact ⟨_, _, lex_of_cuts hcuts, ⟨v.token, span⟩, by rw [hplace]; exact List.mem_cons_self,
      literal?_token v⟩
  rintro ⟨source, tokens, hlex, t, ht, hv⟩
  obtain ⟨ps, hcuts, rfl⟩ := exists_cuts_of_lex hlex
  obtain ⟨qs, q, rs, rfl, htoken, -⟩ := mem_place_iff.1 ht
  obtain ⟨mid, -, hq⟩ := hcuts.exists_mid
  have hsame : ∀ t : Token, literal? t = some v → t = v.token := by
    intro t ht
    cases t with
    | keyword k => cases k <;> simp [literal?] at ht <;> (subst ht; rfl)
    | _ => simp [literal?] at ht <;> (subst ht; rfl)
  cases hq with
  | blank => simp at htoken
  | token hstep =>
    obtain rfl := Option.some.inj htoken
    rw [← hsame _ hv]
    refine isSpelled_of_step hstep fun x hx => hdouble x ?_
    rw [hx] at hv
    exact (Option.some.inj hv).symm

theorem isSpelled_typeTokens {name : String} (h : IsTypeName name) :
    ∀ t ∈ typeTokens name, t.IsSpelled := by
  intro t ht
  unfold typeTokens at ht
  unfold IsTypeName at h
  cases hparts : splitAtEach (· = '.') name.toList with
  | nil => simp [hparts] at ht
  | cons part parts =>
    rw [hparts] at ht h
    rcases List.mem_cons.1 ht with rfl | ht
    · exact h part List.mem_cons_self
    · obtain ⟨later, hlater, hmem⟩ := List.mem_flatMap.1 ht
      rcases List.mem_cons.1 hmem with rfl | hmem
      · trivial
      · obtain rfl := List.mem_singleton.1 hmem
        exact h later (List.mem_cons_of_mem part hlater)

theorem isSpelled_within {place : Nat} {e : Expr} {tokens : List Token}
    (h : ∀ t ∈ tokens, t.IsSpelled) : ∀ t ∈ within place e tokens, t.IsSpelled := by
  intro t ht
  unfold within at ht
  split at ht
  · simp only [List.mem_append, List.mem_cons, List.not_mem_nil, or_false] at ht
    rcases ht with (rfl | ht) | rfl
    exacts [trivial, h t ht, trivial]
  · exact h t ht

mutual

/-- The tokens of an expression that can be printed have spellings. -/
theorem isSpelled_tokens : ∀ e : Expr, e.IsPrintable → ∀ t ∈ e.tokens, t.IsSpelled
  | .literal v s, h => by
    rw [tokens, List.forall_mem_singleton]
    exact (isRead_iff h.2).1 h.1
  | .ident name s, h => by
    rw [tokens, List.forall_mem_singleton]
    exact h
  | .unary op e s, h => by
    rw [tokens, List.forall_mem_cons]
    exact ⟨trivial, isSpelled_within (isSpelled_tokens e h)⟩
  | .binary op a b s, h => by
    rw [tokens, List.forall_mem_append, List.forall_mem_cons]
    exact ⟨isSpelled_within (isSpelled_tokens a h.1), trivial,
      isSpelled_within (isSpelled_tokens b h.2)⟩
  | .ternary c a b s, h => by
    simp only [tokens, List.forall_mem_append, List.forall_mem_cons]
    exact ⟨⟨isSpelled_within (isSpelled_tokens c h.1), trivial, isSpelled_tokens a h.2.1⟩, trivial,
      isSpelled_tokens b h.2.2⟩
  | .cast target e s, h => by
    simp only [tokens, List.forall_mem_cons]
    exact ⟨trivial, by cases target <;> exact ⟨by decide, by decide⟩, trivial,
      isSpelled_within (isSpelled_tokens e h)⟩
  | .call name args s, h => by
    simp only [tokens, List.forall_mem_append, List.forall_mem_cons]
    exact ⟨⟨h.1, trivial, isSpelled_argTokens args h.2⟩, trivial, nofun⟩
  | .method e name args s, h => by
    simp only [tokens, List.forall_mem_append, List.forall_mem_cons]
    exact ⟨⟨isSpelled_within (isSpelled_tokens e h.1), trivial, h.2.1, trivial,
      isSpelled_argTokens args h.2.2⟩, trivial, nofun⟩
  | .field e name s, h => by
    simp only [tokens, List.forall_mem_append, List.forall_mem_cons]
    exact ⟨isSpelled_within (isSpelled_tokens e h.1), trivial, h.2, nofun⟩
  | .index e i s, h => by
    simp only [tokens, List.forall_mem_append, List.forall_mem_cons]
    exact ⟨⟨isSpelled_within (isSpelled_tokens e h.1), trivial, isSpelled_tokens i h.2⟩, trivial,
      nofun⟩
  | .construct name args s, h => by
    simp only [tokens, List.forall_mem_append, List.forall_mem_cons]
    exact ⟨⟨trivial, isSpelled_typeTokens h.1⟩, ⟨trivial, isSpelled_argTokens args h.2⟩, trivial,
      nofun⟩

/-- The tokens of arguments that can be printed have spellings. -/
theorem isSpelled_argTokens : ∀ es : List Expr, AllPrintable es → ∀ t ∈ argTokens es, t.IsSpelled
  | [], _ => nofun
  | [e], h => isSpelled_tokens e h.1
  | e :: next :: es, h => by
    rw [argTokens, List.forall_mem_append, List.forall_mem_cons]
    · exact ⟨isSpelled_tokens e h.1, trivial, isSpelled_argTokens (next :: es) h.2⟩
    · exact nofun

end

/-! ## The round trip -/

/-- **An expression that is printed is read back as the same tree**, up to spans. -/
theorem exists_parse_printed {e : Expr} (h : e.IsPrintable) :
    ∃ e', Expr.parse e.printed = .ok e' ∧ e'.shape = e.shape := by
  obtain ⟨ps, hcuts, htokens⟩ := exists_cuts_spaced (isSpelled_tokens e h)
  obtain ⟨e', hderives, hshape⟩ := (isDerived e).loosen (place .start ps)
    (by rw [map_token_place, htokens])
  refine ⟨e', ?_, hshape⟩
  rw [printed, Expr.parse, lex_of_cuts hcuts]
  exact whole_of_derives hderives

/-- A product of a sum and a negated name. -/
def groupTimesNegation : Expr :=
  .binary .mul (.binary .add (.ident "a" default) (.literal (.int (-1)) default) default)
    (.unary .neg (.ident "b" default) default) default

example : groupTimesNegation.printed = "( a + 0xffffffff ) * - b".toList := by decide

/-- The product is read back. -/
theorem exists_parse_groupTimesNegation :
    ∃ e', Expr.parse groupTimesNegation.printed = .ok e' ∧ e'.shape = groupTimesNegation.shape := by
  have hdouble (x : Float) : Literal.int (-1) ≠ .double x := Literal.noConfusion
  have hliteral : (Literal.int (-1)).IsRead := (isRead_iff hdouble).2 ⟨by decide, by decide⟩
  exact exists_parse_printed
    ⟨⟨⟨by decide, by decide⟩, hliteral, hdouble⟩, by decide, by decide⟩

end Expr

end SnippetRunner
