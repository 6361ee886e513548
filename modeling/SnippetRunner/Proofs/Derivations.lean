import Mathlib.Tactic.Common
import SnippetRunner.Expr.Parser

/-!
# The grammar of expressions

`Derives` is the grammar that the readers of expressions follow: which tokens spell which tree, at
which level. A level is a number: 0 for expressions with `? :`, one more than `BinaryOp.level` for
binary operators, 7 for prefix operators and casts, 8 for suffixes, and 9 for what stands alone.

What the grammar derives is read, with the depth that `depthFor` allows and in front of whatever
does not go on with an expression of the level (`Derives.accepted`, `whole_of_derives`). There is
one lemma for each production, named for the reader that has to accept it.
-/

namespace SnippetRunner

open Grammar

theorem BinaryOp.level_le (op : BinaryOp) : op.level ≤ 5 := by cases op <;> decide

/-! ## Trees at other places -/

namespace Expr

mutual

/-- The same tree with all its spans changed. -/
def mapSpans (f : Span → Span) : Expr → Expr
  | literal v s => literal v (f s)
  | ident name s => ident name (f s)
  | unary op e s => unary op (e.mapSpans f) (f s)
  | binary op a b s => binary op (a.mapSpans f) (b.mapSpans f) (f s)
  | ternary c a b s => ternary (c.mapSpans f) (a.mapSpans f) (b.mapSpans f) (f s)
  | cast target e s => cast target (e.mapSpans f) (f s)
  | call name args s => call name (mapSpansAll f args) (f s)
  | method e name args s => method (e.mapSpans f) name (mapSpansAll f args) (f s)
  | field e name s => field (e.mapSpans f) name (f s)
  | index e i s => index (e.mapSpans f) (i.mapSpans f) (f s)
  | construct name args s => construct name (mapSpansAll f args) (f s)

/-- The same trees with all their spans changed. -/
def mapSpansAll (f : Span → Span) : List Expr → List Expr
  | [] => []
  | e :: es => e.mapSpans f :: mapSpansAll f es

end

theorem mapSpans_withSpan (f : Span → Span) (e : Expr) (s : Span) :
    (e.withSpan s).mapSpans f = (e.mapSpans f).withSpan (f s) := by
  cases e <;> simp [withSpan, mapSpans]

@[simp] theorem span_mapSpans (f : Span → Span) (e : Expr) : (e.mapSpans f).span = f e.span := by
  cases e <;> simp [mapSpans, span]

end Expr

namespace ExprParser

/-! ## Productions -/

/-- A name with points in it, and the tokens that spell it. -/
inductive SpellsName : String → List Lexeme → Prop
  | one (name : String) (span : Span) : SpellsName name [⟨.ident name, span⟩]
  | more {name : String} {ts : List Lexeme} (point : Span) (part : String) (span : Span) :
      SpellsName name ts →
        SpellsName (name ++ "." ++ part) (ts ++ [⟨.sign .dot, point⟩, ⟨.ident part, span⟩])

/-- Type arguments in angle brackets, or none. -/
inductive TypeArguments : List Lexeme → Prop
  | none : TypeArguments []
  | some {ts : List Lexeme} {closing : Span} (opening : Span) :
      skipToClosing .less .greater 1 ts = .some (closing, []) →
        TypeArguments (⟨.sign .less, opening⟩ :: ts)

/-- What is derived: an expression at a level, or arguments with commas between them. -/
inductive Part
  | expr (level : Nat) (e : Expr)
  | args (es : List Expr)

/-- The grammar of expressions. -/
inductive Derives : Part → List Lexeme → Prop
  | literal {t : Lexeme} {value : Literal} : literal? t.token = some value →
      Derives (.expr 9 (.literal value t.span)) [t]
  | ident (name : String) (span : Span) : Derives (.expr 9 (.ident name span)) [⟨.ident name, span⟩]
  | group {e : Expr} {ts : List Lexeme} {opening closing : Span} : Derives (.expr 0 e) ts →
      castAt? (⟨.sign .lparen, opening⟩ :: ts ++ [⟨.sign .rparen, closing⟩]) = none →
        Derives (.expr 9 (e.withSpan (opening.through closing)))
          (⟨.sign .lparen, opening⟩ :: ts ++ [⟨.sign .rparen, closing⟩])
  | call {es : List Expr} {ts : List Lexeme} (name : String) (span opening closing : Span) :
      Derives (.args es) ts →
        Derives (.expr 9 (.call name es (span.through closing)))
          (⟨.ident name, span⟩ :: ⟨.sign .lparen, opening⟩ :: ts ++ [⟨.sign .rparen, closing⟩])
  | construct {name : String} {ns gs ts : List Lexeme} {es : List Expr}
      (span opening closing : Span) :
      SpellsName name ns → TypeArguments gs → Derives (.args es) ts →
        Derives (.expr 9 (.construct name es (span.through closing)))
          (⟨.keyword .newKw, span⟩ :: ns ++ (gs ++ ⟨.sign .lparen, opening⟩ :: ts ++
            [⟨.sign .rparen, closing⟩]))
  | field {e : Expr} {ts : List Lexeme} (point : Span) (name : String) (span : Span) :
      Derives (.expr 8 e) ts →
        Derives (.expr 8 (.field e name (e.span.through span)))
          (ts ++ [⟨.sign .dot, point⟩, ⟨.ident name, span⟩])
  | method {e : Expr} {es : List Expr} {rs ts : List Lexeme} (point : Span) (name : String)
      (span opening closing : Span) :
      Derives (.expr 8 e) rs → Derives (.args es) ts →
        Derives (.expr 8 (.method e name es (e.span.through closing)))
          (rs ++ ⟨.sign .dot, point⟩ :: ⟨.ident name, span⟩ :: ⟨.sign .lparen, opening⟩ :: ts ++
            [⟨.sign .rparen, closing⟩])
  | index {e i : Expr} {rs ts : List Lexeme} (opening closing : Span) :
      Derives (.expr 8 e) rs → Derives (.expr 0 i) ts →
        Derives (.expr 8 (.index e i (e.span.through closing)))
          (rs ++ ⟨.sign .lbracket, opening⟩ :: ts ++ [⟨.sign .rbracket, closing⟩])
  | unary {op : UnaryOp} {e : Expr} {ts : List Lexeme} {s : Sign} (span : Span) :
      unaryOp? s = some op → Derives (.expr 7 e) ts →
        Derives (.expr 7 (.unary op e (span.through e.span))) (⟨.sign s, span⟩ :: ts)
  | cast {target : CastTarget} {e : Expr} {ts : List Lexeme} {name : String}
      (opening span closing : Span) :
      CastTarget.ofTypeName? name = some target → Derives (.expr 7 e) ts →
        Derives (.expr 7 (.cast target e (opening.through e.span)))
          (⟨.sign .lparen, opening⟩ :: ⟨.ident name, span⟩ :: ⟨.sign .rparen, closing⟩ :: ts)
  | binary {op : BinaryOp} {a b : Expr} {as bs : List Lexeme} {s : Sign} (span : Span) :
      binaryOp? s = some op → Derives (.expr (op.level + 1) a) as →
        Derives (.expr (op.level + 2) b) bs →
          Derives (.expr (op.level + 1) (.binary op a b (a.span.through b.span)))
            (as ++ ⟨.sign s, span⟩ :: bs)
  | ternary {c a b : Expr} {cs as bs : List Lexeme} (question colon : Span) :
      Derives (.expr 1 c) cs → Derives (.expr 0 a) as → Derives (.expr 0 b) bs →
        Derives (.expr 0 (.ternary c a b (c.span.through b.span)))
          (cs ++ ⟨.sign .question, question⟩ :: as ++ ⟨.sign .colon, colon⟩ :: bs)
  | loosen {level : Nat} {e : Expr} {ts : List Lexeme} : level < 9 →
      Derives (.expr (level + 1) e) ts → Derives (.expr level e) ts
  | noArgs : Derives (.args []) []
  | lastArg {e : Expr} {ts : List Lexeme} : Derives (.expr 0 e) ts → Derives (.args [e]) ts
  | moreArgs {e e' : Expr} {es : List Expr} {ts us : List Lexeme} (comma : Span) :
      Derives (.expr 0 e) ts → Derives (.args (e' :: es)) us →
        Derives (.args (e :: e' :: es)) (ts ++ ⟨.sign .comma, comma⟩ :: us)

/-- Every expression is spelled by some token, and the first one closes no group. -/
theorem Derives.exists_cons {level : Nat} {e : Expr} {ts : List Lexeme}
    (h : Derives (.expr level e) ts) : ∃ t us, ts = t :: us ∧ t.token ≠ .sign .rparen := by
  have happend {ts us : List Lexeme} (h : ∃ t vs, ts = t :: vs ∧ t.token ≠ .sign .rparen) :
      ∃ t vs, ts ++ us = t :: vs ∧ t.token ≠ .sign .rparen := by
    obtain ⟨t, vs, rfl, ht⟩ := h
    exact ⟨t, vs ++ us, rfl, ht⟩
  generalize hp : Part.expr level e = p at h
  induction h generalizing level e with
  | noArgs => cases hp
  | lastArg => cases hp
  | moreArgs => cases hp
  | loosen _ _ ih => exact ih rfl
  | literal h => exact ⟨_, _, rfl, fun ht => by simp [ht, literal?] at h⟩
  | ident => exact ⟨_, _, rfl, nofun⟩
  | group => exact ⟨_, _, rfl, nofun⟩
  | call => exact ⟨_, _, rfl, nofun⟩
  | construct => exact ⟨_, _, rfl, nofun⟩
  | field _ _ _ _ ih => exact happend (ih rfl)
  | method _ _ _ _ _ _ _ ih _ => exact happend (happend (ih rfl))
  | index _ _ _ _ ih _ => exact happend (happend (ih rfl))
  | unary _ hop => exact ⟨_, _, rfl, by rintro ⟨⟩; cases hop⟩
  | cast => exact ⟨_, _, rfl, nofun⟩
  | binary _ _ _ _ ih _ => exact happend (ih rfl)
  | ternary _ _ _ _ _ ih _ _ => exact happend (happend (ih rfl))

theorem Derives.pos {level : Nat} {e : Expr} {ts : List Lexeme} (h : Derives (.expr level e) ts) :
    0 < ts.length := by
  obtain ⟨t, us, rfl, -⟩ := h.exists_cons
  exact Nat.succ_pos _

/-- What is derived at a level is derived at all looser ones. -/
theorem Derives.mono {level level' : Nat} {e : Expr} {ts : List Lexeme}
    (h : Derives (.expr level e) ts) (hle : level' ≤ level) (hlevel : level ≤ 9) :
    Derives (.expr level' e) ts := by
  induction hle with
  | refl => exact h
  | step _ ih => exact ih (.loosen (by omega) h) (by omega)

/-! ## What may follow -/

/-- The tightest level of the expressions that go on with the token. -/
def reach? : Token → Option Nat
  | .sign .lparen => some 9
  | .sign .dot | .sign .lbracket => some 8
  | .sign .question => some 0
  | .sign s => (binaryOp? s).map fun op => op.level + 1
  | _ => none

/-- Whether no expression of the level goes on at the head. -/
def Follows (level : Nat) (rest : List Lexeme) : Prop :=
  ∀ t ∈ rest.head?, ∀ n ∈ reach? t.token, n < level

theorem follows_nil (level : Nat) : Follows level [] := nofun

theorem follows_cons {level : Nat} {t : Lexeme} {rest : List Lexeme} :
    Follows level (t :: rest) ↔ ∀ n ∈ reach? t.token, n < level := by
  simp [Follows]

theorem Follows.mono {level level' : Nat} {rest : List Lexeme} (h : Follows level rest)
    (hle : level ≤ level') : Follows level' rest :=
  fun t ht n hn => Nat.lt_of_lt_of_le (h t ht n hn) hle

theorem reach?_of_binaryOp? {s : Sign} {op : BinaryOp} (h : binaryOp? s = some op) :
    reach? (.sign s) = some (op.level + 1) := by
  cases s <;> cases h <;> rfl

/-- A level has no operator to offer in front of what may follow it. -/
theorem Follows.operatorAt?_eq_none {level : Nat} {rest : List Lexeme}
    (h : Follows (level + 1) rest) : operatorAt? level rest = none := by
  unfold operatorAt?
  split
  · split
    · next s _ op hop =>
      have hlevel := follows_cons.1 h (op.level + 1) (reach?_of_binaryOp? hop)
      exact if_neg (by omega)
    · rfl
  · rfl

/-- An operand is complete in front of what may follow it. -/
theorem Follows.suffixes_eq {rest : List Lexeme} (h : Follows 8 rest) (stop : Span) (depth : Nat)
    (e : Expr) : suffixes stop (depth + 1) e rest = .ok (e, rest) := by
  unfold suffixes
  split
  · exact absurd (follows_cons.1 h 8 rfl) (Nat.lt_irrefl 8)
  · exact absurd (follows_cons.1 h 8 rfl) (Nat.lt_irrefl 8)
  · rfl

/-- Whether neither a prefix operator nor a cast stands at the head. -/
def StartsOperand (ts : List Lexeme) : Prop := prefixOp? ts = none ∧ castAt? ts = none

/-- A cast is told by three tokens. -/
theorem castAt?_append {ts : List Lexeme} (h : castAt? ts = none) (hthree : 3 ≤ ts.length)
    (rest : List Lexeme) : castAt? (ts ++ rest) = none := by
  obtain ⟨a, b, c, ts, rfl⟩ : ∃ a b c us, ts = a :: b :: c :: us := by
    match ts, hthree with
    | a :: b :: c :: us, _ => exact ⟨a, b, c, us, rfl⟩
  unfold castAt? at h ⊢
  split
  · next hcast =>
    simp only [List.cons_append, List.cons.injEq] at hcast
    obtain ⟨rfl, rfl, rfl, -⟩ := hcast
    simpa using h
  · rfl

/-- What binds as tightly as a suffix starts with neither a prefix operator nor a cast. -/
theorem Derives.startsOperand {level : Nat} {e : Expr} {ts : List Lexeme}
    (h : Derives (.expr level e) ts) (hlevel : 8 ≤ level) (rest : List Lexeme) :
    StartsOperand (ts ++ rest) := by
  generalize hp : Part.expr level e = p at h
  induction h generalizing level e rest with
  | noArgs => cases hp
  | lastArg => cases hp
  | moreArgs => cases hp
  | loosen _ _ ih =>
    cases hp
    exact ih (Nat.le_succ_of_le hlevel) rest rfl
  | @literal t value ht =>
    obtain ⟨token, span⟩ := t
    cases token with
    | sign s => simp [literal?] at ht
    | _ => exact ⟨rfl, rfl⟩
  | ident => exact ⟨rfl, rfl⟩
  | call => exact ⟨rfl, rfl⟩
  | construct => exact ⟨rfl, rfl⟩
  | @group e ts opening closing hts hcast =>
    have hpos := hts.pos
    exact ⟨rfl, castAt?_append hcast (by simp; omega) rest⟩
  | field _ _ _ _ ih =>
    cases hp
    rw [List.append_assoc]
    exact ih (Nat.le_refl 8) _ rfl
  | method _ _ _ _ _ _ _ ih _ =>
    cases hp
    rw [List.append_assoc, List.append_assoc]
    exact ih (Nat.le_refl 8) _ rfl
  | index _ _ _ _ ih _ =>
    cases hp
    rw [List.append_assoc, List.append_assoc]
    exact ih (Nat.le_refl 8) _ rfl
  | unary => cases hp; omega
  | cast => cases hp; omega
  | @binary op =>
    have := op.level_le
    cases hp
    omega
  | ternary => cases hp; omega

/-! ## Names and type arguments -/

theorem SpellsName.qualifiedName_eq {name : String} {ts : List Lexeme} (h : SpellsName name ts)
    (stop : Span) (rest : List Lexeme) :
    qualifiedName stop (ts ++ rest) = .ok (qualifiers name rest) := by
  induction h generalizing rest with
  | one => rfl
  | more point part span _ ih =>
    rw [List.append_assoc, ih]
    rfl

theorem skipToClosing_append {opener closer : Sign} {depth : Nat} {ts rest more : List Lexeme}
    {span : Span} (h : skipToClosing opener closer depth ts = some (span, rest)) :
    skipToClosing opener closer depth (ts ++ more) = some (span, rest ++ more) := by
  fun_induction skipToClosing opener closer depth ts with
  | case1 => simp at h
  | case4 depth t ts hdepth htoken hne ih =>
    rw [List.cons_append]
    simp only [skipToClosing, htoken, if_neg hne, if_true, if_neg hdepth] at h ⊢
    exact ih h
  | _ => simp_all [skipToClosing]

/-! ## Acceptance -/

section Accepts

variable (stop : Span)

/-- The reader of expressions takes exactly the tokens. -/
def AcceptsExpr (e : Expr) (ts : List Lexeme) : Prop :=
  ∀ depth rest, 16 * ts.length ≤ depth → Follows 0 rest →
    expression stop depth (ts ++ rest) = .ok (e, rest)

/-- The reader of a level of operators gets behind the tokens, with as much depth left as further
operands need. -/
def AcceptsOperators (level : Nat) (e : Expr) (ts : List Lexeme) : Prop :=
  ∀ depth rest, 16 * ts.length ≤ depth + 1 + 2 * level → Follows (level + 2) rest →
    ∃ depth', 0 < depth' ∧ depth ≤ depth' + 16 * ts.length ∧
      binary stop depth level (ts ++ rest) = binaryRest stop depth' level e rest

/-- The reader of operands of a level takes exactly the tokens. -/
def AcceptsOperand (level : Nat) (e : Expr) (ts : List Lexeme) : Prop :=
  ∀ depth rest, 16 * ts.length ≤ depth + 2 + 2 * level → Follows (level + 2) rest →
    operand stop depth level (ts ++ rest) = .ok (e, rest)

/-- The reader of prefix operators takes exactly the tokens. -/
def AcceptsUnary (e : Expr) (ts : List Lexeme) : Prop :=
  ∀ depth rest, 16 * ts.length ≤ depth + 13 → Follows 7 rest →
    unary stop depth (ts ++ rest) = .ok (e, rest)

/-- The reader of suffixes gets behind the tokens, with as much depth left as further suffixes need.
-/
def AcceptsSuffixes (e : Expr) (ts : List Lexeme) : Prop :=
  ∀ depth rest, 16 * ts.length ≤ depth + 14 → Follows 9 rest →
    ∃ depth', 0 < depth' ∧ depth ≤ depth' + 16 * ts.length ∧
      (primary stop depth (ts ++ rest) >>= fun (e, rest) => suffixes stop depth e rest) =
        suffixes stop depth' e rest

/-- The reader of what stands alone takes exactly the tokens. -/
def AcceptsPrimary (e : Expr) (ts : List Lexeme) : Prop :=
  ∀ depth rest, 16 * ts.length ≤ depth + 14 → Follows 9 rest →
    primary stop depth (ts ++ rest) = .ok (e, rest)

/-- The reader of one or more arguments takes exactly the tokens, and the parenthesis behind
them. -/
def AcceptsArgList (es : List Expr) (ts : List Lexeme) : Prop :=
  ∀ depth closing rest, 16 * ts.length + 1 ≤ depth →
    argumentList stop depth (ts ++ ⟨.sign .rparen, closing⟩ :: rest) = .ok ((es, closing), rest)

/-- The reader of arguments takes exactly the tokens, and the parenthesis behind them. -/
def AcceptsArgs (es : List Expr) (ts : List Lexeme) : Prop :=
  ∀ depth closing rest, 16 * ts.length + 2 ≤ depth →
    arguments stop depth (ts ++ ⟨.sign .rparen, closing⟩ :: rest) = .ok ((es, closing), rest)

variable {stop}

theorem accepts_literal {t : Lexeme} {value : Literal} (h : literal? t.token = some value) :
    AcceptsPrimary stop (.literal value t.span) [t] := by
  intro depth rest hdepth hrest
  obtain ⟨depth, rfl⟩ : ∃ d, depth = d + 1 := ⟨depth - 1, by simp at hdepth; omega⟩
  obtain ⟨token, span⟩ := t
  cases token with
  | ident name => simp [literal?] at h
  | sign s => simp [literal?] at h
  | keyword k =>
    cases k with
    | newKw => simp [literal?] at h
    | _ => simp [primary, h, pure, Except.pure]
  | _ => simp [primary, h, pure, Except.pure]

theorem accepts_ident (name : String) (span : Span) :
    AcceptsPrimary stop (.ident name span) [⟨.ident name, span⟩] := by
  intro depth rest hdepth hrest
  obtain ⟨depth, rfl⟩ : ∃ d, depth = d + 1 := ⟨depth - 1, by simp at hdepth; omega⟩
  rw [List.singleton_append, primary]
  · rfl
  · rintro span ts rfl
    exact absurd (follows_cons.1 hrest 9 rfl) (Nat.lt_irrefl 9)

theorem accepts_group {e : Expr} {ts : List Lexeme} {opening closing : Span}
    (h : AcceptsExpr stop e ts) :
    AcceptsPrimary stop (e.withSpan (opening.through closing))
      (⟨.sign .lparen, opening⟩ :: ts ++ [⟨.sign .rparen, closing⟩]) := by
  intro depth rest hdepth hrest
  simp only [List.length_append, List.length_cons, List.length_nil] at hdepth
  obtain ⟨depth, rfl⟩ : ∃ d, depth = d + 1 := ⟨depth - 1, by omega⟩
  have hinner := h depth (⟨.sign .rparen, closing⟩ :: rest) (by omega) (follows_cons.2 nofun)
  simp only [List.cons_append, List.append_assoc, List.nil_append, primary, hinner, bind,
    Except.bind, Grammar.sign, if_true]
  rfl

theorem accepts_call {es : List Expr} {ts : List Lexeme} {name : String}
    {span opening closing : Span} (h : AcceptsArgs stop es ts) :
    AcceptsPrimary stop (.call name es (span.through closing))
      (⟨.ident name, span⟩ :: ⟨.sign .lparen, opening⟩ :: ts ++ [⟨.sign .rparen, closing⟩]) := by
  intro depth rest hdepth hrest
  simp only [List.length_append, List.length_cons, List.length_nil] at hdepth
  obtain ⟨depth, rfl⟩ : ∃ d, depth = d + 1 := ⟨depth - 1, by omega⟩
  have hargs := h depth closing rest (by omega)
  simp only [List.cons_append, List.append_assoc, List.nil_append, primary, hargs, bind,
    Except.bind]
  rfl

theorem accepts_construct {name : String} {ns gs ts : List Lexeme} {es : List Expr}
    {span opening closing : Span} (hname : SpellsName name ns) (htypes : TypeArguments gs)
    (h : AcceptsArgs stop es ts) :
    AcceptsPrimary stop (.construct name es (span.through closing))
      (⟨.keyword .newKw, span⟩ :: ns ++ (gs ++ ⟨.sign .lparen, opening⟩ :: ts ++
        [⟨.sign .rparen, closing⟩])) := by
  intro depth rest hdepth hrest
  simp only [List.length_append, List.length_cons, List.length_nil] at hdepth
  obtain ⟨depth, rfl⟩ : ∃ d, depth = d + 2 := ⟨depth - 2, by omega⟩
  have hargs := h depth closing rest (by omega)
  have hread := hname.qualifiedName_eq stop (gs ++ (⟨.sign .lparen, opening⟩ ::
    (ts ++ ⟨.sign .rparen, closing⟩ :: rest)))
  cases htypes with
  | none =>
    simp only [List.cons_append, List.append_assoc, List.nil_append, primary, construction, bind,
      Except.bind] at hread ⊢
    rw [hread]
    simp only [qualifiers, startsWithSign, reduceCtorEq, decide_false, Bool.false_eq_true, if_false,
      Grammar.sign, if_true, hargs]
    rfl
  | @some gs last first hskip =>
    have hgroup : group stop .less .greater (⟨.sign .less, first⟩ :: (gs ++
        (⟨.sign .lparen, opening⟩ :: (ts ++ ⟨.sign .rparen, closing⟩ :: rest)))) =
          .ok ((⟨first.stop, last.start, first.line, first.column + 1⟩, last),
            ⟨.sign .lparen, opening⟩ :: (ts ++ ⟨.sign .rparen, closing⟩ :: rest)) := by
      simp only [group, Grammar.sign, if_true, bind, Except.bind, skipToClosing_append hskip]
      rfl
    simp only [List.cons_append, List.append_assoc, List.nil_append, primary, construction, bind,
      Except.bind] at hread ⊢
    rw [hread]
    simp only [qualifiers, startsWithSign, decide_true, if_true, hgroup, Functor.map, Except.map,
      Grammar.sign, hargs]
    rfl

theorem AcceptsPrimary.suffixes {e : Expr} {ts : List Lexeme} (hpos : 0 < ts.length)
    (h : AcceptsPrimary stop e ts) : AcceptsSuffixes stop e ts := by
  intro depth rest hdepth hrest
  refine ⟨depth, by omega, by omega, ?_⟩
  rw [h depth rest hdepth hrest]
  rfl

theorem AcceptsSuffixes.field {e : Expr} {ts : List Lexeme} {point span : Span} {name : String}
    (h : AcceptsSuffixes stop e ts) :
    AcceptsSuffixes stop (.field e name (e.span.through span))
      (ts ++ [⟨.sign .dot, point⟩, ⟨.ident name, span⟩]) := by
  intro depth rest hdepth hrest
  simp only [List.length_append, List.length_cons, List.length_nil] at hdepth
  obtain ⟨depth', -, hleft, hread⟩ := h depth (⟨.sign .dot, point⟩ :: ⟨.ident name, span⟩ :: rest)
    (by omega) (follows_cons.2 (by simp [reach?]))
  obtain ⟨depth', rfl⟩ : ∃ d, depth' = d + 1 := ⟨depth' - 1, by omega⟩
  refine ⟨depth', by omega, by simp; omega, ?_⟩
  rw [List.append_assoc]
  refine hread.trans ?_
  simp only [ExprParser.suffixes, Grammar.ident, bind, Except.bind]
  split
  · exact absurd (follows_cons.1 hrest 9 rfl) (Nat.lt_irrefl 9)
  · rfl

theorem AcceptsSuffixes.method {e : Expr} {es : List Expr} {rs ts : List Lexeme}
    {point span opening closing : Span} {name : String} (h : AcceptsSuffixes stop e rs)
    (hargs : AcceptsArgs stop es ts) :
    AcceptsSuffixes stop (.method e name es (e.span.through closing))
      (rs ++ ⟨.sign .dot, point⟩ :: ⟨.ident name, span⟩ :: ⟨.sign .lparen, opening⟩ :: ts ++
        [⟨.sign .rparen, closing⟩]) := by
  intro depth rest hdepth hrest
  simp only [List.length_append, List.length_cons, List.length_nil] at hdepth
  obtain ⟨depth', -, hleft, hread⟩ := h depth (⟨.sign .dot, point⟩ :: ⟨.ident name, span⟩ ::
    ⟨.sign .lparen, opening⟩ :: (ts ++ ⟨.sign .rparen, closing⟩ :: rest)) (by omega)
    (follows_cons.2 (by simp [reach?]))
  obtain ⟨depth', rfl⟩ : ∃ d, depth' = d + 1 := ⟨depth' - 1, by omega⟩
  refine ⟨depth', by omega, by simp; omega, ?_⟩
  simp only [List.append_assoc, List.cons_append, List.nil_append] at hread ⊢
  rw [hread]
  simp only [ExprParser.suffixes, Grammar.ident, bind, Except.bind,
    hargs depth' closing rest (by omega)]

theorem AcceptsSuffixes.index {e i : Expr} {rs ts : List Lexeme} {opening closing : Span}
    (h : AcceptsSuffixes stop e rs) (hi : AcceptsExpr stop i ts) :
    AcceptsSuffixes stop (.index e i (e.span.through closing))
      (rs ++ ⟨.sign .lbracket, opening⟩ :: ts ++ [⟨.sign .rbracket, closing⟩]) := by
  intro depth rest hdepth hrest
  simp only [List.length_append, List.length_cons, List.length_nil] at hdepth
  obtain ⟨depth', -, hleft, hread⟩ := h depth (⟨.sign .lbracket, opening⟩ ::
    (ts ++ ⟨.sign .rbracket, closing⟩ :: rest)) (by omega) (follows_cons.2 (by simp [reach?]))
  obtain ⟨depth', rfl⟩ : ∃ d, depth' = d + 1 := ⟨depth' - 1, by omega⟩
  refine ⟨depth', by omega, by simp; omega, ?_⟩
  have hposition := hi depth' (⟨.sign .rbracket, closing⟩ :: rest) (by omega) (follows_cons.2 nofun)
  simp only [List.append_assoc, List.cons_append, List.nil_append] at hread ⊢
  rw [hread]
  simp only [ExprParser.suffixes, Grammar.sign, if_true, bind, Except.bind, hposition]

theorem AcceptsSuffixes.unary {e : Expr} {ts : List Lexeme} (hpos : 0 < ts.length)
    (hstart : ∀ rest, StartsOperand (ts ++ rest)) (h : AcceptsSuffixes stop e ts) :
    AcceptsUnary stop e ts := by
  intro depth rest hdepth hrest
  obtain ⟨depth, rfl⟩ : ∃ d, depth = d + 1 := ⟨depth - 1, by omega⟩
  obtain ⟨depth', hmore, -, hread⟩ := h depth rest (by omega) (hrest.mono (by decide))
  obtain ⟨depth', rfl⟩ : ∃ d, depth' = d + 1 := ⟨depth' - 1, by omega⟩
  obtain ⟨hsign, hcast⟩ := hstart rest
  simp only [ExprParser.unary, hsign, hcast]
  exact hread.trans ((hrest.mono (by decide)).suffixes_eq stop depth' e)

theorem AcceptsUnary.prefixed {op : UnaryOp} {e : Expr} {ts : List Lexeme} {s : Sign} {span : Span}
    (hop : unaryOp? s = some op) (h : AcceptsUnary stop e ts) :
    AcceptsUnary stop (.unary op e (span.through e.span)) (⟨.sign s, span⟩ :: ts) := by
  intro depth rest hdepth hrest
  simp only [List.length_cons] at hdepth
  obtain ⟨depth, rfl⟩ : ∃ d, depth = d + 1 := ⟨depth - 1, by omega⟩
  simp only [List.cons_append, ExprParser.unary, prefixOp?, hop, Option.map_some, bind, Except.bind,
    h depth rest (by omega) hrest, spanAt]
  rfl

theorem AcceptsUnary.cast {target : CastTarget} {e : Expr} {ts : List Lexeme} {name : String}
    {opening span closing : Span} (hname : CastTarget.ofTypeName? name = some target)
    (h : AcceptsUnary stop e ts) :
    AcceptsUnary stop (.cast target e (opening.through e.span))
      (⟨.sign .lparen, opening⟩ :: ⟨.ident name, span⟩ :: ⟨.sign .rparen, closing⟩ :: ts) := by
  intro depth rest hdepth hrest
  simp only [List.length_cons] at hdepth
  obtain ⟨depth, rfl⟩ : ∃ d, depth = d + 1 := ⟨depth - 1, by omega⟩
  simp only [List.cons_append, ExprParser.unary, prefixOp?, unaryOp?, Option.map_none, castAt?,
    hname, Option.map_some, bind, Except.bind, h depth rest (by omega) hrest, spanAt]
  rfl

theorem AcceptsUnary.operand {e : Expr} {ts : List Lexeme} (hpos : 0 < ts.length)
    (h : AcceptsUnary stop e ts) : AcceptsOperand stop 5 e ts := by
  intro depth rest hdepth hrest
  obtain ⟨depth, rfl⟩ : ∃ d, depth = d + 1 := ⟨depth - 1, by omega⟩
  simp only [ExprParser.operand, Nat.lt_irrefl, if_false, h depth rest (by omega) hrest]

theorem AcceptsOperators.operand {level : Nat} (hlevel : level < 5) {e : Expr} {ts : List Lexeme}
    (hpos : 0 < ts.length) (h : AcceptsOperators stop (level + 1) e ts) :
    AcceptsOperand stop level e ts := by
  intro depth rest hdepth hrest
  obtain ⟨depth, rfl⟩ : ∃ d, depth = d + 1 := ⟨depth - 1, by omega⟩
  obtain ⟨depth', hmore, -, hread⟩ := h depth rest (by omega) (hrest.mono (by omega))
  obtain ⟨depth', rfl⟩ : ∃ d, depth' = d + 1 := ⟨depth' - 1, by omega⟩
  simp only [ExprParser.operand, hlevel, if_true, hread, binaryRest, hrest.operatorAt?_eq_none]
  rfl

theorem AcceptsOperand.operators {level : Nat} (hlevel : level ≤ 5) {e : Expr} {ts : List Lexeme}
    (hpos : 0 < ts.length) (h : AcceptsOperand stop level e ts) :
    AcceptsOperators stop level e ts := by
  intro depth rest hdepth hrest
  obtain ⟨depth, rfl⟩ : ∃ d, depth = d + 1 := ⟨depth - 1, by omega⟩
  refine ⟨depth, by omega, by omega, ?_⟩
  simp only [binary, h depth rest (by omega) hrest, bind, Except.bind]

theorem AcceptsOperators.binary {op : BinaryOp} {a b : Expr} {as bs : List Lexeme} {s : Sign}
    {span : Span} (hop : binaryOp? s = some op) (ha : AcceptsOperators stop op.level a as)
    (hb : AcceptsOperand stop op.level b bs) :
    AcceptsOperators stop op.level (.binary op a b (a.span.through b.span))
      (as ++ ⟨.sign s, span⟩ :: bs) := by
  intro depth rest hdepth hrest
  have hlevel := op.level_le
  simp only [List.length_append, List.length_cons] at hdepth
  obtain ⟨depth', -, hleft, hread⟩ := ha depth (⟨.sign s, span⟩ :: (bs ++ rest)) (by omega)
    (follows_cons.2 (by simp [reach?_of_binaryOp? hop]))
  obtain ⟨depth', rfl⟩ : ∃ d, depth' = d + 1 := ⟨depth' - 1, by omega⟩
  refine ⟨depth', by omega, by simp; omega, ?_⟩
  have hright := hb depth' rest (by omega) hrest
  rw [List.append_assoc, List.cons_append, hread, binaryRest]
  simp only [operatorAt?, hop, if_true, hright, bind, Except.bind]

theorem AcceptsOperators.expr {e : Expr} {ts : List Lexeme} (hpos : 0 < ts.length)
    (h : AcceptsOperators stop 0 e ts) : AcceptsExpr stop e ts := by
  intro depth rest hdepth hrest
  obtain ⟨depth, rfl⟩ : ∃ d, depth = d + 1 := ⟨depth - 1, by omega⟩
  obtain ⟨depth', hmore, -, hread⟩ := h depth rest (by omega) (hrest.mono (by decide))
  obtain ⟨depth', rfl⟩ : ∃ d, depth' = d + 1 := ⟨depth' - 1, by omega⟩
  have hnone := (hrest.mono (by decide : 0 ≤ 1)).operatorAt?_eq_none
  simp only [expression, hread, binaryRest, hnone, bind, Except.bind, pure, Except.pure]
  split
  · exact absurd (follows_cons.1 hrest 0 rfl) (Nat.lt_irrefl 0)
  · rfl

theorem AcceptsExpr.ternary {c a b : Expr} {cs as bs : List Lexeme} {question colon : Span}
    (ha : AcceptsExpr stop a as) (hc : AcceptsOperators stop 0 c cs) (hb : AcceptsExpr stop b bs) :
    AcceptsExpr stop (.ternary c a b (c.span.through b.span))
      (cs ++ ⟨.sign .question, question⟩ :: as ++ ⟨.sign .colon, colon⟩ :: bs) := by
  intro depth rest hdepth hrest
  simp only [List.length_append, List.length_cons] at hdepth
  obtain ⟨depth, rfl⟩ : ∃ d, depth = d + 1 := ⟨depth - 1, by omega⟩
  have hquestion : Follows 1 (⟨.sign .question, question⟩ ::
      (as ++ ⟨.sign .colon, colon⟩ :: (bs ++ rest))) := follows_cons.2 (by simp [reach?])
  obtain ⟨depth', hmore, -, hread⟩ := hc depth _ (by omega) (hquestion.mono (by decide))
  obtain ⟨depth', rfl⟩ : ∃ d, depth' = d + 1 := ⟨depth' - 1, by omega⟩
  have hyes := ha depth (⟨.sign .colon, colon⟩ :: (bs ++ rest)) (by omega) (follows_cons.2 nofun)
  have hno := hb depth rest (by omega) hrest
  simp only [List.append_assoc, List.cons_append]
  simp only [expression, hread, binaryRest, hquestion.operatorAt?_eq_none, bind, Except.bind, pure,
    Except.pure, hyes, Grammar.sign, if_true, hno]

theorem accepts_noArgs : AcceptsArgs stop [] [] := by
  intro depth closing rest hdepth
  obtain ⟨depth, rfl⟩ : ∃ d, depth = d + 1 := ⟨depth - 1, by omega⟩
  rfl

theorem AcceptsExpr.lastArg {e : Expr} {ts : List Lexeme} (h : AcceptsExpr stop e ts) :
    AcceptsArgList stop [e] ts := by
  intro depth closing rest hdepth
  obtain ⟨depth, rfl⟩ : ∃ d, depth = d + 1 := ⟨depth - 1, by omega⟩
  have hread := h depth (⟨.sign .rparen, closing⟩ :: rest) (by omega) (follows_cons.2 nofun)
  simp only [argumentList, hread, bind, Except.bind, Grammar.sign, if_true, pure, Except.pure]

theorem AcceptsExpr.moreArgs {e : Expr} {es : List Expr} {ts us : List Lexeme} {comma : Span}
    (h : AcceptsExpr stop e ts) (hlater : AcceptsArgList stop es us) :
    AcceptsArgList stop (e :: es) (ts ++ ⟨.sign .comma, comma⟩ :: us) := by
  intro depth closing rest hdepth
  simp only [List.length_append, List.length_cons] at hdepth
  obtain ⟨depth, rfl⟩ : ∃ d, depth = d + 1 := ⟨depth - 1, by omega⟩
  have hread := h depth (⟨.sign .comma, comma⟩ :: (us ++ ⟨.sign .rparen, closing⟩ :: rest))
    (by omega) (follows_cons.2 nofun)
  simp only [List.append_assoc, List.cons_append]
  simp only [argumentList, hread, bind, Except.bind, hlater depth closing rest (by omega), pure,
    Except.pure]

theorem AcceptsArgList.args {es : List Expr} {ts : List Lexeme}
    (hstart : ∃ t us, ts = t :: us ∧ t.token ≠ .sign .rparen) (h : AcceptsArgList stop es ts) :
    AcceptsArgs stop es ts := by
  intro depth closing rest hdepth
  obtain ⟨depth, rfl⟩ : ∃ d, depth = d + 1 := ⟨depth - 1, by omega⟩
  obtain ⟨⟨token, span⟩, us, rfl, hne⟩ := hstart
  rw [List.cons_append, arguments]
  · exact h depth closing rest (by omega)
  · rintro span ts hlist
    obtain ⟨⟨rfl, -⟩, -⟩ := by simpa using hlist
    exact hne rfl

/-! ## The grammar is read -/

variable (stop) in
/-- The reader that belongs to a level accepts an expression of the level. -/
structure AcceptedAt (level : Nat) (e : Expr) (ts : List Lexeme) : Prop where
  expr : level = 0 → AcceptsExpr stop e ts
  operators : ∀ l, level = l + 1 → l ≤ 5 → AcceptsOperators stop l e ts
  unary : level = 7 → AcceptsUnary stop e ts
  suffixes : level = 8 → AcceptsSuffixes stop e ts
  primary : level = 9 → AcceptsPrimary stop e ts

namespace AcceptedAt

variable {level : Nat} {e : Expr} {ts : List Lexeme}

theorem of_expr (h : AcceptsExpr stop e ts) : AcceptedAt stop 0 e ts :=
  ⟨fun _ => h, nofun, nofun, nofun, nofun⟩

theorem of_operators (hlevel : level ≤ 5) (h : AcceptsOperators stop level e ts) :
    AcceptedAt stop (level + 1) e ts :=
  ⟨nofun, fun l hl _ => Nat.succ.inj hl ▸ h, by omega, by omega, by omega⟩

theorem of_unary (h : AcceptsUnary stop e ts) : AcceptedAt stop 7 e ts :=
  ⟨nofun, by omega, fun _ => h, nofun, nofun⟩

theorem of_suffixes (h : AcceptsSuffixes stop e ts) : AcceptedAt stop 8 e ts :=
  ⟨nofun, by omega, nofun, fun _ => h, nofun⟩

theorem of_primary (h : AcceptsPrimary stop e ts) : AcceptedAt stop 9 e ts :=
  ⟨nofun, by omega, nofun, nofun, fun _ => h⟩

/-- An operand of a level is an expression of the next one. -/
theorem operand (h : AcceptedAt stop (level + 2) e ts) (hpos : 0 < ts.length) (hlevel : level ≤ 5) :
    AcceptsOperand stop level e ts := by
  obtain hlt | rfl := Nat.lt_or_eq_of_le hlevel
  · exact (h.operators (level + 1) rfl hlt).operand hlt hpos
  · exact (h.unary rfl).operand hpos

theorem loosen (h : AcceptedAt stop (level + 1) e ts) (hlevel : level < 9) (hpos : 0 < ts.length)
    (hstart : 8 ≤ level + 1 → ∀ rest, StartsOperand (ts ++ rest)) :
    AcceptedAt stop level e ts := by
  obtain rfl | ⟨l, hl, rfl⟩ | rfl | rfl :
      level = 0 ∨ (∃ l ≤ 5, level = l + 1) ∨ level = 7 ∨ level = 8 := by
    by_cases h₀ : level = 0
    · exact .inl h₀
    · by_cases h₆ : level ≤ 6
      · exact .inr (.inl ⟨level - 1, by omega, by omega⟩)
      · omega
  · exact .of_expr ((h.operators 0 rfl (by decide)).expr hpos)
  · exact .of_operators hl ((h.operand hpos hl).operators hl hpos)
  · exact .of_unary ((h.suffixes rfl).unary hpos (hstart (by decide)))
  · exact .of_suffixes ((h.primary rfl).suffixes hpos)

end AcceptedAt

variable (stop) in
/-- The reader that belongs to a part accepts it. -/
def Accepted : Part → List Lexeme → Prop
  | .expr level e, ts => AcceptedAt stop level e ts
  | .args es, ts => AcceptsArgs stop es ts ∧ (es ≠ [] → AcceptsArgList stop es ts)

/-- **What the grammar derives is read.** -/
theorem Derives.accepted {p : Part} {ts : List Lexeme} (h : Derives p ts) : Accepted stop p ts := by
  induction h with
  | literal h => exact .of_primary (accepts_literal h)
  | ident name span => exact .of_primary (accepts_ident name span)
  | group _ _ ih => exact .of_primary (accepts_group (ih.expr rfl))
  | call _ _ _ _ _ ih => exact .of_primary (accepts_call ih.1)
  | construct _ _ _ hname htypes _ ih => exact .of_primary (accepts_construct hname htypes ih.1)
  | field _ _ _ _ ih => exact .of_suffixes (ih.suffixes rfl).field
  | method _ _ _ _ _ _ _ ih ihargs => exact .of_suffixes ((ih.suffixes rfl).method ihargs.1)
  | index _ _ _ _ ih ihposition =>
    exact .of_suffixes ((ih.suffixes rfl).index (ihposition.expr rfl))
  | unary _ hop _ ih => exact .of_unary ((ih.unary rfl).prefixed hop)
  | cast _ _ _ hname _ ih => exact .of_unary ((ih.unary rfl).cast hname)
  | @binary op _ _ _ _ _ _ hop _ hright ih ihright =>
    have hlevel := op.level_le
    exact .of_operators hlevel
      ((ih.operators _ rfl hlevel).binary hop (ihright.operand hright.pos hlevel))
  | ternary _ _ _ _ _ ih ihyes ihno =>
    exact .of_expr ((ihyes.expr rfl).ternary (ih.operators 0 rfl (by decide)) (ihno.expr rfl))
  | loosen hlevel h ih => exact ih.loosen hlevel h.pos h.startsOperand
  | noArgs => exact ⟨accepts_noArgs, fun h => absurd rfl h⟩
  | lastArg h ih => exact ⟨(ih.expr rfl).lastArg.args h.exists_cons, fun _ => (ih.expr rfl).lastArg⟩
  | @moreArgs e e' es ts us comma h _ ih ihlater =>
    have hlist : AcceptsArgList stop (e :: e' :: es) (ts ++ ⟨.sign .comma, comma⟩ :: us) :=
      (ih.expr rfl).moreArgs (ihlater.2 (List.cons_ne_nil _ _))
    obtain ⟨t, ts, rfl, ht⟩ := h.exists_cons
    exact ⟨hlist.args ⟨t, _, rfl, ht⟩, fun _ => hlist⟩

/-- **Tokens that spell an expression are read as that expression.** -/
theorem whole_of_derives {e : Expr} {ts : List Lexeme} (h : Derives (.expr 0 e) ts) :
    whole ⟨ts, stop⟩ = .ok e := by
  have haccepted : AcceptedAt stop 0 e ts := h.accepted
  have hdepth : 16 * ts.length ≤ depthFor ts := by
    rw [depthFor]
    omega
  have hread := haccepted.expr rfl (depthFor ts) [] hdepth (follows_nil 0)
  rw [List.append_nil] at hread
  simp only [whole, hread, bind, Except.bind]
  rfl

end Accepts

end ExprParser

end SnippetRunner
