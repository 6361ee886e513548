import SnippetRunner.Proofs.Derivations
import SnippetRunner.Proofs.Places

/-!
# What the readers of expressions take

The converse of `Derives.accepted`: what a reader takes off the front of the tokens is derived by
the grammar, at the level of the reader (`sound`). A reader that goes on behind an operand adds to
what spells that operand, so its lemma starts from a derivation. Together the two directions say
that the grammar is what is read (`whole_eq_ok_iff`).
-/

namespace SnippetRunner

open Grammar

namespace ExprParser

variable {stop closing : Span} {depth level : Nat} {e : Expr} {es : List Expr}
  {ts used rest : List Lexeme}

/-- `Spelled p ts rest`: the tokens `ts` start with some that spell the part `p`, and `rest` is
behind them. -/
def Spelled (p : Part) (ts rest : List Lexeme) : Prop := ∃ used, ts = used ++ rest ∧ Derives p used

theorem Spelled.loosen (h : Spelled (.expr (level + 1) e) ts rest) (hlevel : level < 9) :
    Spelled (.expr level e) ts rest := by
  obtain ⟨used, rfl, hused⟩ := h
  exact ⟨used, rfl, .loosen hlevel hused⟩

/-! ## Names and type arguments -/

theorem spellsName_of_qualifiers {name name' : String} (h : SpellsName name used)
    (hread : qualifiers name ts = (name', rest)) :
    ∃ more, ts = more ++ rest ∧ SpellsName name' (used ++ more) := by
  fun_induction qualifiers name ts generalizing used with
  | case1 name point part span ts ih =>
    obtain ⟨more, rfl, hmore⟩ := ih (.more point part span h) hread
    rw [List.append_assoc] at hmore
    exact ⟨_, rfl, hmore⟩
  | case2 name ts =>
    obtain ⟨rfl, rfl⟩ := Prod.mk.inj hread
    exact ⟨[], rfl, by rwa [List.append_nil]⟩

theorem spellsName_of_qualifiedName {name : String} (h : qualifiedName stop ts = .ok (name, rest)) :
    ∃ ns, ts = ns ++ rest ∧ SpellsName name ns := by
  simp only [qualifiedName, bind_eq_ok, pure_eq_ok] at h
  obtain ⟨⟨⟨first, span⟩, mid⟩, hfirst, h⟩ := h
  obtain rfl := eq_cons_of_ident hfirst
  obtain ⟨more, rfl, hmore⟩ := spellsName_of_qualifiers (.one first span) h
  exact ⟨_, rfl, hmore⟩

/-- A skipped group is skipped as well where nothing stands behind it. -/
theorem exists_append_of_skipToClosing {opener closer : Sign}
    (h : skipToClosing opener closer depth ts = some (closing, rest)) :
    ∃ us, ts = us ++ rest ∧ skipToClosing opener closer depth us = some (closing, []) := by
  induction ts generalizing depth with
  | nil => simp [skipToClosing] at h
  | cons t ts ih =>
    have hcons {depth depth' : Nat}
        (hrest : skipToClosing opener closer depth' ts = some (closing, rest))
        (hstep : ∀ us, skipToClosing opener closer depth (t :: us) =
          skipToClosing opener closer depth' us) :
        ∃ us, t :: ts = us ++ rest ∧ skipToClosing opener closer depth us = some (closing, []) := by
      obtain ⟨us, rfl, hus⟩ := ih hrest
      exact ⟨t :: us, rfl, (hstep us).trans hus⟩
    obtain ⟨token, span⟩ := t
    cases token with
    | sign s =>
      simp only [skipToClosing] at h
      by_cases hopen : s = opener
      · rw [if_pos hopen] at h
        exact hcons h fun us => by simp only [skipToClosing, if_pos hopen]
      · rw [if_neg hopen] at h
        by_cases hclose : s = closer
        · rw [if_pos hclose] at h
          by_cases hdepth : depth ≤ 1
          · rw [if_pos hdepth] at h
            obtain ⟨rfl, rfl⟩ := Prod.mk.inj (Option.some.inj h)
            exact ⟨[⟨.sign s, span⟩], rfl,
              by simp only [skipToClosing, if_neg hopen, if_pos hclose, if_pos hdepth]⟩
          · rw [if_neg hdepth] at h
            exact hcons h fun us => by
              simp only [skipToClosing, if_neg hopen, if_pos hclose, if_neg hdepth]
        · rw [if_neg hclose] at h
          exact hcons h fun us => by simp only [skipToClosing, if_neg hopen, if_neg hclose]
    | _ => exact hcons h fun us => rfl

theorem typeArguments_of_group {places : Span × Span}
    (h : group stop .less .greater ts = .ok (places, rest)) :
    ∃ gs, ts = gs ++ rest ∧ TypeArguments gs := by
  simp only [group, bind_eq_ok] at h
  obtain ⟨⟨opening, mid⟩, hopen, h⟩ := h
  obtain rfl := eq_cons_of_sign hopen
  dsimp only at h
  split at h
  · next closing rest' hskip =>
    obtain rfl : rest' = rest := congrArg Prod.snd (pure_eq_ok.1 h)
    obtain ⟨us, rfl, hus⟩ := exists_append_of_skipToClosing hskip
    exact ⟨_, rfl, .some opening hus⟩
  · cases h

/-- Three tokens that are no cast are none with less behind them. -/
theorem castAt?_of_append (h : castAt? (ts ++ rest) = none) : castAt? ts = none := by
  cases hcast : castAt? ts with
  | none => rfl
  | some r =>
    unfold castAt? at hcast
    split at hcast
    · simp only [Option.map_eq_some_iff] at hcast
      obtain ⟨target, htarget, -⟩ := hcast
      simp [castAt?, htarget] at h
    · simp at hcast

/-! ## One reader at a time -/

variable (stop) in
/-- What each reader takes, given a depth, is derived at its level. -/
structure Sound (depth : Nat) : Prop where
  expression {e : Expr} {ts rest : List Lexeme} :
    expression stop depth ts = .ok (e, rest) → Spelled (.expr 0 e) ts rest
  binary {level : Nat} {e : Expr} {ts rest : List Lexeme} : level ≤ 5 →
    binary stop depth level ts = .ok (e, rest) → Spelled (.expr (level + 1) e) ts rest
  binaryRest {level : Nat} {left e : Expr} {used ts rest : List Lexeme} : level ≤ 5 →
    Derives (.expr (level + 1) left) used → binaryRest stop depth level left ts = .ok (e, rest) →
      Spelled (.expr (level + 1) e) (used ++ ts) rest
  operand {level : Nat} {e : Expr} {ts rest : List Lexeme} : level ≤ 5 →
    operand stop depth level ts = .ok (e, rest) → Spelled (.expr (level + 2) e) ts rest
  unary {e : Expr} {ts rest : List Lexeme} :
    unary stop depth ts = .ok (e, rest) → Spelled (.expr 7 e) ts rest
  suffixes {left e : Expr} {used ts rest : List Lexeme} :
    Derives (.expr 8 left) used → suffixes stop depth left ts = .ok (e, rest) →
      Spelled (.expr 8 e) (used ++ ts) rest
  primary {e : Expr} {ts rest : List Lexeme} : castAt? ts = none →
    primary stop depth ts = .ok (e, rest) → Spelled (.expr 9 e) ts rest
  construction {span : Span} {e : Expr} {ts rest : List Lexeme} :
    construction stop depth span ts = .ok (e, rest) →
      Spelled (.expr 9 e) (⟨.keyword .newKw, span⟩ :: ts) rest
  arguments {es : List Expr} {closing : Span} {ts rest : List Lexeme} :
    arguments stop depth ts = .ok ((es, closing), rest) →
      Spelled (.args es) ts (⟨.sign .rparen, closing⟩ :: rest)
  argumentList {es : List Expr} {closing : Span} {ts rest : List Lexeme} :
    argumentList stop depth ts = .ok ((es, closing), rest) →
      es ≠ [] ∧ Spelled (.args es) ts (⟨.sign .rparen, closing⟩ :: rest)

namespace Sound

theorem expression_succ (ih : Sound stop depth)
    (h : ExprParser.expression stop (depth + 1) ts = .ok (e, rest)) :
    Spelled (.expr 0 e) ts rest := by
  simp only [ExprParser.expression, bind_eq_ok] at h
  obtain ⟨⟨condition, mid⟩, hcondition, h⟩ := h
  obtain ⟨cs, rfl, hcs⟩ := ih.binary (Nat.zero_le 5) hcondition
  dsimp only at h
  split at h
  · next question mid =>
    simp only [bind_eq_ok, pure_eq_ok] at h
    obtain ⟨⟨yes, mid₁⟩, hyes, ⟨colon, mid₂⟩, hcolon, ⟨no, mid₃⟩, hno, h⟩ := h
    obtain ⟨as, rfl, has⟩ := ih.expression hyes
    obtain rfl := eq_cons_of_sign hcolon
    obtain ⟨bs, rfl, hbs⟩ := ih.expression hno
    obtain ⟨rfl, rfl⟩ := Prod.mk.inj h
    exact ⟨_, by simp, .ternary question colon hcs has hbs⟩
  · obtain ⟨rfl, rfl⟩ := Prod.mk.inj (pure_eq_ok.1 h)
    exact ⟨cs, rfl, .loosen (by decide) hcs⟩

theorem binary_succ (ih : Sound stop depth) (hlevel : level ≤ 5)
    (h : ExprParser.binary stop (depth + 1) level ts = .ok (e, rest)) :
    Spelled (.expr (level + 1) e) ts rest := by
  simp only [ExprParser.binary, bind_eq_ok] at h
  obtain ⟨⟨left, mid⟩, hleft, h⟩ := h
  obtain ⟨used, rfl, hused⟩ := ih.operand hlevel hleft
  exact ih.binaryRest hlevel (.loosen (by omega) hused) h

theorem exists_of_operatorAt? {op : BinaryOp} (h : operatorAt? level ts = some (op, rest)) :
    op.level = level ∧ ∃ s span, binaryOp? s = some op ∧ ts = ⟨.sign s, span⟩ :: rest := by
  unfold operatorAt? at h
  split at h
  · next s span rest =>
    split at h
    · next op' hop =>
      split at h
      · next heq =>
        obtain ⟨rfl, rfl⟩ := Prod.mk.inj (Option.some.inj h)
        exact ⟨heq, s, span, hop, rfl⟩
      · simp at h
    · simp at h
  · simp at h

theorem binaryRest_succ (ih : Sound stop depth) {left : Expr} (hlevel : level ≤ 5)
    (hleft : Derives (.expr (level + 1) left) used)
    (h : ExprParser.binaryRest stop (depth + 1) level left ts = .ok (e, rest)) :
    Spelled (.expr (level + 1) e) (used ++ ts) rest := by
  simp only [ExprParser.binaryRest] at h
  split at h
  · next op mid hop =>
    obtain ⟨rfl, s, span, hs, rfl⟩ := exists_of_operatorAt? hop
    simp only [bind_eq_ok] at h
    obtain ⟨⟨right, mid⟩, hright, h⟩ := h
    obtain ⟨bs, rfl, hbs⟩ := ih.operand hlevel hright
    have hspelled := ih.binaryRest hlevel (.binary span hs hleft hbs) h
    rwa [List.append_assoc, List.cons_append] at hspelled
  · obtain ⟨rfl, rfl⟩ := Prod.mk.inj (pure_eq_ok.1 h)
    exact ⟨used, rfl, hleft⟩

theorem operand_succ (ih : Sound stop depth) (hlevel : level ≤ 5)
    (h : ExprParser.operand stop (depth + 1) level ts = .ok (e, rest)) :
    Spelled (.expr (level + 2) e) ts rest := by
  simp only [ExprParser.operand] at h
  split at h
  · next hlt => exact ih.binary hlt h
  · next hle =>
    obtain rfl : level = 5 := by omega
    exact ih.unary h

theorem unary_succ (ih : Sound stop depth)
    (h : ExprParser.unary stop (depth + 1) ts = .ok (e, rest)) : Spelled (.expr 7 e) ts rest := by
  simp only [ExprParser.unary] at h
  split at h
  · next op mid hop =>
    unfold prefixOp? at hop
    split at hop
    · next s span mid' =>
      simp only [Option.map_eq_some_iff, Prod.mk.injEq] at hop
      obtain ⟨op', hop, rfl, rfl⟩ := hop
      simp only [bind_eq_ok, pure_eq_ok, spanAt] at h
      obtain ⟨⟨inner, mid⟩, hinner, h⟩ := h
      obtain ⟨us, rfl, hus⟩ := ih.unary hinner
      obtain ⟨rfl, rfl⟩ := Prod.mk.inj h
      exact ⟨_, rfl, .unary span hop hus⟩
    · simp at hop
  · split at h
    · next target mid hcast =>
      unfold castAt? at hcast
      split at hcast
      · next opening name span closing _ _ =>
        simp only [Option.map_eq_some_iff, Prod.mk.injEq] at hcast
        obtain ⟨target', htarget, rfl, rfl⟩ := hcast
        simp only [bind_eq_ok, pure_eq_ok, spanAt] at h
        obtain ⟨⟨inner, mid⟩, hinner, h⟩ := h
        obtain ⟨us, rfl, hus⟩ := ih.unary hinner
        obtain ⟨rfl, rfl⟩ := Prod.mk.inj h
        exact ⟨_, rfl, .cast opening span closing htarget hus⟩
      · simp at hcast
    · next hcast =>
      simp only [bind_eq_ok] at h
      obtain ⟨⟨inner, mid⟩, hinner, h⟩ := h
      obtain ⟨us, rfl, hus⟩ := ih.primary hcast hinner
      exact (ih.suffixes (.loosen (by decide) hus) h).loosen (by decide)

theorem suffixes_succ (ih : Sound stop depth) {left : Expr} (hleft : Derives (.expr 8 left) used)
    (h : ExprParser.suffixes stop (depth + 1) left ts = .ok (e, rest)) :
    Spelled (.expr 8 e) (used ++ ts) rest := by
  simp only [ExprParser.suffixes] at h
  split at h
  · next point mid =>
    simp only [bind_eq_ok] at h
    obtain ⟨⟨⟨name, span⟩, mid⟩, hname, h⟩ := h
    obtain rfl := eq_cons_of_ident hname
    dsimp only at h
    split at h
    · next opening mid =>
      simp only [bind_eq_ok] at h
      obtain ⟨⟨⟨args, closing⟩, mid⟩, hargs, h⟩ := h
      obtain ⟨us, rfl, hus⟩ := ih.arguments hargs
      have hspelled := ih.suffixes (.method point name span opening closing hleft hus) h
      simpa using hspelled
    · have hspelled := ih.suffixes (.field point name span hleft) h
      simpa using hspelled
  · next opening mid =>
    simp only [bind_eq_ok] at h
    obtain ⟨⟨position, mid⟩, hposition, ⟨closing, mid'⟩, hclose, h⟩ := h
    obtain ⟨us, rfl, hus⟩ := ih.expression hposition
    obtain rfl := eq_cons_of_sign hclose
    have hspelled := ih.suffixes (.index opening closing hleft hus) h
    simpa using hspelled
  · obtain ⟨rfl, rfl⟩ := Prod.mk.inj (pure_eq_ok.1 h)
    exact ⟨used, rfl, hleft⟩

theorem primary_succ (ih : Sound stop depth) (hcast : castAt? ts = none)
    (h : ExprParser.primary stop (depth + 1) ts = .ok (e, rest)) : Spelled (.expr 9 e) ts rest := by
  simp only [ExprParser.primary] at h
  split at h
  · next name span opening mid =>
    simp only [bind_eq_ok, pure_eq_ok] at h
    obtain ⟨⟨⟨args, closing⟩, mid⟩, hargs, h⟩ := h
    obtain ⟨us, rfl, hus⟩ := ih.arguments hargs
    obtain ⟨rfl, rfl⟩ := Prod.mk.inj h
    exact ⟨_, by simp, .call name span opening closing hus⟩
  · next name span mid _ =>
    obtain ⟨rfl, rfl⟩ := Prod.mk.inj (pure_eq_ok.1 h)
    exact ⟨_, rfl, .ident name span⟩
  · next opening mid =>
    simp only [bind_eq_ok, pure_eq_ok] at h
    obtain ⟨⟨inner, mid⟩, hinner, ⟨closing, mid'⟩, hclose, h⟩ := h
    obtain ⟨us, rfl, hus⟩ := ih.expression hinner
    obtain rfl := eq_cons_of_sign hclose
    obtain ⟨rfl, rfl⟩ := Prod.mk.inj h
    have hsplit :
        (⟨.sign .lparen, opening⟩ :: (us ++ ⟨.sign .rparen, closing⟩ :: mid') : List Lexeme) =
        (⟨.sign .lparen, opening⟩ :: us ++ [⟨.sign .rparen, closing⟩]) ++ mid' := by simp
    rw [hsplit] at hcast ⊢
    exact ⟨_, rfl, .group hus (castAt?_of_append hcast)⟩
  · next span mid => exact ih.construction h
  · next token span mid _ _ _ _ =>
    split at h
    · next value hvalue =>
      obtain ⟨rfl, rfl⟩ := Prod.mk.inj (pure_eq_ok.1 h)
      exact ⟨[⟨token, span⟩], rfl, .literal (t := ⟨token, span⟩) hvalue⟩
    · exact absurd h expected_ne_ok
  · exact absurd h expected_ne_ok

theorem construction_succ (ih : Sound stop depth) {span : Span}
    (h : ExprParser.construction stop (depth + 1) span ts = .ok (e, rest)) :
    Spelled (.expr 9 e) (⟨.keyword .newKw, span⟩ :: ts) rest := by
  simp only [ExprParser.construction, bind_eq_ok] at h
  obtain ⟨⟨name, mid⟩, hname, h⟩ := h
  obtain ⟨ns, rfl, hns⟩ := spellsName_of_qualifiedName hname
  -- with and without type arguments the reader goes on in the same way
  have harguments {gs mid : List Lexeme} (hgs : TypeArguments gs)
      (h : (sign stop .lparen .parenAfterConstructorType mid >>= fun opened =>
        ExprParser.arguments stop depth opened.2 >>= fun closed =>
          pure (.construct name closed.1.1 (span.through closed.1.2), closed.2)) = .ok (e, rest)) :
      Spelled (.expr 9 e) (⟨.keyword .newKw, span⟩ :: (ns ++ (gs ++ mid))) rest := by
    simp only [bind_eq_ok, pure_eq_ok] at h
    obtain ⟨⟨opening, mid₂⟩, hopen, ⟨⟨args, closing⟩, mid₃⟩, hargs, h⟩ := h
    obtain rfl := eq_cons_of_sign hopen
    obtain ⟨us, rfl, hus⟩ := ih.arguments hargs
    obtain ⟨rfl, rfl⟩ := Prod.mk.inj h
    exact ⟨_, by simp, .construct span opening closing hns hgs hus⟩
  dsimp only at h
  split at h
  · rw [bind_eq_ok] at h
    obtain ⟨mid', htypes, h⟩ := h
    obtain ⟨⟨places, _⟩, hgroup, rfl⟩ := map_eq_ok.1 htypes
    obtain ⟨gs, rfl, hgs⟩ := typeArguments_of_group hgroup
    exact harguments hgs h
  · exact harguments .none h

theorem arguments_succ (ih : Sound stop depth)
    (h : ExprParser.arguments stop (depth + 1) ts = .ok ((es, closing), rest)) :
    Spelled (.args es) ts (⟨.sign .rparen, closing⟩ :: rest) := by
  simp only [ExprParser.arguments] at h
  split at h
  · obtain ⟨hargs, rfl⟩ := Prod.mk.inj (pure_eq_ok.1 h)
    obtain ⟨rfl, rfl⟩ := Prod.mk.inj hargs
    exact ⟨[], rfl, .noArgs⟩
  · exact (ih.argumentList h).2

theorem argumentList_succ (ih : Sound stop depth)
    (h : ExprParser.argumentList stop (depth + 1) ts = .ok ((es, closing), rest)) :
    es ≠ [] ∧ Spelled (.args es) ts (⟨.sign .rparen, closing⟩ :: rest) := by
  simp only [ExprParser.argumentList, bind_eq_ok] at h
  obtain ⟨⟨first, mid⟩, hfirst, h⟩ := h
  obtain ⟨us, rfl, hus⟩ := ih.expression hfirst
  dsimp only at h
  split at h
  · next comma mid =>
    simp only [bind_eq_ok, pure_eq_ok] at h
    obtain ⟨⟨⟨later, closing'⟩, mid⟩, hlater, h⟩ := h
    obtain ⟨hne, vs, rfl, hvs⟩ := ih.argumentList hlater
    obtain ⟨hargs, rfl⟩ := Prod.mk.inj h
    obtain ⟨rfl, rfl⟩ := Prod.mk.inj hargs
    obtain ⟨e', es', rfl⟩ := List.exists_cons_of_ne_nil hne
    exact ⟨List.cons_ne_nil _ _, _, by simp, .moreArgs comma hus hvs⟩
  · simp only [bind_eq_ok, pure_eq_ok] at h
    obtain ⟨⟨closing', mid'⟩, hclose, h⟩ := h
    obtain rfl := eq_cons_of_sign hclose
    obtain ⟨hargs, rfl⟩ := Prod.mk.inj h
    obtain ⟨rfl, rfl⟩ := Prod.mk.inj hargs
    exact ⟨List.cons_ne_nil _ _, us, rfl, .lastArg hus⟩

end Sound

/-- **What a reader takes is derived by the grammar.** -/
theorem sound (stop : Span) (depth : Nat) : Sound stop depth := by
  induction depth with
  | zero => constructor <;> intros <;> simp_all [expression, binary, binaryRest, operand, unary,
      suffixes, primary, construction, arguments, argumentList, tooDeep]
  | succ depth ih =>
    exact {
      expression := ih.expression_succ
      binary := ih.binary_succ
      binaryRest := ih.binaryRest_succ
      operand := ih.operand_succ
      unary := ih.unary_succ
      suffixes := ih.suffixes_succ
      primary := ih.primary_succ
      construction := ih.construction_succ
      arguments := ih.arguments_succ
      argumentList := ih.argumentList_succ }

/-- **An expression is read from exactly the tokens that spell it.** -/
theorem whole_eq_ok_iff : whole ⟨ts, stop⟩ = .ok e ↔ Derives (.expr 0 e) ts := by
  refine ⟨fun h => ?_, whole_of_derives⟩
  simp only [whole, bind_eq_ok] at h
  obtain ⟨⟨e', rest⟩, hread, h⟩ := h
  obtain ⟨used, rfl, hused⟩ := (sound stop _).expression hread
  dsimp only at h
  split at h
  · obtain rfl := pure_eq_ok.1 h
    rwa [List.append_nil]
  · cases h

end ExprParser

end SnippetRunner
