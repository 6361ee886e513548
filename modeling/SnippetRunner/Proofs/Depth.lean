import SnippetRunner.Proofs.Soundness

/-!
# The depth of the readers

The readers of expressions and of declarations that call each other are given a bound on their
calls, and report the fault `tooDeep` where it is used up. With the bounds they are given that never
happens. A reader that has read a token has one token less to go, so the bound is counted in tokens:
sixteen calls for a token of an expression (`ExprParser.Suffices`), two for one of a declaration.

* A text is never too deep to be read as an expression (`Expr.parse_ne_tooDeep`).
* Nor is it too deep to be read as a compilation unit (`CompilationUnit.parse_ne_tooDeep`).
-/

namespace SnippetRunner

open Grammar

/-! ## Readers of single tokens and groups -/

namespace Grammar

/-- `InDepth r`: the reader with the result `r` has not used up its bound. -/
def InDepth {α : Type} (r : Parsed α) : Prop := ∀ e, r = .error e → e.fault ≠ .tooDeep

variable {α β : Type} {stop : Span} {ts : List Lexeme}

theorem inDepth_ok (a : α) : InDepth (.ok a : Parsed α) := nofun

theorem inDepth_pure (a : α) : InDepth (pure a : Parsed α) := inDepth_ok a

theorem inDepth_error {e : ParseError} (h : e.fault ≠ .tooDeep) :
    InDepth (.error e : Parsed α) := by
  rintro _ ⟨⟩
  exact h

theorem inDepth_expected (stop : Span) (what : Expectation) (ts : List Lexeme) :
    InDepth (expected stop what ts : Parsed α) := inDepth_error nofun

/-- What goes on behind a reader matters only with what that reader has read. -/
theorem InDepth.bind {x : Parsed α} {f : α → Parsed β} (hx : InDepth x)
    (hf : ∀ a, x = .ok a → InDepth (f a)) : InDepth (x >>= f) := by
  cases x with
  | error e => exact inDepth_error (hx e rfl)
  | ok a => exact hf a rfl

theorem InDepth.map {x : Parsed α} (hx : InDepth x) (f : α → β) : InDepth (f <$> x) := by
  cases x with
  | error e => exact inDepth_error (hx e rfl)
  | ok a => exact inDepth_ok (f a)

theorem inDepth_sign (stop : Span) (s : Sign) (what : Expectation) (ts : List Lexeme) :
    InDepth (sign stop s what ts) := by
  unfold sign
  split
  · split
    · exact inDepth_ok _
    · exact inDepth_expected _ _ _
  · exact inDepth_expected _ _ _

theorem inDepth_ident (stop : Span) (ts : List Lexeme) : InDepth (ident stop ts) := by
  unfold ident
  split
  · exact inDepth_ok _
  · exact inDepth_expected _ _ _

theorem inDepth_qualifiedName (stop : Span) (ts : List Lexeme) :
    InDepth (qualifiedName stop ts) :=
  (inDepth_ident stop ts).bind fun _ _ => inDepth_pure _

theorem inDepth_group (stop : Span) (opener closer : Sign) (ts : List Lexeme) :
    InDepth (group stop opener closer ts) := by
  refine (inDepth_sign _ _ _ _).bind ?_
  rintro ⟨opening, rest⟩ _
  dsimp only
  split
  · exact inDepth_pure _
  · exact inDepth_error nofun

end Grammar

/-! ## Expressions -/

namespace ExprParser

variable {stop closing span : Span} {depth level : Nat} {e : Expr} {es : List Expr}
  {ts rest : List Lexeme}

theorem Spelled.length_lt (h : Spelled (.expr level e) ts rest) : rest.length < ts.length := by
  obtain ⟨used, rfl, hused⟩ := h
  have hpos := hused.pos
  rw [List.length_append]
  omega

/-- The closing parenthesis is one of the tokens read. -/
theorem Spelled.length_lt_of_args
    (h : Spelled (.args es) ts (⟨.sign .rparen, closing⟩ :: rest)) : rest.length < ts.length := by
  obtain ⟨used, rfl, -⟩ := h
  rw [List.length_append, List.length_cons]
  omega

variable (stop) in
/-- The bound `depth` is enough for each reader where few enough tokens are left. A call lowers the
bound by one. What a reader needs, it lowers by one as well where no token was read, and by sixteen
for each token that was. -/
structure Suffices (depth : Nat) : Prop where
  expression {ts : List Lexeme} : 16 * ts.length + 15 ≤ depth →
    InDepth (expression stop depth ts)
  binary {level : Nat} {ts : List Lexeme} : level ≤ 5 →
    16 * ts.length + 14 ≤ depth + 2 * level → InDepth (binary stop depth level ts)
  binaryRest {level : Nat} {left : Expr} {ts : List Lexeme} : level ≤ 5 →
    16 * ts.length + 1 ≤ depth → InDepth (binaryRest stop depth level left ts)
  operand {level : Nat} {ts : List Lexeme} : level ≤ 5 →
    16 * ts.length + 13 ≤ depth + 2 * level → InDepth (operand stop depth level ts)
  unary {ts : List Lexeme} : 16 * ts.length + 2 ≤ depth → InDepth (unary stop depth ts)
  suffixes {e : Expr} {ts : List Lexeme} : 16 * ts.length + 1 ≤ depth →
    InDepth (suffixes stop depth e ts)
  primary {ts : List Lexeme} : 16 * ts.length + 1 ≤ depth → InDepth (primary stop depth ts)
  construction {start : Span} {ts : List Lexeme} : 16 * ts.length + 2 ≤ depth →
    InDepth (construction stop depth start ts)
  arguments {ts : List Lexeme} : 16 * ts.length + 17 ≤ depth → InDepth (arguments stop depth ts)
  argumentList {ts : List Lexeme} : 16 * ts.length + 16 ≤ depth →
    InDepth (argumentList stop depth ts)

namespace Suffices

theorem expression_succ (ih : Suffices stop depth) (h : 16 * ts.length + 15 ≤ depth + 1) :
    InDepth (ExprParser.expression stop (depth + 1) ts) := by
  rw [ExprParser.expression]
  refine (ih.binary (Nat.zero_le 5) (by omega)).bind ?_
  rintro ⟨condition, mid⟩ hcondition
  have hmid := ((sound stop depth).binary (Nat.zero_le 5) hcondition).length_lt
  dsimp only
  split
  · rw [List.length_cons] at hmid
    refine (ih.expression (by omega)).bind ?_
    rintro ⟨yes, mid₁⟩ hyes
    have hmid₁ := ((sound stop depth).expression hyes).length_lt
    dsimp only
    refine (inDepth_sign _ _ _ _).bind ?_
    rintro ⟨colon, mid₂⟩ hcolon
    rw [eq_cons_of_sign hcolon, List.length_cons] at hmid₁
    dsimp only
    exact (ih.expression (by omega)).bind fun _ _ => inDepth_pure _
  · exact inDepth_pure _

theorem binary_succ (ih : Suffices stop depth) (hlevel : level ≤ 5)
    (h : 16 * ts.length + 14 ≤ depth + 1 + 2 * level) :
    InDepth (ExprParser.binary stop (depth + 1) level ts) := by
  rw [ExprParser.binary]
  refine (ih.operand hlevel (by omega)).bind ?_
  rintro ⟨left, mid⟩ hleft
  have hmid := ((sound stop depth).operand hlevel hleft).length_lt
  exact ih.binaryRest hlevel (by omega)

theorem binaryRest_succ (ih : Suffices stop depth) (hlevel : level ≤ 5)
    (h : 16 * ts.length + 1 ≤ depth + 1) :
    InDepth (ExprParser.binaryRest stop (depth + 1) level e ts) := by
  rw [ExprParser.binaryRest]
  split
  · next op mid hop =>
    obtain ⟨-, s, span, -, rfl⟩ := Sound.exists_of_operatorAt? hop
    rw [List.length_cons] at h
    refine (ih.operand hlevel (by omega)).bind ?_
    rintro ⟨right, mid'⟩ hright
    have hmid' := ((sound stop depth).operand hlevel hright).length_lt
    exact ih.binaryRest hlevel (by omega)
  · exact inDepth_pure _

theorem operand_succ (ih : Suffices stop depth) (hlevel : level ≤ 5)
    (h : 16 * ts.length + 13 ≤ depth + 1 + 2 * level) :
    InDepth (ExprParser.operand stop (depth + 1) level ts) := by
  rw [ExprParser.operand]
  split
  · exact ih.binary (by omega) (by omega)
  · exact ih.unary (by omega)

theorem length_lt_of_prefixOp? {op : UnaryOp} (h : prefixOp? ts = some (op, rest)) :
    rest.length < ts.length := by
  unfold prefixOp? at h
  split at h
  · simp only [Option.map_eq_some_iff, Prod.mk.injEq] at h
    obtain ⟨-, -, -, rfl⟩ := h
    simp
  · simp at h

theorem length_lt_of_castAt? {target : CastTarget} (h : castAt? ts = some (target, rest)) :
    rest.length < ts.length := by
  unfold castAt? at h
  split at h
  · simp only [Option.map_eq_some_iff, Prod.mk.injEq] at h
    obtain ⟨-, -, -, rfl⟩ := h
    simp only [List.length_cons]
    omega
  · simp at h

theorem unary_succ (ih : Suffices stop depth) (h : 16 * ts.length + 2 ≤ depth + 1) :
    InDepth (ExprParser.unary stop (depth + 1) ts) := by
  rw [ExprParser.unary]
  split
  · next op mid hop =>
    have hmid := length_lt_of_prefixOp? hop
    exact (ih.unary (by omega)).bind fun _ _ => inDepth_pure _
  · split
    · next target mid hcast =>
      have hmid := length_lt_of_castAt? hcast
      exact (ih.unary (by omega)).bind fun _ _ => inDepth_pure _
    · next hcast =>
      refine (ih.primary (by omega)).bind ?_
      rintro ⟨inner, mid⟩ hinner
      have hmid := ((sound stop depth).primary hcast hinner).length_lt
      exact ih.suffixes (by omega)

theorem suffixes_succ (ih : Suffices stop depth) (h : 16 * ts.length + 1 ≤ depth + 1) :
    InDepth (ExprParser.suffixes stop (depth + 1) e ts) := by
  rw [ExprParser.suffixes.eq_def]
  dsimp only
  split
  · refine (inDepth_ident _ _).bind ?_
    rintro ⟨⟨name, span⟩, mid⟩ hname
    rw [eq_cons_of_ident hname] at h
    simp only [List.length_cons] at h
    dsimp only
    split
    · rw [List.length_cons] at h
      refine (ih.arguments (by omega)).bind ?_
      rintro ⟨⟨args, closing⟩, mid'⟩ hargs
      have hmid' := ((sound stop depth).arguments hargs).length_lt_of_args
      dsimp only
      exact ih.suffixes (by omega)
    · exact ih.suffixes (by omega)
  · rw [List.length_cons] at h
    refine (ih.expression (by omega)).bind ?_
    rintro ⟨position, mid⟩ hposition
    have hmid := ((sound stop depth).expression hposition).length_lt
    dsimp only
    refine (inDepth_sign _ _ _ _).bind ?_
    rintro ⟨closing, mid'⟩ hclose
    rw [eq_cons_of_sign hclose, List.length_cons] at hmid
    dsimp only
    exact ih.suffixes (by omega)
  · exact inDepth_pure _

theorem primary_succ (ih : Suffices stop depth) (h : 16 * ts.length + 1 ≤ depth + 1) :
    InDepth (ExprParser.primary stop (depth + 1) ts) := by
  rw [ExprParser.primary.eq_def]
  dsimp only
  split
  · simp only [List.length_cons] at h
    exact (ih.arguments (by omega)).bind fun _ _ => inDepth_pure _
  · exact inDepth_pure _
  · rw [List.length_cons] at h
    refine (ih.expression (by omega)).bind fun _ _ => ?_
    exact (inDepth_sign _ _ _ _).bind fun _ _ => inDepth_pure _
  · rw [List.length_cons] at h
    exact ih.construction (by omega)
  · split
    · exact inDepth_pure _
    · exact inDepth_expected _ _ _
  · exact inDepth_expected _ _ _

theorem construction_succ (ih : Suffices stop depth) (h : 16 * ts.length + 2 ≤ depth + 1) :
    InDepth (ExprParser.construction stop (depth + 1) span ts) := by
  rw [ExprParser.construction]
  refine (inDepth_qualifiedName _ _).bind ?_
  rintro ⟨name, mid⟩ hname
  have hmid := (suffix_of_qualifiedName hname).length_le
  -- type arguments take nothing back
  have harguments {mid' : List Lexeme} (hmid' : mid'.length ≤ mid.length) :
      InDepth (sign stop .lparen .parenAfterConstructorType mid' >>= fun opened =>
        ExprParser.arguments stop depth opened.2 >>= fun closed =>
          pure (Expr.construct name closed.1.1 (span.through closed.1.2), closed.2)) := by
    refine (inDepth_sign _ _ _ _).bind ?_
    rintro ⟨opening, mid''⟩ hopen
    rw [eq_cons_of_sign hopen, List.length_cons] at hmid'
    exact (ih.arguments (by dsimp only; omega)).bind fun _ _ => inDepth_pure _
  dsimp only
  split
  · refine ((inDepth_group _ _ _ _).map _).bind fun mid' htypes => ?_
    obtain ⟨⟨places, _⟩, hgroup, rfl⟩ := map_eq_ok.1 htypes
    exact harguments (suffix_of_group hgroup).length_le
  · exact harguments (Nat.le_refl _)

theorem arguments_succ (ih : Suffices stop depth) (h : 16 * ts.length + 17 ≤ depth + 1) :
    InDepth (ExprParser.arguments stop (depth + 1) ts) := by
  rw [ExprParser.arguments.eq_def]
  dsimp only
  split
  · exact inDepth_pure _
  · exact ih.argumentList (by omega)

theorem argumentList_succ (ih : Suffices stop depth) (h : 16 * ts.length + 16 ≤ depth + 1) :
    InDepth (ExprParser.argumentList stop (depth + 1) ts) := by
  rw [ExprParser.argumentList]
  refine (ih.expression (by omega)).bind ?_
  rintro ⟨first, mid⟩ hfirst
  have hmid := ((sound stop depth).expression hfirst).length_lt
  dsimp only
  split
  · rw [List.length_cons] at hmid
    exact (ih.argumentList (by omega)).bind fun _ _ => inDepth_pure _
  · exact (inDepth_sign _ _ _ _).bind fun _ _ => inDepth_pure _

end Suffices

/-- **A depth of sixteen calls for each token is enough for every reader.** -/
theorem suffices_depth (stop : Span) (depth : Nat) : Suffices stop depth := by
  induction depth with
  | zero => constructor <;> intros <;> omega
  | succ depth ih =>
    exact {
      expression := ih.expression_succ
      binary := ih.binary_succ
      binaryRest := ih.binaryRest_succ
      operand := ih.operand_succ
      unary := ih.unary_succ
      suffixes := ih.suffixes_succ
      primary := ih.primary_succ
      construction := ih.construction_succ
      arguments := ih.arguments_succ
      argumentList := ih.argumentList_succ }

theorem inDepth_whole (tokens : Lexemes) : InDepth (whole tokens) := by
  have hdepth : 16 * tokens.list.length + 15 ≤ depthFor tokens.list := by
    unfold depthFor
    omega
  refine ((suffices_depth tokens.stop _).expression hdepth).bind ?_
  rintro ⟨e, rest⟩ _
  dsimp only
  split
  · exact inDepth_pure _
  · exact inDepth_error nofun

end ExprParser

/-! ## Declarations -/

namespace DeclarationParser

variable {stop start : Span} {calls : Nat} {name : String} {mods : List String}
  {ts rest : List Lexeme}

theorem inDepth_modifiers (h : ts.length < calls) : InDepth (modifiers stop calls ts) := by
  fun_induction modifiers stop calls ts with
  | case1 => omega
  | case2 => exact inDepth_pure _
  | case3 calls _ ts _ ih =>
    rw [List.length_cons] at h
    refine (inDepth_qualifiedName _ _).bind ?_
    rintro ⟨name, mid⟩ hname
    have hmid := (suffix_of_qualifiedName hname).length_le
    dsimp only
    split
    · refine ((inDepth_group _ _ _ _).map _).bind fun mid' hvalues => ih mid' ?_
      obtain ⟨⟨places, _⟩, hgroup, rfl⟩ := map_eq_ok.1 hvalues
      have hmid' := (suffix_of_group hgroup).length_le
      dsimp only
      omega
    · exact (inDepth_ok mid).bind fun mid' hsame => ih mid' (by cases hsame; omega)
  | case4 calls _ ts ih =>
    exact (ih (Nat.lt_of_succ_lt_succ h)).bind fun _ _ => inDepth_pure _
  | case5 calls name _ ts _ ih =>
    exact (ih (Nat.lt_of_succ_lt_succ h)).bind fun _ _ => inDepth_pure _
  | case6 => exact inDepth_pure _
  | case7 => exact inDepth_pure _

theorem inDepth_skipConstants (stop : Span) (depth : Nat) (ts : List Lexeme) :
    InDepth (skipConstants stop depth ts) := by
  fun_induction skipConstants stop depth ts with
  | case1 => exact inDepth_expected _ _ _
  | case4 | case7 => exact inDepth_ok _
  | case2 _ _ _ ih | case3 _ _ _ ih | case5 _ _ _ _ ih | case6 _ _ _ ih | case8 _ _ _ _ ih
  | case9 _ _ _ _ _ _ _ _ _ ih | case10 _ _ _ _ ih => exact ih

theorem inDepth_skipInitializer (stop : Span) (depth : Nat) (ts : List Lexeme) :
    InDepth (skipInitializer stop depth ts) := by
  fun_induction skipInitializer stop depth ts with
  | case1 | case5 | case7 | case9 => exact inDepth_expected _ _ _
  | case11 => exact inDepth_ok _
  | case2 _ _ _ ih | case3 _ _ _ ih | case4 _ _ _ ih | case6 _ _ _ _ ih | case8 _ _ _ _ ih
  | case10 _ _ _ _ ih | case12 _ _ _ _ ih | case13 _ _ _ _ _ _ _ _ _ _ _ ih
  | case14 _ _ _ _ ih => exact ih

theorem inDepth_methodEnd (stop : Span) (name : String) (ts : List Lexeme) :
    InDepth (methodEnd stop name ts) := by
  fun_induction methodEnd stop name ts with
  | case1 => exact (inDepth_group _ _ _ _).bind fun _ _ => inDepth_pure _
  | case2 => exact inDepth_pure _
  | case3 | case5 => exact inDepth_expected _ _ _
  | case4 _ _ _ _ _ ih => exact ih

theorem inDepth_member (h : ts.length < calls) : InDepth (member stop mods start calls ts) := by
  fun_induction member stop mods start calls ts with
  | case1 => omega
  | case2 =>
    refine (inDepth_group _ _ _ _).bind fun _ _ => ?_
    exact (inDepth_methodEnd _ _ _).bind fun _ _ => inDepth_pure _
  | case3 calls _ tail ih =>
    refine (inDepth_group _ _ _ _).bind ?_
    rintro ⟨places, mid⟩ hgroup
    refine ih mid ?_
    obtain ⟨t, behind, hts, hmid⟩ := exists_suffix_of_group hgroup
    rw [hts, List.length_cons] at h
    have hle := hmid.length_le
    omega
  | case4 => exact inDepth_pure _
  | case5 => exact (inDepth_skipInitializer _ _ _).bind fun _ _ => inDepth_pure _
  | case6 | case7 | case8 => exact inDepth_expected _ _ _
  | case9 calls t ts _ _ _ _ _ _ ih => exact ih (Nat.lt_of_succ_lt_succ h)

theorem inDepth_skipHeader (stop : Span) (name : String) (ts : List Lexeme) :
    InDepth (skipHeader stop name ts) := by
  unfold skipHeader
  split
  · exact inDepth_expected _ _ _
  · exact inDepth_ok _

/-- A type declaration takes at least its name. -/
theorem length_lt_of_typeDeclaration {t : TypeDecl}
    (h : typeDeclaration stop calls mods start ts = .ok (t, rest)) : rest.length < ts.length := by
  cases calls with
  | zero => simp [typeDeclaration, tooDeep] at h
  | succ calls =>
    obtain ⟨name, mid, closeSpan, -, hshorter, hmembers, -⟩ := exists_members_of_typeDeclaration h
    have hle := ((takes_typeDeclaration_and_members calls).2 hmembers).suffix.length_le
    omega

section Step

-- the bound of one call less, as the induction gives it
variable (ihType : ∀ {mods start ts}, 2 * ts.length + 1 ≤ calls →
    InDepth (typeDeclaration stop calls mods start ts))
  (ihMembers : ∀ {name ts}, 2 * ts.length + 2 ≤ calls → InDepth (members stop calls name ts))
include ihMembers

theorem inDepth_typeDeclaration_succ (h : 2 * ts.length + 1 ≤ calls + 1) :
    InDepth (typeDeclaration stop (calls + 1) mods start ts) := by
  unfold typeDeclaration
  split
  · exact inDepth_expected _ _ _
  · next kind ts₁ hkind =>
    have hts₁ := (suffix_of_typeKind? hkind).length_le
    refine (inDepth_ident _ _).bind ?_
    rintro ⟨⟨name, _⟩, ts₂⟩ hname
    rw [eq_cons_of_ident hname, List.length_cons] at hts₁
    refine (inDepth_skipHeader _ _ _).bind fun ts₃ hheader => ?_
    have hts₃ := (suffix_of_skipHeader hheader).length_le
    -- the constants of an enumeration only shorten what is left
    have hmembers {mid : List Lexeme} (hmid : mid.length ≤ ts₃.length) :
        InDepth (members stop calls name mid >>= fun r =>
          pure (TypeDecl.mk kind name mods r.1.1 r.1.2.1 (start.through r.1.2.2), r.2)) :=
      (ihMembers (by omega)).bind fun _ _ => inDepth_pure _
    dsimp only
    split
    · refine (inDepth_skipConstants _ _ _).bind fun ts₄ hskip => ?_
      exact hmembers (suffix_of_skipConstants hskip).length_le
    · exact (inDepth_ok ts₃).bind fun ts₄ hsame => hmembers (by cases hsame; omega)

include ihType in
theorem inDepth_members_succ (h : 2 * ts.length + 2 ≤ calls + 1) :
    InDepth (members stop (calls + 1) name ts) := by
  unfold members
  split
  · exact inDepth_expected _ _ _
  · exact inDepth_pure _
  · rw [List.length_cons] at h
    exact ihMembers (by omega)
  · refine (inDepth_group _ _ _ _).bind ?_
    rintro ⟨places, mid⟩ hgroup
    refine ihMembers ?_
    obtain ⟨t, behind, hts, hmid⟩ := exists_suffix_of_group hgroup
    rw [hts, List.length_cons] at h
    have hle := hmid.length_le
    omega
  · refine (inDepth_group _ _ _ _).bind ?_
    rintro ⟨places, mid⟩ hgroup
    refine ihMembers ?_
    have hle := (suffix_of_group hgroup).length_le
    simp only [List.length_cons] at h hle ⊢
    omega
  · refine (inDepth_modifiers (by unfold callsFor; omega)).bind ?_
    rintro ⟨mods, ts₁⟩ hmods
    have hts₁ := (suffix_of_modifiers hmods).length_le
    dsimp only
    split
    · refine (ihType (by omega)).bind ?_
      rintro ⟨t, mid⟩ htype
      have hmid := length_lt_of_typeDeclaration htype
      exact (ihMembers (by dsimp only; omega)).bind fun _ _ => inDepth_pure _
    · refine (inDepth_member (by unfold callsFor; omega)).bind ?_
      rintro ⟨method?, mid⟩ hmember
      obtain ⟨⟨t, behind, hts, hmid⟩, -⟩ := exists_suffix_of_member hmember
      rw [hts, List.length_cons] at hts₁
      have hle := hmid.length_le
      exact (ihMembers (by dsimp only; omega)).bind fun _ _ => inDepth_pure _

end Step

/-- Two calls for each token are enough for a type declaration, and one more for members, which may
start with a declaration. -/
theorem inDepth_typeDeclaration_and_members (calls : Nat) :
    (∀ {mods start ts}, 2 * ts.length + 1 ≤ calls →
      InDepth (typeDeclaration stop calls mods start ts)) ∧
    ∀ {name ts}, 2 * ts.length + 2 ≤ calls → InDepth (members stop calls name ts) := by
  induction calls with
  | zero => exact ⟨by omega, by omega⟩
  | succ calls ih =>
    exact ⟨inDepth_typeDeclaration_succ ih.2, inDepth_members_succ ih.1 ih.2⟩

theorem inDepth_package (stop : Span) (ts : List Lexeme) : InDepth (package stop ts) := by
  unfold package
  split
  · refine (inDepth_qualifiedName _ _).bind fun _ _ => ?_
    exact (inDepth_sign _ _ _ _).bind fun _ _ => inDepth_pure _
  · exact inDepth_pure _

theorem inDepth_importName (stop : Span) (ts : List Lexeme) : InDepth (importName stop ts) := by
  unfold importName
  extract_lets ts₁ finish
  have hfinish (r : String × List Lexeme) : InDepth (finish r) :=
    (inDepth_sign _ _ _ _).bind fun _ _ => inDepth_pure _
  refine (inDepth_qualifiedName _ _).bind ?_
  rintro ⟨name, ts₂⟩ _
  dsimp only
  split
  · refine (inDepth_sign _ _ _ _).bind fun _ _ => ?_
    exact (inDepth_ok _).bind fun r _ => hfinish r
  · exact (inDepth_ok _).bind fun r _ => hfinish r

theorem inDepth_imports (h : ts.length < calls) : InDepth (imports stop calls ts) := by
  fun_induction imports stop calls ts with
  | case1 => omega
  | case2 calls _ ts ih =>
    rw [List.length_cons] at h
    refine (inDepth_importName _ _).bind ?_
    rintro ⟨name, mid⟩ hname
    have hmid := (suffix_of_importName hname).length_le
    exact (ih mid (by omega)).bind fun _ _ => inDepth_pure _
  | case3 => exact inDepth_pure _

theorem inDepth_types (h : ts.length < calls) : InDepth (types stop calls ts) := by
  fun_induction types stop calls ts with
  | case1 => omega
  | case2 => exact inDepth_pure _
  | case3 calls _ ts ih => exact ih (Nat.lt_of_succ_lt_succ h)
  | case4 calls ts _ _ ih =>
    refine (inDepth_modifiers (by unfold callsFor; omega)).bind ?_
    rintro ⟨mods, ts₁⟩ hmods
    have hts₁ := (suffix_of_modifiers hmods).length_le
    refine ((inDepth_typeDeclaration_and_members _).1 (by unfold callsFor; omega)).bind ?_
    rintro ⟨t, ts₂⟩ htype
    have hts₂ := length_lt_of_typeDeclaration htype
    exact (ih ts₂ (by omega)).bind fun _ _ => inDepth_pure _

theorem inDepth_whole (tokens : Lexemes) : InDepth (whole tokens) := by
  refine (inDepth_package _ _).bind ?_
  rintro ⟨name, ts₁⟩ _
  refine (inDepth_imports (by unfold callsFor; omega)).bind ?_
  rintro ⟨names, ts₂⟩ _
  exact (inDepth_types (by unfold callsFor; omega)).bind fun _ _ => inDepth_pure _

end DeclarationParser

/-- **No text is too deep to be read as an expression.** -/
theorem Expr.parse_ne_tooDeep {source : List Char} {e : ParseError}
    (h : Expr.parse source = .error e) : e.fault ≠ .tooDeep := by
  unfold Expr.parse at h
  split at h
  · exact ExprParser.inDepth_whole _ e h
  · obtain rfl := Except.error.inj h
    nofun

/-- **No text is too deep to be read as a compilation unit.** -/
theorem CompilationUnit.parse_ne_tooDeep {source : List Char} {e : ParseError}
    (h : CompilationUnit.parse source = .error e) : e.fault ≠ .tooDeep := by
  unfold CompilationUnit.parse at h
  split at h
  · exact DeclarationParser.inDepth_whole _ e h
  · obtain rfl := Except.error.inj h
    nofun

end SnippetRunner
