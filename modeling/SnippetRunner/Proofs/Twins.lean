import Mathlib.Data.List.Forall2
import SnippetRunner.Proofs.Places

/-!
# The same declarations at other places

The readers of declarations look at tokens and never at the places where these stand. So from the
same tokens in two texts they read the same: methods with the same names and modifiers, and with
bodies between the same braces (`DeclarationParser.exists_of_members`).
-/

namespace SnippetRunner

open Grammar

/-- A token with the places where it stands in two texts. -/
structure Twin where
  token : Token
  left : Span
  right : Span

/-- Tokens at their places in the first text. -/
def lefts (zs : List Twin) : List Lexeme := zs.map fun z => ⟨z.token, z.left⟩

/-- Tokens at their places in the second text. -/
def rights (zs : List Twin) : List Lexeme := zs.map fun z => ⟨z.token, z.right⟩

theorem length_rights (zs : List Twin) : (rights zs).length = (lefts zs).length := by
  rw [lefts, rights, List.length_map, List.length_map]

/-- The same tokens in two texts are twins. -/
theorem exists_twins {xs ys : List Lexeme} (h : xs.map Lexeme.token = ys.map Lexeme.token) :
    ∃ zs, lefts zs = xs ∧ rights zs = ys := by
  induction xs generalizing ys with
  | nil => exact ⟨[], rfl, (List.map_eq_nil_iff.1 h.symm).symm⟩
  | cons x xs ih =>
    obtain ⟨y, ys, rfl, hy, hys⟩ := List.map_eq_cons_iff.1 h.symm
    obtain ⟨zs, rfl, rfl⟩ := ih hys.symm
    refine ⟨⟨x.token, x.span, y.span⟩ :: zs, rfl, ?_⟩
    rw [← hy]
    rfl

theorem lefts_eq_cons {zs : List Twin} {t : Token} {place : Span} {ts : List Lexeme}
    (h : lefts zs = ⟨t, place⟩ :: ts) :
    ∃ right zs', zs = ⟨t, place, right⟩ :: zs' ∧ ts = lefts zs' := by
  obtain ⟨⟨token, left, right⟩, zs', rfl, hz, rfl⟩ := List.map_eq_cons_iff.1 h
  obtain ⟨rfl, rfl⟩ := Lexeme.mk.inj hz
  exact ⟨right, zs', rfl, rfl⟩

theorem rights_eq_cons {zs : List Twin} {t : Token} {place : Span} {ts : List Lexeme}
    (h : rights zs = ⟨t, place⟩ :: ts) :
    ∃ left zs', zs = ⟨t, left, place⟩ :: zs' ∧ ts = rights zs' := by
  obtain ⟨⟨token, left, right⟩, zs', rfl, hz, rfl⟩ := List.map_eq_cons_iff.1 h
  obtain ⟨rfl, rfl⟩ := Lexeme.mk.inj hz
  exact ⟨left, zs', rfl, rfl⟩

/-- `Twinned zs R x y`: if `x` reads tokens in the first text, `y` reads the same tokens in the
second, and what they read is related by `R`, which also knows the tokens left. -/
def Twinned {α β : Type} (zs : List Twin) (R : List Twin → α → β → Prop)
    (x : Parsed (α × List Lexeme)) (y : Parsed (β × List Lexeme)) : Prop :=
  ∀ a rest, x = .ok (a, rest) →
    ∃ b zs', zs' <:+ zs ∧ rest = lefts zs' ∧ y = .ok (b, rights zs') ∧ R zs' a b

namespace Twinned

variable {α β γ δ : Type} {zs zs' : List Twin} {R : List Twin → α → β → Prop}
  {S : List Twin → γ → δ → Prop}

theorem expected {stop : Span} {what : Expectation} {ts : List Lexeme}
    {y : Parsed (β × List Lexeme)} : Twinned zs R (Grammar.expected stop what ts) y :=
  fun _ _ h => absurd h expected_ne_ok

theorem pure {a : α} {b : β} (h : R zs a b) :
    Twinned zs R (pure (a, lefts zs)) (pure (b, rights zs)) := by
  rintro _ _ ⟨⟩
  exact ⟨b, zs, List.suffix_rfl, rfl, rfl, h⟩

theorem of_suffix {x : Parsed (α × List Lexeme)} {y : Parsed (β × List Lexeme)}
    (h : Twinned zs' R x y) (hsuffix : zs' <:+ zs) : Twinned zs R x y := by
  intro a rest hx
  obtain ⟨b, rest', hrest, hleft, hright, hR⟩ := h a rest hx
  exact ⟨b, rest', hrest.trans hsuffix, hleft, hright, hR⟩

theorem mono {R' : List Twin → α → β → Prop} {x : Parsed (α × List Lexeme)}
    {y : Parsed (β × List Lexeme)} (h : Twinned zs R x y) (hR : ∀ zs a b, R zs a b → R' zs a b) :
    Twinned zs R' x y := by
  intro a rest hx
  obtain ⟨b, zs', hsuffix, hleft, hright, hb⟩ := h a rest hx
  exact ⟨b, zs', hsuffix, hleft, hright, hR _ _ _ hb⟩

/-- What is read behind tokens that are twins may depend on what was read of these. -/
theorem bind {x : Parsed (α × List Lexeme)} {y : Parsed (β × List Lexeme)}
    {f : α × List Lexeme → Parsed (γ × List Lexeme)}
    {g : β × List Lexeme → Parsed (δ × List Lexeme)} (h : Twinned zs R x y)
    (hfg : ∀ zs' a b, zs' <:+ zs → R zs' a b →
      Twinned zs' S (f (a, lefts zs')) (g (b, rights zs'))) :
    Twinned zs S (x >>= f) (y >>= g) := by
  intro c rest hx
  obtain ⟨⟨a, mid⟩, ha, hf⟩ := bind_eq_ok.1 hx
  obtain ⟨b, zs', hsuffix, rfl, hy, hR⟩ := h a mid ha
  obtain ⟨d, zs'', hsuffix', hrest, hg, hS⟩ := hfg zs' a b hsuffix hR c rest hf
  exact ⟨d, zs'', hsuffix'.trans hsuffix, hrest, bind_eq_ok.2 ⟨_, hy, hg⟩, hS⟩

end Twinned

/-! ## Single tokens, names and groups -/

variable {zs : List Twin} {stop : Span} (stop' : Span)

theorem twinned_sign (s : Sign) (what : Expectation) :
    Twinned zs
      (fun rest a b => ∃ z, zs = z :: rest ∧ z.token = .sign s ∧ a = z.left ∧ b = z.right)
      (sign stop s what (lefts zs)) (sign stop' s what (rights zs)) := by
  intro a rest h
  obtain ⟨right, zs', rfl, rfl⟩ := lefts_eq_cons (eq_cons_of_sign h)
  refine ⟨right, zs', List.suffix_cons _ _, rfl, ?_, _, rfl, rfl, rfl, rfl⟩
  simp [rights, sign]

theorem twinned_ident :
    Twinned zs (fun _ (a b : String × Span) => a.1 = b.1) (ident stop (lefts zs))
      (ident stop' (rights zs)) := by
  rintro ⟨name, place⟩ rest h
  obtain ⟨right, zs', rfl, rfl⟩ := lefts_eq_cons (eq_cons_of_ident h)
  exact ⟨(name, right), zs', List.suffix_cons _ _, rfl, rfl, rfl⟩

/-- A second text has no two tokens in front that the first one does not have. -/
theorem exists_lefts_of_rights {t t' : Token} {place place' : Span} {ts : List Lexeme}
    (h : rights zs = ⟨t, place⟩ :: ⟨t', place'⟩ :: ts) :
    ∃ left left' ts', lefts zs = ⟨t, left⟩ :: ⟨t', left'⟩ :: ts' := by
  obtain ⟨left, zs', rfl, hrest⟩ := rights_eq_cons h
  obtain ⟨left', zs'', rfl, -⟩ := rights_eq_cons hrest.symm
  exact ⟨left, left', lefts zs'', rfl⟩

theorem twinned_qualifiers (name : String) :
    ∃ zs', zs' <:+ zs ∧ (qualifiers name (lefts zs)).2 = lefts zs' ∧
      qualifiers name (rights zs) = ((qualifiers name (lefts zs)).1, rights zs') := by
  generalize hts : lefts zs = ts
  fun_induction qualifiers name ts generalizing zs with
  | case1 name _ part _ rest ih =>
    obtain ⟨right, zs', rfl, hrest⟩ := lefts_eq_cons hts
    obtain ⟨right', zs'', rfl, rfl⟩ := lefts_eq_cons hrest.symm
    obtain ⟨zs₃, hsuffix, hleft, hright⟩ := ih rfl
    exact ⟨zs₃, hsuffix.trans ((List.suffix_cons _ _).trans (List.suffix_cons _ _)), hleft, hright⟩
  | case2 name ts hnot =>
    subst hts
    refine ⟨zs, List.suffix_rfl, rfl, qualifiers.eq_2 name _ fun _ part _ rest h => ?_⟩
    obtain ⟨left, left', ts', hlefts⟩ := exists_lefts_of_rights h
    exact hnot _ _ _ _ hlefts

theorem twinned_qualifiedName :
    Twinned zs (fun _ (a b : String) => a = b) (qualifiedName stop (lefts zs))
      (qualifiedName stop' (rights zs)) := by
  refine (twinned_ident _).bind ?_
  rintro zs' ⟨name, place⟩ ⟨-, place'⟩ - ⟨⟩
  obtain ⟨zs'', hsuffix, hleft, hright⟩ : ∃ zs'', zs'' <:+ zs' ∧
      (qualifiers name (lefts zs')).2 = lefts zs'' ∧
      qualifiers name (rights zs') = ((qualifiers name (lefts zs')).1, rights zs'') :=
    twinned_qualifiers name
  intro a rest h
  have hread : qualifiers name (lefts zs') = (a, rest) := pure_eq_ok.1 h
  rw [hread] at hleft hright
  exact ⟨a, zs'', hsuffix, hleft, congrArg Except.ok hright, rfl⟩

theorem twinned_skipToClosing {opener closer : Sign} {depth : Nat} {place : Span}
    {rest : List Lexeme} (h : skipToClosing opener closer depth (lefts zs) = some (place, rest)) :
    ∃ mid c zs', zs = mid ++ c :: zs' ∧ c.token = .sign closer ∧ place = c.left ∧ rest = lefts zs' ∧
      skipToClosing opener closer depth (rights zs) = some (c.right, rights zs') := by
  induction zs generalizing depth with
  | nil => exact absurd h nofun
  | cons z zs ih =>
    have hlater {depth' : Nat}
        (h : skipToClosing opener closer depth' (lefts zs) = some (place, rest)) :
        ∃ mid c zs', z :: zs = mid ++ c :: zs' ∧ c.token = .sign closer ∧ place = c.left ∧
          rest = lefts zs' ∧
          skipToClosing opener closer depth' (rights zs) = some (c.right, rights zs') := by
      obtain ⟨mid, c, zs', rfl, hfound⟩ := ih h
      exact ⟨z :: mid, c, zs', rfl, hfound⟩
    obtain ⟨token, left, right⟩ := z
    rw [lefts, List.map_cons, ← lefts, skipToClosing] at h
    rw [rights, List.map_cons, ← rights, skipToClosing]
    dsimp only at h ⊢
    split at h
    · split at h
      · next hopen =>
        rw [if_pos hopen]
        exact hlater h
      · next hopen =>
        rw [if_neg hopen]
        split at h
        · next hclose =>
          rw [if_pos hclose]
          split at h
          · next hdepth =>
            obtain ⟨rfl, rfl⟩ := Prod.mk.inj (Option.some.inj h)
            exact ⟨[], _, zs, rfl, congrArg Token.sign hclose, rfl, rfl, if_pos hdepth⟩
          · next hdepth =>
            rw [if_neg hdepth]
            exact hlater h
        · next hclose =>
          rw [if_neg hclose]
          exact hlater h
    · exact hlater h

/-- What stands between two brackets. -/
def between (opening closing : Span) : Span :=
  ⟨opening.stop, closing.start, opening.line, opening.column + 1⟩

/-- A group with its two brackets. -/
theorem twinned_group (opener closer : Sign) :
    Twinned zs
      (fun rest a b => ∃ o mid c, zs = o :: (mid ++ c :: rest) ∧ o.token = .sign opener ∧
        c.token = .sign closer ∧ a = (between o.left c.left, c.left) ∧
        b = (between o.right c.right, c.right))
      (group stop opener closer (lefts zs)) (group stop' opener closer (rights zs)) := by
  refine (twinned_sign _ opener .openingDelimiter).bind ?_
  rintro zs' _ _ - ⟨o, rfl, ho, rfl, rfl⟩
  intro a rest h
  dsimp only at h ⊢
  split at h
  · next place mid hskip =>
    obtain ⟨⟩ := pure_eq_ok.1 h
    obtain ⟨mid, c, zs'', rfl, hc, rfl, rfl, hright⟩ := twinned_skipToClosing hskip
    refine ⟨_, zs'', ⟨mid ++ [c], by simp⟩, rfl, ?_, o, mid, c, rfl, ho, hc, rfl, rfl⟩
    rw [hright]
    rfl
  · exact absurd h nofun

/-! ## Members of a type -/

namespace DeclarationParser

theorem startsWithSign_rights (s : Sign) (zs : List Twin) :
    startsWithSign s (rights zs) = startsWithSign s (lefts zs) := by
  cases zs with
  | nil => rfl
  | cons z zs =>
    obtain ⟨token, left, right⟩ := z
    cases token <;> rfl

theorem twinned_modifiers (calls : Nat) :
    Twinned zs (fun _ (a b : List String) => a = b) (modifiers stop calls (lefts zs))
      (modifiers stop' calls (rights zs)) := by
  generalize hts : lefts zs = ts
  fun_induction modifiers stop calls ts generalizing zs with
  | case1 =>
    intro _ _ h
    cases h
  | case2 =>
    obtain ⟨right, zs', rfl, hrest⟩ := lefts_eq_cons hts
    obtain ⟨right', zs'', rfl, rfl⟩ := lefts_eq_cons hrest.symm
    rw [← hts]
    exact .pure rfl
  | case3 calls place ts hnot ih =>
    obtain ⟨right, zs', rfl, rfl⟩ := lefts_eq_cons hts
    have hnot' (place : Span) (tail : List Lexeme)
        (h : rights zs' = ⟨.keyword .interfaceKw, place⟩ :: tail) : False := by
      obtain ⟨left, zs'', rfl, -⟩ := rights_eq_cons h
      exact hnot _ _ rfl
    rw [rights, List.map_cons, ← rights, modifiers.eq_3 _ _ _ _ hnot']
    refine .of_suffix ((twinned_qualifiedName _).bind ?_) (List.suffix_cons _ _)
    rintro zs'' name _ - rfl
    dsimp only
    rw [startsWithSign_rights]
    split
    · rw [bind_map_left, bind_map_left]
      exact (twinned_group _ _ _).bind fun _ _ _ _ _ => ih _ rfl
    · exact ih _ rfl
  | case4 calls place ts ih =>
    obtain ⟨right, zs', rfl, rfl⟩ := lefts_eq_cons hts
    refine .of_suffix ((ih rfl).bind ?_) (List.suffix_cons _ _)
    rintro zs'' names _ - rfl
    exact .pure rfl
  | case5 calls name place ts hname ih =>
    obtain ⟨right, zs', rfl, rfl⟩ := lefts_eq_cons hts
    rw [rights, List.map_cons, ← rights, modifiers.eq_5, if_pos hname]
    refine .of_suffix ((ih rfl).bind ?_) (List.suffix_cons _ _)
    rintro zs'' names _ - rfl
    exact .pure rfl
  | case6 calls name place ts hname =>
    obtain ⟨right, zs', rfl, rfl⟩ := lefts_eq_cons hts
    rw [rights, List.map_cons, ← rights, modifiers.eq_5, if_neg hname, ← hts]
    exact .pure rfl
  | case7 calls ts hannotation hat hstatic hident =>
    subst hts
    rw [modifiers.eq_6]
    · exact .pure rfl
    · intro _ _ _ h
      obtain ⟨_, _, _, hlefts⟩ := exists_lefts_of_rights h
      exact hannotation _ _ _ hlefts
    · intro _ _ h
      obtain ⟨_, _, rfl, -⟩ := rights_eq_cons h
      exact hat _ _ rfl
    · intro _ _ h
      obtain ⟨_, _, rfl, -⟩ := rights_eq_cons h
      exact hstatic _ _ rfl
    · intro _ _ _ h
      obtain ⟨_, _, rfl, -⟩ := rights_eq_cons h
      exact hident _ _ _ rfl

theorem typeKind?_rights (h : typeKind? (lefts zs) = none) : typeKind? (rights zs) = none := by
  cases hkind : typeKind? (rights zs) with
  | none => rfl
  | some found =>
    generalize hts : rights zs = ts at hkind
    unfold typeKind? at hkind
    split at hkind
    · obtain ⟨_, _, rfl, -⟩ := rights_eq_cons hts
      exact absurd h nofun
    · obtain ⟨_, _, rfl, -⟩ := rights_eq_cons hts
      exact absurd h nofun
    · obtain ⟨_, _, rfl, -⟩ := rights_eq_cons hts
      exact absurd h nofun
    · obtain ⟨_, _, _, hlefts⟩ := exists_lefts_of_rights hts
      rw [hlefts] at h
      exact absurd h nofun
    · obtain ⟨_, _, _, hlefts⟩ := exists_lefts_of_rights hts
      rw [hlefts] at h
      exact absurd h nofun
    · exact absurd hkind nofun

theorem exists_of_skipInitializer {depth : Nat} {rest : List Lexeme}
    (h : skipInitializer stop depth (lefts zs) = .ok rest) :
    ∃ zs', zs' <:+ zs ∧ rest = lefts zs' ∧
      skipInitializer stop' depth (rights zs) = .ok (rights zs') := by
  induction zs generalizing depth with
  | nil => exact absurd h nofun
  | cons z zs ih =>
    have hlater {depth' : Nat} (h : skipInitializer stop depth' (lefts zs) = .ok rest) :
        ∃ zs', zs' <:+ z :: zs ∧ rest = lefts zs' ∧
          skipInitializer stop' depth' (rights zs) = .ok (rights zs') := by
      obtain ⟨zs', hsuffix, hrest, hright⟩ := ih h
      exact ⟨zs', hsuffix.trans (List.suffix_cons _ _), hrest, hright⟩
    have hcloses {what : Parsed (List Lexeme)} {ts : List Lexeme}
        (h : (if depth = 0 then Grammar.expected stop .balancedInitializer ts
          else skipInitializer stop (depth - 1) (lefts zs)) = .ok rest) :
        ∃ zs', zs' <:+ z :: zs ∧ rest = lefts zs' ∧
          (if depth = 0 then what else skipInitializer stop' (depth - 1) (rights zs)) =
            .ok (rights zs') := by
      split at h
      · exact absurd h expected_ne_ok
      · next hdepth =>
        rw [if_neg hdepth]
        exact hlater h
    have hends (h : (if depth = 0 then .ok (lefts zs)
          else skipInitializer stop depth (lefts zs)) = Except.ok rest) :
        ∃ zs', zs' <:+ z :: zs ∧ rest = lefts zs' ∧
          (if depth = 0 then .ok (rights zs) else skipInitializer stop' depth (rights zs)) =
            Except.ok (rights zs') := by
      split at h
      · next hdepth =>
        obtain rfl := Except.ok.inj h
        exact ⟨zs, List.suffix_cons _ _, rfl, if_pos hdepth⟩
      · next hdepth =>
        rw [if_neg hdepth]
        exact hlater h
    obtain ⟨token, left, right⟩ := z
    cases token with
    | sign s =>
      cases s with
      | lbrace | lparen | lbracket => exact hlater h
      | rbrace | rparen | rbracket => exact hcloses h
      | semicolon => exact hends h
      | _ => exact hlater h
    | _ => exact hlater h

theorem rel_imp {α β : Type} {R S : α → β → Prop} (hRS : ∀ {a b}, R a b → S a b) {x : Option α}
    {y : Option β} (h : Option.Rel R x y) : Option.Rel S x y := by
  cases h with
  | none => exact .none
  | some h => exact .some (hRS h)

/-- `InBraces zs rest b b'`: places in two texts between the same two braces, which stand in front
of the tokens `rest`. -/
def InBraces (zs rest : List Twin) (b b' : Span) : Prop :=
  ∃ front o mid c, zs = front ++ o :: (mid ++ c :: rest) ∧ o.token = .sign .lbrace ∧
    c.token = .sign .rbrace ∧ b = between o.left c.left ∧ b' = between o.right c.right

theorem InBraces.of_suffix {zs' rest : List Twin} {b b' : Span} (h : InBraces zs' rest b b')
    (hsuffix : zs' <:+ zs) : InBraces zs rest b b' := by
  obtain ⟨front, o, mid, c, rfl, hplaces⟩ := h
  obtain ⟨used, rfl⟩ := hsuffix
  exact ⟨used ++ front, o, mid, c, by simp, hplaces⟩

theorem twinned_methodEnd (name : String) :
    Twinned zs
      (fun rest (a b : Option Span × Span) => Option.Rel (InBraces zs rest) a.1 b.1)
      (methodEnd stop name (lefts zs)) (methodEnd stop' name (rights zs)) := by
  generalize hts : lefts zs = ts
  fun_induction methodEnd stop name ts generalizing zs with
  | case1 place ts =>
    obtain ⟨right, zs', rfl, rfl⟩ := lefts_eq_cons hts
    rw [← hts]
    refine (twinned_group _ _ _).bind ?_
    rintro zs'' _ _ - ⟨o, mid, c, hzs, ho, hc, rfl, rfl⟩
    exact .pure (.some ⟨[], o, mid, c, hzs, ho, hc, rfl, rfl⟩)
  | case2 place ts =>
    obtain ⟨right, zs', rfl, rfl⟩ := lefts_eq_cons hts
    exact .of_suffix (.pure .none) (List.suffix_cons _ _)
  | case3 => exact .expected
  | case4 head ts hopen hsemicolon hclose ih =>
    obtain ⟨⟨token, left, right⟩, zs', rfl, hz, rfl⟩ := List.map_eq_cons_iff.1 hts
    subst hz
    rw [rights, List.map_cons, ← rights, methodEnd.eq_4]
    · refine .of_suffix ((ih rfl).mono fun rest a b h => ?_) (List.suffix_cons _ _)
      exact rel_imp (fun hbody => hbody.of_suffix (List.suffix_cons _ _)) h
    · exact fun _ h => hopen _ (congrArg (Lexeme.mk ·.token left) h)
    · exact fun _ h => hsemicolon _ (congrArg (Lexeme.mk ·.token left) h)
    · exact fun _ h => hclose _ (congrArg (Lexeme.mk ·.token left) h)
  | case5 => exact .expected

/-- `SameMethod zs rest m m'`: methods with the same name and modifiers, and with bodies between the
same braces if they have one. -/
structure SameMethod (zs rest : List Twin) (m m' : MethodDecl) : Prop where
  name_eq : m'.name = m.name
  modifiers_eq : m'.modifiers = m.modifiers
  body : Option.Rel (InBraces zs rest) m.body m'.body

theorem SameMethod.of_suffix {zs' rest : List Twin} {m m' : MethodDecl}
    (h : SameMethod zs' rest m m') (hsuffix : zs' <:+ zs) : SameMethod zs rest m m' :=
  ⟨h.name_eq, h.modifiers_eq, rel_imp (fun hbody => hbody.of_suffix hsuffix) h.body⟩

theorem twinned_member (mods : List String) (start start' : Span) (calls : Nat) :
    Twinned zs (fun rest a b => Option.Rel (SameMethod zs rest) a b)
      (member stop mods start calls (lefts zs)) (member stop' mods start' calls (rights zs)) := by
  generalize hts : lefts zs = ts
  fun_induction member stop mods start calls ts generalizing zs with
  | case1 =>
    intro _ _ h
    cases h
  | case2 calls name place place' ts =>
    obtain ⟨right, zs', rfl, hrest⟩ := lefts_eq_cons hts
    obtain ⟨right', zs'', rfl, rfl⟩ := lefts_eq_cons hrest.symm
    rw [hrest]
    refine .of_suffix ((twinned_group _ _ _).bind ?_) (List.suffix_cons _ _)
    rintro zs₁ ⟨params, _⟩ ⟨params', _⟩ hzs₁ -
    refine (twinned_methodEnd _ name).bind ?_
    rintro zs₂ ⟨body, last⟩ ⟨body', last'⟩ - hbody
    have hsuffix := hzs₁.trans (List.suffix_cons ⟨.ident name, place, right⟩ _)
    exact .pure (.some ⟨rfl, rfl, rel_imp (fun hbody => hbody.of_suffix hsuffix) hbody⟩)
  | case3 calls place ts ih =>
    obtain ⟨right, zs', rfl, rfl⟩ := lefts_eq_cons hts
    rw [← hts]
    refine (twinned_group _ _ _).bind ?_
    rintro zs₁ _ _ hzs₁ -
    exact (ih _ rfl).mono fun rest a b h => rel_imp (fun hm => hm.of_suffix hzs₁) h
  | case4 calls place ts =>
    obtain ⟨right, zs', rfl, rfl⟩ := lefts_eq_cons hts
    exact .of_suffix (.pure .none) (List.suffix_cons _ _)
  | case5 calls place ts =>
    obtain ⟨right, zs', rfl, rfl⟩ := lefts_eq_cons hts
    rw [← hts]
    intro a rest h
    obtain ⟨ts', hskip, h⟩ := bind_eq_ok.1 h
    obtain ⟨zs', hsuffix, rfl, hright⟩ := exists_of_skipInitializer stop' hskip
    obtain ⟨rfl, rfl⟩ := Prod.mk.inj (pure_eq_ok.1 h)
    exact ⟨none, zs', hsuffix, rfl, bind_eq_ok.2 ⟨_, hright, rfl⟩, .none⟩
  | case6 => exact .expected
  | case7 => exact .expected
  | case8 => exact .expected
  | case9 calls head ts hmethod hless hsemicolon hassign hclose hopen ih =>
    obtain ⟨⟨token, left, right⟩, zs', rfl, hz, rfl⟩ := List.map_eq_cons_iff.1 hts
    subst hz
    rw [rights, List.map_cons, ← rights, member.eq_9]
    · refine .of_suffix ((ih rfl).mono fun rest a b h => ?_) (List.suffix_cons _ _)
      exact rel_imp (fun hm => hm.of_suffix (List.suffix_cons _ _)) h
    · intro _ _ _ _ h hrest
      obtain ⟨_, _, rfl, -⟩ := rights_eq_cons hrest
      exact hmethod _ _ _ _ (congrArg (Lexeme.mk ·.token left) h) rfl
    · exact fun _ h => hless _ (congrArg (Lexeme.mk ·.token left) h)
    · exact fun _ h => hsemicolon _ (congrArg (Lexeme.mk ·.token left) h)
    · exact fun _ h => hassign _ (congrArg (Lexeme.mk ·.token left) h)
    · exact fun _ h => hclose _ (congrArg (Lexeme.mk ·.token left) h)
    · exact fun _ h => hopen _ (congrArg (Lexeme.mk ·.token left) h)

theorem exists_of_group {opener closer : Sign} {places : Span × Span} {rest : List Lexeme}
    (h : group stop opener closer (lefts zs) = .ok (places, rest)) :
    ∃ places' zs', zs' <:+ zs ∧ rest = lefts zs' ∧
      group stop' opener closer (rights zs) = .ok (places', rights zs') ∧
        zs'.length < zs.length := by
  obtain ⟨places', zs', hsuffix, hrest, hright, o, mid, c, rfl, -⟩ := twinned_group stop' _ _ _ _ h
  refine ⟨places', zs', hsuffix, hrest, hright, ?_⟩
  simp only [List.length_cons, List.length_append]
  omega

/-- Methods that are the same are read from tokens that others follow. -/
def SameMethods (zs : List Twin) (ms ms' : List MethodDecl) : Prop :=
  List.Forall₂ (fun m m' => ∃ rest, rest ≠ [] ∧ SameMethod zs rest m m') ms ms'

theorem SameMethods.of_suffix {zs' : List Twin} {ms ms' : List MethodDecl}
    (h : SameMethods zs' ms ms') (hsuffix : zs' <:+ zs) : SameMethods zs ms ms' :=
  h.imp fun _ _ ⟨rest, hrest, hm⟩ => ⟨rest, hrest, hm.of_suffix hsuffix⟩

theorem members_nil_ne_ok {calls : Nat} {name : String}
    {r : (List MethodDecl × List TypeDecl × Span) × List Lexeme} :
    members stop calls name [] ≠ .ok r := by
  cases calls <;> nofun

theorem callsFor_rights (zs : List Twin) : callsFor (rights zs) = callsFor (lefts zs) := by
  rw [callsFor, callsFor, length_rights]

/-! ### Members -/

/-- Whether tokens neither close a type nor start with what is passed over among its members. -/
structure StartsMember (ts : List Lexeme) : Prop where
  ne_nil : ts ≠ []
  not_close (place : Span) (ts' : List Lexeme) : ts ≠ ⟨.sign .rbrace, place⟩ :: ts'
  not_semicolon (place : Span) (ts' : List Lexeme) : ts ≠ ⟨.sign .semicolon, place⟩ :: ts'
  not_block (place : Span) (ts' : List Lexeme) : ts ≠ ⟨.sign .lbrace, place⟩ :: ts'
  not_static (place place' : Span) (ts' : List Lexeme) :
    ts ≠ ⟨.keyword .staticKw, place⟩ :: ⟨.sign .lbrace, place'⟩ :: ts'

theorem StartsMember.rights (h : StartsMember (lefts zs)) : StartsMember (rights zs) where
  ne_nil hnil := h.ne_nil (by rw [lefts, List.map_eq_nil_iff]; exact List.map_eq_nil_iff.1 hnil)
  not_close _ _ heq := by
    obtain ⟨_, _, rfl, -⟩ := rights_eq_cons heq
    exact h.not_close _ _ rfl
  not_semicolon _ _ heq := by
    obtain ⟨_, _, rfl, -⟩ := rights_eq_cons heq
    exact h.not_semicolon _ _ rfl
  not_block _ _ heq := by
    obtain ⟨_, _, rfl, -⟩ := rights_eq_cons heq
    exact h.not_block _ _ rfl
  not_static _ _ _ heq := by
    obtain ⟨_, _, _, hlefts⟩ := exists_lefts_of_rights heq
    exact h.not_static _ _ _ hlefts

/-- Modifiers and a member behind them that is no type, and then the members that follow. -/
theorem members_of_startsMember {calls : Nat} {name : String} {mods : List String}
    {ts ts₁ ts₂ : List Lexeme} {method? : Option MethodDecl} (h : StartsMember ts)
    (hmods : modifiers stop (callsFor ts) ts = .ok (mods, ts₁)) (hkind : typeKind? ts₁ = none)
    (hmember : member stop mods (spanAt stop ts) (callsFor ts₁) ts₁ = .ok (method?, ts₂)) :
    members stop (calls + 1) name ts =
      members stop calls name ts₂ >>= fun r =>
        pure ((method?.toList ++ r.1.1, r.1.2.1, r.1.2.2), r.2) := by
  rw [members.eq_7 _ _ _ _ h.ne_nil h.not_close h.not_semicolon h.not_block h.not_static, hmods]
  show (if (typeKind? ts₁).isSome then _ else _) = _
  rw [hkind, if_neg (by simp), hmember]
  rfl

/-- A member with its modifiers is read again, and takes a token at least. -/
theorem exists_of_modified_member {mods : List String} {ts₁ ts₂ : List Lexeme}
    {method? : Option MethodDecl}
    (hmods : modifiers stop (callsFor (lefts zs)) (lefts zs) = .ok (mods, ts₁))
    (hmember : member stop mods (spanAt stop (lefts zs)) (callsFor ts₁) ts₁ = .ok (method?, ts₂)) :
    ∃ zs₁ zs₂ method', ts₁ = lefts zs₁ ∧ ts₂ = lefts zs₂ ∧ zs₂ <:+ zs ∧ zs₂.length < zs.length ∧
      Option.Rel (SameMethod zs zs₂) method? method' ∧
      modifiers stop' (callsFor (rights zs)) (rights zs) = .ok (mods, rights zs₁) ∧
      member stop' mods (spanAt stop' (rights zs)) (callsFor (rights zs₁)) (rights zs₁) =
        .ok (method', rights zs₂) := by
  obtain ⟨_, zs₁, hzs₁, rfl, hmods', rfl⟩ := twinned_modifiers stop' _ _ _ hmods
  obtain ⟨method', zs₂, hzs₂, rfl, hmember', hmethod⟩ :=
    twinned_member stop' mods _ (spanAt stop' (rights zs)) _ _ _ hmember
  rw [← callsFor_rights] at hmods' hmember'
  refine ⟨zs₁, zs₂, method', rfl, rfl, hzs₂.trans hzs₁, ?_,
    rel_imp (fun hm => hm.of_suffix hzs₁) hmethod, hmods', hmember'⟩
  obtain ⟨⟨t, mid, hcons, hmid⟩, -⟩ := exists_suffix_of_member hmember
  have hlength := congrArg List.length hcons
  have hle := hmid.length_le
  have hle' := hzs₁.length_le
  simp only [lefts, List.length_map, List.length_cons] at hlength hle
  omega

/-- `ReadAgain calls name zs methods rest`: from the tokens `zs` at their places in the second text
members are read with the same methods, up to where `rest` starts in the first. -/
def ReadAgain (calls : Nat) (name : String) (zs : List Twin) (methods : List MethodDecl)
    (rest : List Lexeme) : Prop :=
  ∃ methods' closing zs', rest = lefts zs' ∧ SameMethods zs methods methods' ∧
    members stop' calls name (rights zs) = .ok ((methods', [], closing), rights zs')

namespace ReadAgain

variable {calls : Nat} {name : String} {zs' : List Twin} {methods : List MethodDecl}
  {rest : List Lexeme} {stop'}

/-- Tokens that are no member are passed over. -/
theorem skip (h : ReadAgain stop' calls name zs' methods rest) (hsuffix : zs' <:+ zs)
    (hskip : members stop' (calls + 1) name (rights zs) = members stop' calls name (rights zs')) :
    ReadAgain stop' (calls + 1) name zs methods rest := by
  obtain ⟨methods', closing, rest', hrest, hsame, hread⟩ := h
  exact ⟨methods', closing, rest', hrest, hsame.of_suffix hsuffix, hskip.trans hread⟩

/-- A member is read in front of others. -/
theorem member {method? method' : Option MethodDecl}
    (h : ReadAgain stop' calls name zs' methods rest) (hsuffix : zs' <:+ zs)
    (hmethod : Option.Rel (SameMethod zs zs') method? method')
    (hmember : members stop' (calls + 1) name (rights zs) =
      members stop' calls name (rights zs') >>= fun r =>
        pure ((method'.toList ++ r.1.1, r.1.2.1, r.1.2.2), r.2)) :
    ReadAgain stop' (calls + 1) name zs (method?.toList ++ methods) rest := by
  obtain ⟨methods', closing, rest', hrest, hsame, hread⟩ := h
  have hnext : zs' ≠ [] := by
    rintro rfl
    exact members_nil_ne_ok hread
  have hown : SameMethods zs method?.toList method'.toList := by
    cases hmethod with
    | none => exact .nil
    | some hm => exact .cons ⟨zs', hnext, hm⟩ .nil
  refine ⟨_, closing, rest', hrest, List.rel_append hown (hsame.of_suffix hsuffix), ?_⟩
  rw [hmember, hread]
  rfl

end ReadAgain

/-- **A type without nested types has the same methods where its tokens are found again.** It is
read with any bound that is enough for them, and whatever its name. -/
theorem exists_of_members {calls calls' : Nat} {name : String} (name' : String)
    {methods : List MethodDecl} {closing : Span} {rest : List Lexeme}
    (h : members stop calls name (lefts zs) = .ok ((methods, [], closing), rest))
    (hcalls : zs.length < calls') : ReadAgain stop' calls' name' zs methods rest := by
  induction calls generalizing zs calls' methods closing rest with
  | zero => exact absurd h nofun
  | succ calls ih =>
    obtain ⟨calls', rfl⟩ : ∃ k, calls' = k + 1 := ⟨calls' - 1, by omega⟩
    generalize hts : lefts zs = ts at h
    unfold members at h
    split at h
    · exact absurd h expected_ne_ok
    · obtain ⟨right, zs', rfl, rfl⟩ := lefts_eq_cons hts
      obtain ⟨⟨⟩⟩ := pure_eq_ok.1 h
      exact ⟨[], right, zs', rfl, .nil, rfl⟩
    · -- a semicolon
      obtain ⟨right, zs', rfl, rfl⟩ := lefts_eq_cons hts
      exact (ih h (Nat.lt_of_succ_lt_succ hcalls)).skip (List.suffix_cons _ _) rfl
    · -- an initializer
      obtain ⟨⟨_, ts'⟩, hgroup, h⟩ := bind_eq_ok.1 h
      rw [← hts] at hgroup
      obtain ⟨right, zs₀, rfl, rfl⟩ := lefts_eq_cons hts
      obtain ⟨b, zs', hsuffix, rfl, hright, hlt⟩ := exists_of_group stop' hgroup
      exact (ih h (by omega)).skip hsuffix (congrArg (· >>= _) hright)
    · -- a static initializer
      obtain ⟨⟨_, ts'⟩, hgroup, h⟩ := bind_eq_ok.1 h
      obtain ⟨right, zs₀, rfl, hrest₀⟩ := lefts_eq_cons hts
      rw [hrest₀] at hgroup
      obtain ⟨right', zs₁, rfl, rfl⟩ := lefts_eq_cons hrest₀.symm
      obtain ⟨b, zs', hsuffix, rfl, hright, hlt⟩ := exists_of_group stop' hgroup
      rw [List.length_cons] at hcalls
      exact (ih h (by omega)).skip (hsuffix.trans (List.suffix_cons _ _))
        (congrArg (· >>= _) hright)
    · next hnil hclose hsemicolon hopen hstatic =>
      have hstarts : StartsMember ts := ⟨hnil, hclose, hsemicolon, hopen, hstatic⟩
      subst hts
      obtain ⟨⟨mods, ts₁⟩, hmods, h⟩ := bind_eq_ok.1 h
      dsimp only at h
      split at h
      · obtain ⟨⟨t, ts₂⟩, -, h⟩ := bind_eq_ok.1 h
        obtain ⟨⟨⟨ms, nested, _⟩, ts₃⟩, -, h⟩ := bind_eq_ok.1 h
        exact absurd (congrArg (fun r => r.1.2.1) (pure_eq_ok.1 h)) nofun
      · next hkind =>
        obtain ⟨⟨method?, ts₂⟩, hmember, h⟩ := bind_eq_ok.1 h
        obtain ⟨⟨⟨ms, nested, closing⟩, ts₃⟩, hmembers, h⟩ := bind_eq_ok.1 h
        obtain ⟨⟨⟩⟩ := pure_eq_ok.1 h
        obtain ⟨zs₁, zs₂, method', rfl, rfl, hsuffix, hlt, hmethod, hmods', hmember'⟩ :=
          exists_of_modified_member stop' hmods hmember
        have hkind' : typeKind? (rights zs₁) = none := typeKind?_rights (by simpa using hkind)
        exact (ih hmembers (by omega)).member hsuffix hmethod
          (members_of_startsMember hstarts.rights hmods' hkind' hmember')

end DeclarationParser

end SnippetRunner
