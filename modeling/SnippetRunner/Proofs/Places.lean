import Mathlib.Tactic.Common
import SnippetRunner.Declaration.Parser

/-!
# Where the methods of a text stand

The readers of declarations take tokens from the front: what one of them leaves is the end of what
it got (`suffix_of_group`, `suffix_of_modifiers`). So a type is made of a stretch of tokens, and
each of its methods starts at one of them (`takes_typeDeclaration_and_members`).

* The tokens of a text stand one behind the other (`sorted_lex`).
* So do the types of a text, nested ones included, and the methods of a type
  (`pairwise_isBefore_of_parse`).
-/

namespace SnippetRunner

open Grammar

/-! ## Tokens -/

/-- The byte positions where tokens start. -/
def starts (ts : List Lexeme) : List Nat := ts.map fun t => t.span.start

/-- Tokens that stand one behind the other. -/
def Sorted (ts : List Lexeme) : Prop := (starts ts).Pairwise (· < ·)

namespace Lexer

theorem lexFrom_sorted {p q : Position} {cs : List Char} {ts : List Lexeme}
    (h : lexFrom p cs = .ok (ts, q)) : Sorted ts ∧ ∀ n ∈ starts ts, p.offset ≤ n := by
  fun_induction lexFrom p cs generalizing ts q with
  | case1 p =>
    obtain ⟨rfl, -⟩ := Prod.mk.inj (Except.ok.inj h)
    simp [Sorted, starts]
  | case2 p c cs n hstep ih =>
    obtain ⟨hsorted, hle⟩ := ih h
    refine ⟨hsorted, fun m hm => ?_⟩
    have hbound := hle m hm
    rw [Position.offset_after] at hbound
    omega
  | case3 => simp at h
  | case4 p c cs t n hstep lexemes stop hrest ih =>
    obtain ⟨rfl, -⟩ := Prod.mk.inj (Except.ok.inj h)
    obtain ⟨hsorted, hle⟩ := ih hrest
    have hlt : ∀ m ∈ starts lexemes, p.offset < m := by
      intro m hm
      have hbound := hle m hm
      have hpos := c.utf8Size_pos
      rw [Position.offset_after, Text.byteSize_cons] at hbound
      omega
    refine ⟨List.pairwise_cons.2 ⟨hlt, hsorted⟩, fun m hm => ?_⟩
    rcases List.mem_cons.1 hm with rfl | hm
    · exact Nat.le_refl _
    · exact Nat.le_of_lt (hlt m hm)
  | case5 => simp_all

end Lexer

/-- **The tokens of a text stand one behind the other.** -/
theorem sorted_lex {cs : List Char} {tokens : Lexemes} (h : lex cs = .ok tokens) :
    Sorted tokens.list := by
  unfold lex at h
  cases hlex : Lexer.lexFrom .start cs with
  | error e =>
    rw [hlex] at h
    simp [Except.map] at h
  | ok r =>
    rw [hlex] at h
    obtain rfl := Except.ok.inj h
    exact (Lexer.lexFrom_sorted hlex).1

/-! ## Readers of single tokens and groups -/

namespace Grammar

theorem bind_eq_ok {α β : Type} {x : Parsed α} {f : α → Parsed β} {b : β} :
    (x >>= f) = .ok b ↔ ∃ a, x = .ok a ∧ f a = .ok b := by
  cases x with
  | error e => simp [bind, Except.bind]
  | ok a => simp [bind, Except.bind]

theorem pure_eq_ok {α : Type} {a b : α} : (pure a : Parsed α) = .ok b ↔ a = b := by
  simp [pure, Except.pure]

theorem map_eq_ok {α β : Type} {x : Parsed α} {f : α → β} {b : β} :
    f <$> x = .ok b ↔ ∃ a, x = .ok a ∧ f a = b := by
  cases x with
  | error e => simp [Functor.map, Except.map]
  | ok a => simp [Functor.map, Except.map]

theorem expected_ne_ok {α : Type} {stop : Span} {what : Expectation} {ts : List Lexeme} {a : α} :
    (expected stop what ts : Parsed α) ≠ .ok a := by
  simp [expected]

variable {stop place : Span} {ts rest : List Lexeme}

theorem eq_cons_of_sign {s : Sign} {what : Expectation}
    (h : sign stop s what ts = .ok (place, rest)) : ts = ⟨.sign s, place⟩ :: rest := by
  unfold sign at h
  split at h
  · split at h
    · next hsame =>
      obtain ⟨rfl, rfl⟩ := Prod.mk.inj (Except.ok.inj h)
      rw [hsame]
    · exact absurd h expected_ne_ok
  · exact absurd h expected_ne_ok

theorem eq_cons_of_ident {name : String} (h : ident stop ts = .ok ((name, place), rest)) :
    ts = ⟨.ident name, place⟩ :: rest := by
  unfold ident at h
  split at h
  · obtain ⟨hname, rfl⟩ := Prod.mk.inj (Except.ok.inj h)
    obtain ⟨rfl, rfl⟩ := Prod.mk.inj hname
    rfl
  · exact absurd h expected_ne_ok

theorem suffix_of_sign {s : Sign} {what : Expectation}
    (h : sign stop s what ts = .ok (place, rest)) : rest <:+ ts := by
  rw [eq_cons_of_sign h]
  exact List.suffix_cons _ _

theorem suffix_of_ident {name : String × Span} (h : ident stop ts = .ok (name, rest)) :
    rest <:+ ts := by
  rw [eq_cons_of_ident h]
  exact List.suffix_cons _ _

theorem qualifiers_suffix (name : String) (ts : List Lexeme) : (qualifiers name ts).2 <:+ ts := by
  fun_induction qualifiers name ts with
  | case1 name _ part _ rest ih =>
    exact ih.trans ((List.suffix_cons _ _).trans (List.suffix_cons _ _))
  | case2 name ts _ => exact List.suffix_rfl

theorem suffix_of_qualifiedName {name : String} (h : qualifiedName stop ts = .ok (name, rest)) :
    rest <:+ ts := by
  simp only [qualifiedName, bind_eq_ok, pure_eq_ok] at h
  obtain ⟨⟨⟨first, _⟩, mid⟩, hfirst, h⟩ := h
  have hrest : (qualifiers first mid).2 = rest := congrArg Prod.snd h
  rw [← hrest]
  exact (qualifiers_suffix first mid).trans (suffix_of_ident hfirst)

theorem suffix_of_skipToClosing {opener closer : Sign} {depth : Nat}
    (h : skipToClosing opener closer depth ts = some (place, rest)) : rest <:+ ts := by
  induction ts generalizing depth with
  | nil => simp [skipToClosing] at h
  | cons t ts ih =>
    have hcons : ts <:+ t :: ts := List.suffix_cons t ts
    unfold skipToClosing at h
    split at h
    · split at h
      · exact (ih h).trans hcons
      · split at h
        · split at h
          · obtain ⟨-, rfl⟩ := Prod.mk.inj (Option.some.inj h)
            exact hcons
          · exact (ih h).trans hcons
        · exact (ih h).trans hcons
    · exact (ih h).trans hcons

/-- A reader of a group takes the group, and so at least one token. -/
theorem exists_suffix_of_group {opener closer : Sign} {places : Span × Span}
    (h : group stop opener closer ts = .ok (places, rest)) :
    ∃ t mid, ts = t :: mid ∧ rest <:+ mid := by
  simp only [group, bind_eq_ok] at h
  obtain ⟨⟨openSpan, mid⟩, hopen, h⟩ := h
  obtain rfl := eq_cons_of_sign hopen
  dsimp only at h
  cases hskip : skipToClosing opener closer 1 mid with
  | none => simp [hskip] at h
  | some r =>
    rw [hskip] at h
    have hrest : r.2 = rest := congrArg Prod.snd (pure_eq_ok.1 h)
    rw [← hrest]
    exact ⟨_, mid, rfl, suffix_of_skipToClosing hskip⟩

theorem suffix_of_group {opener closer : Sign} {places : Span × Span}
    (h : group stop opener closer ts = .ok (places, rest)) : rest <:+ ts := by
  obtain ⟨t, mid, rfl, hrest⟩ := exists_suffix_of_group h
  exact hrest.trans (List.suffix_cons _ _)

end Grammar

/-! ## Readers of declarations -/

namespace DeclarationParser

variable {stop start closeSpan : Span} {calls depth : Nat} {name : String}
  {mods names : List String} {ts rest : List Lexeme}

theorem suffix_of_modifiers (h : modifiers stop calls ts = .ok (names, rest)) : rest <:+ ts := by
  fun_induction modifiers stop calls ts generalizing names rest with
  | case1 => simp [tooDeep] at h
  | case2 =>
    obtain ⟨-, rfl⟩ := Prod.mk.inj (pure_eq_ok.1 h)
    exact List.suffix_rfl
  | case3 calls _ ts _ ih =>
    obtain ⟨⟨_, mid⟩, hname, h⟩ := bind_eq_ok.1 h
    have hmid : mid <:+ ts := suffix_of_qualifiedName hname
    refine List.IsSuffix.trans ?_ (List.suffix_cons _ ts)
    dsimp only at h
    split at h
    · obtain ⟨mid', hvalues, h⟩ := bind_eq_ok.1 h
      obtain ⟨⟨places, _⟩, hgroup, rfl⟩ := map_eq_ok.1 hvalues
      exact (ih _ h).trans ((suffix_of_group hgroup).trans hmid)
    · obtain ⟨mid', hsame, h⟩ := bind_eq_ok.1 h
      obtain rfl := Except.ok.inj hsame
      exact (ih _ h).trans hmid
  | case4 calls _ ts ih =>
    simp only [bind_eq_ok, pure_eq_ok] at h
    obtain ⟨⟨found, mid⟩, hread, h⟩ := h
    obtain ⟨-, rfl⟩ := Prod.mk.inj h
    exact (ih hread).trans (List.suffix_cons _ _)
  | case5 calls name _ ts _ ih =>
    simp only [bind_eq_ok, pure_eq_ok] at h
    obtain ⟨⟨found, mid⟩, hread, h⟩ := h
    obtain ⟨-, rfl⟩ := Prod.mk.inj h
    exact (ih hread).trans (List.suffix_cons _ _)
  | case6 =>
    obtain ⟨-, rfl⟩ := Prod.mk.inj (pure_eq_ok.1 h)
    exact List.suffix_rfl
  | case7 =>
    obtain ⟨-, rfl⟩ := Prod.mk.inj (pure_eq_ok.1 h)
    exact List.suffix_rfl

theorem suffix_of_typeKind? {kind : TypeKind} (h : typeKind? ts = some (kind, rest)) :
    rest <:+ ts := by
  unfold typeKind? at h
  split at h
  · obtain ⟨-, rfl⟩ := Prod.mk.inj (Option.some.inj h)
    exact List.suffix_cons _ _
  · obtain ⟨-, rfl⟩ := Prod.mk.inj (Option.some.inj h)
    exact List.suffix_cons _ _
  · obtain ⟨-, rfl⟩ := Prod.mk.inj (Option.some.inj h)
    exact List.suffix_cons _ _
  · obtain ⟨-, rfl⟩ := Prod.mk.inj (Option.some.inj h)
    exact (List.suffix_cons _ _).trans (List.suffix_cons _ _)
  · obtain ⟨-, rfl⟩ := Prod.mk.inj (Option.some.inj h)
    exact List.suffix_cons _ _
  · simp at h

theorem suffix_of_skipConstants (h : skipConstants stop depth ts = .ok rest) : rest <:+ ts := by
  fun_induction skipConstants stop depth ts with
  | case1 => exact absurd h expected_ne_ok
  | case4 =>
    obtain rfl := Except.ok.inj h
    exact List.suffix_rfl
  | case7 =>
    obtain rfl := Except.ok.inj h
    exact List.suffix_cons _ _
  | case2 _ _ _ ih | case3 _ _ _ ih | case5 _ _ _ _ ih | case6 _ _ _ ih | case8 _ _ _ _ ih
  | case9 _ _ _ _ _ _ _ _ _ ih | case10 _ _ _ _ ih => exact (ih h).trans (List.suffix_cons _ _)

theorem suffix_of_skipInitializer (h : skipInitializer stop depth ts = .ok rest) :
    rest <:+ ts := by
  fun_induction skipInitializer stop depth ts with
  | case1 => exact absurd h expected_ne_ok
  | case5 => exact absurd h expected_ne_ok
  | case7 => exact absurd h expected_ne_ok
  | case9 => exact absurd h expected_ne_ok
  | case11 =>
    obtain rfl := Except.ok.inj h
    exact List.suffix_cons _ _
  | case2 _ _ _ ih | case3 _ _ _ ih | case4 _ _ _ ih | case6 _ _ _ _ ih | case8 _ _ _ _ ih
  | case10 _ _ _ _ ih | case12 _ _ _ _ ih | case13 _ _ _ _ _ _ _ _ _ _ _ ih
  | case14 _ _ _ _ ih => exact (ih h).trans (List.suffix_cons _ _)

theorem suffix_of_methodEnd {result : Option Span × Span}
    (h : methodEnd stop name ts = .ok (result, rest)) : rest <:+ ts := by
  fun_induction methodEnd stop name ts with
  | case1 =>
    simp only [bind_eq_ok, pure_eq_ok] at h
    obtain ⟨⟨_, mid⟩, hgroup, h⟩ := h
    obtain ⟨-, rfl⟩ := Prod.mk.inj h
    exact suffix_of_group hgroup
  | case2 =>
    obtain ⟨-, rfl⟩ := Prod.mk.inj (pure_eq_ok.1 h)
    exact List.suffix_cons _ _
  | case3 => exact absurd h expected_ne_ok
  | case4 _ _ _ _ _ ih => exact (ih h).trans (List.suffix_cons _ _)
  | case5 => exact absurd h expected_ne_ok

theorem suffix_of_skipHeader (h : skipHeader stop name ts = .ok rest) : rest <:+ ts := by
  unfold skipHeader at h
  split at h
  · exact absurd h expected_ne_ok
  · next hdrop =>
    obtain rfl := Except.ok.inj h
    exact (List.suffix_cons _ _).trans (hdrop ▸ List.dropWhile_suffix _)

/-- A member takes at least one token, and a method starts where its modifiers do. -/
theorem exists_suffix_of_member {method? : Option MethodDecl}
    (h : member stop mods start calls ts = .ok (method?, rest)) :
    (∃ t mid, ts = t :: mid ∧ rest <:+ mid) ∧ ∀ m ∈ method?, m.span.start = start.start := by
  fun_induction member stop mods start calls ts with
  | case1 => simp [tooDeep] at h
  | case2 calls name _ _ ts =>
    simp only [bind_eq_ok, pure_eq_ok] at h
    obtain ⟨⟨⟨params, _⟩, mid⟩, hgroup, ⟨⟨body, last⟩, mid'⟩, hend, h⟩ := h
    obtain ⟨rfl, rfl⟩ := Prod.mk.inj h
    refine ⟨⟨_, _, rfl, (suffix_of_methodEnd hend).trans (suffix_of_group hgroup)⟩, ?_⟩
    intro m hm
    obtain rfl := Option.some.inj hm
    rfl
  | case3 calls _ tail ih =>
    obtain ⟨⟨_, mid⟩, hgroup, h⟩ := bind_eq_ok.1 h
    obtain ⟨⟨t, mid', rfl, hrest⟩, hstart⟩ := ih mid h
    obtain ⟨t', behind, hts, hmid⟩ := exists_suffix_of_group hgroup
    exact ⟨⟨t', behind, hts, hrest.trans ((List.suffix_cons _ _).trans hmid)⟩, hstart⟩
  | case4 =>
    obtain ⟨rfl, rfl⟩ := Prod.mk.inj (pure_eq_ok.1 h)
    exact ⟨⟨_, _, rfl, List.suffix_rfl⟩, by simp⟩
  | case5 calls _ tail =>
    simp only [bind_eq_ok, pure_eq_ok] at h
    obtain ⟨mid, hskip, h⟩ := h
    obtain ⟨rfl, rfl⟩ := Prod.mk.inj h
    have hskip' : skipInitializer stop 0 tail = .ok mid := hskip
    exact ⟨⟨_, _, rfl, suffix_of_skipInitializer hskip'⟩, by simp⟩
  | case6 => exact absurd h expected_ne_ok
  | case7 => exact absurd h expected_ne_ok
  | case8 => exact absurd h expected_ne_ok
  | case9 calls t ts _ _ _ _ _ _ ih =>
    obtain ⟨⟨t', mid, rfl, hrest⟩, hstart⟩ := ih h
    exact ⟨⟨t, _, rfl, hrest.trans (List.suffix_cons _ _)⟩, hstart⟩

end DeclarationParser

/-! ## The methods of a type -/

/-- `t.Declares m`: the type, or a type declared inside it, has the method. -/
inductive TypeDecl.Declares : TypeDecl → MethodDecl → Prop
  | own {t : TypeDecl} {m : MethodDecl} : m ∈ t.methods → Declares t m
  | nested {t u : TypeDecl} {m : MethodDecl} : u ∈ t.nested → Declares u m → Declares t m

/-- A method starts in front of another. -/
def MethodDecl.StartsBefore (m n : MethodDecl) : Prop := m.span.start < n.span.start

/-- `t.IsBefore u`: the methods of the first type start in front of those of the second. -/
def TypeDecl.IsBefore (t u : TypeDecl) : Prop :=
  ∀ m n, t.Declares m → u.Declares n → m.StartsBefore n

/-- `Takes ts rest P`: a reader went from `ts` to `rest`, and each method with `P` starts at one of
the tokens it took. -/
def Takes (ts rest : List Lexeme) (P : MethodDecl → Prop) : Prop :=
  ∃ used, ts = used ++ rest ∧ ∀ m, P m → m.span.start ∈ starts used

theorem starts_append (xs ys : List Lexeme) : starts (xs ++ ys) = starts xs ++ starts ys :=
  List.map_append

namespace Takes

variable {ts mid rest : List Lexeme} {P Q : MethodDecl → Prop}

theorem of_suffix (h : rest <:+ ts) : Takes ts rest fun _ => False := by
  obtain ⟨used, rfl⟩ := h
  exact ⟨used, rfl, fun _ hm => hm.elim⟩

theorem trans (h : Takes ts mid P) (h' : Takes mid rest Q) :
    Takes ts rest fun m => P m ∨ Q m := by
  obtain ⟨used, rfl, hP⟩ := h
  obtain ⟨used', rfl, hQ⟩ := h'
  refine ⟨used ++ used', (List.append_assoc _ _ _).symm, fun m hm => ?_⟩
  rw [starts_append, List.mem_append]
  exact hm.imp (hP m) (hQ m)

theorem suffix (h : Takes ts rest P) : rest <:+ ts := by
  obtain ⟨used, rfl, -⟩ := h
  exact List.suffix_append used rest

theorem mono (h : Takes ts rest P) (hQ : ∀ m, Q m → P m) : Takes ts rest Q := by
  obtain ⟨used, hts, hP⟩ := h
  exact ⟨used, hts, fun m hm => hP m (hQ m hm)⟩

/-- What was taken without methods in front does not count. -/
theorem of_suffix_trans (h : mid <:+ ts) (h' : Takes mid rest P) : Takes ts rest P :=
  ((of_suffix h).trans h').mono fun _ hm => .inr hm

/-- The tokens taken stand in front of those left. -/
theorem lt_of_sorted (h : Takes ts rest P) (hsorted : Sorted ts) {m : MethodDecl} (hm : P m)
    {n : Nat}
    (hn : n ∈ starts rest) : m.span.start < n := by
  obtain ⟨used, rfl, hP⟩ := h
  rw [Sorted, starts_append, List.pairwise_append] at hsorted
  exact hsorted.2.2 _ (hP m hm) _ hn

theorem mem_starts (h : Takes ts rest P) {m : MethodDecl} (hm : P m) :
    m.span.start ∈ starts ts := by
  obtain ⟨used, rfl, hP⟩ := h
  rw [starts_append]
  exact List.mem_append_left _ (hP m hm)

end Takes

theorem Sorted.of_suffix {ts rest : List Lexeme} (hsorted : Sorted ts) (h : rest <:+ ts) :
    Sorted rest := by
  obtain ⟨used, rfl⟩ := h
  rw [Sorted, starts_append, List.pairwise_append] at hsorted
  exact hsorted.2.1

namespace DeclarationParser

variable {stop start closeSpan : Span} {calls : Nat} {name : String} {mods : List String}
  {ts rest : List Lexeme}

/-- A member behind its modifiers: the method, if it is one, starts at the first token. -/
theorem takes_member {mid : List Lexeme} {method? : Option MethodDecl} (hmods : mid <:+ ts)
    (h : member stop mods (spanAt stop ts) calls mid = .ok (method?, rest)) :
    Takes ts rest (· ∈ method?) := by
  obtain ⟨⟨t, behind, rfl, hrest⟩, hstart⟩ := exists_suffix_of_member h
  obtain ⟨used, hused⟩ := hmods
  obtain ⟨used', rfl⟩ := hrest
  refine ⟨used ++ t :: used', by rw [← hused]; simp, fun m hm => ?_⟩
  rw [hstart m hm, ← hused]
  cases used with
  | nil => simp [spanAt, starts]
  | cons u used => simp [spanAt, starts]

/-- A type declaration ends with the members of the type, behind its name, and reaches up to the
brace that closes it. -/
theorem exists_members_of_typeDeclaration {t : TypeDecl}
    (h : typeDeclaration stop (calls + 1) mods start ts = .ok (t, rest)) :
    ∃ name mid closeSpan, mid <:+ ts ∧ mid.length < ts.length ∧
      members stop calls name mid = .ok ((t.methods, t.nested, closeSpan), rest) ∧
      t.span = start.through closeSpan := by
  unfold typeDeclaration at h
  split at h
  · exact absurd h expected_ne_ok
  · next kind ts₁ hkind =>
    obtain ⟨⟨⟨name, _⟩, ts₂⟩, hname, h⟩ := bind_eq_ok.1 h
    obtain ⟨ts₃, hheader, h⟩ := bind_eq_ok.1 h
    have hts₃ : ts₃ <:+ ts₂ := suffix_of_skipHeader hheader
    have hts₂ : ts₂ <:+ ts := (suffix_of_ident hname).trans (suffix_of_typeKind? hkind)
    have hshorter : ts₂.length < ts.length := by
      have hle := (suffix_of_typeKind? hkind).length_le
      rw [eq_cons_of_ident hname, List.length_cons] at hle
      omega
    obtain ⟨mid, hmid, h⟩ : ∃ mid, mid <:+ ts₂ ∧ (members stop calls name mid >>= fun r =>
        pure (TypeDecl.mk kind name mods r.1.1 r.1.2.1 (start.through r.1.2.2), r.2)) =
          .ok (t, rest) := by
      dsimp only at h
      split at h
      · obtain ⟨ts₄, hskip, h⟩ := bind_eq_ok.1 h
        exact ⟨ts₄, (suffix_of_skipConstants hskip).trans hts₃, h⟩
      · obtain ⟨ts₄, hsame, h⟩ := bind_eq_ok.1 h
        obtain rfl := Except.ok.inj hsame
        exact ⟨ts₃, hts₃, h⟩
    obtain ⟨⟨⟨methods, nested, closeSpan⟩, ts₅⟩, hmembers, h⟩ := bind_eq_ok.1 h
    obtain ⟨rfl, rfl⟩ := Prod.mk.inj (pure_eq_ok.1 h)
    exact ⟨name, mid, closeSpan, hmid.trans hts₂, Nat.lt_of_le_of_lt hmid.length_le hshorter,
      hmembers, rfl⟩

/-- How a reader of members goes on: it comes to the brace that closes the type, passes over what is
no member, or reads a type or another member and the members behind it. -/
inductive MembersStep (stop : Span) (calls : Nat) (name : String) (ts : List Lexeme)
    (closeSpan : Span) (rest : List Lexeme) : List MethodDecl → List TypeDecl → Prop
  | close : rest <:+ ts → MembersStep stop calls name ts closeSpan rest [] []
  | skip {mid : List Lexeme} {methods : List MethodDecl} {nested : List TypeDecl} : mid <:+ ts →
      members stop calls name mid = .ok ((methods, nested, closeSpan), rest) →
      MembersStep stop calls name ts closeSpan rest methods nested
  | type {mods : List String} {ts₁ mid : List Lexeme} {t : TypeDecl} {methods : List MethodDecl}
      {nested : List TypeDecl} : ts₁ <:+ ts →
      typeDeclaration stop calls mods (spanAt stop ts) ts₁ = .ok (t, mid) →
      members stop calls name mid = .ok ((methods, nested, closeSpan), rest) →
      MembersStep stop calls name ts closeSpan rest methods (t :: nested)
  | member {mods : List String} {n : Nat} {ts₁ mid : List Lexeme} {method? : Option MethodDecl}
      {methods : List MethodDecl} {nested : List TypeDecl} : ts₁ <:+ ts →
      DeclarationParser.member stop mods (spanAt stop ts) n ts₁ = .ok (method?, mid) →
      members stop calls name mid = .ok ((methods, nested, closeSpan), rest) →
      MembersStep stop calls name ts closeSpan rest (method?.toList ++ methods) nested

theorem membersStep {methods : List MethodDecl} {nested : List TypeDecl}
    (h : members stop (calls + 1) name ts = .ok ((methods, nested, closeSpan), rest)) :
    MembersStep stop calls name ts closeSpan rest methods nested := by
  unfold members at h
  split at h
  · exact absurd h expected_ne_ok
  · simp only [pure_eq_ok, Prod.mk.injEq] at h
    obtain ⟨⟨rfl, rfl, -⟩, rfl⟩ := h
    exact .close (List.suffix_cons _ _)
  · exact .skip (List.suffix_cons _ _) h
  · obtain ⟨⟨_, mid⟩, hgroup, h⟩ := bind_eq_ok.1 h
    exact .skip (suffix_of_group hgroup) h
  · obtain ⟨⟨_, mid⟩, hgroup, h⟩ := bind_eq_ok.1 h
    exact .skip ((suffix_of_group hgroup).trans (List.suffix_cons _ _)) h
  · obtain ⟨⟨mods, ts₁⟩, hmods, h⟩ := bind_eq_ok.1 h
    have hts₁ := suffix_of_modifiers hmods
    dsimp only at h
    split at h
    · obtain ⟨⟨t, mid⟩, htype, h⟩ := bind_eq_ok.1 h
      obtain ⟨⟨⟨methods', nested', _⟩, rest'⟩, hmembers, h⟩ := bind_eq_ok.1 h
      simp only [pure_eq_ok, Prod.mk.injEq] at h
      obtain ⟨⟨rfl, rfl, rfl⟩, rfl⟩ := h
      exact .type hts₁ htype hmembers
    · obtain ⟨⟨method?, mid⟩, hmember, h⟩ := bind_eq_ok.1 h
      obtain ⟨⟨⟨methods', nested', _⟩, rest'⟩, hmembers, h⟩ := bind_eq_ok.1 h
      simp only [pure_eq_ok, Prod.mk.injEq] at h
      obtain ⟨⟨rfl, rfl, rfl⟩, rfl⟩ := h
      exact .member hts₁ hmember hmembers

/-- **A type is made of a stretch of tokens, and so are the members of one.** -/
theorem takes_typeDeclaration_and_members (calls : Nat) :
    (∀ {mods start ts t rest}, typeDeclaration stop calls mods start ts = .ok (t, rest) →
      Takes ts rest t.Declares) ∧
    ∀ {name ts methods nested closeSpan rest},
      members stop calls name ts = .ok ((methods, nested, closeSpan), rest) →
        Takes ts rest fun m => m ∈ methods ∨ ∃ u ∈ nested, u.Declares m := by
  induction calls with
  | zero => exact ⟨by simp [typeDeclaration, tooDeep], by simp [members, tooDeep]⟩
  | succ calls ih =>
    obtain ⟨ihType, ihMembers⟩ := ih
    constructor
    · intro mods start ts t rest h
      obtain ⟨name, mid, closeSpan, hmid, -, hmembers, -⟩ :=
        exists_members_of_typeDeclaration h
      refine (Takes.of_suffix_trans hmid (ihMembers hmembers)).mono ?_
      rintro m (hm | ⟨hu, hm⟩)
      · exact .inl hm
      · exact .inr ⟨_, hu, hm⟩
    · intro name ts methods nested closeSpan rest h
      cases membersStep h with
      | close hrest => exact (Takes.of_suffix hrest).mono (by simp)
      | skip hmid hmembers => exact .of_suffix_trans hmid (ihMembers hmembers)
      | type hts₁ htype hmembers =>
        refine ((Takes.of_suffix_trans hts₁ (ihType htype)).trans (ihMembers hmembers)).mono ?_
        rintro m (hm | ⟨u, hu, hm⟩)
        · exact .inr (.inl hm)
        · rcases List.mem_cons.1 hu with rfl | hu
          · exact .inl hm
          · exact .inr (.inr ⟨u, hu, hm⟩)
      | member hts₁ hmember hmembers =>
        refine ((takes_member hts₁ hmember).trans (ihMembers hmembers)).mono ?_
        rintro m (hm | hm)
        · rcases List.mem_append.1 hm with hm | hm
          · exact .inl (by simpa using hm)
          · exact .inr (.inl hm)
        · exact .inr (.inr hm)

/-- The methods of a type are read one behind the other. -/
theorem pairwise_startsBefore_of_members {methods : List MethodDecl} {nested : List TypeDecl}
    (hsorted : Sorted ts)
    (h : members stop calls name ts = .ok ((methods, nested, closeSpan), rest)) :
    methods.Pairwise MethodDecl.StartsBefore := by
  induction calls generalizing ts methods nested closeSpan rest with
  | zero => simp [members, tooDeep] at h
  | succ calls ih =>
    cases membersStep h with
    | close => exact List.Pairwise.nil
    | skip hmid hmembers => exact ih (hsorted.of_suffix hmid) hmembers
    | type hts₁ htype hmembers =>
      exact ih (hsorted.of_suffix
        (((takes_typeDeclaration_and_members _).1 htype).suffix.trans hts₁)) hmembers
    | @member _ _ _ _ method? methods _ hts₁ hmember hmembers =>
      have htakes := takes_member hts₁ hmember
      have hbehind := (takes_typeDeclaration_and_members _).2 hmembers
      have hmethods := ih (hsorted.of_suffix htakes.suffix) hmembers
      cases method? with
      | none => exact hmethods
      | some m =>
        refine List.pairwise_cons.2 ⟨fun n hn => ?_, hmethods⟩
        exact htakes.lt_of_sorted hsorted rfl (hbehind.mem_starts (.inl hn))

theorem pairwise_startsBefore_of_typeDeclaration {t : TypeDecl} (hsorted : Sorted ts)
    (h : typeDeclaration stop calls mods start ts = .ok (t, rest)) :
    t.methods.Pairwise MethodDecl.StartsBefore := by
  cases calls with
  | zero => simp [typeDeclaration, tooDeep] at h
  | succ calls =>
    obtain ⟨name, mid, closeSpan, hmid, -, hmembers, -⟩ := exists_members_of_typeDeclaration h
    exact pairwise_startsBefore_of_members (hsorted.of_suffix hmid) hmembers

/-- The types of a text are read from one stretch of tokens behind the other. -/
theorem pairwise_isBefore_of_types {types : List TypeDecl} (hsorted : Sorted ts)
    (h : DeclarationParser.types stop calls ts = .ok types) :
    types.Pairwise TypeDecl.IsBefore ∧
      ∀ u ∈ types, u.methods.Pairwise MethodDecl.StartsBefore ∧
        ∀ m, u.Declares m → m.span.start ∈ starts ts := by
  fun_induction DeclarationParser.types stop calls ts generalizing types with
  | case1 => simp [tooDeep] at h
  | case2 =>
    obtain rfl := pure_eq_ok.1 h
    simp
  | case3 calls _ ts ih =>
    obtain ⟨hpairs, hstarts⟩ := ih (hsorted.of_suffix (List.suffix_cons _ _)) h
    exact ⟨hpairs, fun u hu => ⟨(hstarts u hu).1,
      fun m hm => List.mem_cons_of_mem _ ((hstarts u hu).2 m hm)⟩⟩
  | case4 calls ts _ _ ih =>
    simp only [bind_eq_ok, pure_eq_ok] at h
    obtain ⟨⟨mods, ts₁⟩, hmods, ⟨t, ts₂⟩, htype, us, htypes, rfl⟩ := h
    have htakes : Takes ts ts₂ t.Declares :=
      .of_suffix_trans (suffix_of_modifiers hmods) ((takes_typeDeclaration_and_members _).1 htype)
    have hsuffix : ts₂ <:+ ts := htakes.suffix
    obtain ⟨hpairs, hstarts⟩ := ih ts₂ (hsorted.of_suffix hsuffix) htypes
    refine ⟨List.pairwise_cons.2 ⟨fun u hu m n hm hn => ?_, hpairs⟩, fun u hu => ?_⟩
    · exact htakes.lt_of_sorted hsorted hm ((hstarts u hu).2 n hn)
    · rcases List.mem_cons.1 hu with rfl | hu
      · exact ⟨pairwise_startsBefore_of_typeDeclaration
          (hsorted.of_suffix (suffix_of_modifiers hmods)) htype, fun m hm => htakes.mem_starts hm⟩
      · exact ⟨(hstarts u hu).1, fun m hm => (hsuffix.map _).subset ((hstarts u hu).2 m hm)⟩

theorem suffix_of_package {found : Option String} (h : package stop ts = .ok (found, rest)) :
    rest <:+ ts := by
  unfold package at h
  split at h
  · simp only [bind_eq_ok, pure_eq_ok] at h
    obtain ⟨⟨_, mid⟩, hname, ⟨_, mid'⟩, hsign, h⟩ := h
    obtain ⟨-, rfl⟩ := Prod.mk.inj h
    exact (suffix_of_sign hsign).trans
      ((suffix_of_qualifiedName hname).trans (List.suffix_cons _ _))
  · obtain ⟨-, rfl⟩ := Prod.mk.inj (pure_eq_ok.1 h)
    exact List.suffix_rfl

theorem suffix_of_importName (h : importName stop ts = .ok (name, rest)) : rest <:+ ts := by
  unfold importName at h
  extract_lets ts₁ finish at h
  have hfinish : ∀ found mid, finish (found, mid) = .ok (name, rest) → rest <:+ mid := by
    intro found mid h
    simp only [finish, bind_eq_ok, pure_eq_ok] at h
    obtain ⟨⟨_, mid'⟩, hsign, h⟩ := h
    obtain ⟨-, rfl⟩ := Prod.mk.inj h
    exact suffix_of_sign hsign
  have hts₁ : ts₁ <:+ ts := by
    unfold ts₁
    split
    · exact List.suffix_cons _ _
    · exact List.suffix_rfl
  obtain ⟨⟨first, ts₂⟩, hname, h⟩ := bind_eq_ok.1 h
  have hts₂ : ts₂ <:+ ts := (suffix_of_qualifiedName hname).trans hts₁
  dsimp only at h
  split at h
  · obtain ⟨⟨_, ts₃⟩, hstar, h⟩ := bind_eq_ok.1 h
    obtain ⟨r, hsame, h⟩ := bind_eq_ok.1 h
    obtain rfl := Except.ok.inj hsame
    have hrest : rest <:+ ts₃ := hfinish _ _ h
    exact hrest.trans ((suffix_of_sign hstar).trans ((List.suffix_cons _ _).trans hts₂))
  · obtain ⟨r, hsame, h⟩ := bind_eq_ok.1 h
    obtain rfl := Except.ok.inj hsame
    have hrest : rest <:+ ts₂ := hfinish _ _ h
    exact hrest.trans hts₂

theorem suffix_of_imports {names : List String} (h : imports stop calls ts = .ok (names, rest)) :
    rest <:+ ts := by
  fun_induction imports stop calls ts generalizing names rest with
  | case1 => simp [tooDeep] at h
  | case2 calls _ ts ih =>
    simp only [bind_eq_ok, pure_eq_ok] at h
    obtain ⟨⟨_, ts₁⟩, hname, ⟨_, ts₂⟩, hrest, h⟩ := h
    obtain ⟨-, rfl⟩ := Prod.mk.inj h
    exact (ih _ hrest).trans ((suffix_of_importName hname).trans (List.suffix_cons _ _))
  | case3 =>
    obtain ⟨-, rfl⟩ := Prod.mk.inj (pure_eq_ok.1 h)
    exact List.suffix_rfl

end DeclarationParser

/-- **The types of a text stand one behind the other, and so do the methods of each.** -/
theorem pairwise_isBefore_of_parse {cs : List Char} {unit : CompilationUnit}
    (h : CompilationUnit.parse cs = .ok unit) :
    unit.types.Pairwise TypeDecl.IsBefore ∧
      ∀ t ∈ unit.types, t.methods.Pairwise MethodDecl.StartsBefore := by
  unfold CompilationUnit.parse at h
  split at h
  · next tokens hlex =>
    simp only [DeclarationParser.whole, bind_eq_ok, pure_eq_ok] at h
    obtain ⟨⟨_, ts₁⟩, hpackage, ⟨_, ts₂⟩, himports, types, htypes, rfl⟩ := h
    have hsuffix := (DeclarationParser.suffix_of_imports himports).trans
      (DeclarationParser.suffix_of_package hpackage)
    have hsorted : Sorted ts₂ := (sorted_lex hlex).of_suffix hsuffix
    obtain ⟨hpairs, hmethods⟩ :=
      DeclarationParser.pairwise_isBefore_of_types hsorted htypes
    exact ⟨hpairs, fun t ht => (hmethods t ht).1⟩
  · simp at h

end SnippetRunner
