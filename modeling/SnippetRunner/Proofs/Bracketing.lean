import SnippetRunner.Proofs.Nodes
import SnippetRunner.Proofs.Places

/-!
# The skeleton of declarations is bracketed

A reader of declarations passes over most of what it finds. Nevertheless each declaration is a
stretch of the tokens, and the spans in the skeleton say where it stands (`skeleton_of_parse`).

* A group is skipped to the bracket that closes it: the brackets inside are balanced
  (`Balanced`, `exists_balanced_of_group`).
* So the parameters of a method stand between its parentheses, and its body between the first brace
  behind them and the one that closes it (`MethodDecl.Spelled`).
* The methods and the types in a type are stretches of the tokens one behind the other, and the
  span of each goes from its first token to its last (`Holds`, `DeclarationParser.ReadsMembers`). So
  they lie apart from each other, inside of the span of the type.
-/

namespace SnippetRunner

open Text Lexer Grammar ExprParser

/-! ## Balanced brackets -/

/-- How often a sign stands among tokens. -/
def signCount (s : Sign) (ts : List Lexeme) : Nat := ts.countP fun t => startsWithSign s [t]

theorem signCount_cons (s : Sign) (t : Lexeme) (ts : List Lexeme) :
    signCount s (t :: ts) = signCount s [t] + signCount s ts := by
  rw [signCount, ← List.singleton_append, List.countP_append]
  rfl

theorem signCount_sign (s s' : Sign) (place : Span) :
    signCount s' [⟨.sign s, place⟩] = if s = s' then 1 else 0 := by
  simp [signCount, startsWithSign, List.countP_cons]

/-- Brackets are balanced: all are closed, and no start of the tokens closes more of them than it
opens. -/
structure Balanced (opener closer : Sign) (ts : List Lexeme) : Prop where
  closed : signCount closer ts = signCount opener ts
  start_le : ∀ front, front <+: ts → signCount closer front ≤ signCount opener front

/-- Skipping to a closing bracket closes as many brackets as were open, and in front of it there is
always one open. -/
theorem exists_signCount_of_skipToClosing {opener closer : Sign} (hne : opener ≠ closer)
    {depth : Nat} {place : Span} {ts rest : List Lexeme}
    (h : skipToClosing opener closer (depth + 1) ts = some (place, rest)) :
    ∃ mid, ts = mid ++ ⟨.sign closer, place⟩ :: rest ∧
      signCount closer mid = signCount opener mid + depth ∧
      ∀ front, front <+: mid → signCount closer front ≤ signCount opener front + depth := by
  induction ts generalizing depth with
  | nil => exact absurd h nofun
  | cons t ts ih =>
    -- one token changes how many brackets are open
    have hlater {depth' : Nat}
        (h : skipToClosing opener closer (depth' + 1) ts = some (place, rest))
        (hdepth : depth + signCount opener [t] = depth' + signCount closer [t]) :
        ∃ mid, t :: ts = mid ++ ⟨.sign closer, place⟩ :: rest ∧
          signCount closer mid = signCount opener mid + depth ∧
          ∀ front, front <+: mid → signCount closer front ≤ signCount opener front + depth := by
      obtain ⟨mid, rfl, hclosed, hfront⟩ := ih h
      refine ⟨t :: mid, rfl, ?_, fun front hprefix => ?_⟩
      · rw [signCount_cons closer, signCount_cons opener]
        omega
      · obtain rfl | ⟨us, rfl, hus⟩ := List.prefix_cons_iff.1 hprefix
        · exact Nat.zero_le _
        · have hle := hfront us hus
          rw [signCount_cons closer, signCount_cons opener]
          omega
    obtain ⟨token, span⟩ := t
    cases token with
    | sign s =>
      rw [signCount_sign, signCount_sign] at hlater
      simp only [skipToClosing] at h
      split at h
      · next hopen =>
        exact hlater h (by rw [if_pos hopen, if_neg fun hclose => hne (hopen.symm.trans hclose)])
      · next hopen =>
        split at h
        · next hclose =>
          subst hclose
          cases depth with
          | zero =>
            obtain ⟨rfl, rfl⟩ := Prod.mk.inj (Option.some.inj h)
            refine ⟨[], rfl, rfl, fun front hprefix => ?_⟩
            rw [List.prefix_nil.1 hprefix]
            exact Nat.zero_le _
          | succ depth =>
            rw [if_neg (by omega)] at h
            exact hlater h (by rw [if_pos rfl, if_neg hopen])
        · next hclose => exact hlater h (by rw [if_neg hopen, if_neg hclose])
    | _ => exact hlater h rfl

/-- **A group stands between a bracket and the one that closes it.** -/
theorem exists_balanced_of_group {stop closeSpan s : Span} {opener closer : Sign}
    (hne : opener ≠ closer) {ts rest : List Lexeme}
    (h : group stop opener closer ts = .ok ((s, closeSpan), rest)) :
    ∃ o inner, ts = ⟨.sign opener, o⟩ :: (inner ++ ⟨.sign closer, closeSpan⟩ :: rest) ∧
      Balanced opener closer inner ∧ s = between o closeSpan := by
  simp only [group, bind_eq_ok] at h
  obtain ⟨⟨openSpan, behind⟩, hopen, h⟩ := h
  obtain rfl := eq_cons_of_sign hopen
  dsimp only at h
  split at h
  · next place rest' hskip =>
    obtain ⟨⟩ := pure_eq_ok.1 h
    obtain ⟨inner, rfl, hclosed, hfront⟩ := exists_signCount_of_skipToClosing hne hskip
    exact ⟨openSpan, inner, rfl, ⟨hclosed, hfront⟩, rfl⟩
  · cases h

/-! ## The tokens of a method -/

/-- `IsMethodEnd ts body last`: the tokens are what stands behind the parameters of a method. There
is neither a brace nor a semicolon up to the block that is its body or the semicolon instead of
one. -/
inductive IsMethodEnd : List Lexeme → Option Span → Span → Prop
  | block {inner : List Lexeme} {o c : Span} : Balanced .lbrace .rbrace inner →
      IsMethodEnd (⟨.sign .lbrace, o⟩ :: (inner ++ [⟨.sign .rbrace, c⟩])) (some (between o c)) c
  | semicolon (s : Span) : IsMethodEnd [⟨.sign .semicolon, s⟩] none s
  | clause {t : Lexeme} {ts : List Lexeme} {body : Option Span} {last : Span} :
      (∀ s ∈ [Sign.lbrace, .rbrace, .semicolon], startsWithSign s [t] = false) →
      IsMethodEnd ts body last → IsMethodEnd (t :: ts) body last

theorem IsMethodEnd.exists_getLast? {ts : List Lexeme} {body : Option Span} {last : Span}
    (h : IsMethodEnd ts body last) : ∃ t, ts.getLast? = some t ∧ t.span = last := by
  induction h with
  | @block inner o c => exact ⟨⟨.sign .rbrace, c⟩, by simp [List.getLast?_cons], rfl⟩
  | semicolon s => exact ⟨_, rfl, rfl⟩
  | @clause t ts _ _ _ _ ih =>
    obtain ⟨t', ht', rfl⟩ := ih
    exact ⟨t', by simp [List.getLast?_cons, ht'], rfl⟩

theorem IsMethodEnd.exists_block {ts : List Lexeme} {b last : Span}
    (h : IsMethodEnd ts (some b) last) : ∃ clause o inner c,
      ts = clause ++ ⟨.sign .lbrace, o⟩ :: (inner ++ [⟨.sign .rbrace, c⟩]) ∧
      Balanced .lbrace .rbrace inner ∧ b = between o c := by
  generalize hbody : some b = body at h
  induction h with
  | @block inner o c hbalanced => exact ⟨[], o, inner, c, rfl, hbalanced, Option.some.inj hbody⟩
  | semicolon => cases hbody
  | @clause t _ _ _ _ _ ih =>
    obtain ⟨clause, o, inner, c, rfl, hb⟩ := ih hbody
    exact ⟨t :: clause, o, inner, c, rfl, hb⟩

/-- `m.Spelled own`: the tokens are those of the method. Its parameters stand between the
parentheses behind its name. -/
def MethodDecl.Spelled (m : MethodDecl) (own : List Lexeme) : Prop :=
  ∃ front place o inner c behind last,
    own = front ++ ⟨.ident m.name, place⟩ :: ⟨.sign .lparen, o⟩ ::
      (inner ++ ⟨.sign .rparen, c⟩ :: behind) ∧
    Balanced .lparen .rparen inner ∧ m.params = between o c ∧ IsMethodEnd behind m.body last

theorem MethodDecl.Spelled.append_left {m : MethodDecl} {own : List Lexeme} (h : m.Spelled own)
    (ts : List Lexeme) : m.Spelled (ts ++ own) := by
  obtain ⟨front, place, o, inner, c, behind, last, rfl, h⟩ := h
  exact ⟨ts ++ front, place, o, inner, c, behind, last, by simp, h⟩

/-- The body of a method ends it. -/
theorem MethodDecl.Spelled.exists_block {m : MethodDecl} {own : List Lexeme} {b : Span}
    (h : m.Spelled own) (hb : m.body = some b) : ∃ front o inner c,
      own = front ++ ⟨.sign .lbrace, o⟩ :: (inner ++ [⟨.sign .rbrace, c⟩]) ∧
      Balanced .lbrace .rbrace inner ∧ b = between o c := by
  obtain ⟨front, name, o, inner, c, behind, last, rfl, -, -, hend⟩ := h
  rw [hb] at hend
  obtain ⟨clause, o', inner', c', rfl, hbody⟩ := hend.exists_block
  exact ⟨front ++ ⟨.ident m.name, name⟩ :: ⟨.sign .lparen, o⟩ ::
    (inner ++ ⟨.sign .rparen, c⟩ :: clause), o', inner', c', by simp, hbody⟩

theorem eq_of_startsWithSign {s : Sign} {t : Lexeme} {ts : List Lexeme}
    (h : startsWithSign s (t :: ts) = true) : ∃ place, t = ⟨.sign s, place⟩ := by
  obtain ⟨token, place⟩ := t
  cases token with
  | sign s' => exact ⟨place, by rw [of_decide_eq_true h]⟩
  | _ => cases h

namespace DeclarationParser

variable {stop start closeSpan : Span} {calls : Nat} {name : String} {mods : List String}
  {ts rest : List Lexeme} {m : MethodDecl}

theorem exists_isMethodEnd {body : Option Span} {last : Span}
    (h : methodEnd stop name ts = .ok ((body, last), rest)) :
    ∃ behind, ts = behind ++ rest ∧ IsMethodEnd behind body last := by
  fun_induction methodEnd stop name ts with
  | case1 =>
    obtain ⟨⟨⟨s, closeSpan⟩, mid⟩, hgroup, h⟩ := bind_eq_ok.1 h
    obtain ⟨⟩ := pure_eq_ok.1 h
    obtain ⟨o, inner, hts, hbalanced, rfl⟩ := exists_balanced_of_group (by decide) hgroup
    exact ⟨_, by simp [hts], .block hbalanced⟩
  | case2 =>
    obtain ⟨⟩ := pure_eq_ok.1 h
    exact ⟨_, rfl, .semicolon _⟩
  | case3 => exact absurd h expected_ne_ok
  | case4 t ts hopen hsemicolon hclose ih =>
    obtain ⟨behind, rfl, hend⟩ := ih h
    refine ⟨t :: behind, rfl, .clause (fun s hs => ?_) hend⟩
    rw [Bool.eq_false_iff]
    intro hstarts
    obtain ⟨place, rfl⟩ := eq_of_startsWithSign hstarts
    simp only [List.mem_cons, List.not_mem_nil, or_false] at hs
    rcases hs with rfl | rfl | rfl
    · exact hopen _ rfl
    · exact hclose _ rfl
    · exact hsemicolon _ rfl
  | case5 => exact absurd h expected_ne_ok

/-- **A method is a stretch of tokens** that goes up to its last brace or its semicolon. -/
theorem exists_spelled_of_member (h : member stop mods start calls ts = .ok (some m, rest)) :
    ∃ own last, ts = own ++ rest ∧ m.Spelled own ∧ own.getLast? = some last ∧
      m.span = start.through last.span := by
  fun_induction member stop mods start calls ts with
  | case1 => cases h
  | case2 calls name place span ts =>
    obtain ⟨⟨⟨params, _⟩, mid⟩, hgroup, h⟩ := bind_eq_ok.1 h
    obtain ⟨⟨⟨body, last⟩, mid'⟩, hend, h⟩ := bind_eq_ok.1 h
    obtain ⟨⟩ := pure_eq_ok.1 h
    obtain ⟨o, inner, hts, hbalanced, rfl⟩ := exists_balanced_of_group (by decide) hgroup
    obtain ⟨behind, rfl, hisEnd⟩ := exists_isMethodEnd hend
    obtain ⟨t, ht, rfl⟩ := hisEnd.exists_getLast?
    obtain ⟨hspan, rfl⟩ := List.cons.inj hts
    obtain ⟨-, rfl⟩ := Lexeme.mk.inj hspan
    refine ⟨_, t, ?_, ⟨[], place, _, inner, _, behind, _, rfl, hbalanced, rfl, hisEnd⟩, ?_, rfl⟩
    · simp
    · simp [List.getLast?_cons, ht]
  | case3 calls _ tail ih =>
    obtain ⟨⟨⟨_, c⟩, mid⟩, hgroup, h⟩ := bind_eq_ok.1 h
    obtain ⟨own, last, rfl, hspelled, hlast, hspan⟩ := ih mid h
    obtain ⟨used, hused⟩ := suffix_of_group hgroup
    exact ⟨used ++ own, last, by rw [← hused]; simp, hspelled.append_left used,
      by simp [hlast], hspan⟩
  | case4 => cases pure_eq_ok.1 h
  | case5 =>
    obtain ⟨_, -, h⟩ := bind_eq_ok.1 h
    cases pure_eq_ok.1 h
  | case6 => exact absurd h expected_ne_ok
  | case7 => exact absurd h expected_ne_ok
  | case8 => exact absurd h expected_ne_ok
  | case9 calls t ts _ _ _ _ _ _ ih =>
    obtain ⟨own, last, rfl, hspelled, hlast, hspan⟩ := ih h
    exact ⟨t :: own, last, rfl, hspelled.append_left [t], by simp [List.getLast?_cons, hlast],
      hspan⟩

end DeclarationParser

/-! ## Spans of stretches -/

/-- `s.IsWithin outer`: the first span lies inside of the second. -/
def Span.IsWithin (s outer : Span) : Prop :=
  outer.start ≤ s.start ∧ s.start ≤ s.stop ∧ s.stop ≤ outer.stop

/-- Two spans have no character in common. -/
def Span.IsDisjoint (s s' : Span) : Prop := s.stop ≤ s'.start ∨ s'.stop ≤ s.start

theorem Span.IsDisjoint.symm {s s' : Span} (h : s.IsDisjoint s') : s'.IsDisjoint s := Or.symm h

section Stretches

variable {ts us used used' own front back rest : List Lexeme} {s s' : Span}
  {spans spans' : List Span}

/-- A span from one token to another has its end behind its start. -/
theorem ExprParser.Extent.start_le_stop (h : Extent us s) (hapart : Apart us) :
    s.start ≤ s.stop := by
  obtain ⟨first, last, hfirst, hlast, hspan⟩ := id h
  obtain ⟨more, rfl⟩ := List.head?_eq_some_iff.1 hfirst
  have hwhole : Extent ([] ++ [first] ++ more) s := h
  have hinside := hwhole.inside (.one first) hapart
  exact hinside.1.trans ((hapart.start_le first List.mem_cons_self).trans hinside.2)

theorem ExprParser.Extent.isWithin (h : Extent (front ++ us ++ back) s) (h' : Extent us s')
    (hapart : Apart (front ++ us ++ back)) : s'.IsWithin s :=
  ⟨(h.inside h' hapart).1, h'.start_le_stop hapart.stretch, (h.inside h' hapart).2⟩

/-- The span from the first token to the last of a stretch that a reader took. -/
theorem extent_spanAt {stop : Span} {last : Lexeme} (hapart : Apart own)
    (hlast : own.getLast? = some last) (rest : List Lexeme) :
    Extent own ((spanAt stop (own ++ rest)).through last.span) := by
  cases own with
  | nil => cases hlast
  | cons first more =>
    refine ⟨first, last, rfl, hlast, ?_⟩
    have hmem : last ∈ first :: more := List.mem_of_getLast? hlast
    have hle : first.span.stop ≤ last.span.stop := by
      rcases List.mem_cons.1 hmem with rfl | hmore
      · exact Nat.le_refl _
      · exact ((List.pairwise_cons.1 hapart.ordered).1 last hmore).trans
          (hapart.start_le last hmem)
    rw [List.cons_append, spanAt, Span.through, Nat.max_eq_right hle]

/-- `Holds used spans`: the spans belong to stretches of the tokens and lie apart from each other.
-/
structure Holds (used : List Lexeme) (spans : List Span) : Prop where
  stretch : ∀ s ∈ spans, ∃ front own back, used = front ++ own ++ back ∧ Extent own s
  disjoint : spans.Pairwise Span.IsDisjoint

namespace Holds

theorem nil (used : List Lexeme) : Holds used [] := ⟨by simp, .nil⟩

theorem one (h : Extent used s) : Holds used [s] :=
  ⟨fun s' hs' => ⟨[], used, [], by simp, List.mem_singleton.1 hs' ▸ h⟩, List.pairwise_singleton _ _⟩

theorem append_left (h : Holds used spans) (front : List Lexeme) : Holds (front ++ used) spans := by
  refine ⟨fun s hs => ?_, h.disjoint⟩
  obtain ⟨front', own, back, rfl, hextent⟩ := h.stretch s hs
  exact ⟨front ++ front', own, back, by simp, hextent⟩

/-- What two stretches hold, one behind the other. -/
theorem append (h : Holds used spans) (h' : Holds used' spans') (hapart : Apart (used ++ used')) :
    Holds (used ++ used') (spans ++ spans') := by
  refine ⟨fun s hs => ?_, List.pairwise_append.2 ⟨h.disjoint, h'.disjoint, fun s hs s' hs' => ?_⟩⟩
  · rcases List.mem_append.1 hs with hs | hs
    · obtain ⟨front, own, back, rfl, hextent⟩ := h.stretch s hs
      exact ⟨front, own, back ++ used', by simp, hextent⟩
    · exact (h'.append_left used).stretch s hs
  · obtain ⟨front, own, back, rfl, first, last, -, hlast, rfl⟩ := h.stretch s hs
    obtain ⟨front', own', back', rfl, first', last', hfirst', -, rfl⟩ := h'.stretch s' hs'
    refine .inl (hapart.stop_le_start ?_ ?_)
    · simp [List.mem_of_getLast? hlast]
    · simp [List.mem_of_head? hfirst']

theorem perm (h : Holds used spans) (hperm : spans.Perm spans') : Holds used spans' :=
  ⟨fun s hs => h.stretch s (hperm.mem_iff.2 hs),
    hperm.pairwise h.disjoint fun h => Span.IsDisjoint.symm h⟩

end Holds

end Stretches

/-! ## Types and their members -/

/-- The spans of the methods and of the types that are declared in a type. -/
def memberSpans (methods : List MethodDecl) (nested : List TypeDecl) : List Span :=
  methods.map MethodDecl.span ++ nested.map TypeDecl.span

/-- `t.Encloses u`: the second type is the first one, or is declared inside it at any depth. -/
inductive TypeDecl.Encloses : TypeDecl → TypeDecl → Prop
  | refl (t : TypeDecl) : Encloses t t
  | nested {t u v : TypeDecl} : u ∈ t.nested → Encloses u v → Encloses t v

/-- A stretch of the tokens is the method, and its span goes from the first of them to the last. -/
def MethodDecl.SpelledIn (m : MethodDecl) (ts : List Lexeme) : Prop :=
  ∃ front own back, ts = front ++ own ++ back ∧ m.Spelled own ∧ Extent own m.span

/-- The methods of a type are stretches of the tokens, and its members lie apart from each other
inside of it. -/
structure TypeDecl.SpelledIn (t : TypeDecl) (ts : List Lexeme) : Prop where
  methods : ∀ m ∈ t.methods, m.SpelledIn ts
  within : ∀ s ∈ memberSpans t.methods t.nested, s.IsWithin t.span
  disjoint : (memberSpans t.methods t.nested).Pairwise Span.IsDisjoint

section Suffix

variable {ts rest : List Lexeme} (hsuffix : rest <:+ ts)

include hsuffix

theorem MethodDecl.SpelledIn.of_suffix {m : MethodDecl} (h : m.SpelledIn rest) :
    m.SpelledIn ts := by
  obtain ⟨front, own, back, rfl, hspelled⟩ := h
  obtain ⟨used, rfl⟩ := hsuffix
  exact ⟨used ++ front, own, back, by simp, hspelled⟩

theorem TypeDecl.SpelledIn.of_suffix {t : TypeDecl} (h : t.SpelledIn rest) : t.SpelledIn ts :=
  ⟨fun m hm => (h.methods m hm).of_suffix hsuffix, h.within, h.disjoint⟩

theorem ExprParser.Apart.of_suffix (h : Apart ts) : Apart rest := h.sublist hsuffix.sublist

end Suffix

namespace DeclarationParser

variable {stop start closeSpan : Span} {calls : Nat} {name : String} {mods : List String}
  {ts mid rest : List Lexeme} {t : TypeDecl} {m : MethodDecl} {methods : List MethodDecl}
  {nested : List TypeDecl}

/-- A reader that went from `ts` to `rest` took a type. -/
structure ReadsType (ts rest : List Lexeme) (t : TypeDecl) : Prop where
  stretch : ∃ own, ts = own ++ rest ∧ Extent own t.span
  spelled : ∀ u, t.Encloses u → u.SpelledIn ts

/-- A reader that went from `ts` to `rest` took the members of a type and the brace that closes it.
-/
structure ReadsMembers (ts rest : List Lexeme) (methods : List MethodDecl) (nested : List TypeDecl)
    (closeSpan : Span) : Prop where
  stretch : ∃ used, ts = used ++ ⟨.sign .rbrace, closeSpan⟩ :: rest ∧
    Holds used (memberSpans methods nested)
  methods : ∀ m ∈ methods, m.SpelledIn ts
  nested : ∀ t ∈ nested, ∀ u, t.Encloses u → u.SpelledIn ts

namespace ReadsMembers

/-- What is no member stands in front of the members. -/
theorem of_suffix (hsuffix : mid <:+ ts) (h : ReadsMembers mid rest methods nested closeSpan) :
    ReadsMembers ts rest methods nested closeSpan := by
  refine ⟨?_, fun m hm => (h.methods m hm).of_suffix hsuffix,
    fun t ht u hu => (h.nested t ht u hu).of_suffix hsuffix⟩
  obtain ⟨front, rfl⟩ := hsuffix
  obtain ⟨used, rfl, hholds⟩ := h.stretch
  exact ⟨front ++ used, by simp, hholds.append_left front⟩

/-- A type in front of the members. -/
theorem type (htype : ReadsType ts mid t) (hapart : Apart ts)
    (h : ReadsMembers mid rest methods nested closeSpan) :
    ReadsMembers ts rest methods (t :: nested) closeSpan := by
  obtain ⟨own, hown, hextent⟩ := htype.stretch
  have hsuffix : mid <:+ ts := ⟨own, hown.symm⟩
  refine ⟨?_, fun m hm => (h.methods m hm).of_suffix hsuffix, fun v hv u hu => ?_⟩
  · obtain ⟨used, hused, hholds⟩ := h.stretch
    refine ⟨own ++ used, by rw [hown, hused]; simp, ?_⟩
    have hapart' : Apart (own ++ used) :=
      hapart.sublist (by rw [hown, hused]; simp)
    refine ((Holds.one hextent).append hholds hapart').perm ?_
    rw [memberSpans, memberSpans, List.map_cons, List.singleton_append]
    exact List.perm_middle.symm
  · rcases List.mem_cons.1 hv with rfl | hv
    · exact htype.spelled u hu
    · exact (h.nested v hv u hu).of_suffix hsuffix

/-- A method in front of the members. -/
theorem method {own : List Lexeme} (hown : ts = own ++ mid) (hspelled : m.Spelled own)
    (hextent : Extent own m.span) (hapart : Apart ts)
    (h : ReadsMembers mid rest methods nested closeSpan) :
    ReadsMembers ts rest (m :: methods) nested closeSpan := by
  have hsuffix : mid <:+ ts := ⟨own, hown.symm⟩
  refine ⟨?_, List.forall_mem_cons.2 ⟨⟨[], own, mid, by simpa using hown, hspelled, hextent⟩,
    fun m hm => (h.methods m hm).of_suffix hsuffix⟩,
    fun t ht u hu => (h.nested t ht u hu).of_suffix hsuffix⟩
  obtain ⟨used, hused, hholds⟩ := h.stretch
  refine ⟨own ++ used, by rw [hown, hused]; simp, (Holds.one hextent).append hholds ?_⟩
  exact hapart.sublist (by rw [hown, hused]; simp)

/-- The members of a type and what stands in front of them make up the type. -/
theorem readsType (hsuffix : mid <:+ ts) (hapart : Apart ts)
    (hspan : t.span = (spanAt stop ts).through closeSpan)
    (h : ReadsMembers mid rest t.methods t.nested closeSpan) : ReadsType ts rest t := by
  obtain ⟨⟨used, hused, hholds⟩, hmethods, hnested⟩ := h.of_suffix hsuffix
  have hown : ts = (used ++ [⟨.sign .rbrace, closeSpan⟩]) ++ rest := by rw [hused]; simp
  have hapart' : Apart (used ++ [⟨.sign .rbrace, closeSpan⟩]) :=
    hapart.sublist (by rw [hown]; exact List.sublist_append_left _ _)
  have hextent : Extent (used ++ [⟨.sign .rbrace, closeSpan⟩]) t.span := by
    rw [hspan, hown]
    exact extent_spanAt hapart' List.getLast?_concat rest
  refine ⟨⟨_, hown, hextent⟩, fun u hu => ?_⟩
  cases hu with
  | refl =>
    refine ⟨hmethods, fun s hs => ?_, hholds.disjoint⟩
    obtain ⟨front, own, back, rfl, hs⟩ := hholds.stretch s hs
    rw [List.append_assoc] at hextent hapart'
    exact hextent.isWithin hs hapart'
  | nested hv hu => exact hnested _ hv u hu

end ReadsMembers

/-- Behind the members of a type stands the brace that closes it. -/
theorem exists_close_of_members
    (h : members stop calls name ts = .ok ((methods, nested, closeSpan), rest)) :
    ∃ used, ts = used ++ ⟨.sign .rbrace, closeSpan⟩ :: rest := by
  induction calls generalizing ts methods nested closeSpan rest with
  | zero => cases h
  | succ calls ih =>
    have hlater {mid : List Lexeme} {methods : List MethodDecl} {nested : List TypeDecl}
        (hmid : mid <:+ ts)
        (h : members stop calls name mid = .ok ((methods, nested, closeSpan), rest)) :
        ∃ used, ts = used ++ ⟨.sign .rbrace, closeSpan⟩ :: rest := by
      obtain ⟨used, rfl⟩ := ih h
      obtain ⟨front, rfl⟩ := hmid
      exact ⟨front ++ used, by simp⟩
    unfold members at h
    split at h
    · exact absurd h expected_ne_ok
    · simp only [pure_eq_ok, Prod.mk.injEq] at h
      obtain ⟨⟨-, -, rfl⟩, rfl⟩ := h
      exact ⟨[], rfl⟩
    · exact hlater (List.suffix_cons _ _) h
    · obtain ⟨⟨_, mid⟩, hgroup, h⟩ := bind_eq_ok.1 h
      exact hlater (suffix_of_group hgroup) h
    · obtain ⟨⟨_, mid⟩, hgroup, h⟩ := bind_eq_ok.1 h
      exact hlater ((suffix_of_group hgroup).trans (List.suffix_cons _ _)) h
    · obtain ⟨⟨mods, ts₁⟩, hmods, h⟩ := bind_eq_ok.1 h
      have hts₁ := suffix_of_modifiers hmods
      dsimp only at h
      split at h
      · obtain ⟨⟨t, mid⟩, htype, h⟩ := bind_eq_ok.1 h
        obtain ⟨⟨⟨methods', nested', _⟩, rest'⟩, hmembers, h⟩ := bind_eq_ok.1 h
        simp only [pure_eq_ok, Prod.mk.injEq] at h
        obtain ⟨⟨-, -, rfl⟩, rfl⟩ := h
        exact hlater (((takes_typeDeclaration_and_members _).1 htype).suffix.trans hts₁) hmembers
      · obtain ⟨⟨method?, mid⟩, hmember, h⟩ := bind_eq_ok.1 h
        obtain ⟨⟨⟨methods', nested', _⟩, rest'⟩, hmembers, h⟩ := bind_eq_ok.1 h
        simp only [pure_eq_ok, Prod.mk.injEq] at h
        obtain ⟨⟨-, -, rfl⟩, rfl⟩ := h
        exact hlater (takes_member hts₁ hmember).suffix hmembers

/-- **A type is a stretch of the tokens, and so are its members.** -/
theorem readsType_and_readsMembers (calls : Nat) :
    (∀ {mods ts ts₁ t rest}, ts₁ <:+ ts → Apart ts →
      typeDeclaration stop calls mods (spanAt stop ts) ts₁ = .ok (t, rest) →
        ReadsType ts rest t) ∧
    ∀ {name ts methods nested closeSpan rest}, Apart ts →
      members stop calls name ts = .ok ((methods, nested, closeSpan), rest) →
        ReadsMembers ts rest methods nested closeSpan := by
  induction calls with
  | zero => exact ⟨nofun, nofun⟩
  | succ calls ih =>
    obtain ⟨ihType, ihMembers⟩ := ih
    constructor
    · intro mods ts ts₁ t rest hts₁ hapart h
      obtain ⟨name, mid, closeSpan, hmid, -, hmembers, hspan⟩ :=
        exists_members_of_typeDeclaration h
      have hsuffix := hmid.trans hts₁
      exact (ihMembers (hapart.of_suffix hsuffix) hmembers).readsType hsuffix hapart hspan
    · intro name ts methods nested closeSpan rest hapart h
      cases membersStep h with
      | close =>
        obtain ⟨used, hused⟩ := exists_close_of_members h
        exact ⟨⟨used, hused, .nil used⟩, nofun, nofun⟩
      | skip hmid hmembers =>
        exact (ihMembers (hapart.of_suffix hmid) hmembers).of_suffix hmid
      | @type _ _ mid _ _ _ hts₁ htype hmembers =>
        have hreads := ihType hts₁ hapart htype
        obtain ⟨own, hown, -⟩ := hreads.stretch
        exact (ihMembers (hapart.of_suffix ⟨own, hown.symm⟩) hmembers).type hreads hapart
      | @member _ _ _ mid method? _ _ hts₁ hmember hmembers =>
        have hmid : mid <:+ ts := (takes_member hts₁ hmember).suffix
        have hlater := ihMembers (hapart.of_suffix hmid) hmembers
        cases method? with
        | none => exact hlater.of_suffix hmid
        | some m =>
          obtain ⟨front, hfront⟩ := hts₁
          obtain ⟨own, last, rfl, hspelled, hlast, hspan⟩ := exists_spelled_of_member hmember
          have hown : ts = (front ++ own) ++ mid := by rw [← hfront]; simp
          have hextent : Extent (front ++ own) m.span := by
            rw [hspan, hown]
            refine extent_spanAt (hapart.sublist ?_) (by simp [hlast]) mid
            rw [hown]
            exact List.sublist_append_left _ _
          exact hlater.method hown (hspelled.append_left front) hextent hapart

/-- The types of a text are read from one stretch of the tokens behind the other. -/
theorem spelledIn_of_types {us : List TypeDecl} (hapart : Apart ts)
    (h : types stop calls ts = .ok us) :
    ∀ t ∈ us, ∀ u, t.Encloses u → u.SpelledIn ts := by
  fun_induction types stop calls ts generalizing us with
  | case1 => cases h
  | case2 =>
    obtain rfl := pure_eq_ok.1 h
    exact fun t ht => absurd ht List.not_mem_nil
  | case3 calls _ ts ih =>
    have hlater := ih (hapart.of_suffix (List.suffix_cons _ _)) h
    exact fun t ht u hu => (hlater t ht u hu).of_suffix (List.suffix_cons _ _)
  | case4 calls ts _ _ ih =>
    simp only [bind_eq_ok, pure_eq_ok] at h
    obtain ⟨⟨mods, ts₁⟩, hmods, ⟨t, ts₂⟩, htype, later, htypes, rfl⟩ := h
    have hreads := (readsType_and_readsMembers _).1 (suffix_of_modifiers hmods) hapart htype
    obtain ⟨own, hown, -⟩ := hreads.stretch
    have hsuffix : ts₂ <:+ ts := ⟨own, hown.symm⟩
    refine List.forall_mem_cons.2 ⟨hreads.spelled, fun v hv u hu => ?_⟩
    exact (ih ts₂ (hapart.of_suffix hsuffix) htypes v hv u hu).of_suffix hsuffix

end DeclarationParser

/-- **The types of a text are stretches of its tokens**, and so are their methods. -/
theorem spelledIn_of_parse {cs : List Char} {tokens : Lexemes} {unit : CompilationUnit}
    {t u : TypeDecl} (hlex : lex cs = .ok tokens) (hparse : CompilationUnit.parse cs = .ok unit)
    (ht : t ∈ unit.types) (hu : t.Encloses u) : u.SpelledIn tokens.list := by
  rw [CompilationUnit.parse, hlex] at hparse
  simp only [DeclarationParser.whole, bind_eq_ok, pure_eq_ok] at hparse
  obtain ⟨⟨_, ts₁⟩, hpackage, ⟨_, ts₂⟩, himports, types, htypes, rfl⟩ := hparse
  have hsuffix := (DeclarationParser.suffix_of_imports himports).trans
    (DeclarationParser.suffix_of_package hpackage)
  obtain ⟨ps, -, rfl⟩ := exists_cuts_of_lex hlex
  have hapart := (apart_place .start ps).of_suffix hsuffix
  exact (DeclarationParser.spelledIn_of_types hapart htypes t ht u hu).of_suffix hsuffix

/-! ## Brackets in the text -/

/-- `s.StandsBetween source opener closer`: the span is the place of a piece of the text, with the
one sign right in front of it and the other right behind it. -/
def Span.StandsBetween (s : Span) (source : List Char) (opener closer : Sign) : Prop :=
  ∃ front piece back,
    source = front ++ (opener.text.toList ++ (piece ++ (closer.text.toList ++ back))) ∧
    s.start = byteSize (front ++ opener.text.toList) ∧
    s.stop = byteSize (front ++ (opener.text.toList ++ piece))

/-- `InBrackets opener closer ts s`: the span is the place of what stands between two signs among
the tokens. -/
def InBrackets (opener closer : Sign) (ts : List Lexeme) (s : Span) : Prop :=
  ∃ front o mid c back,
    ts = front ++ ⟨.sign opener, o⟩ :: (mid ++ ⟨.sign closer, c⟩ :: back) ∧ s = between o c

namespace InBrackets

variable {opener closer : Sign} {own : List Lexeme} {s span : Span}

theorem of_stretch (h : InBrackets opener closer own s) (front back : List Lexeme) :
    InBrackets opener closer (front ++ own ++ back) s := by
  obtain ⟨front', o, mid, c, back', rfl, hs⟩ := h
  exact ⟨front ++ front', o, mid, c, back' ++ back, by simp, hs⟩

/-- What stands between two signs of a stretch lies inside of it. -/
theorem isWithin (h : InBrackets opener closer own s) (hextent : Extent own span)
    (hapart : Apart own) : s.IsWithin span := by
  obtain ⟨front, o, mid, c, back, rfl, rfl⟩ := h
  obtain ⟨hle, ho, -⟩ : o.IsWithin span := by
    rw [← List.singleton_append, ← List.append_assoc] at hextent hapart
    exact hextent.isWithin (.one ⟨.sign opener, o⟩) hapart
  obtain ⟨-, hc, hle'⟩ : c.IsWithin span := by
    have hsplit : front ++ ⟨.sign opener, o⟩ :: (mid ++ ⟨.sign closer, c⟩ :: back) =
        (front ++ ⟨.sign opener, o⟩ :: mid) ++ [⟨.sign closer, c⟩] ++ back := by simp
    rw [hsplit] at hextent hapart
    exact hextent.isWithin (.one ⟨.sign closer, c⟩) hapart
  have hoc : o.stop ≤ c.start := by
    have hordered := (List.pairwise_append.1 hapart.ordered).2.1
    exact (List.pairwise_cons.1 hordered).1 ⟨.sign closer, c⟩ (by simp)
  exact ⟨hle.trans ho, hoc, hc.trans hle'⟩

/-- What stands between two signs among the tokens stands between them in the text. -/
theorem standsBetween {source : List Char} {ps : List Piece} (hcuts : Cuts source ps [])
    (h : InBrackets opener closer (place .start ps) s) : s.StandsBetween source opener closer := by
  obtain ⟨front, o, mid, c, back, hplace, rfl⟩ := h
  have hspell := hcuts.spell
  obtain ⟨qs, text, behind, rfl, -, rfl, hbehind⟩ := exists_of_place_eq_append hplace
  obtain ⟨_, -, hlater⟩ := hcuts.exists_mid
  obtain ⟨hopen, hlater⟩ := hlater.text_of_sign
  obtain ⟨inner, text', rs, rfl, -, rfl, -⟩ := exists_of_place_eq_append hbehind
  obtain ⟨_, -, hlater⟩ := hlater.exists_mid
  obtain ⟨hclose, -⟩ := hlater.text_of_sign
  obtain rfl : text = opener.text.toList := congrArg Piece.text hopen
  obtain rfl : text' = closer.text.toList := congrArg Piece.text hclose
  refine ⟨spell qs, spell inner, spell rs, ?_, ?_, ?_⟩
  · simpa [spell] using hspell
  · simp [between, Span.ofText, Position.start]
  · simp [between, Span.ofText, Position.start, Nat.add_assoc]

end InBrackets

namespace MethodDecl

variable {m : MethodDecl} {own : List Lexeme} {b : Span}

theorem Spelled.inBrackets_params (h : m.Spelled own) :
    InBrackets .lparen .rparen own m.params := by
  obtain ⟨front, name, o, inner, c, behind, last, rfl, -, hparams, -⟩ := h
  exact ⟨front ++ [⟨.ident m.name, name⟩], o, inner, c, behind, by simp, hparams⟩

theorem Spelled.inBrackets_body (h : m.Spelled own) (hb : m.body = some b) :
    InBrackets .lbrace .rbrace own b := by
  obtain ⟨front, o, inner, c, hown, -, hbody⟩ := h.exists_block hb
  exact ⟨front, o, inner, c, [], hown, hbody⟩

/-- The body stands behind the parameters. -/
theorem Spelled.params_stop_le (h : m.Spelled own) (hapart : Apart own) (hb : m.body = some b) :
    m.params.stop ≤ b.start := by
  obtain ⟨front, name, o, inner, c, behind, last, rfl, -, hparams, hend⟩ := h
  rw [hb] at hend
  obtain ⟨clause, o', inner', c', rfl, -, rfl⟩ := hend.exists_block
  have hc := hapart.start_le ⟨.sign .rparen, c⟩ (by simp)
  have ho' := hapart.start_le ⟨.sign .lbrace, o'⟩ (by simp)
  have hbehind : Apart (⟨.sign .rparen, c⟩ ::
      (clause ++ ⟨.sign .lbrace, o'⟩ :: (inner' ++ [⟨.sign .rbrace, c'⟩]))) :=
    hapart.of_suffix ⟨front ++ ⟨.ident m.name, name⟩ :: ⟨.sign .lparen, o⟩ :: inner, by simp⟩
  have hle := (List.pairwise_cons.1 hbehind.ordered).1 ⟨.sign .lbrace, o'⟩ (by simp)
  rw [hparams]
  exact hc.trans (hle.trans ho')

end MethodDecl

/-- A method is bracketed: its parameters stand between parentheses, and behind them, if it has one,
its body between braces. Both lie inside of the method. -/
structure MethodDecl.IsBracketed (source : List Char) (ts : List Lexeme) (m : MethodDecl) :
    Prop where
  /-- The brackets are balanced, and the body is the first block behind the parameters. -/
  spelled : m.SpelledIn ts
  params : m.params.StandsBetween source .lparen .rparen
  params_within : m.params.IsWithin m.span
  body : ∀ b, m.body = some b → b.StandsBetween source .lbrace .rbrace
  body_within : ∀ b, m.body = some b → m.params.stop ≤ b.start ∧ b.IsWithin m.span

/-- A type is bracketed: its methods are, and they and the types in it lie apart from each other
inside of it. -/
structure TypeDecl.IsBracketed (source : List Char) (ts : List Lexeme) (t : TypeDecl) : Prop where
  methods : ∀ m ∈ t.methods, m.IsBracketed source ts
  within : ∀ s ∈ memberSpans t.methods t.nested, s.IsWithin t.span
  disjoint : (memberSpans t.methods t.nested).Pairwise Span.IsDisjoint

/-- The brackets among the tokens of a method are brackets in the text. -/
theorem MethodDecl.SpelledIn.isBracketed {source : List Char} {ps : List Piece} {m : MethodDecl}
    (h : m.SpelledIn (place .start ps)) (hcuts : Cuts source ps []) :
    m.IsBracketed source (place .start ps) := by
  obtain ⟨front, own, back, hplace, hspelled, hextent⟩ := id h
  have hapart : Apart own := (hplace ▸ apart_place .start ps).stretch
  have hparams := hspelled.inBrackets_params
  refine ⟨h, ?_, hparams.isWithin hextent hapart, fun b hb => ?_, fun b hb => ?_⟩
  · exact InBrackets.standsBetween hcuts (hplace ▸ hparams.of_stretch front back)
  · exact InBrackets.standsBetween hcuts
      (hplace ▸ (hspelled.inBrackets_body hb).of_stretch front back)
  · exact ⟨hspelled.params_stop_le hapart hb,
      (hspelled.inBrackets_body hb).isWithin hextent hapart⟩

/-- **The skeleton of the declarations of a text is bracketed.** -/
theorem skeleton_of_parse {cs : List Char} {unit : CompilationUnit}
    (h : CompilationUnit.parse cs = .ok unit) :
    ∃ tokens, lex cs = .ok tokens ∧
      ∀ t ∈ unit.types, ∀ u, t.Encloses u → u.IsBracketed cs tokens.list := by
  obtain ⟨tokens, hlex⟩ : ∃ tokens, lex cs = .ok tokens := by
    unfold CompilationUnit.parse at h
    split at h
    · next tokens hlex => exact ⟨tokens, hlex⟩
    · cases h
  refine ⟨tokens, hlex, fun t ht u hu => ?_⟩
  have hspelled := spelledIn_of_parse hlex h ht hu
  obtain ⟨ps, hcuts, rfl⟩ := exists_cuts_of_lex hlex
  exact ⟨fun m hm => (hspelled.methods m hm).isBracketed hcuts, hspelled.within,
    hspelled.disjoint⟩

/-- An enumeration in a class, with a constant that has a body of its own, and braces in a field and
in an annotation. -/
def nestedSource : List Char :=
  "class A \x7b int[] a = \x7b f(1) \x7d; @B(\x7b1\x7d) enum E \x7b X(2) \x7b void g() \x7b\x7d \x7d; ".toList ++
    "<T> int m(int[] b) throws C \x7b if (b) \x7b return 1; \x7d \x7d void n(); \x7d \x7d".toList

theorem skeleton_of_nestedSource :
    ∃ unit, CompilationUnit.parse nestedSource = .ok unit ∧
      (unit.types.flatMap TypeDecl.nested).flatMap TypeDecl.methods ≠ [] ∧
      ∃ tokens, lex nestedSource = .ok tokens ∧
        ∀ t ∈ unit.types, ∀ u, t.Encloses u → u.IsBracketed nestedSource tokens.list := by
  have hsome : (CompilationUnit.parse nestedSource).toOption.any (fun unit =>
      decide ((unit.types.flatMap TypeDecl.nested).flatMap TypeDecl.methods ≠ [])) = true := by
    decide +kernel
  obtain ⟨unit, hparse, hmethods⟩ := exists_ok_of_any hsome
  exact ⟨unit, hparse, of_decide_eq_true hmethods, skeleton_of_parse hparse⟩

end SnippetRunner
