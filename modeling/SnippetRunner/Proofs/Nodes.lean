import Mathlib.Data.List.Induction
import SnippetRunner.Expr.Eval
import SnippetRunner.Proofs.Blocks
import SnippetRunner.Proofs.Slices
import SnippetRunner.Proofs.Soundness

/-!
# The text of a node

Every node of a tree can be read alone: the text at its span has the same tree, with its places
counted from the start of that text (`recovers_of_parse`).

* A node is spelled by a stretch of the tokens, and its children are spelled by stretches of that
  one behind the other (`Derives.segments`). Its span goes from the first of its tokens to the last
  (`Derives.extent`).
* A stretch of the tokens is the text from the first to the last of them (`exists_pieces_of_place`),
  and that text is cut into the same pieces (`Cuts.of_isPrefix`).
* The grammar does not depend on where the tokens stand (`Derives.mapSpans`), so `whole_of_derives`
  reads them.
-/

namespace SnippetRunner

open Text Lexer Grammar ExprParser

/-! ## Places seen from another one -/

/-- A place as it is counted in the text that starts at another place. -/
def Span.relativeTo (s origin : Span) : Span :=
  ⟨s.start - origin.start, s.stop - origin.start, s.line - origin.line + 1,
    if s.line = origin.line then s.column - origin.column + 1 else s.column⟩

theorem Span.through_relativeTo (origin a b : Span) :
    (a.through b).relativeTo origin = (a.relativeTo origin).through (b.relativeTo origin) := by
  have hstop : max a.stop b.stop - origin.start =
      max (a.stop - origin.start) (b.stop - origin.start) := by
    omega
  unfold relativeTo through
  dsimp only
  rw [hstop]

/-- Line and column behind a text, counted from the text and from what it stands in. -/
theorem Position.after_start (p : Position) (cs : List Char) :
    (p.after cs).line + 1 = (start.after cs).line + p.line ∧
      (if (p.after cs).line = p.line then
        p.column ≤ (p.after cs).column ∧
          (start.after cs).column = (p.after cs).column - p.column + 1
      else (start.after cs).column = (p.after cs).column) := by
  induction cs using List.reverseRecOn with
  | nil => simp [start, Nat.add_comm]
  | append_singleton cs c ih =>
    obtain ⟨hline, hcolumn⟩ := ih
    have hle : p.line ≤ (p.after cs).line := by
      rw [line_after]
      omega
    rw [after_append, after_append, after_cons, after_cons, after_nil, after_nil]
    unfold step
    split
    · refine ⟨by simp only; omega, ?_⟩
      rw [if_neg (by simp only; omega)]
    · refine ⟨hline, ?_⟩
      simp only
      split at hcolumn <;> rename_i hsame
      · rw [if_pos hsame]
        omega
      · rw [if_neg hsame, hcolumn]

/-- Places behind a position are counted from it. -/
theorem Span.ofText_relativeTo (p : Position) (xs front text : List Char) :
    (Span.ofText (p.after front) text).relativeTo (Span.ofText p xs) =
      Span.ofText (Position.start.after front) text := by
  obtain ⟨hline, hcolumn⟩ := Position.after_start p front
  have hstart : Position.start.offset = 0 := rfl
  simp only [relativeTo, ofText, Position.offset_after, Span.mk.injEq, hstart]
  refine ⟨by omega, by omega, ?_, ?_⟩
  · have hle : p.line ≤ (p.after front).line := by
      rw [Position.line_after]
      omega
    omega
  · split at hcolumn <;> rename_i hsame
    · rw [if_pos hsame, hcolumn.2]
    · rw [if_neg hsame, hcolumn]

/-- The same token at another place. -/
def Lexeme.mapSpan (f : Span → Span) (t : Lexeme) : Lexeme := ⟨t.token, f t.span⟩

theorem place_relativeTo (p : Position) (xs front : List Char) (ps : List Piece) :
    (place (p.after front) ps).map (.mapSpan (·.relativeTo (Span.ofText p xs))) =
      place (Position.start.after front) ps := by
  induction ps generalizing front with
  | nil => rfl
  | cons q ps ih =>
    obtain ⟨text, _ | t⟩ := q
    · rw [place, place, ← Position.after_append, ← Position.after_append, ih]
    · rw [place, place, List.map_cons, ← Position.after_append, ← Position.after_append, ih,
        Lexeme.mapSpan, Span.ofText_relativeTo]

/-! ## The grammar at other places -/

namespace ExprParser

variable {f : Span → Span} {ts : List Lexeme}

theorem SpellsName.mapSpans {name : String} (h : SpellsName name ts) (f : Span → Span) :
    SpellsName name (ts.map (.mapSpan f)) := by
  induction h with
  | one name span => exact .one name (f span)
  | more point part span _ ih =>
    rw [List.map_append]
    exact .more (f point) part (f span) ih

theorem skipToClosing_mapSpans {opener closer : Sign} {depth : Nat} {closing : Span}
    {rest : List Lexeme} (h : skipToClosing opener closer depth ts = some (closing, rest)) :
    skipToClosing opener closer depth (ts.map (.mapSpan f)) =
      some (f closing, rest.map (.mapSpan f)) := by
  fun_induction skipToClosing opener closer depth ts with
  | case1 => simp at h
  | case4 depth t ts hdepth htoken hne ih =>
    rw [List.map_cons, Lexeme.mapSpan]
    simp only [skipToClosing, htoken, if_neg hne, if_true, if_neg hdepth] at h ⊢
    exact ih h
  | _ => simp_all [skipToClosing, Lexeme.mapSpan]

theorem TypeArguments.mapSpans (h : TypeArguments ts) (f : Span → Span) :
    TypeArguments (ts.map (.mapSpan f)) := by
  cases h with
  | none => exact .none
  | some opening hskip => exact .some (f opening) (skipToClosing_mapSpans hskip)

theorem castAt?_mapSpans (h : castAt? ts = none) (f : Span → Span) :
    castAt? (ts.map (.mapSpan f)) = none := by
  match ts, h with
  | [], _ | [_], _ | [_, _], _ => simp [castAt?]
  | ⟨a, sa⟩ :: ⟨b, sb⟩ :: ⟨c, sc⟩ :: ts, h =>
    simp only [List.map_cons, Lexeme.mapSpan]
    unfold castAt? at h ⊢
    split
    · next heq =>
      simp only [List.cons.injEq, Lexeme.mk.injEq] at heq
      obtain ⟨⟨rfl, -⟩, ⟨rfl, -⟩, ⟨rfl, -⟩, -⟩ := heq
      simpa using h
    · rfl

/-- The same part with all its spans changed. -/
def Part.mapSpans (f : Span → Span) : Part → Part
  | .expr level e => .expr level (e.mapSpans f)
  | .args es => .args (Expr.mapSpansAll f es)

/-- **The grammar does not depend on where the tokens stand.** -/
theorem Derives.mapSpans {p : Part} (h : Derives p ts)
    (hf : ∀ a b, f (a.through b) = (f a).through (f b)) :
    Derives (p.mapSpans f) (ts.map (.mapSpan f)) := by
  induction h with
  | literal hvalue => exact .literal (t := .mapSpan f _) hvalue
  | ident name span => exact .ident name (f span)
  | @group e ts opening closing _ hcast ih =>
    have hcast' := castAt?_mapSpans hcast f
    simp only [List.map_append, List.map_cons, List.map_nil] at hcast' ⊢
    simpa [Part.mapSpans, Expr.mapSpans_withSpan, hf, Lexeme.mapSpan] using Derives.group ih hcast'
  | call name span opening closing _ ih =>
    simpa [Part.mapSpans, Expr.mapSpans, hf, Lexeme.mapSpan] using
      Derives.call name (f span) (f opening) (f closing) ih
  | construct span opening closing hname htypes _ ih =>
    simpa [Part.mapSpans, Expr.mapSpans, hf, Lexeme.mapSpan] using
      Derives.construct (f span) (f opening) (f closing) (hname.mapSpans f) (htypes.mapSpans f) ih
  | field point name span _ ih =>
    simpa [Part.mapSpans, Expr.mapSpans, hf, Lexeme.mapSpan] using
      Derives.field (f point) name (f span) ih
  | method point name span opening closing _ _ ih ihargs =>
    simpa [Part.mapSpans, Expr.mapSpans, hf, Lexeme.mapSpan] using
      Derives.method (f point) name (f span) (f opening) (f closing) ih ihargs
  | index opening closing _ _ ih ihposition =>
    simpa [Part.mapSpans, Expr.mapSpans, hf, Lexeme.mapSpan] using
      Derives.index (f opening) (f closing) ih ihposition
  | unary span hop _ ih =>
    simpa [Part.mapSpans, Expr.mapSpans, hf, Lexeme.mapSpan] using Derives.unary (f span) hop ih
  | cast opening span closing hname _ ih =>
    simpa [Part.mapSpans, Expr.mapSpans, hf, Lexeme.mapSpan] using
      Derives.cast (f opening) (f span) (f closing) hname ih
  | binary span hop _ _ ih ihright =>
    simpa [Part.mapSpans, Expr.mapSpans, hf, Lexeme.mapSpan] using
      Derives.binary (f span) hop ih ihright
  | ternary question colon _ _ _ ih ihyes ihno =>
    simpa [Part.mapSpans, Expr.mapSpans, hf, Lexeme.mapSpan] using
      Derives.ternary (f question) (f colon) ih ihyes ihno
  | loosen hlevel _ ih => exact .loosen hlevel ih
  | noArgs => exact .noArgs
  | lastArg _ ih => exact .lastArg ih
  | moreArgs comma _ _ ih ihlater =>
    simpa [Part.mapSpans, Expr.mapSpansAll, Lexeme.mapSpan] using
      Derives.moreArgs (f comma) ih ihlater

/-! ## From the first token to the last -/

/-- Tokens that stand one behind the other. -/
structure Apart (ts : List Lexeme) : Prop where
  start_le : ∀ t ∈ ts, t.span.start ≤ t.span.stop
  ordered : ts.Pairwise fun a b => a.span.stop ≤ b.span.start

/-- The place from the first of the tokens to the last. -/
def Extent (ts : List Lexeme) (s : Span) : Prop :=
  ∃ first last, ts.head? = some first ∧ ts.getLast? = some last ∧
    s = { first.span with stop := last.span.stop }

variable {us front back : List Lexeme} {s s' : Span}

theorem Apart.sublist (h : Apart ts) (hsub : us.Sublist ts) : Apart us :=
  ⟨fun t ht => h.start_le t (hsub.mem ht), h.ordered.sublist hsub⟩

theorem Apart.stretch (h : Apart (front ++ us ++ back)) : Apart us :=
  h.sublist ((List.sublist_append_right front us).trans (List.sublist_append_left _ back))

/-- Tokens in front end in front of those behind. -/
theorem Apart.stop_le_start (h : Apart (front ++ back)) {a b : Lexeme} (ha : a ∈ front)
    (hb : b ∈ back) : a.span.stop ≤ b.span.start :=
  (List.pairwise_append.1 h.ordered).2.2 a ha b hb

theorem Extent.one (t : Lexeme) : Extent [t] t.span := ⟨t, t, rfl, rfl, rfl⟩

theorem Extent.eq (h : Extent ts s) (h' : Extent ts s') : s = s' := by
  obtain ⟨first, last, hfirst, hlast, rfl⟩ := h
  obtain ⟨first', last', hfirst', hlast', rfl⟩ := h'
  rw [hfirst] at hfirst'
  rw [hlast] at hlast'
  obtain rfl := Option.some.inj hfirst'
  obtain rfl := Option.some.inj hlast'
  rfl

/-- Two stretches and what is between them reach from the start of the first to the end of the
second. -/
theorem Extent.through (h : Extent front s) (h' : Extent back s') (mid : List Lexeme)
    (hapart : Apart (front ++ (mid ++ back))) : Extent (front ++ (mid ++ back)) (s.through s') := by
  obtain ⟨first, last, hfirst, hlast, rfl⟩ := h
  obtain ⟨first', last', hfirst', hlast', rfl⟩ := h'
  have hmem : last' ∈ mid ++ back := List.mem_append_right mid (List.mem_of_getLast? hlast')
  have hbehind : last.span.stop ≤ last'.span.start :=
    hapart.stop_le_start (List.mem_of_getLast? hlast) hmem
  have hproper : last'.span.start ≤ last'.span.stop :=
    hapart.start_le last' (List.mem_append_right front hmem)
  refine ⟨first, last', by simp [hfirst], by simp [hlast'], ?_⟩
  rw [Span.through, Nat.max_eq_right (Nat.le_trans hbehind hproper)]

/-- A stretch within the tokens reaches no further than they do. -/
theorem Extent.inside (h : Extent (front ++ us ++ back) s) (h' : Extent us s')
    (hapart : Apart (front ++ us ++ back)) : s.start ≤ s'.start ∧ s'.stop ≤ s.stop := by
  obtain ⟨first, last, hfirst, hlast, rfl⟩ := h
  obtain ⟨first', last', hfirst', hlast', rfl⟩ := h'
  have hfirstmem : first' ∈ front ++ us ++ back := by simp [List.mem_of_head? hfirst']
  have hlastmem : last' ∈ front ++ us ++ back := by simp [List.mem_of_getLast? hlast']
  generalize front ++ us ++ back = ts at *
  constructor
  · obtain ⟨more, rfl⟩ := List.head?_eq_some_iff.1 hfirst
    rcases List.mem_cons.1 hfirstmem with rfl | hmem
    · exact Nat.le_refl _
    · exact Nat.le_trans (hapart.start_le first List.mem_cons_self)
        ((List.pairwise_cons.1 hapart.ordered).1 first' hmem)
  · obtain ⟨more, rfl⟩ := List.getLast?_eq_some_iff.1 hlast
    rcases List.mem_append.1 hlastmem with hmem | hmem
    · exact Nat.le_trans (hapart.stop_le_start hmem List.mem_cons_self)
        (hapart.start_le last (List.mem_append_right more List.mem_cons_self))
    · rw [List.mem_singleton.1 hmem]

/-- **The span of an expression goes from the first of its tokens to the last.** -/
theorem Derives.extent {level : Nat} {e : Expr} (h : Derives (.expr level e) ts)
    (hapart : Apart ts) : Extent ts e.span := by
  generalize hp : Part.expr level e = p at h
  induction h generalizing level e with
  | noArgs => cases hp
  | lastArg => cases hp
  | moreArgs => cases hp
  | @literal t => cases hp; exact .one t
  | ident => cases hp; exact .one _
  | @group e ts =>
    cases hp
    rw [Expr.span_withSpan]
    exact (Extent.one _).through (.one _) ts hapart
  | @call es ts name span opening =>
    cases hp
    exact (Extent.one _).through (.one _) (⟨.sign .lparen, opening⟩ :: ts) hapart
  | @construct name ns gs ts es span opening closing =>
    cases hp
    have hsplit : ⟨.keyword .newKw, span⟩ :: ns ++ (gs ++ ⟨.sign .lparen, opening⟩ :: ts ++
        [⟨.sign .rparen, closing⟩]) = [⟨.keyword .newKw, span⟩] ++ ((ns ++ gs ++
          ⟨.sign .lparen, opening⟩ :: ts) ++ [(⟨.sign .rparen, closing⟩ : Lexeme)]) := by simp
    rw [hsplit] at hapart ⊢
    exact (Extent.one _).through (.one _) _ hapart
  | field point name span _ ih =>
    cases hp
    have hinner := hapart.sublist (List.sublist_append_left _ _)
    exact (ih hinner rfl).through (.one _) [⟨.sign .dot, point⟩] hapart
  | method point name span opening closing _ _ ih _ =>
    cases hp
    rw [List.append_assoc] at hapart ⊢
    have hinner := hapart.sublist (List.sublist_append_left _ _)
    exact (ih hinner rfl).through (.one _) _ hapart
  | index opening closing _ _ ih _ =>
    cases hp
    rw [List.append_assoc] at hapart ⊢
    have hinner := hapart.sublist (List.sublist_append_left _ _)
    exact (ih hinner rfl).through (.one _) _ hapart
  | unary span _ _ ih =>
    cases hp
    have hinner := hapart.sublist (List.sublist_cons_self _ _)
    exact (Extent.one _).through (ih hinner rfl) [] hapart
  | cast opening span closing _ _ ih =>
    cases hp
    have hinner := hapart.sublist (List.sublist_append_right [_, _, _] _)
    exact (Extent.one _).through (ih hinner rfl) [_, _] hapart
  | binary span _ _ _ ih ihright =>
    cases hp
    have hleft := hapart.sublist (List.sublist_append_left _ _)
    have hright := hapart.sublist
      ((List.sublist_cons_self _ _).trans (List.sublist_append_right _ _))
    exact (ih hleft rfl).through (ihright hright rfl) [_] hapart
  | @ternary c a b cs as bs question colon _ _ _ ih _ ihno =>
    cases hp
    have hsplit : cs ++ ⟨.sign .question, question⟩ :: as ++ ⟨.sign .colon, colon⟩ :: bs =
        cs ++ ((⟨.sign .question, question⟩ :: as ++ [⟨.sign .colon, colon⟩]) ++ bs) := by simp
    rw [hsplit] at hapart ⊢
    have hleft := hapart.sublist (List.sublist_append_left _ _)
    have hright := hapart.sublist ((List.sublist_append_right _ bs).trans
      (List.sublist_append_right cs _))
    exact (ih hleft rfl).through (ihno hright rfl) _ hapart
  | loosen _ _ ih =>
    cases hp
    exact ih hapart rfl

end ExprParser

/-! ## Children -/

namespace Expr

/-- The operands of an expression, in the order they are written. -/
def children : Expr → List Expr
  | literal _ _ | ident _ _ => []
  | unary _ e _ | cast _ e _ | field e _ _ => [e]
  | binary _ a b _ | index a b _ => [a, b]
  | ternary c a b _ => [c, a, b]
  | call _ args _ | construct _ args _ => args
  | method receiver _ args _ => receiver :: args

@[simp] theorem children_withSpan (e : Expr) (s : Span) : (e.withSpan s).children = e.children := by
  cases e <;> rfl

/-- The nodes of a tree. -/
inductive IsNode (root : Expr) : Expr → Prop
  | root : IsNode root root
  | child {e c : Expr} : IsNode root e → c ∈ e.children → IsNode root c

end Expr

namespace ExprParser

/-- Expressions that are spelled one behind the other, perhaps with other tokens around them. -/
inductive Segments : List Expr → List Lexeme → Prop
  | nil (ts : List Lexeme) : Segments [] ts
  | cons {e : Expr} {es : List Expr} {us ts : List Lexeme} (front : List Lexeme) :
      Derives (.expr 0 e) us → Segments es ts → Segments (e :: es) (front ++ us ++ ts)

variable {es es' : List Expr} {ts ts' : List Lexeme} {e : Expr}

theorem Segments.one (h : Derives (.expr 0 e) ts) : Segments [e] ts := by
  simpa using Segments.cons [] h (.nil [])

theorem Segments.append (h : Segments es ts) (h' : Segments es' ts') :
    Segments (es ++ es') (ts ++ ts') := by
  induction h with
  | nil ts =>
    cases h' with
    | nil => exact .nil _
    | cons front hus hts => simpa using Segments.cons (ts ++ front) hus hts
  | cons front hus _ ih =>
    rw [List.append_assoc]
    exact .cons front hus ih

theorem Segments.exists_stretch (h : Segments es ts) (he : e ∈ es) :
    ∃ front us back, ts = front ++ us ++ back ∧ Derives (.expr 0 e) us := by
  induction h with
  | nil => simp at he
  | @cons e' es us ts front hus _ ih =>
    rcases List.mem_cons.1 he with rfl | he
    · exact ⟨front, us, ts, rfl, hus⟩
    · obtain ⟨front', us', back, rfl, hus'⟩ := ih he
      exact ⟨front ++ us ++ front', us', back, by simp, hus'⟩

/-- Expressions that are spelled one behind the other stand one behind the other. -/
theorem Segments.pairwise (h : Segments es ts) (hapart : Apart ts) :
    es.Pairwise fun a b => a.span.stop ≤ b.span.start := by
  induction h with
  | nil => exact .nil
  | @cons e es us ts front hus hts ih =>
    refine List.pairwise_cons.2
      ⟨fun e' he' => ?_, ih (hapart.sublist (List.sublist_append_right _ _))⟩
    obtain ⟨front', us', back, rfl, hus'⟩ := hts.exists_stretch he'
    obtain ⟨_, last, _, hlast, hspan⟩ := hus.extent hapart.stretch
    have hapart' : Apart ((front ++ us ++ front') ++ us' ++ back) := by simpa using hapart
    obtain ⟨first, _, hfirst, _, hspan'⟩ := hus'.extent hapart'.stretch
    rw [hspan, hspan']
    exact hapart.stop_le_start (List.mem_append_right front (List.mem_of_getLast? hlast))
      (by simp [List.mem_of_head? hfirst])

/-- What the parts of a tree are: the operands of an expression, or arguments. -/
def Part.children : Part → List Expr
  | .expr _ e => e.children
  | .args es => es

/-- **The operands of an expression are spelled one behind the other.** -/
theorem Derives.segments {p : Part} (h : Derives p ts) : Segments p.children ts := by
  induction h with
  | literal => exact .nil _
  | ident => exact .nil _
  | @group e ts opening closing _ _ ih =>
    rw [Part.children, Expr.children_withSpan, ← List.append_nil e.children]
    exact ((Segments.nil [⟨.sign .lparen, opening⟩]).append ih).append (.nil _)
  | @call es ts name span opening closing _ ih =>
    have hopened := (Segments.nil [⟨.ident name, span⟩, ⟨.sign .lparen, opening⟩]).append ih
    have hsegments := hopened.append (.nil [⟨.sign .rparen, closing⟩])
    simpa [Part.children, Expr.children] using hsegments
  | @construct name ns gs ts es span opening closing _ _ _ ih =>
    have hsegments := ((Segments.nil (⟨.keyword .newKw, span⟩ :: ns ++ gs ++
      [⟨.sign .lparen, opening⟩])).append ih).append (.nil [⟨.sign .rparen, closing⟩])
    simpa [Part.children, Expr.children] using hsegments
  | field _ _ _ h _ => exact (Segments.one (h.mono (Nat.zero_le _) (by decide))).append (.nil _)
  | @method e es rs ts point name span opening closing h _ _ ih =>
    have hreceiver := Segments.one (h.mono (Nat.zero_le _) (by decide))
    have hsegments := (hreceiver.append ((Segments.nil [⟨.sign .dot, point⟩, ⟨.ident name, span⟩,
      ⟨.sign .lparen, opening⟩]).append ih)).append (.nil [⟨.sign .rparen, closing⟩])
    simpa [Part.children, Expr.children] using hsegments
  | @index e i rs ts opening closing h hi _ _ =>
    have hreceiver := Segments.one (h.mono (Nat.zero_le _) (by decide))
    have hsegments := (hreceiver.append ((Segments.nil [⟨.sign .lbracket, opening⟩]).append
      (.one hi))).append (.nil [⟨.sign .rbracket, closing⟩])
    simpa [Part.children, Expr.children] using hsegments
  | @unary op e ts s span _ h _ =>
    exact (Segments.nil [⟨.sign s, span⟩]).append (.one (h.mono (Nat.zero_le _) (by decide)))
  | @cast target e ts name opening span closing _ h _ =>
    exact (Segments.nil [⟨.sign .lparen, opening⟩, ⟨.ident name, span⟩,
      ⟨.sign .rparen, closing⟩]).append (.one (h.mono (Nat.zero_le _) (by decide)))
  | @binary op a b as bs s span _ ha hb _ _ =>
    have hlevel := op.level_le
    have hleft := Segments.one (ha.mono (Nat.zero_le _) (by omega))
    have hright := Segments.one (hb.mono (Nat.zero_le _) (by omega))
    exact hleft.append ((Segments.nil [⟨.sign s, span⟩]).append hright)
  | @ternary c a b cs as bs question colon hc ha hb _ _ _ =>
    have hcondition := Segments.one (hc.mono (Nat.zero_le _) (by decide))
    have hsegments := hcondition.append ((Segments.nil [⟨.sign .question, question⟩]).append
      ((Segments.one ha).append ((Segments.nil [⟨.sign .colon, colon⟩]).append (.one hb))))
    simpa [Part.children, Expr.children] using hsegments
  | loosen _ _ ih => exact ih
  | noArgs => exact .nil _
  | lastArg h _ => exact .one h
  | @moreArgs e e' es ts us comma h _ _ ih =>
    exact (Segments.one h).append ((Segments.nil [⟨.sign .comma, comma⟩]).append ih)

end ExprParser

/-- A node is spelled by a stretch of the tokens. -/
theorem Expr.IsNode.exists_stretch {root e : Expr} (h : root.IsNode e) {ts : List Lexeme}
    (hroot : Derives (.expr 0 root) ts) :
    ∃ front us back, ts = front ++ us ++ back ∧ Derives (.expr 0 e) us := by
  induction h with
  | root => exact ⟨[], ts, [], by simp, hroot⟩
  | child _ hc ih =>
    obtain ⟨front, us, back, rfl, hus⟩ := ih
    obtain ⟨front', us', back', rfl, hus'⟩ := hus.segments.exists_stretch hc
    exact ⟨front ++ front', us', back' ++ back, by simp, hus'⟩

/-! ## Stretches of the tokens in the text -/

/-- Tokens at their places stand one behind the other. -/
theorem apart_place (p : Position) (ps : List Piece) : Apart (place p ps) := by
  have hbehind (p : Position) (ps : List Piece) : ∀ t ∈ place p ps, p.offset ≤ t.span.start := by
    intro t ht
    obtain ⟨qs, q, rs, -, -, hspan⟩ := mem_place_iff.1 ht
    simp only [hspan, Span.ofText, Position.offset_after]
    omega
  induction ps generalizing p with
  | nil => exact ⟨fun _ ht => absurd ht List.not_mem_nil, .nil⟩
  | cons q ps ih =>
    obtain ⟨text, _ | t⟩ := q
    · exact ih _
    · have hlater := ih (p.after text)
      refine ⟨List.forall_mem_cons.2 ⟨?_, hlater.start_le⟩,
        List.pairwise_cons.2 ⟨?_, hlater.ordered⟩⟩
      · simp [Span.ofText]
      · intro t' ht'
        simpa [Span.ofText] using hbehind (p.after text) ps t' ht'

/-- A stretch of the tokens belongs to a stretch of the text, which goes from the first of them to
the last. -/
theorem exists_pieces_of_place {p : Position} {ps : List Piece} {front us back : List Lexeme}
    (h : place p ps = front ++ us ++ back) (hne : us ≠ []) :
    ∃ qs mid rs, ps = qs ++ (mid ++ rs) ∧ us = place (p.after (spell qs)) mid ∧
      Extent us (Span.ofText (p.after (spell qs)) (spell mid)) := by
  obtain ⟨⟨token, span⟩, us, rfl⟩ := List.exists_cons_of_ne_nil hne
  rw [List.append_assoc, List.cons_append] at h
  obtain ⟨qs, text, ps, rfl, rfl, rfl, hlater⟩ := exists_of_place_eq_append h
  obtain rfl | ⟨us, ⟨token', span'⟩, rfl⟩ := List.eq_nil_or_concat us
  · refine ⟨qs, [⟨text, some token⟩], ps, rfl, rfl, ?_⟩
    simpa [spell] using Extent.one _
  · rw [List.concat_eq_append, List.append_assoc, List.singleton_append] at hlater
    obtain ⟨mid, text', rs, rfl, rfl, rfl, -⟩ := exists_of_place_eq_append hlater
    refine ⟨qs, ⟨text, some token⟩ :: mid ++ [⟨text', some token'⟩], rs, by simp, ?_, ?_⟩
    · simp [place, place_append, spell]
    · rw [List.concat_eq_append, ← List.cons_append]
      refine ⟨_, _, rfl, List.getLast?_concat, ?_⟩
      simp [Span.ofText, spell, Nat.add_assoc]

/-! ## Nodes -/

namespace Expr

/-- What the span of a node says: it bounds a piece of the text, its operands stand in it one behind
the other, and the piece alone is read as the node, with places counted from the start of the
piece. -/
structure Recovers (source : List Char) (e : Expr) : Prop where
  bounds : ∃ before after, source = before ++ (e.span.text source ++ after) ∧
    e.span.start = byteSize before ∧ e.span.stop = byteSize (before ++ e.span.text source)
  inside : ∀ c ∈ e.children, e.span.start ≤ c.span.start ∧ c.span.stop ≤ e.span.stop
  ordered : e.children.Pairwise fun a b => a.span.stop ≤ b.span.start
  parse_text : parse (e.span.text source) = .ok (e.mapSpans (·.relativeTo e.span))
  /-- What cannot be computed is shown as that piece. -/
  value_eq : ∀ env, e.reduce source env = none →
    e.value source env = .text (String.ofList (e.span.text source))

/-- A text whose tokens derive a tree, and a stretch of them a node. -/
theorem recovers_of_derives {source : List Char} {e : Expr} {ps : List Piece}
    {front us back : List Lexeme} (hcuts : Cuts source ps [])
    (hplace : place .start ps = front ++ us ++ back) (hus : Derives (.expr 0 e) us) :
    e.Recovers source := by
  have hapart : Apart us := (hplace ▸ apart_place .start ps).stretch
  have hne : us ≠ [] := List.ne_nil_of_length_pos hus.pos
  obtain ⟨qs, mid, rs, rfl, hmid, hextent⟩ := exists_pieces_of_place hplace hne
  have hspan : e.span = Span.ofText (Position.start.after (spell qs)) (spell mid) :=
    (hus.extent hapart).eq hextent
  have hsource : source = spell qs ++ (spell mid ++ spell rs) := by
    simpa [spell_append] using hcuts.spell
  have hstart : e.span.start = byteSize (spell qs) := by
    simp [hspan, Span.ofText, Position.start]
  have hstop : e.span.stop = byteSize (spell qs ++ spell mid) := by
    simp [hspan, Span.ofText, Position.start]
  have htext : e.span.text source = spell mid := by
    rw [Span.text, hstart, hstop, hsource, slice_append]
  have hparse : parse (e.span.text source) = .ok (e.mapSpans (·.relativeTo e.span)) := by
    obtain ⟨_, -, hlater⟩ := hcuts.exists_mid
    obtain ⟨_, hstretch, -⟩ := hlater.exists_mid
    have halone : Cuts (spell mid) mid [] := by simpa using hstretch.of_isPrefix List.nil_prefix
    have hderives := hus.mapSpans (f := (·.relativeTo e.span)) (Span.through_relativeTo e.span)
    have hplaces : (place (Position.start.after (spell qs)) mid).map
        (.mapSpan (·.relativeTo e.span)) = place .start mid := by
      rw [hspan]
      exact place_relativeTo _ (spell mid) [] mid
    rw [hmid, hplaces] at hderives
    rw [htext, parse, lex_of_cuts halone]
    exact whole_of_derives hderives
  refine ⟨⟨spell qs, spell rs, by rw [htext, ← hsource], hstart, by rw [htext, hstop]⟩,
    fun c hc => ?_, hus.segments.pairwise hapart, hparse, fun env hreduce => ?_⟩
  · obtain ⟨front', us', back', rfl, hus'⟩ := hus.segments.exists_stretch hc
    exact (hus.extent hapart).inside (hus'.extent hapart.stretch) hapart
  · rw [value, hreduce, Option.getD_none, spelling]

/-- **Every node of a tree recovers its own spelling**, and the span of the tree goes from the first
token to the last. -/
theorem recovers_of_parse {source : List Char} {root : Expr} (h : parse source = .ok root) :
    (∃ tokens, lex source = .ok tokens ∧ Extent tokens.list root.span) ∧
      ∀ e, root.IsNode e → e.Recovers source := by
  unfold parse at h
  cases hlex : lex source with
  | error fault => simp [hlex] at h
  | ok tokens =>
    rw [hlex] at h
    obtain ⟨ps, hcuts, rfl⟩ := exists_cuts_of_lex hlex
    have hroot : Derives (.expr 0 root) (place .start ps) := whole_eq_ok_iff.1 h
    refine ⟨⟨_, rfl, hroot.extent (apart_place .start ps)⟩, fun e he => ?_⟩
    obtain ⟨front, us, back, hplace, hus⟩ := he.exists_stretch hroot
    exact recovers_of_derives hcuts hplace hus

/-- A group that a method is called on, and a comment behind the call. -/
def callOnGroup : List Char := "-(a+ b).f(1) // g".toList

/-- The text of the group and of its receiver in the call. -/
theorem recovers_of_callOnGroup : ∃ root, parse callOnGroup = .ok root ∧
    ((∃ tokens, lex callOnGroup = .ok tokens ∧ Extent tokens.list root.span) ∧
      ∀ e, root.IsNode e → e.Recovers callOnGroup) := by
  have hsome : (parse callOnGroup).toOption.any (fun _ => true) = true := by decide +kernel
  obtain ⟨root, hparse, -⟩ := exists_ok_of_any hsome
  exact ⟨root, hparse, recovers_of_parse hparse⟩

end Expr

end SnippetRunner
