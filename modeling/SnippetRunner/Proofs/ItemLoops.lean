import SnippetRunner.Proofs.CompilerOutput
import SnippetRunner.Proofs.CountedLoops
import SnippetRunner.Proofs.Limits

/-!
# Loops over items

The header `T x : e` of a loop over items is told from that of a counted loop by its raw text: by a
semicolon in it, and then by its parts at colons. This reads the header right exactly if `e` has no
semicolon and is not cut at a colon, and `Run.exec_itemLoop` says what the loop does then and what
it does otherwise.

* A semicolon in an expression stands in a literal, so the header has three clauses of which the
  last two are empty (`forLoop_itemHeader_of_mem`), and a loop without a condition never ends with
  success (`Run.exec_counted_none_ne_ok`).
* An expression that is cut at a colon has two parts that are not blank
  (`splitTopLevel_ne_of_ne`), as no expression ends with a colon (`exists_segments_of_derives`). The
  header has at least three parts then, and the loop is not read
  (`forLoop_itemHeader_of_not_mem`).
* Otherwise the loop is its unrolling over the items that the list has at its start
  (`Run.forItems_bind_eq_unrolledItems`).
-/

namespace SnippetRunner

open Text Scan Statement Lexer ExprParser

/-! ## The parts of a text -/

namespace Scan

variable {sep : Char} {xs ys : List (Char × CharClass)} {depth : Nat}

/-- **A text without separators stands at the end of the last part.** -/
theorem exists_segments_append (hno : ∀ y ∈ ys, y.2 = .code → y.1 ≠ sep) (depth : Nat)
    (xs : List (Char × CharClass)) :
    ∃ parts part, segments sep depth (xs ++ ys) = parts ++ [part ++ ys.map Prod.fst] := by
  have hcons (c : Char) {all : List (List Char)}
      (h : ∃ parts part, all = parts ++ [part ++ ys.map Prod.fst]) :
      ∃ parts part, consPart c all = parts ++ [part ++ ys.map Prod.fst] := by
    obtain ⟨_ | ⟨first, parts⟩, part, rfl⟩ := h
    · exact ⟨[], c :: part, rfl⟩
    · exact ⟨(c :: first) :: parts, part, rfl⟩
  induction xs generalizing depth with
  | nil =>
    refine ⟨[], [], ?_⟩
    rw [List.nil_append, segments_of_uncut (uncut_of_forall hno depth)]
    rfl
  | cons x xs ih =>
    obtain ⟨c, cls⟩ := x
    rw [List.cons_append, segments]
    split_ifs
    · exact hcons c (ih _)
    · exact hcons c (ih _)
    · obtain ⟨parts, part, hparts⟩ := ih depth
      exact ⟨[] :: parts, part, by rw [hparts]; rfl⟩
    · exact hcons c (ih _)

theorem classify_cons_space (cs : List Char) :
    classify .code (' ' :: cs) = (' ', .code) :: classify .code cs :=
  classify_append_of_isBlank (rfl : isBlank [' '] = true) cs

/-- A space in front of a text does not change its parts. -/
theorem splitTopLevel_cons_space (sep : Char) (hsep : sep ≠ ' ') (cs : List Char) :
    splitTopLevel sep (' ' :: cs) = splitTopLevel sep cs := by
  obtain ⟨part, parts, hparts⟩ := List.exists_cons_of_ne_nil
    (segments_ne_nil sep 0 (classify .code cs))
  have hcut : segments sep 0 (classify .code (' ' :: cs)) =
      consPart ' ' (segments sep 0 (classify .code cs)) := by
    rw [classify_cons_space, segments, if_neg (by decide), if_neg (by decide),
      if_neg fun h => hsep h.2.1.symm]
  rw [splitTopLevel, splitTopLevel, hcut, hparts, consPart, List.map_cons, List.map_cons,
    trim_cons_space]

end Scan

/-! ## Expressions behind a colon -/

section Expression

variable {e : List Char} {ps : List Piece} {root : Expr}

/-- **An expression does not end with a colon.** The part behind the last one is not blank. -/
theorem exists_segments_of_derives (hcuts : Cuts e ps []) (hno : Uncommented .code e)
    (hline : ∀ q ∈ ps, q.token ≠ none → '\n' ∉ q.text)
    (hroot : Derives (.expr 0 root) (place .start ps)) :
    ∃ parts part, segments ':' 0 (classify .code e) = parts ++ [part] ∧ isBlank part = false := by
  obtain ⟨us, ⟨token, span⟩, hplace, hends⟩ := hroot.exists_last
  obtain ⟨qs, text, bs, rfl, -, -, hbs⟩ := exists_of_place_eq_append hplace
  obtain ⟨c, u, rfl, hstep⟩ := hcuts.exists_step
  have hblank := (hcuts.inCode hno hline).2
  have hbehind : ∀ y ∈ Piece.classified ⟨c :: u, some token⟩ ++ bs.flatMap Piece.classified,
      y.2 = .code → y.1 ≠ ':' := by
    intro y hy hcode
    rcases List.mem_append.1 hy with hy | hy
    · obtain hword | ⟨s, rfl, hmem⟩ := code_of_step hstep hy hcode
      · exact Fragment.ne_of_isIn hword (by decide)
      · rintro hcolon
        rw [hcolon] at hmem
        obtain rfl | rfl := hends s rfl
        · exact absurd hmem (by decide)
        · exact absurd hmem (by decide)
    · obtain ⟨q, hq, hy⟩ := List.mem_flatMap.1 hy
      obtain ⟨d, hd, rfl⟩ := List.mem_map.1 hy
      have hspace := hblank q (by simp [hq]) (token_eq_none_of_place hbs q hq)
      exact Fragment.ne_of_isIn (List.all_eq_true.1 hspace d hd) (by decide)
  obtain ⟨parts, part, hparts⟩ := exists_segments_append hbehind 0 (qs.flatMap Piece.classified)
  rw [hcuts.classify_eq hline, List.flatMap_append, List.flatMap_cons, hparts]
  refine ⟨parts, _, rfl, ?_⟩
  have hsolid : c ∈ part ++ ((Piece.classified ⟨c :: u, some token⟩ ++
      bs.flatMap Piece.classified).map Prod.fst) := by
    simp [Piece.classified]
  rw [Bool.eq_false_iff]
  intro hspace
  exact absurd (List.all_eq_true.1 hspace c hsolid) (by simp [(step_eq_token hstep).1])

/-- An expression that is cut at a colon has more than one part. -/
theorem splitTopLevel_ne_of_ne (hcuts : Cuts e ps []) (hno : Uncommented .code e)
    (hline : ∀ q ∈ ps, q.token ≠ none → '\n' ∉ q.text)
    (hroot : Derives (.expr 0 root) (place .start ps)) (hne : splitTopLevel ':' e ≠ [trim e])
    (part : List Char) : splitTopLevel ':' e ≠ [part] := by
  obtain ⟨parts, last, hparts, hlast⟩ := exists_segments_of_derives hcuts hno hline hroot
  have hsplit : splitTopLevel ':' e = parts.map trim ++ [trim last] := by
    have hlast' : trim last ≠ [] := by
      rw [ne_eq, trim_eq_nil_iff, hlast]
      exact Bool.false_ne_true
    rw [splitTopLevel, hparts, List.map_append, List.map_singleton, dropEmptyLast_eq,
      withoutEmptyLast, if_neg (by simpa using hlast')]
  intro hone
  cases parts with
  | nil =>
    have hcolon : IsSeparator ':' := ⟨rfl, rfl, rfl, by decide⟩
    have hwhole := intercalate_segments hcolon (classify .code e)
    rw [hparts, List.nil_append, List.intercalate_singleton, map_fst_classify] at hwhole
    rw [hwhole] at hsplit
    exact hne hsplit
  | cons first parts =>
    rw [hsplit] at hone
    have hlength := congrArg List.length hone
    simp at hlength

end Expression

/-! ## Headers -/

section Header

variable {T x e : List Char} {line : Nat} {body : List Statement}

/-- The text of the variable of a loop over items. -/
def bindingText (T x : List Char) : List Char := T ++ ' ' :: (x ++ [' '])

/-- The header of a loop over items: `T x : e`. -/
def itemHeader (T x e : List Char) : List Char := bindingText T x ++ ':' :: (' ' :: e)

theorem mem_of_isType (hT : isType T = true) {c : Char} (hc : c ∈ T) :
    isIdentPart c = true ∨ c ∈ "<>,.[]? ".toList := by
  simp only [isType, Bool.and_eq_true] at hT
  simpa using List.all_eq_true.1 hT.1.1.2 c hc

/-- The characters of a type and a name neither are marks nor separate anything. -/
theorem bindingText_plain (hT : isType T = true) (hx : isIdentifier x = true) :
    ∀ c ∈ bindingText T x, isMark c = false ∧ c ≠ ':' ∧ c ≠ ';' := by
  have hpart {c : Char} (h : isIdentPart c = true) : isMark c = false ∧ c ≠ ':' ∧ c ≠ ';' :=
    ⟨isMark_of_isIdentPart h, Fragment.ne_of_isIn h (by decide), Fragment.ne_of_isIn h (by decide)⟩
  have hother : ∀ c ∈ "<>,.[]? ".toList, isMark c = false ∧ c ≠ ':' ∧ c ≠ ';' := by
    have hlist : "<>,.[]? ".toList = ['<', '>', ',', '.', '[', ']', '?', ' '] := rfl
    rw [hlist]
    simp [isMark]
  intro c hc
  rcases List.mem_append.1 hc with hc | hc
  · exact (mem_of_isType hT hc).elim hpart (hother c)
  · rcases List.mem_cons.1 hc with rfl | hc
    · exact hother _ (by decide)
    · rcases List.mem_append.1 hc with hc | hc
      · exact hpart (List.all_eq_true.1 (all_of_isIdentifier hx) c hc)
      · exact hother c (by rw [List.mem_singleton.1 hc]; decide)

theorem isHeader_bindingText (hT : isType T = true) (hbrackets : IsNested (T.map (·, .code)))
    (hx : isIdentifier x = true) :
    IsHeader (bindingText T x) ∧
      ∀ y ∈ classify .code (bindingText T x), y.2 = .code → y.1 ≠ ':' ∧ y.1 ≠ ';' := by
  have hname := all_of_isIdentifier hx
  have hplain := bindingText_plain hT hx
  obtain ⟨hclass, hmode⟩ := labels_code (fun c hc => (hplain c hc).1) none
  rw [← classify_eq_classifyFrom] at hclass
  refine ⟨⟨hmode, ?_⟩, fun y hy _ => ?_⟩
  · have hrest : ∀ y ∈ (' ' :: (x ++ [' '])).map (·, CharClass.code), IsLevel y := by
      intro y hy
      obtain ⟨c, hc, rfl⟩ := List.mem_map.1 hy
      have hwordy : IsWordy (' ' :: (x ++ [' '])) :=
        .append (x := [' ']) (.of_isBlank rfl) ((IsWordy.of_all hname).append (.of_isBlank rfl))
      exact fun _ => ⟨(hwordy.skipped c hc).1, (hwordy.skipped c hc).2.1⟩
    rw [hclass, bindingText, List.map_append]
    exact hbrackets.append (isNested_of_isLevel hrest)
  · rw [hclass] at hy
    obtain ⟨c, hc, rfl⟩ := List.mem_map.1 hy
    exact (hplain c hc).2

theorem splitTopLevel_itemHeader (hT : isType T = true) (hbrackets : IsNested (T.map (·, .code)))
    (hx : isIdentifier x = true) (e : List Char) :
    splitTopLevel ':' (itemHeader T x e) = trim (bindingText T x) :: splitTopLevel ':' e := by
  obtain ⟨hheader, hno⟩ := isHeader_bindingText hT hbrackets hx
  rw [itemHeader, hheader.splitTopLevel_append (by simp) fun y hy hcode => (hno y hy hcode).1,
    splitTopLevel_cons_space ':' (by decide)]

theorem words_bindingText (T : List Char) (hx : isIdentifier x = true) :
    (words (trim (bindingText T x))).getLast? = some x := by
  have hword : IsUnspaced x := by
    refine ⟨?_, fun c hc => ?_⟩
    · rintro rfl
      cases hx
    · exact isSpace_of_isIdentPart (List.all_eq_true.1 (all_of_isIdentifier hx) c hc)
  rw [words_trim, bindingText, words_append_cons rfl, words_append_of_isBlank_right rfl,
    words_of_isUnspaced hword, List.getLast?_append]
  rfl

/-- A header may start with a space. -/
theorem IsHeader.cons_space (he : IsHeader e) : IsHeader (' ' :: e) := by
  have hstep (next : Option Char) : Mode.step .code ' ' next = (.code, .code) := by simp [Mode.step]
  have hspace : IsNested [(' ', CharClass.code)] :=
    isNested_of_isLevel (by simp [IsLevel, isOpening, isClosing])
  refine ⟨?_, ?_⟩
  · rw [modeAfter, hstep]
    exact he.inCode
  · rw [classify_cons_space]
    exact hspace.append he.isNested

theorem isHeader_itemHeader (hT : isType T = true) (hbrackets : IsNested (T.map (·, .code)))
    (hx : isIdentifier x = true) (he : IsHeader e) : IsHeader (itemHeader T x e) :=
  (isHeader_bindingText hT hbrackets hx).1.append he.cons_space (by simp)

/-- The header has a semicolon if the expression has one. -/
theorem contains_itemHeader (hT : isType T = true) (hx : isIdentifier x = true) :
    (itemHeader T x e).contains ';' = decide (';' ∈ e) := by
  have hbinding : ';' ∉ bindingText T x := fun hmem => (bindingText_plain hT hx _ hmem).2.2 rfl
  rw [List.contains_eq_mem, decide_eq_decide, itemHeader, List.mem_append]
  simp [hbinding]

/-- **A semicolon in a literal makes a loop over items a loop without a condition.** -/
theorem forLoop_itemHeader_of_mem (hT : isType T = true) (hbrackets : IsNested (T.map (·, .code)))
    (hx : isIdentifier x = true) (hinner : ∀ y ∈ classify .code e, y.2 = .code → y.1 ≠ ';')
    (hmem : ';' ∈ e) (line : Nat) (body : List Statement) :
    ∃ init, forLoop line (itemHeader T x e) body = .counted line init none [] body := by
  obtain ⟨hheader, hno⟩ := isHeader_bindingText hT hbrackets hx
  have hall : ∀ y ∈ classify .code (itemHeader T x e), y.2 = .code → y.1 ≠ ';' := by
    have hclass := (hheader.classify_append (d := ':') (by simp) (' ' :: e)).1
    rw [itemHeader, hclass, classify_cons_space]
    simp only [List.forall_mem_append, List.forall_mem_cons]
    exact ⟨fun y hy hcode => (hno y hy hcode).2, fun _ => by decide, fun _ => by decide, hinner⟩
  have hblank : isBlank (itemHeader T x e) = false := by
    rw [Bool.eq_false_iff]
    intro hspace
    have hcolon := List.all_eq_true.1 hspace ':' (by simp [itemHeader])
    exact absurd hcolon (by decide)
  have hclauses : clauses? (itemHeader T x e) = some (trim (itemHeader T x e), [], []) := by
    rw [clauses?, splitTopLevel_of_uncut (uncut_of_forall hall 0) hblank,
      contains_itemHeader hT hx]
    simp [hmem]
  rw [forLoop, hclauses]
  exact ⟨_, rfl⟩

/-- **A loop over items is told by a colon**, if it has no semicolon. A second one makes it a
statement without effect. -/
theorem forLoop_itemHeader_of_not_mem (hT : isType T = true)
    (hbrackets : IsNested (T.map (·, .code))) (hx : isIdentifier x = true) (hmem : ';' ∉ e)
    (hsplit : splitTopLevel ':' e ≠ [trim e] → ∀ part, splitTopLevel ':' e ≠ [part]) (line : Nat)
    (body : List Statement) :
    forLoop line (itemHeader T x e) body =
      if splitTopLevel ':' e = [trim e] then .forEach line (String.ofList x) (.ofText e) body
      else .skip := by
  have hclauses : clauses? (itemHeader T x e) = none := by
    rw [clauses?, contains_itemHeader hT hx]
    simp [hmem]
  have hparts := splitTopLevel_itemHeader hT hbrackets hx e
  have hwords := words_bindingText T hx
  rw [forLoop, hclauses]
  dsimp only
  split_ifs with hone
  · rw [hone] at hparts
    simp only [binding?, hparts, hwords, hx, if_true, ofText_trim]
  · have hbinding : binding? (itemHeader T x e) = none := by
      rw [binding?, hparts]
      split
      · next items heq => exact absurd (List.cons.inj heq).2 (hsplit hone items)
      · rfl
    rw [hbinding]

end Header

namespace Run

/-! ## Runs -/

variable {name : String} {body : Run Unit} {tooMany : Stop}

/-- The unrolling of a loop over items. If there are more items than rounds, the loop stops in front
of the next one. -/
def unrolledItems (name : String) (body : Run Unit) (tooMany : Stop) (rounds : Nat)
    (items : List Value) : Run Unit := do
  unrolled name body (items.take rounds)
  if items.length ≤ rounds then modifyEnv (·.remove name) else throw tooMany

/-- **A loop over items is its unrolling.** -/
theorem forItems_bind_eq_unrolledItems (rounds : Nat) (items : List Value) :
    (do forItems name body tooMany rounds items
        modifyEnv (·.remove name)) = unrolledItems name body tooMany rounds items := by
  induction rounds generalizing items with
  | zero => cases items <;> rfl
  | succ rounds ih =>
    cases items with
    | nil => rfl
    | cons item items =>
      simp only [forItems, bind_assoc, ih, unrolledItems, unrolled, List.take_succ_cons,
        List.forM_cons, List.length_cons, Nat.add_le_add_iff_right]

/-- A loop without a condition is not done. -/
theorem repeatWhile_none_ne_ok (rounds : Nat) (m m' : Machine) :
    repeatWhile none body tooMany rounds m ≠ .ok () m' := by
  induction rounds generalizing m with
  | zero => exact nofun
  | succ rounds ih =>
    intro h
    have hholds : holds none m.env = true := rfl
    rw [repeatWhile, get_bind_apply, if_pos hholds] at h
    obtain ⟨m₁, -, hrest⟩ := exists_of_bind_eq_ok h
    exact ih m₁ hrest

theorem countedRounds_none_ne_ok {m m' : Machine} (line : Nat) (init : Option Action)
    (updates : List Action) (bodies : List Statement) :
    countedRounds line init none updates bodies m ≠ .ok () m' := by
  intro h
  rw [countedRounds, get_bind_apply] at h
  obtain ⟨_, hloop, -⟩ := exists_of_bind_eq_ok h
  exact repeatWhile_none_ne_ok _ _ _ hloop

/-- A loop without a condition ends with no success. -/
theorem exec_counted_none_ne_ok {m m' : Machine} (line : Nat) (init : Option Action)
    (updates : List Action) (bodies : List Statement) :
    exec (.counted line init none updates bodies) m ≠ .ok () m' := by
  intro h
  rw [exec_counted] at h
  obtain ⟨m₁, -, h⟩ := exists_of_bind_eq_ok h
  cases init with
  | none => exact countedRounds_none_ne_ok _ _ _ _ h
  | some a =>
    obtain ⟨m₂, -, h⟩ := exists_of_bind_eq_ok h
    exact countedRounds_none_ne_ok _ _ _ _ h

variable {T x e text : List Char} {tokens : Lexemes} {root : Expr} {m : Machine} {line : Nat}

/-- The statement `for (T x : e)` with a body. -/
def itemLoop (T x e text : List Char) (line : Nat) : Statement :=
  Statement.read ⟨forText (itemHeader T x e) text, line⟩

/-- What a loop over items does: it runs its body for each item of a list, and nothing otherwise. -/
theorem exec_forEach (htime : m.limits.timeout ≠ 0) (line : Nat) (name : String) (items : Operand)
    (bodies : List Statement) :
    exec (.forEach line name items bodies) m =
      match items.value m.env with
      | .list values => unrolledItems name (execAll bodies) (.loopLimit m.limits.iterations line)
          m.limits.iterations values.toList m
      | _ => .ok () m := by
  rw [exec, bind_apply, checkDeadline_of_timeout_ne_zero htime]
  dsimp only
  rw [get_bind_apply]
  cases items.value m.env with
  | list values =>
    dsimp only
    rw [forItems_bind_eq_unrolledItems]
  | _ => rfl

/-- **A loop over items is its unrolling**, if its expression has no semicolon and is not cut at a
colon. The loop `for (T x : e) body` then runs its body with `x` bound to each item of the list that
`e` is, and unbinds `x` behind the last one; it does nothing if `e` is no list. There are two other
kinds of expressions. One with a semicolon, which can only stand in a literal, makes the loop one
without a condition, and this one never ends with success. One that is cut at a colon, as a
conditional expression without parentheses is, makes it a statement without effect. -/
theorem exec_itemLoop (hT : isType T = true) (hbrackets : IsNested (T.map (·, .code)))
    (hx : isIdentifier x = true) (hlex : lex e = .ok tokens) (hparse : Expr.parse e = .ok root)
    (hno : Uncommented .code e) (hblock : ∀ t ∈ tokens.list, ¬ t.IsTextBlock e)
    (htypes : EachTypeArguments TokensNested tokens.list) (htime : m.limits.timeout ≠ 0) :
    (';' ∈ e → ∀ m', exec (itemLoop T x e text line) m ≠ .ok () m') ∧
      (';' ∉ e → splitTopLevel ':' e ≠ [trim e] → exec (itemLoop T x e text line) m = .ok () m) ∧
      (';' ∉ e → splitTopLevel ':' e = [trim e] →
        exec (itemLoop T x e text line) m =
          match evaluate e m.env with
          | .list values => unrolledItems (String.ofList x)
              (execAll (bodyStatements text (line + newlines (itemHeader T x e))))
              (.loopLimit m.limits.iterations line) m.limits.iterations values.toList m
          | _ => .ok () m) := by
  obtain ⟨ps, hcuts, rfl⟩ := exists_cuts_of_lex hlex
  have hroot : Derives (.expr 0 root) (place .start ps) := by
    rw [Expr.parse, hlex] at hparse
    exact whole_eq_ok_iff.1 hparse
  have hline : ∀ q ∈ ps, q.token ≠ none → '\n' ∉ q.text :=
    fun q hq => hcuts.newline_not_mem hblock hq
  obtain ⟨hheader, hinner⟩ := isHeader_of_derives hcuts hno hline hroot htypes
  have hread := exec_read_forText (isHeader_itemHeader hT hbrackets hx hheader) text line
  have hcolon (hne : splitTopLevel ':' e ≠ [trim e]) (part : List Char) :
      splitTopLevel ':' e ≠ [part] := splitTopLevel_ne_of_ne hcuts hno hline hroot hne part
  refine ⟨fun hmem m' => ?_, fun hmem hne => ?_, fun hmem hone => ?_⟩
  · obtain ⟨init, hloop⟩ := forLoop_itemHeader_of_mem hT hbrackets hx
      (fun y hy hcode => (hinner y hy).2 hcode |>.1) hmem line
      (bodyStatements text (line + newlines (itemHeader T x e)))
    rw [itemLoop, hread, hloop]
    exact exec_counted_none_ne_ok line init [] _
  · rw [itemLoop, hread, forLoop_itemHeader_of_not_mem hT hbrackets hx hmem hcolon, if_neg hne,
      exec_skip htime]
  · rw [itemLoop, hread, forLoop_itemHeader_of_not_mem hT hbrackets hx hmem hcolon, if_pos hone,
      exec_forEach htime]
    rfl

/-- A loop that prints the items of a list, one over a text with a semicolon, and one over the
outcome of a condition. -/
theorem exec_itemLoop_threeHeaders :
    let text := " System.out.println(s);".toList
    let m : Machine := ⟨⟨[("xs", .list #[.int 1, .int 2])]⟩, .empty 9, ⟨2, 9, 9⟩⟩
    exec (itemLoop "int".toList ['s'] "xs".toList text 1) m =
        .ok () { m with console := ⟨"1\n2\n", 9⟩ } ∧
      (∀ m', exec (itemLoop "String".toList ['s'] "\"a;b\"".toList text 1) m ≠ .ok () m') ∧
      exec (itemLoop "int".toList ['s'] "1 < 2 ? xs : xs".toList text 1) m = .ok () m := by
  have hbody : bodyStatements " System.out.println(s);".toList 1 =
      [.print (some (.ofText ['s']))] := by
    have hsplit : Fragment.splitBody " System.out.println(s);".toList 1 =
        [⟨"System.out.println(s)".toList, 1⟩] := by decide +kernel
    have hprint : printCall? "System.out.println(s)".toList = some (false, ['s']) := rfl
    rw [bodyStatements, hsplit, List.map_singleton, Statement.read, readTo, hprint]
    rfl
  have hword {T : List Char} (h : T.all isIdentPart = true) : IsNested (T.map (·, .code)) := by
    refine isNested_of_isLevel (List.forall_mem_map.2 fun c hc => ?_)
    exact isLevel_of_isIn (List.all_eq_true.1 h c hc) (by decide) .code
  have hint : IsNested ("int".toList.map (·, CharClass.code)) := hword rfl
  have hstring : IsNested ("String".toList.map (·, CharClass.code)) := hword rfl
  have hname : isIdentifier ['s'] = true := by decide
  have hreads {e : List Char}
      (h : (lex e).toOption.any (fun ts => (Expr.parse e).toOption.any fun _ => decide
        (∀ t ∈ ts.list, ¬ t.IsTextBlock e ∧ (t.token != .keyword .newKw) = true)) = true) :
      ∃ tokens root, lex e = .ok tokens ∧ Expr.parse e = .ok root ∧
        (∀ t ∈ tokens.list, ¬ t.IsTextBlock e) ∧ EachTypeArguments TokensNested tokens.list := by
    obtain ⟨tokens, hlex, hsome⟩ := exists_ok_of_any h
    obtain ⟨root, hparse, hchecked⟩ := exists_ok_of_any hsome
    have hall := of_decide_eq_true hchecked
    refine ⟨tokens, root, hlex, hparse, fun t ht => (hall t ht).1, .of_forall fun t ht hnew => ?_⟩
    have hfree := (hall t ht).2
    rw [hnew] at hfree
    exact absurd hfree (by decide)
  refine ⟨?_, ?_, ?_⟩
  · obtain ⟨tokens, root, hlex, hparse, hblock, htypes⟩ :=
      hreads (e := "xs".toList) (by decide +kernel)
    have hno : ∀ p ∈ classify .code "xs".toList, p.2 ≠ .comment := by decide
    have hvalue : evaluate "xs".toList ⟨[("xs", .list #[.int 1, .int 2])]⟩ =
        .list #[.int 1, .int 2] := by cbv
    have hread : Operand.ofText ['s'] = ⟨['s'], some (.ident "s" ⟨0, 1, 1, 1⟩)⟩ := by cbv
    have hbreaks : newlines (itemHeader "int".toList ['s'] "xs".toList) = 0 := rfl
    refine ((exec_itemLoop (by decide) hint hname hlex hparse hno hblock htypes
      (by decide)).2.2 (by decide) (by decide)).trans ?_
    rw [hvalue, hbreaks, Nat.add_zero, hbody, hread]
    rfl
  · obtain ⟨tokens, root, hlex, hparse, hblock, htypes⟩ :=
      hreads (e := "\"a;b\"".toList) (by decide +kernel)
    have hno : ∀ p ∈ classify .code "\"a;b\"".toList, p.2 ≠ .comment := by decide
    exact (exec_itemLoop (by decide) hstring hname hlex hparse hno hblock htypes (by decide)).1
      (by decide)
  · obtain ⟨tokens, root, hlex, hparse, hblock, htypes⟩ :=
      hreads (e := "1 < 2 ? xs : xs".toList) (by decide +kernel)
    have hno : ∀ p ∈ classify .code "1 < 2 ? xs : xs".toList, p.2 ≠ .comment := by decide
    exact (exec_itemLoop (by decide) hint hname hlex hparse hno hblock htypes (by decide)).2.1
      (by decide) (by decide)

end Run

end SnippetRunner
