import SnippetRunner.Proofs.Actions
import SnippetRunner.Proofs.OperatorBreaks

/-!
# Headers of loops

A text whose brackets match and at whose end the scanner is in code can stand between the
parentheses of a `for` statement (`IsHeader`). The statement is then the loop with this header and
the statements of the text behind it (`Run.exec_read_forText`).

* Brackets match if each one is closed by the bracket that belongs to the last one open
  (`IsNested`). A search for the closing parenthesis passes over such a text
  (`closeIn_append_of_nested`), and a cut at a separator that it does not have passes over it too
  (`IsHeader.segments_append`).
* The brackets of a parsed expression match, if those of its type arguments do, so an expression
  can stand in a header (`isHeader_of_derives`).
* Two headers with a separator between them are one (`IsHeader.append`), and a cut at the separator
  takes them apart again (`IsHeader.splitTopLevel_append`).
-/

namespace SnippetRunner

open Text Scan Statement

/-! ## Matching brackets -/

namespace Scan

variable {xs ys behind : List (Char × CharClass)} {st st' : List Char}

/-- The bracket that closes a bracket. -/
def closerOf (c : Char) : Char := if c = '(' then ')' else if c = '[' then ']' else '}'

/-- The brackets that have to come behind a character, the next one first. None if it is a bracket
that closes another one than the last one open. -/
def bracketStep (st : List Char) (x : Char × CharClass) : Option (List Char) :=
  if x.2 = .code ∧ isOpening x.1 = true then some (closerOf x.1 :: st)
  else if x.2 = .code ∧ isClosing x.1 = true then
    if st.head? = some x.1 then some st.tail else none
  else some st

/-- Whether all brackets in the code of a text are closed in it, each one by its own. -/
def IsNested (xs : List (Char × CharClass)) : Prop := ∀ st, xs.foldlM bracketStep st = some st

/-- Whether a character is no bracket in code. -/
def IsLevel (x : Char × CharClass) : Prop :=
  x.2 = .code → isOpening x.1 = false ∧ isClosing x.1 = false

/-- The characters of a class without brackets are none. -/
theorem isLevel_of_isIn {isIn : Char → Bool} {c : Char} (h : isIn c = true)
    (hbrackets : ['(', '[', '{', ')', ']', '}'].all (fun d => !isIn d) = true) (cls : CharClass) :
    IsLevel (c, cls) := by
  refine fun _ => not_isBracket_of_forall fun d hd => ?_
  exact Fragment.ne_of_isIn h (by simpa using List.all_eq_true.1 hbrackets d hd)

theorem bracketStep_of_isLevel {x : Char × CharClass} (h : IsLevel x) (st : List Char) :
    bracketStep st x = some st := by
  rw [bracketStep, if_neg, if_neg]
  · rintro ⟨hcode, hclose⟩
    rw [(h hcode).2] at hclose
    cases hclose
  · rintro ⟨hcode, hopen⟩
    rw [(h hcode).1] at hopen
    cases hopen

theorem isNested_of_isLevel (h : ∀ x ∈ xs, IsLevel x) : IsNested xs := by
  intro st
  induction xs with
  | nil => rfl
  | cons x xs ih =>
    rw [List.forall_mem_cons] at h
    rw [List.foldlM_cons, bracketStep_of_isLevel h.1]
    exact ih h.2

theorem IsNested.append (h : IsNested xs) (h' : IsNested ys) : IsNested (xs ++ ys) := by
  intro st
  rw [List.foldlM_append, h st]
  exact h' st

/-- What stands in brackets. -/
theorem IsNested.group (h : IsNested xs) {o : Char} (ho : isOpening o = true) :
    IsNested ((o, .code) :: xs ++ [(closerOf o, .code)]) := by
  have hcloser : isOpening (closerOf o) = false ∧ isClosing (closerOf o) = true := by
    unfold closerOf
    split_ifs <;> decide
  intro st
  have hopen : bracketStep st (o, .code) = some (closerOf o :: st) := by simp [bracketStep, ho]
  have hclose : bracketStep (closerOf o :: st) (closerOf o, .code) = some st := by
    simp [bracketStep, hcloser]
  rw [List.cons_append, List.foldlM_cons, hopen, Option.bind_eq_bind, Option.bind_some,
    List.foldlM_append, h, Option.bind_eq_bind, Option.bind_some, List.foldlM_cons, hclose]
  rfl

/-- What a character can do to the brackets that are open. -/
theorem bracketStep_cases {x : Char × CharClass} (h : bracketStep st x = some st') :
    (x.2 = .code ∧ isOpening x.1 = true ∧ st' = closerOf x.1 :: st) ∨
      (x.2 = .code ∧ isOpening x.1 = false ∧ isClosing x.1 = true ∧ st = x.1 :: st') ∨
      (IsLevel x ∧ st' = st) := by
  unfold bracketStep at h
  split_ifs at h with hopen hclose hhead
  · exact .inl ⟨hopen.1, hopen.2, (Option.some.inj h).symm⟩
  · obtain ⟨rest, rfl⟩ := List.head?_eq_some_iff.1 hhead
    obtain rfl : rest = st' := Option.some.inj h
    have hno : isOpening x.1 = false := by
      rw [Bool.eq_false_iff]
      exact fun ho => hopen ⟨hclose.1, ho⟩
    exact .inr (.inl ⟨hclose.1, hno, hclose.2, rfl⟩)
  · refine .inr (.inr ⟨fun hcode => ?_, (Option.some.inj h).symm⟩)
    simpa [hcode] using And.intro hopen hclose

/-- **The search for a closing parenthesis passes over matching brackets.** -/
theorem closeIn_append_of_nested (h : xs.foldlM bracketStep st = some st') :
    closeIn '(' ')' (st.count ')' + 1) (xs ++ behind) =
      (closeIn '(' ')' (st'.count ')' + 1) behind).map
        fun (before, after) => (xs.map Prod.fst ++ before, after) := by
  induction xs generalizing st with
  | nil =>
    obtain rfl : st = st' := Option.some.inj h
    simp
  | cons x xs ih =>
    rw [List.foldlM_cons, Option.bind_eq_bind, Option.bind_eq_some_iff] at h
    obtain ⟨mid, hstep, hlater⟩ := h
    have hpass (hcount : mid.count ')' = st.count ')')
        (hx : x.2 = .code → x.1 ≠ '(' ∧ x.1 ≠ ')') :
        closeIn '(' ')' (st.count ')' + 1) (x :: xs ++ behind) =
          (closeIn '(' ')' (st'.count ')' + 1) behind).map
            fun (before, after) => ((x :: xs).map Prod.fst ++ before, after) := by
      rw [List.cons_append, closeIn_cons_of_ne hx, ← hcount, ih hlater, Option.map_map]
      simp [Function.comp_def]
    obtain ⟨c, cls⟩ := x
    obtain ⟨rfl, hopen, rfl⟩ | ⟨rfl, hno, hclose, rfl⟩ | ⟨hlevel, rfl⟩ := bracketStep_cases hstep
    · by_cases hc : c = '('
      · subst hc
        have hcount : List.count ')' (closerOf '(' :: st) = st.count ')' + 1 := List.count_cons_self
        rw [List.cons_append, closeIn_opener, ← hcount, ih hlater, Option.map_map]
        simp [Function.comp_def]
      · refine hpass (List.count_cons_of_ne ?_) fun _ => ⟨hc, ?_⟩
        · unfold closerOf
          rw [if_neg hc]
          split_ifs <;> decide
        · rintro rfl
          exact absurd hopen (by decide)
    · by_cases hc : c = ')'
      · subst hc
        have hcount : List.count ')' (')' :: mid) = mid.count ')' + 1 := List.count_cons_self
        rw [List.cons_append, hcount, closeIn_closer (by decide), ih hlater, Option.map_map]
        simp [Function.comp_def]
      · refine hpass (List.count_cons_of_ne hc).symm fun _ => ⟨?_, hc⟩
        rintro rfl
        exact absurd hno (by decide)
    · refine hpass rfl fun hcode => ?_
      obtain ⟨hopen, hclose⟩ := hlevel hcode
      have hparens : isOpening '(' = true ∧ isClosing ')' = true := by decide
      constructor <;> rintro rfl
      · exact Bool.noConfusion (hparens.1.symm.trans hopen)
      · exact Bool.noConfusion (hparens.2.symm.trans hclose)

/-- Matching brackets leave as many open as before. -/
theorem foldl_levelStep_of_foldlM (h : xs.foldlM bracketStep st = some st') :
    xs.foldl levelStep st.length = st'.length := by
  induction xs generalizing st with
  | nil =>
    obtain rfl : st = st' := Option.some.inj h
    rfl
  | cons x xs ih =>
    rw [List.foldlM_cons, Option.bind_eq_bind, Option.bind_eq_some_iff] at h
    obtain ⟨mid, hstep, hlater⟩ := h
    have hlevel : levelStep st.length x = mid.length := by
      obtain ⟨hcode, hopen, rfl⟩ | ⟨hcode, hno, hclose, rfl⟩ | ⟨hlevel, rfl⟩ :=
        bracketStep_cases hstep
      · simp [levelStep, depthStep, hcode, hopen]
      · simp [levelStep, depthStep, hcode, hno, hclose]
      · by_cases hcode : x.2 = .code
        · simp [levelStep, depthStep, hlevel hcode]
        · simp [levelStep, hcode]
    rw [List.foldl_cons, hlevel, ih hlater]

end Scan

/-! ## The brackets of expressions -/

/-- The characters of a sign, as code. -/
def Token.signCode : Token → List (Char × CharClass)
  | .sign s => s.text.toList.map (·, .code)
  | _ => []

/-- Tokens without semicolons and braces whose brackets match. -/
structure TokensNested (ts : List Lexeme) : Prop where
  not_isDelimiter : ∀ t ∈ ts, ¬ t.token.IsDelimiter
  isNested : IsNested (ts.flatMap fun t => t.token.signCode)

namespace ExprParser

/-- Matching brackets are put together as brackets are. -/
theorem isBracketwise_tokensNested : IsBracketwise TokensNested where
  nil := ⟨nofun, fun _ => rfl⟩
  append h h' := by
    refine ⟨fun t ht => ?_, ?_⟩
    · exact (List.mem_append.1 ht).elim (h.not_isDelimiter t) (h'.not_isDelimiter t)
    · rw [List.flatMap_append]
      exact h.isNested.append h'.isNested
  one {t} ht span := by
    refine ⟨(IsClosed.one ht span).not_isDelimiter, ?_⟩
    rw [List.flatMap_singleton]
    refine isNested_of_isLevel fun x hx hcode => ?_
    cases t with
    | sign s =>
      obtain ⟨c, hc, rfl⟩ := List.mem_map.1 hx
      have hall : s.text.toList.all (fun c => !isOpening c && !isClosing c) = true := by
        cases s with
        | lparen | rparen | lbrace | rbrace | lbracket | rbracket => exact absurd ht (by decide)
        | _ => decide
      simpa using List.all_eq_true.1 hall c hc
    | _ => cases hx
  group {ts s r} h hs opening closing := by
    have hsigns : ((s, r) = (.lparen, .rparen)) ∨ ((s, r) = (.lbracket, .rbracket)) := by
      simpa using hs
    refine ⟨IsClosed.not_isDelimiter_group h.not_isDelimiter hs opening closing, ?_⟩
    rw [List.flatMap_append, List.flatMap_cons, List.flatMap_singleton]
    obtain ⟨rfl, rfl⟩ | ⟨rfl, rfl⟩ := hsigns.imp Prod.mk.inj Prod.mk.inj
    · exact h.isNested.group (o := '(') rfl
    · exact h.isNested.group (o := '[') rfl

end ExprParser

namespace Lexer

variable {cs rest : List Char} {ps : List Piece}

/-- **The brackets of a text are those of its tokens.** -/
theorem Cuts.foldlM_bracketStep (h : Cuts cs ps rest)
    (hblank : ∀ q ∈ ps, q.token = none → isBlank q.text = true) (st : List Char) :
    (ps.flatMap Piece.classified).foldlM bracketStep st =
      ((tokensOf ps).flatMap Token.signCode).foldlM bracketStep st := by
  induction h generalizing st with
  | nil => rfl
  | @blank c u cs rest ps hstep hcuts ih =>
    obtain ⟨hspace, hlater⟩ := List.forall_mem_cons.1 hblank
    have hlevel : ∀ x ∈ Piece.classified ⟨c :: u, none⟩, IsLevel x := by
      intro x hx
      obtain ⟨d, hd, rfl⟩ := List.mem_map.1 hx
      exact isLevel_of_isIn (List.all_eq_true.1 (hspace rfl) d hd) (by decide) _
    rw [List.flatMap_cons, List.foldlM_append, isNested_of_isLevel hlevel]
    exact ih hlater st
  | @token c u cs rest t ps hstep hcuts ih =>
    have hrest := ih (List.forall_mem_cons.1 hblank).2
    have htokens : tokensOf (⟨c :: u, some t⟩ :: ps) = t :: tokensOf ps := rfl
    rw [htokens, List.flatMap_cons, List.flatMap_cons, List.foldlM_append, List.foldlM_append]
    by_cases hsign : ∃ s, t = .sign s
    · obtain ⟨s, rfl⟩ := hsign
      rw [text_of_step_sign hstep]
      exact congrArg _ (funext hrest)
    · have hlevel : ∀ x ∈ Piece.classified ⟨c :: u, some t⟩, IsLevel x := by
        intro x hx hcode
        obtain hword | ⟨s, rfl, -⟩ := code_of_step hstep hx hcode
        · exact isLevel_of_isIn hword (by decide) x.2 hcode
        · exact absurd ⟨s, rfl⟩ hsign
      have hempty : t.signCode = [] := by
        cases t with
        | sign s => exact absurd ⟨s, rfl⟩ hsign
        | _ => rfl
      rw [isNested_of_isLevel hlevel, hempty]
      exact hrest st

end Lexer

/-! ## Headers -/

variable {h body : List Char} {line : Nat}

/-- Whether a text can stand in parentheses: the scanner is in code behind it, and its brackets
match. -/
structure IsHeader (h : List Char) : Prop where
  inCode : modeAfter .code none h = .code
  isNested : IsNested (classify .code h)

/-- A text without brackets, in which nothing starts that is no code. -/
theorem isHeader_of_forall
    (hall : ∀ c ∈ h, isMark c = false ∧ isOpening c = false ∧ isClosing c = false) :
    IsHeader h ∧ classify .code h = h.map (·, .code) := by
  obtain ⟨hclass, hmode⟩ := labels_code (fun c hc => (hall c hc).1) none
  rw [← classify_eq_classifyFrom] at hclass
  refine ⟨⟨hmode, ?_⟩, hclass⟩
  rw [hclass]
  refine isNested_of_isLevel fun x hx _ => ?_
  obtain ⟨c, hc, rfl⟩ := List.mem_map.1 hx
  exact (hall c hc).2

/-- The text of a `for` statement. -/
def forText (h body : List Char) : List Char := "for (".toList ++ (h ++ ')' :: body)

/-- The scanner sees a header in front of a delimiter as it sees it alone, and is in code behind the
delimiter. -/
theorem IsHeader.classify_append (hh : IsHeader h) {d : Char} (hd : d ∈ [')', ';', ':'])
    (body : List Char) :
    classify .code (h ++ d :: body) = classify .code h ++ (d, .code) :: classify .code body ∧
      modeAfter .code none (h ++ d :: body) = modeAfter .code none body := by
  have hplain : IsPlain (some d) ∧ isMark d = false := by
    simp only [List.mem_cons, List.not_mem_nil, or_false] at hd
    rcases hd with rfl | rfl | rfl <;> exact ⟨⟨by decide, by decide⟩, rfl⟩
  obtain ⟨-, hmode⟩ := maskFrom_eq_of_isPlain hplain.1 isPlain_none .code h
  have hdelimiter : Labels .code [d] .code .code :=
    labels_code fun c hc => by rw [List.mem_singleton.1 hc, hplain.2]
  obtain ⟨hclass, hafter⟩ := hdelimiter (body.head?.or none)
  constructor
  · rw [classify_eq_classifyFrom, classifyFrom_append, List.head?_cons, Option.some_or,
      classifyFrom_eq_of_isPlain hplain.1 isPlain_none, hmode, hh.inCode, ← List.singleton_append,
      classifyFrom_append, hclass, hafter, ← classify_eq_classifyFrom, ← classify_eq_classifyFrom]
    rfl
  · rw [modeAfter_append, List.head?_cons, Option.some_or, hmode, hh.inCode,
      ← List.singleton_append, modeAfter_append, hafter]

/-- Two headers with a separator between them. -/
theorem IsHeader.append {h' : List Char} (hh : IsHeader h) (hh' : IsHeader h') {d : Char}
    (hd : d ∈ [';', ':']) : IsHeader (h ++ d :: h') := by
  obtain ⟨hclass, hmode⟩ := hh.classify_append (List.mem_cons_of_mem _ hd) h'
  refine ⟨hmode.trans hh'.inCode, ?_⟩
  have hlevel : IsLevel (d, .code) := by
    simp only [List.mem_cons, List.not_mem_nil, or_false] at hd
    rcases hd with rfl | rfl <;> exact fun _ => ⟨rfl, rfl⟩
  rw [hclass, ← List.singleton_append]
  exact hh.isNested.append
    ((isNested_of_isLevel (by simpa using hlevel)).append hh'.isNested)

/-- The parts of a text up to a separator that follows a header. -/
theorem IsHeader.segments_append (hh : IsHeader h) {sep : Char}
    (hno : ∀ x ∈ classify .code h, x.2 = .code → x.1 ≠ sep) (ys : List (Char × CharClass)) :
    segments sep 0 (classify .code h ++ ys) = consText h (segments sep 0 ys) := by
  have hlevel : (classify .code h).foldl levelStep 0 = 0 :=
    foldl_levelStep_of_foldlM (hh.isNested [])
  rw [segments_append_of_uncut (uncut_of_forall hno 0), hlevel, map_fst_classify]

/-- **A cut at a separator takes one header after another.** -/
theorem IsHeader.splitTopLevel_append (hh : IsHeader h) {sep : Char} (hsep : sep ∈ [';', ':'])
    (hno : ∀ x ∈ classify .code h, x.2 = .code → x.1 ≠ sep) (rest : List Char) :
    splitTopLevel sep (h ++ sep :: rest) = trim h :: splitTopLevel sep rest := by
  have hseparator : IsSeparator sep := by
    simp only [List.mem_cons, List.not_mem_nil, or_false] at hsep
    rcases hsep with rfl | rfl <;> exact ⟨rfl, rfl, rfl, by decide⟩
  obtain ⟨part, parts, hparts⟩ := List.exists_cons_of_ne_nil
    (segments_ne_nil sep 0 (classify .code rest))
  have hmem : sep ∈ [')', ';', ':'] := List.mem_cons_of_mem _ hsep
  rw [splitTopLevel, splitTopLevel, (hh.classify_append hmem _).1, hh.segments_append hno,
    segments_separator hseparator, consText_cons, List.append_nil, hparts]
  rfl

theorem IsHeader.closing?_eq (hh : IsHeader h) (body : List Char) :
    closing? '(' ')' ('(' :: (h ++ ')' :: body)) = some (h, body) := by
  have hopen (next : Option Char) : Mode.step .code '(' next = (.code, .code) := by
    simp [Mode.step]
  have hinner : closeIn '(' ')' 1 (classify .code h ++ (')', .code) :: classify .code body) = _ :=
    closeIn_append_of_nested (hh.isNested [])
  rw [closing?, List.head?_cons, if_pos rfl, closeFrom_eq_closeIn, classify, hopen]
  dsimp only
  rw [closeIn_opener, (hh.classify_append (by simp) _).1, hinner, map_fst_classify]
  simp [closeIn]

/-- **The header and the body of a `for` statement.** -/
theorem loopParts?_forText (hh : IsHeader h) (body : List Char) (line : Nat) :
    loopParts? ⟨forText h body, line⟩ =
      some (h, Fragment.splitBody body (line + newlines h)) := by
  have hsplit : forText h body = "for ".toList ++ ('(' :: (h ++ ')' :: body)) := rfl
  have hchars : ∀ c ∈ "for ".toList, isMark c = false ∧ c ≠ '(' := by
    intro c hc
    have hmem : c ∈ ['f', 'o', 'r', ' '] := hc
    simp only [List.mem_cons, List.not_mem_nil, or_false] at hmem
    rcases hmem with rfl | rfl | rfl | rfl <;> decide
  have hfind : findChar? '(' (masked (forText h body)) = some (byteSize "for ".toList) := by
    obtain ⟨hclass, hmode⟩ := labels_code (fun c hc => (hchars c hc).1) (some '(')
    have hshown : maskFrom .code (some '(') "for ".toList = "for ".toList := by
      rw [maskFrom, hclass, List.flatMap_map]
      simp [maskedChar]
    have hopen (next : Option Char) : Mode.step .code '(' next = (.code, .code) := by
      simp [Mode.step]
    rw [hsplit, masked_eq_maskFrom, maskFrom_append, List.head?_cons, Option.some_or, hshown, hmode,
      findChar?_append fun hc => (hchars _ hc).2 rfl, maskFrom_cons, hopen]
    simp [maskedChar, findChar?]
  have hbreaks : newlines "for ".toList = 0 := by decide
  simp only [loopParts?, hfind, Option.bind_eq_bind, Option.bind_some]
  rw [hsplit, cut?_byteSize_append]
  simp only [Option.bind_some, hh.closing?_eq, hbreaks, Nat.add_zero]
  rfl

namespace Run

/-- The statements of the body of a loop. -/
def bodyStatements (body : List Char) (line : Nat) : List Statement :=
  (Fragment.splitBody body line).map Statement.read

/-- **A `for` statement is the loop with its header and the statements behind it.** -/
theorem exec_read_forText (hh : IsHeader h) (body : List Char) (line : Nat) :
    exec (Statement.read ⟨forText h body, line⟩) =
      exec (forLoop line h (bodyStatements body (line + newlines h))) := by
  let f : Fragment := ⟨forText h body, line⟩
  have hrest : LedBy (fun c => !isIdentPart c) (" (".toList ++ (h ++ ')' :: body)) := ledBy_cons rfl
  have hsplit : forText h body = "for".toList ++ (" (".toList ++ (h ++ ')' :: body)) := rfl
  have hprint : printCall? f.text = none := by
    change printCall? (forText h body) = none
    rw [hsplit]
    exact printCall?_append (by decide) hrest (by simp)
  have hkeyword : String.ofList f.keyword = "for" := by
    have hword := keyword_append (x := "for".toList) (by decide) hrest line
    rw [← hsplit] at hword
    rw [hword]
    rfl
  have hloop : loopParts? f = some (h, Fragment.splitBody body (line + newlines h)) :=
    loopParts?_forText hh body line
  have hshape (bodies : List Statement) : shape f bodies = forLoop line h bodies := by
    simp only [shape, hprint, hkeyword, if_true, hloop]
    rfl
  have hparts : parts f = Fragment.splitBody body (line + newlines h) := by
    simp only [parts, hprint, hkeyword, Option.isSome_none, Bool.false_eq_true, if_false, true_or,
      if_true, hloop, Option.map_some, Option.getD_some]
  have hopen : ¬ f.IsOpenBlock := by
    intro hblock
    have hbrace : 'f' = '{' := Option.some.inj hblock.1
    exact absurd hbrace (by decide)
  rw [← hshape, bodyStatements, ← hparts]
  change exec (readTo (f.text.length + 1) f) = _
  rw [readTo_succ]
  refine exec_shape_congr fun g hg => ?_
  have hlt := length_text_lt_of_mem_parts hopen hg
  exact exec_readTo_eq (uncommented_of_mem_parts hg) hlt (Nat.lt_succ_self _)

end Run

/-! ## Expressions in headers -/

open Lexer ExprParser

/-- **An expression can stand in a header**, if it has neither comments nor text blocks, and the
brackets of its type arguments match. It has no semicolons but those in literals. -/
theorem isHeader_of_derives {e : List Char} {ps : List Piece} {root : Expr} (hcuts : Cuts e ps [])
    (hno : Uncommented .code e) (hline : ∀ q ∈ ps, q.token ≠ none → '\n' ∉ q.text)
    (hroot : Derives (.expr 0 root) (place .start ps))
    (htypes : EachTypeArguments TokensNested (place .start ps)) :
    IsHeader e ∧ ∀ y ∈ classify .code e, Fragment.IsInner y := by
  obtain ⟨hmode, hblank⟩ := hcuts.inCode hno hline
  have hspell : e = Lexer.spell ps := by rw [hcuts.spell, List.append_nil]
  have hnested : TokensNested (place .start ps) :=
    isBracketwise_tokensNested.derives hroot htypes
  refine ⟨⟨by rwa [hspell], fun st => ?_⟩,
    isInner_of_cuts hcuts hno hline hnested.not_isDelimiter⟩
  rw [hcuts.classify_eq hline, hcuts.foldlM_bracketStep hblank, ← map_token_place .start,
    List.flatMap_map]
  exact hnested.isNested st

end SnippetRunner
