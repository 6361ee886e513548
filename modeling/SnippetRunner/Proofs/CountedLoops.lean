import SnippetRunner.Proofs.Headers
import SnippetRunner.Proofs.Kinds
import SnippetRunner.Proofs.Numerals
import SnippetRunner.Proofs.RoundTrip

/-!
# Counted loops

A loop `for (int x = a; x <= b; x++) body` is read from the three clauses of its header
(`forLoop_countingHeader`). It computes its condition and its update again in every round, in the
variables that the body has left. If the body keeps `x` (`Run.Keeps`), the loop is its unrolling
(`Run.exec_countingLoop`): the body for `a`, for `a + 1` and so on up to `b`.

* Clauses have no brackets and nothing that separates (`IsClause`), so the header is cut between
  them (`clauses?_append`).
* The condition holds of the integers below a bound (`Run.isBelow_conditionText`), and the bound
  keeps the next integer within the range.
* `Run.countUp_eq_unrolledCount` is the induction on the rounds that are left. A round is one step
  of the unrolling (`Run.countUp_succ`, `Run.unrolledCount_succ`), whether its body stops the run or
  not.
-/

namespace SnippetRunner

open Text Scan Statement ExprParser

/-! ## The clauses of a counted loop -/

variable {x a b : List Char} {op : BinaryOp} {n v : Int} {env : Environment}

/-- The text of a declaration of an integer. -/
def declarationText (x e : List Char) : List Char :=
  "int ".toList ++ x ++ " ".toList ++ (opText none ++ '=' :: (' ' :: e))

/-- The text of a comparison. -/
def conditionText (x : List Char) (op : BinaryOp) (b : List Char) : List Char :=
  x ++ ' ' :: (op.symbol.toList ++ ' ' :: b)

/-- The header of a loop that counts up: `int x = a; x op b; x++`. -/
def countingHeader (x a : List Char) (op : BinaryOp) (b : List Char) : List Char :=
  declarationText x a ++ ';' :: (' ' :: conditionText x op b ++
    ';' :: (' ' :: incrementText true false x))

/-- The least integer that is not below the bound of a comparison. -/
def stopOf (op : BinaryOp) (b : Int) : Int := if op = .le then b + 1 else b

theorem trim_cons_space (cs : List Char) : trim (' ' :: cs) = trim cs :=
  trim_append_of_isBlank_left (a := [' ']) rfl

/-- **A declaration of an integer is read as what it says.** -/
theorem action?_declarationText (hx : isIdentifier x = true) (e : List Char) :
    action? (declarationText x e) =
      some (.declare (String.ofList x) "int".toList (some (.ofText e))) := by
  have hall := all_of_isIdentifier hx
  have hwordy : IsWordy ("int ".toList ++ x ++ " ".toList) := by
    refine .append (.append ?_ (.of_all hall)) (.of_isBlank rfl)
    exact .append (x := "int".toList) (.of_all (by decide)) (.of_isBlank rfl)
  have hfront : trim ("int ".toList ++ x ++ " ".toList) = "int ".toList ++ x := by
    rw [trim_append_of_isBlank_right rfl]
    have hhead : ∀ c ∈ "int ".toList.head?, isSpace c = false := by
      intro c hc
      obtain rfl : 'i' = c := Option.some.inj hc
      decide
    have hne : x ≠ [] := by
      rintro rfl
      cases hx
    exact trim_append_eq_self hhead (trim_of_isIdentifier hx) hne
  have hsplit : splitAssignment? (declarationText x e) =
      some ("int ".toList ++ x, none, trim e) := by
    have hsides : splitAssignment? (declarationText x e) =
        some (trim ("int ".toList ++ x ++ " ".toList), none, trim (' ' :: e)) :=
      splitAssignment?_append hwordy (by simp [assignOps]) (by simp)
    rwa [hfront, trim_cons_space] at hsides
  have htype : typeAndName? ("int ".toList ++ x) = some ("int".toList, String.ofList x) := by
    have hname : ("int ".toList ++ x).reverse.takeWhile isIdentPart = x.reverse := by
      rw [List.reverse_append, List.takeWhile_append_of_pos fun c hc =>
        List.all_eq_true.1 hall c (List.mem_reverse.1 hc)]
      simp [show isIdentPart ' ' = false by decide]
    have hinit : ("int ".toList ++ x).take (("int ".toList ++ x).length - x.length) =
        "int ".toList := by
      rw [List.length_append, Nat.add_sub_cancel_right, List.take_left]
    have htrim : trim "int ".toList = "int".toList := rfl
    have hdrop : dropFinal "int".toList = "int".toList := by
      unfold dropFinal
      rfl
    have hint : isType "int".toList = true := rfl
    simp only [typeAndName?, hname, List.reverse_reverse, hinit, htrim, hdrop, hint, hx,
      Bool.true_and, if_true]
  have hkind : Library.collectionKind? "int".toList = none := by decide
  have hdeclaration : declaration? (declarationText x e) =
      some (.declare (String.ofList x) "int".toList (some (.ofText e))) := by
    have hsimple : Library.simpleName "int".toList = "int".toList := by decide
    simp only [declaration?, hsplit, htype, hkind, hsimple, ofText_trim,
      Option.bind_eq_bind, Option.bind_some, Option.map_some]
    rfl
  rw [action?, hdeclaration, Option.some_or]

/-- No white space stands around an integer. -/
theorem trim_of_isDecimal (ha : IsDecimal n a) : trim a = a := by
  have htrim := ha.trim_eq .int
  have hsuffix : a ++ Width.int.suffix = a := List.append_nil a
  rwa [hsuffix] at htrim

/-- A text of an integer of 32 bits has its value. -/
theorem evaluate_of_isDecimal (ha : IsDecimal n a) (hn : Width.int.Holds n) (env : Environment) :
    evaluate a env = Width.int.value n := by
  obtain ⟨e, hparse, hinteger⟩ := ha.exists_parse hn (by simp) env
  have hsuffix : a ++ Width.int.suffix = a := List.append_nil a
  rw [hsuffix, ← trim_of_isDecimal ha] at hparse
  rw [evaluate_of_parse hparse, Expr.value, Expr.reduce_of_isInteger hinteger, Option.getD_some]

theorem toInt_ofInt (hn : Width.int.Holds n) : (Int32.ofInt n).toInt64.toInt = n := by
  rw [Int32.toInt_toInt64, Int32.toInt_ofInt_of_le hn.1 hn.2]

/-- **Integers are compared as they are.** -/
theorem binary_compare (hop : op ∈ [BinaryOp.le, .lt]) (hv : Width.int.Holds v)
    (hn : Width.int.Holds n) :
    Value.binary op (Width.int.value v) (Width.int.value n) = some (.bool (v < stopOf op n)) := by
  have hcompare : Value.compare? (Width.int.value v) (Width.int.value n) =
      some (if v < n then .lt else if v = n then .eq else .gt) := by
    have hlt : (Int32.ofInt v).toInt64 < (Int32.ofInt n).toInt64 ↔ v < n := by
      rw [Int64.lt_iff_toInt_lt, toInt_ofInt hv, toInt_ofInt hn]
    have heq : (Int32.ofInt v).toInt64 = (Int32.ofInt n).toInt64 ↔ v = n := by
      rw [← Int64.toInt_inj, toInt_ofInt hv, toInt_ofInt hn]
    simp only [Value.compare?, Width.value, Value.asLong?, hlt, heq]
  simp only [List.mem_cons, List.not_mem_nil, or_false] at hop
  obtain rfl | rfl := hop
  · have hstop : decide (v < stopOf .le n) = decide (v ≤ n) := decide_eq_decide.2 Int.lt_add_one_iff
    rw [Value.binary, hcompare, Option.map_some, hstop]
    obtain hlt | rfl | hgt := lt_trichotomy v n
    · simp [hlt, hlt.le]
    · simp
    · simp [hgt, hgt.not_gt, hgt.ne']
  · have hstop : stopOf .lt n = n := rfl
    rw [Value.binary, hcompare, Option.map_some, hstop]
    obtain hlt | rfl | hgt := lt_trichotomy v n
    · simp [hlt]
    · simp
    · simp [hgt.not_gt, hgt.ne']

/-- A comparison of a variable with an integer is read as what it says. -/
theorem exists_parse_conditionText (hx : isIdentifier x = true)
    (hword : Keyword.ofText? (String.ofList x) = none) (hop : op ∈ [BinaryOp.le, .lt])
    (hb : IsDecimal n b) (hn : Width.int.Holds n) (env : Environment) :
    ∃ e s t, Expr.parse (conditionText x op b) =
      .ok (.binary op (.ident (String.ofList x) s) e t) ∧ e.IsInteger .int env n := by
  have hname : Lexer.ReadsAs x (.ident (String.ofList x)) := by
    have hread := Lexer.readsAs_word hx
    rwa [hword] at hread
  have hsign : op.symbol.toList = op.sign.text.toList ∧ op.level = 3 := by
    simp only [List.mem_cons, List.not_mem_nil, or_false] at hop
    rcases hop with rfl | rfl <;> exact ⟨rfl, rfl⟩
  let p := (Position.start.after x).after [' ']
  obtain ⟨ps, e, hcuts, hright, hinteger⟩ :=
    hb.exists_derives hn (by simp) env ((p.after op.sign.text.toList).after [' '])
  have hsuffix : b ++ Width.int.suffix = b := List.append_nil b
  rw [hsuffix] at hcuts
  have hpieces := hname.cuts_cons ((Lexer.readsAs_sign op.sign).cuts_cons hcuts)
  have hleft : Derives (.expr 9 (.ident (String.ofList x) (.ofText .start x))) _ := .ident _ _
  have hroot := Derives.binary (Span.ofText p op.sign.text.toList) (binaryOp?_sign op)
    (hleft.mono (by omega) (by decide)) (hright.mono (by omega) (by decide))
  rw [conditionText, hsign.1]
  exact ⟨e, _, _, parse_of_cuts hpieces (hroot.mono (by omega) (by omega)), hinteger⟩

/-! ## Clauses -/

/-- Whether a text can be a clause that separates nothing: one of words, numbers, white space and
the signs of comparisons. -/
def IsClause (cs : List Char) : Prop := ∀ c ∈ cs, Lexer.isWordChar c = true ∨ c ∈ [' ', '=', '<']

section IsClause

variable {c₁ c₂ c₃ : List Char}

theorem IsClause.append (h : IsClause c₁) (h' : IsClause c₂) : IsClause (c₁ ++ c₂) :=
  fun c hc => (List.mem_append.1 hc).elim (h c) (h' c)

theorem isClause_of_isIdentifier (hx : isIdentifier x = true) : IsClause x := fun c hc =>
  .inl (Lexer.isWordChar_of_isIdentPart (List.all_eq_true.1 (all_of_isIdentifier hx) c hc))

theorem IsClause.ne (h : IsClause c₁) {c d : Char} (hc : c ∈ c₁)
    (hd : Lexer.isWordChar d = false ∧ d ∉ [' ', '=', '<']) : c ≠ d := by
  rintro rfl
  obtain hword | hsign := h c hc
  · rw [hd.1] at hword
    cases hword
  · exact hd.2 hsign

/-- A clause has no brackets, and nothing in it starts that is no code. -/
theorem IsClause.isFlat (h : IsClause c₁) :
    ∀ c ∈ c₁, isMark c = false ∧ isOpening c = false ∧ isClosing c = false := by
  refine fun c hc => ⟨?_, ?_⟩
  · obtain hword | hsign := h c hc
    · exact Lexer.isMark_of_isWordChar hword
    · simp only [List.mem_cons, List.not_mem_nil, or_false] at hsign
      rcases hsign with rfl | rfl | rfl <;> rfl
  · refine not_isBracket_of_forall fun d hd => h.ne hc ?_
    simp only [List.mem_cons, List.not_mem_nil, or_false] at hd
    rcases hd with rfl | rfl | rfl | rfl | rfl | rfl <;> decide

theorem IsClause.isHeader (h : IsClause c₁) :
    IsHeader c₁ ∧ classify .code c₁ = c₁.map (·, .code) :=
  isHeader_of_forall h.isFlat

/-- A clause has no separator. -/
theorem IsClause.ne_of_mem_classify (h : IsClause c₁) {sep : Char} (hsep : sep ∈ [';', ',']) :
    ∀ y ∈ classify .code c₁, y.2 = .code → y.1 ≠ sep := by
  intro y hy _
  rw [h.isHeader.2] at hy
  obtain ⟨c, hc, rfl⟩ := List.mem_map.1 hy
  simp only [List.mem_cons, List.not_mem_nil, or_false] at hsep
  rcases hsep with rfl | rfl <;> exact h.ne hc (by decide)

theorem IsClause.splitTopLevel_eq (h : IsClause c₁) {sep : Char} (hsep : sep ∈ [';', ','])
    (hblank : isBlank c₁ = false) : splitTopLevel sep c₁ = [trim c₁] :=
  splitTopLevel_of_uncut (uncut_of_forall (h.ne_of_mem_classify hsep) 0) hblank

/-- **The clauses of a counted loop.** -/
theorem clauses?_append (h₁ : IsClause c₁) (h₂ : IsClause c₂) (h₃ : IsClause c₃)
    (hblank : isBlank c₃ = false) :
    clauses? (c₁ ++ ';' :: (c₂ ++ ';' :: c₃)) = some (trim c₁, trim c₂, trim c₃) := by
  have hsplit : splitTopLevel ';' (c₁ ++ ';' :: (c₂ ++ ';' :: c₃)) =
      [trim c₁, trim c₂, trim c₃] := by
    rw [h₁.isHeader.1.splitTopLevel_append (by simp) (h₁.ne_of_mem_classify (by simp)),
      h₂.isHeader.1.splitTopLevel_append (by simp) (h₂.ne_of_mem_classify (by simp)),
      h₃.splitTopLevel_eq (by simp) hblank]
  rw [clauses?, hsplit]
  simp

end IsClause

/-- The clauses of a loop that counts up. -/
theorem isClause_countingHeader (hx : isIdentifier x = true) (ha : IsClause a) (hb : IsClause b)
    (hop : op ∈ [BinaryOp.le, .lt]) :
    IsClause (declarationText x a) ∧ IsClause (' ' :: conditionText x op b) ∧
      IsClause (' ' :: incrementText true false x) := by
  have hname := isClause_of_isIdentifier hx
  have hspace : IsClause [' '] := by simp [IsClause]
  have hassign : IsClause ['=', ' '] := by simp [IsClause]
  have hplus : IsClause ['+', '+'] := by simp [IsClause, Lexer.isWordChar]
  have hint : IsClause "int ".toList :=
    (isClause_of_isIdentifier (x := "int".toList) (by decide)).append hspace
  have hsign : IsClause op.symbol.toList := by
    simp only [List.mem_cons, List.not_mem_nil, or_false] at hop
    rcases hop with rfl | rfl <;> simp [IsClause, BinaryOp.symbol]
  exact ⟨((hint.append hname).append hspace).append (hassign.append ha),
    hspace.append (hname.append (hspace.append (hsign.append (hspace.append hb)))),
    hspace.append (hname.append hplus)⟩

/-- No white space stands around the clauses of a loop that counts up. -/
theorem trim_conditionText (hx : isIdentifier x = true) (op : BinaryOp) (hb : IsDecimal n b) :
    trim (conditionText x op b) = conditionText x op b := by
  have hsplit : conditionText x op b = (x ++ ' ' :: (op.symbol.toList ++ [' '])) ++ b := by
    simp [conditionText]
  rw [hsplit]
  refine trim_append_eq_self (fun c hc => ?_) (trim_of_isDecimal hb) hb.ne_nil
  obtain ⟨d, -, hd, -, hpart, -⟩ := isIdentPart_ends hx
  rw [List.head?_append, hd, Option.some_or] at hc
  obtain rfl := Option.some.inj hc
  exact Lexer.isSpace_of_isIdentPart hpart

theorem trim_declarationText (ha : IsDecimal n a) (x : List Char) :
    trim (declarationText x a) = declarationText x a := by
  have hsplit : declarationText x a = ("int ".toList ++ x ++ " ".toList ++ ['=', ' ']) ++ a :=
    (List.append_assoc _ ['=', ' '] a).symm
  rw [hsplit]
  refine trim_append_eq_self (fun c hc => ?_) (trim_of_isDecimal ha) ha.ne_nil
  obtain rfl : 'i' = c := Option.some.inj hc
  decide

/-- **A loop that counts up is read as what it says.** -/
theorem forLoop_countingHeader (hx : isIdentifier x = true) (ha : IsDecimal n a)
    (hb : IsDecimal v b) (hop : op ∈ [BinaryOp.le, .lt]) (line : Nat) (body : List Statement) :
    forLoop line (countingHeader x a op b) body =
      .counted line (some (.declare (String.ofList x) "int".toList (some (.ofText a))))
        (some (.ofText (conditionText x op b))) [.step (String.ofList x) 1] body := by
  obtain ⟨h₁, h₂, h₃⟩ := isClause_countingHeader hx (fun c hc => .inl (ha.isWordChar_eq c hc))
    (fun c hc => .inl (hb.isWordChar_eq c hc)) hop
  have hstep : IsClause (incrementText true false x) := (List.forall_mem_cons.1 h₃).2
  have htrim := trim_incrementText hx true false
  have hblank {cs : List Char} (hcs : trim cs = cs) (hne : cs ≠ []) : isBlank cs = false := by
    rwa [← isEmpty_trim, hcs, List.isEmpty_eq_false_iff]
  have hname : x ≠ [] := by
    rintro rfl
    cases hx
  have hne := hblank htrim (List.append_ne_nil_of_left_ne_nil hname _)
  have hclauses : clauses? (countingHeader x a op b) =
      some (declarationText x a, conditionText x op b, incrementText true false x) := by
    have hcut := clauses?_append h₁ h₂ h₃ hne
    rwa [trim_declarationText ha, trim_cons_space, trim_cons_space, trim_conditionText hx op hb,
      htrim] at hcut
  have hupdates : splitTopLevel ',' (incrementText true false x) =
      [incrementText true false x] := by
    rw [hstep.splitTopLevel_eq (by simp) hne, htrim]
  have hstart : (declarationText x a).isEmpty = false := rfl
  have hcondition : operand? (conditionText x op b) = some (.ofText (conditionText x op b)) := by
    have hfull := hblank (trim_conditionText hx op hb) (List.append_ne_nil_of_left_ne_nil hname _)
    rw [operand?, if_neg (by simp [hfull])]
  have hactions : [incrementText true false x].filterMap action? =
      [.step (String.ofList x) 1] := by
    rw [List.filterMap_cons_some (action?_incrementText hx true false)]
    rfl
  rw [forLoop, hclauses]
  dsimp only
  rw [if_neg (by rw [hstart]; exact Bool.false_ne_true), action?_declarationText hx, hcondition,
    hupdates, hactions]

namespace Run

/-! ## Unrolling -/

/-- Runs a body for one value of a variable after another. -/
def unrolled (name : String) (body : Run Unit) (values : List Value) : Run Unit :=
  forM values fun v => do
    modifyEnv (·.set name v)
    body

/-- The integers from `a` on that are below `stop`. -/
def valuesBelow (a stop : Int) : List Value :=
  (List.range (stop - a).toNat).map fun k : Nat => Width.int.value (a + k)

theorem valuesBelow_of_le {a stop : Int} (h : stop ≤ a) : valuesBelow a stop = [] := by
  rw [valuesBelow, Int.toNat_of_nonpos (by omega), List.range_zero, List.map_nil]

theorem valuesBelow_of_lt {a stop : Int} (h : a < stop) :
    valuesBelow a stop = Width.int.value a :: valuesBelow (a + 1) stop := by
  have hlength : (stop - a).toNat = (stop - (a + 1)).toNat + 1 := by omega
  rw [valuesBelow, hlength, List.range_succ_eq_map, List.map_cons, List.map_map, valuesBelow]
  congr 1
  · simp
  · refine List.map_congr_left fun k _ => ?_
    rw [Function.comp_apply, Nat.succ_eq_add_one, Nat.cast_add, Nat.cast_one, add_comm (k : Int),
      ← add_assoc]

variable {name : String} {condition : Option Operand} {body : Run Unit} {stop : Int}

/-- The unrolling of a loop that counts a variable from `a` on as long as it is below `stop`. If
there are more integers than rounds, the loop stops in front of the next one. -/
def unrolledCount (name : String) (body : Run Unit) (tooMany : Stop) (rounds : Nat)
    (a stop : Int) : Run Unit := do
  unrolled name body ((valuesBelow a stop).take rounds)
  if (valuesBelow a stop).length ≤ rounds then modifyEnv (·.remove name)
  else do
    modifyEnv (·.set name (Width.int.value (a + rounds)))
    throw tooMany

/-- A loop that counts a variable up from `a` on. -/
def countUp (condition : Option Operand) (name : String) (body : Run Unit) (tooMany : Stop)
    (rounds : Nat) (a : Int) : Run Unit := do
  modifyEnv (·.set name (Width.int.value a))
  repeatWhile condition (do body; modifyEnv ([Action.step name 1].foldl act ·)) tooMany rounds
  modifyEnv (·.remove name)

/-- Whether a condition holds of integers in a variable just below a bound. -/
def IsBelow (condition : Option Operand) (name : String) (stop : Int) : Prop :=
  ∀ env v, Width.int.Holds v → env.get? name = some (Width.int.value v) →
    holds condition env = decide (v < stop)

/-- Whether a body leaves the value of a variable as it is. -/
def Keeps (name : String) (body : Run Unit) : Prop :=
  ∀ m m' v, m.env.get? name = some v → body m = .ok () m' → m'.env.get? name = some v

/-- What goes on behind a step went on behind its end. -/
theorem exists_of_bind_eq_ok {r : Run Unit} {k : Unit → Run Unit} {m m' : Machine}
    (h : (r >>= k) m = .ok () m') : ∃ m₁, r m = .ok () m₁ ∧ k () m₁ = .ok () m' := by
  rw [bind_apply] at h
  cases hrun : r m with
  | error stop m₁ =>
    rw [hrun] at h
    cases h
  | ok u m₁ =>
    rw [hrun] at h
    exact ⟨m₁, rfl, h⟩

theorem Keeps.bind {r : Run Unit} {k : Unit → Run Unit} (hr : Keeps name r)
    (hk : ∀ u, Keeps name (k u)) : Keeps name (r >>= k) := by
  intro m m' v hget h
  obtain ⟨m₁, hrun, hrest⟩ := exists_of_bind_eq_ok h
  exact hk () m₁ m' v (hr m m₁ v hget hrun) hrest

/-- A body keeps what each of its statements keeps. -/
theorem keeps_execAll {ss : List Statement} (h : ∀ s ∈ ss, Keeps name (exec s)) :
    Keeps name (execAll ss) := by
  induction ss with
  | nil =>
    intro m m' v hget hrun
    rw [execAll] at hrun
    cases hrun
    exact hget
  | cons s ss ih =>
    rw [List.forall_mem_cons] at h
    rw [execAll]
    exact h.1.bind fun _ => ih h.2

/-- Printing changes no variable. -/
theorem keeps_print (value : Option Operand) : Keeps name (exec (.print value)) := by
  have hline (line : String) : Keeps name (printLine line) := by
    intro m m' v hget h
    simp only [printLine, bind_apply, modifyGet, MonadStateOf.modifyGet, EStateM.modifyGet] at h
    cases hprint : (m.console.print line).2 with
    | none =>
      rw [hprint] at h
      cases h
      exact hget
    | some stop =>
      rw [hprint] at h
      cases h
  have hdeadline : Keeps name checkDeadline := by
    intro m m' v hget h
    by_cases htime : m.limits.timeout = 0
    · rw [checkDeadline_of_timeout_eq_zero htime] at h
      cases h
    · rw [checkDeadline_of_timeout_ne_zero htime] at h
      cases h
      exact hget
  cases value with
  | none =>
    rw [exec]
    exact hdeadline.bind fun _ => hline _
  | some operand =>
    rw [exec]
    exact hdeadline.bind fun _ m => hline _ m

/-- Adding one to an integer. -/
theorem act_step_one {env : Environment} {v : Int}
    (hget : env.get? name = some (Width.int.value v)) :
    act env (.step name 1) = env.set name (Width.int.value (v + 1)) := by
  have hsum : Value.binary .add (Width.int.value v) (.int 1) = some (Width.int.value (v + 1)) :=
    Width.binary_value .int rfl v 1
  simp only [act, updated, hget, hsum]
  rfl

theorem repeatWhile_of_not_holds {m : Machine} (h : holds condition m.env = false) (tooMany : Stop)
    (rounds : Nat) : repeatWhile condition body tooMany rounds m = .ok () m := by
  cases rounds <;> rw [repeatWhile, get_bind_apply, if_neg (by simp [h])] <;> rfl

section CountUp

variable {tooMany : Stop} {v : Int} {rounds : Nat} {m : Machine}

/-- The machine at which the variable has a value. -/
theorem modifyEnv_set_bind (k : Unit → Run Unit) (m : Machine) :
    (modifyEnv (·.set name (Width.int.value v)) >>= k) m =
      k () { m with env := m.env.set name (Width.int.value v) } := rfl

theorem IsBelow.holds_set (h : IsBelow condition name stop) (hv : Width.int.Holds v)
    (env : Environment) : holds condition (env.set name (Width.int.value v)) = decide (v < stop) :=
  h _ v hv (env.get?_set_self _ _)

theorem countUp_of_le (hbelow : IsBelow condition name stop) (hv : Width.int.Holds v)
    (hle : stop ≤ v) (rounds : Nat) :
    countUp condition name body tooMany rounds v =
      unrolledCount name body tooMany rounds v stop := by
  funext m
  have hdone := hbelow.holds_set hv m.env
  rw [decide_eq_false (by omega)] at hdone
  rw [countUp, modifyEnv_set_bind, bind_apply, repeatWhile_of_not_holds hdone, unrolledCount,
    valuesBelow_of_le hle, List.take_nil, List.length_nil, if_pos (Nat.zero_le _)]
  have hremove := m.env.remove_set name (Width.int.value v)
  exact congrArg (fun env => EStateM.Result.ok () { m with env := env }) hremove

theorem countUp_zero (hbelow : IsBelow condition name stop) (hv : Width.int.Holds v)
    (hlt : v < stop) (m : Machine) :
    countUp condition name body tooMany 0 v m =
      .error tooMany { m with env := m.env.set name (Width.int.value v) } := by
  have hholds := hbelow.holds_set hv m.env
  rw [decide_eq_true hlt] at hholds
  rw [countUp, modifyEnv_set_bind, bind_apply, repeatWhile, get_bind_apply, if_pos hholds]
  rfl

/-- One round of counting. -/
theorem countUp_succ (hbelow : IsBelow condition name stop) (hkeeps : Keeps name body)
    (hv : Width.int.Holds v) (hlt : v < stop) (m : Machine) :
    countUp condition name body tooMany (rounds + 1) v m =
      (do modifyEnv (·.set name (Width.int.value v))
          body
          countUp condition name body tooMany rounds (v + 1)) m := by
  have hholds := hbelow.holds_set hv m.env
  rw [decide_eq_true hlt] at hholds
  rw [countUp, modifyEnv_set_bind, modifyEnv_set_bind, repeatWhile, bind_assoc, get_bind_apply,
    if_pos hholds, bind_assoc, bind_assoc, bind_apply, bind_apply]
  cases hbody : body { m with env := m.env.set name (Width.int.value v) } with
  | error stop m' => rfl
  | ok _ m' =>
    have hstep := act_step_one (hkeeps _ _ _ (m.env.get?_set_self _ _) hbody)
    dsimp only
    rw [countUp, modifyEnv_set_bind, ← hstep]
    rfl

theorem unrolledCount_zero (hlt : v < stop) (m : Machine) :
    unrolledCount name body tooMany 0 v stop m =
      .error tooMany { m with env := m.env.set name (Width.int.value v) } := by
  have hmore : ¬ (valuesBelow v stop).length ≤ 0 := by simp [valuesBelow_of_lt hlt]
  rw [unrolledCount, List.take_zero, if_neg hmore, Nat.cast_zero, add_zero]
  rfl

theorem unrolledCount_succ (hlt : v < stop) (rounds : Nat) :
    unrolledCount name body tooMany (rounds + 1) v stop =
      (do modifyEnv (·.set name (Width.int.value v))
          body
          unrolledCount name body tooMany rounds (v + 1) stop) := by
  have hlast : v + ((rounds + 1 : Nat) : Int) = v + 1 + rounds := by omega
  simp only [unrolledCount, unrolled, valuesBelow_of_lt hlt, List.take_succ_cons, List.forM_cons,
    List.length_cons, Nat.add_le_add_iff_right, hlast, bind_assoc]

/-- **Counting is unrolling.** A loop that counts a variable up to a bound runs its body for each
integer below the bound. -/
theorem countUp_eq_unrolledCount (hbelow : IsBelow condition name stop) (hkeeps : Keeps name body)
    (hstop : Width.int.Holds stop) (hv : Width.int.Holds v) (rounds : Nat) :
    countUp condition name body tooMany rounds v =
      unrolledCount name body tooMany rounds v stop := by
  induction rounds generalizing v with
  | zero =>
    by_cases hlt : v < stop
    · funext m
      rw [countUp_zero hbelow hv hlt, unrolledCount_zero hlt]
    · exact countUp_of_le hbelow hv (by omega) 0
  | succ rounds ih =>
    by_cases hlt : v < stop
    · -- the bound keeps the next integer within the range
      have hnext : Width.int.Holds (v + 1) := ⟨by have := hv.1; omega, by have := hstop.2; omega⟩
      funext m
      rw [countUp_succ hbelow hkeeps hv hlt, ih hnext, unrolledCount_succ hlt]
    · exact countUp_of_le hbelow hv (by omega) _

end CountUp

/-! ## Loops that count up -/

variable {body : List Char} {m : Machine} {line : Nat}

theorem isBelow_conditionText (hx : isIdentifier x = true)
    (hword : Keyword.ofText? (String.ofList x) = none) (hop : op ∈ [BinaryOp.le, .lt])
    (hb : IsDecimal n b) (hn : Width.int.Holds n) :
    IsBelow (some (.ofText (conditionText x op b))) (String.ofList x) (stopOf op n) := by
  intro env v hv hget
  obtain ⟨e, s, t, hparse, hinteger⟩ := exists_parse_conditionText hx hword hop hb hn env
  have htrim := trim_conditionText hx op hb
  have hleft : (Expr.ident (String.ofList x) s).reduce (conditionText x op b) env =
      some (Width.int.value v) := by rw [Expr.reduce, hget]
  have hvalue : evaluate (conditionText x op b) env = .bool (v < stopOf op n) := by
    rw [← htrim] at hparse
    rw [evaluate_of_parse hparse, htrim, Expr.value,
      Expr.reduce_binary t hleft (Expr.reduce_of_isInteger hinteger), binary_compare hop hv hn,
      Option.getD_some]
  rw [evaluate] at hvalue
  simp only [holds, hvalue]

/-- A counted loop that declares an integer and adds one to it counts up. -/
theorem exec_counted_eq_countUp {init : Operand} (hinit : init.value m.env = Width.int.value n)
    (htime : m.limits.timeout ≠ 0) (line : Nat) (condition : Option Operand) (name : String)
    (bodies : List Statement) :
    exec (.counted line (some (.declare name "int".toList (some init))) condition
        [.step name 1] bodies) m =
      countUp condition name (execAll bodies) (.loopLimit m.limits.iterations line)
        m.limits.iterations n m := by
  have hdeclared : act m.env (.declare name "int".toList (some init)) =
      m.env.set name (Width.int.value n) := by
    rw [act, hinit]
    rfl
  rw [exec, bind_apply, checkDeadline_of_timeout_ne_zero htime, countUp, modifyEnv_set_bind,
    ← hdeclared]
  rfl

theorem isHeader_countingHeader (hx : isIdentifier x = true) (ha : IsDecimal n a)
    (hb : IsDecimal v b) (hop : op ∈ [BinaryOp.le, .lt]) :
    IsHeader (countingHeader x a op b) ∧ newlines (countingHeader x a op b) = 0 := by
  obtain ⟨h₁, h₂, h₃⟩ := isClause_countingHeader hx (fun c hc => .inl (ha.isWordChar_eq c hc))
    (fun c hc => .inl (hb.isWordChar_eq c hc)) hop
  have hline {cs : List Char} (h : IsClause cs) : newlines cs = 0 :=
    newlines_eq_zero fun hbreak => h.ne hbreak (by decide) rfl
  have hsemicolon (cs : List Char) : newlines (';' :: cs) = newlines cs := rfl
  refine ⟨h₁.isHeader.1.append (h₂.isHeader.1.append h₃.isHeader.1 (by simp)) (by simp), ?_⟩
  rw [countingHeader, newlines_append, hsemicolon, newlines_append, hsemicolon, hline h₁, hline h₂,
    hline h₃]

/-- **A loop that counts up is its unrolling.** The loop `for (int x = a; x <= b; x++) body` runs
its body with `x` bound to `a`, to `a + 1` and so on up to `b`, and unbinds `x` behind the last one;
with `<` it runs up to the integer in front of `b`. If there are more integers than the limit on
rounds, the loop is stopped behind as many bodies. A stop within a body stops the unrolling too. -/
theorem exec_countingLoop (hx : isIdentifier x = true)
    (hword : Keyword.ofText? (String.ofList x) = none) (ha : IsDecimal n a)
    (hn : Width.int.Holds n) (hop : op ∈ [BinaryOp.le, .lt]) (hb : IsDecimal v b)
    (hv : Width.int.Holds v) (hstop : Width.int.Holds (stopOf op v))
    (hkeeps : Keeps (String.ofList x) (execAll (bodyStatements body line)))
    (htime : m.limits.timeout ≠ 0) :
    exec (Statement.read ⟨forText (countingHeader x a op b) body, line⟩) m =
      unrolledCount (String.ofList x) (execAll (bodyStatements body line))
        (.loopLimit m.limits.iterations line) m.limits.iterations n (stopOf op v) m := by
  obtain ⟨hheader, hbreaks⟩ := isHeader_countingHeader hx ha hb hop
  have hbelow := isBelow_conditionText hx hword hop hb hv
  rw [exec_read_forText hheader, hbreaks, Nat.add_zero, forLoop_countingHeader hx ha hb hop,
    exec_counted_eq_countUp (evaluate_of_isDecimal ha hn m.env) htime,
    countUp_eq_unrolledCount hbelow hkeeps hstop hn]

/-- A loop that prints three lines, under limits of three rounds and of two. -/
theorem exec_countingLoop_threeLines :
    let text := "for (int i = 1; i <= 3; i++) System.out.println(i);".toList
    exec (Statement.read ⟨text, 1⟩) ⟨.empty, .empty 9, ⟨3, 9, 9⟩⟩ =
        .ok () ⟨.empty, ⟨"1\n2\n3\n", 9⟩, ⟨3, 9, 9⟩⟩ ∧
      exec (Statement.read ⟨text, 1⟩) ⟨.empty, .empty 9, ⟨2, 9, 9⟩⟩ =
        .error (.loopLimit 2 1) ⟨⟨[("i", .int 3)]⟩, ⟨"1\n2\n", 9⟩, ⟨2, 9, 9⟩⟩ := by
  have hone : IsDecimal 1 ['1'] := .nonneg (n := 1) (.last '1')
  have hthree : IsDecimal 3 ['3'] := .nonneg (n := 3) (.last '3')
  have hname : isIdentifier ['i'] = true := by decide
  have hbody : bodyStatements " System.out.println(i);".toList 1 =
      [.print (some (.ofText ['i']))] := by
    have hsplit : Fragment.splitBody " System.out.println(i);".toList 1 =
        [⟨"System.out.println(i)".toList, 1⟩] := by decide +kernel
    have hprint : printCall? "System.out.println(i)".toList = some (false, ['i']) := rfl
    rw [bodyStatements, hsplit, List.map_singleton, Statement.read, readTo, hprint]
    rfl
  have hkeeps : Keeps "i" (execAll (bodyStatements " System.out.println(i);".toList 1)) := by
    rw [hbody]
    exact keeps_execAll (by simpa using keeps_print _)
  have hlaw {m : Machine} := exec_countingLoop (m := m) hname (by decide) hone (by decide)
    (by simp : BinaryOp.le ∈ [BinaryOp.le, .lt]) hthree (by decide) (by decide) hkeeps
  rw [hbody] at hlaw
  have hread : Operand.ofText ['i'] = ⟨['i'], some (.ident "i" ⟨0, 1, 1, 1⟩)⟩ := by cbv
  rw [hread] at hlaw
  constructor
  · refine (hlaw (by decide)).trans ?_
    rfl
  · refine (hlaw (by decide)).trans ?_
    rfl

end Run

end SnippetRunner
