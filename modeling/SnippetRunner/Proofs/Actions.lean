import SnippetRunner.Proofs.CodePieces
import SnippetRunner.Proofs.Ending
import SnippetRunner.Proofs.LineBreaks
import SnippetRunner.Proofs.TopLevelCuts

/-!
# Reading actions

A statement is told by its first word (`Statement.read_of_word`), and one that is neither a loop nor
a block nor skipped is an action if its text can be read as one. This module says what the texts of
assignments and increments are read as.

* Where only words stand in front of the first `=`, the two sides of an assignment stand around it,
  whatever follows (`splitAssignment?_append`).
* An assignment or an increment has no type in front of its name, so it is no declaration, and it is
  read as what it says (`action?_assignmentText`, `action?_incrementText`).
* A statement that is read as an action changes the variables, and does nothing else
  (`Run.exec_action`).
-/

namespace SnippetRunner

open Text Scan

namespace Statement

variable {x left right gap rest : List Char}

/-! ## First words -/

/-- The words that tell a statement that is no action. -/
def statementWords : List String := "for" :: "while" :: unsupportedWords

/-- A statement that starts with a whole word. -/
theorem keyword_append (hx : x.all isIdentPart = true)
    (hrest : LedBy (fun c => !isIdentPart c) rest) (line : Nat) :
    Fragment.keyword ⟨x ++ rest, line⟩ = x := by
  have hrun := takeWhile_append (p := isIdentPart) (fun c hc => by simpa using hc) hrest x
  rw [Fragment.keyword, hrun, List.takeWhile_eq_self_iff]
  exact fun c hc => List.all_eq_true.1 hx c hc

/-- Printing is told by the point behind its first word. -/
theorem printCall?_append (hx : x.all isIdentPart = true)
    (hrest : LedBy (fun c => !isIdentPart c) rest) (hpoint : rest.head? ≠ some '.') :
    printCall? (x ++ rest) = none := by
  suffices hlead : afterLead? "System.out.".toList (x ++ rest) = none by
    rw [printCall?, hlead]
    rfl
  rw [Option.eq_none_iff_forall_ne_some]
  intro tail htail
  have htext : x ++ rest = "System".toList ++ (".out.".toList ++ tail) :=
    (eq_append_of_afterLead? htail).trans rfl
  have hword := keyword_append hx hrest 0
  have hsystem : Fragment.keyword ⟨"System".toList ++ (".out.".toList ++ tail), 0⟩ =
      "System".toList := keyword_append (by decide) (ledBy_cons rfl) 0
  obtain rfl : "System".toList = x := by rw [← hsystem, ← htext, hword]
  rw [List.append_cancel_left htext] at hpoint
  exact hpoint rfl

section FirstWord

variable (hx : x.all isIdentPart = true) (hrest : LedBy (fun c => !isIdentPart c) rest)
  (hpoint : rest.head? ≠ some '.') (line : Nat)

include hx hrest hpoint

/-- **A statement whose first word tells nothing is an action, a change to a collection or
nothing.** -/
theorem read_of_word (hword : String.ofList x ∉ statementWords)
    (hbrace : (x ++ rest).head? ≠ some '{') :
    Statement.read ⟨x ++ rest, line⟩ = readSimple (x ++ rest) := by
  simp only [statementWords, List.mem_cons, not_or] at hword
  obtain ⟨hfor, hwhile, hword⟩ := hword
  simp only [Statement.read, readTo, printCall?_append hx hrest hpoint, keyword_append hx hrest,
    if_neg hfor, if_neg hwhile, List.contains_eq_mem, decide_eq_true_eq, if_neg hword]
  exact if_neg fun h => hbrace h.1

/-- A statement that starts with an unsupported word has no effect. -/
theorem read_of_unsupported (hword : String.ofList x ∈ unsupportedWords) :
    Statement.read ⟨x ++ rest, line⟩ = .skip := by
  have hfor : String.ofList x ≠ "for" := fun h => absurd (h ▸ hword) (by decide)
  have hwhile : String.ofList x ≠ "while" := fun h => absurd (h ▸ hword) (by decide)
  simp only [Statement.read, readTo, printCall?_append hx hrest hpoint, keyword_append hx hrest,
    if_neg hfor, if_neg hwhile, List.contains_eq_mem, decide_eq_true_eq, if_pos hword]

/-- A loop without a header has no effect. -/
theorem read_of_statementWord (hword : String.ofList x ∈ statementWords)
    (hheader : loopParts? ⟨x ++ rest, line⟩ = none) :
    Statement.read ⟨x ++ rest, line⟩ = .skip := by
  simp only [statementWords, List.mem_cons] at hword
  obtain hfor | hwhile | hword := hword
  · simp only [Statement.read, readTo, printCall?_append hx hrest hpoint,
      keyword_append hx hrest, if_pos hfor, hheader]
  · have hfor : String.ofList x ≠ "for" := by
      rw [hwhile]
      decide
    simp only [Statement.read, readTo, printCall?_append hx hrest hpoint,
      keyword_append hx hrest, if_neg hfor, if_pos hwhile, hheader]
  · exact read_of_unsupported hx hrest hpoint line hword

end FirstWord

/-! ## The sides of an assignment -/

/-- Whether a text consists of words. -/
def IsWordy (cs : List Char) : Prop := ∀ c ∈ cs, isIdentPart c = true ∨ isSpace c = true

theorem IsWordy.of_all (h : x.all isIdentPart = true) : IsWordy x :=
  fun c hc => .inl (List.all_eq_true.1 h c hc)

theorem IsWordy.of_isBlank (h : isBlank gap = true) : IsWordy gap :=
  fun c hc => .inr (List.all_eq_true.1 h c hc)

theorem IsWordy.append (h : IsWordy x) (h' : IsWordy gap) : IsWordy (x ++ gap) :=
  fun c hc => (List.mem_append.1 hc).elim (h c) (h' c)

/-- Words have none of the characters that are neither in words nor white space. -/
theorem IsWordy.ne (h : IsWordy x) {c d : Char} (hc : c ∈ x)
    (hd : isIdentPart d = false ∧ isSpace d = false) : c ≠ d :=
  (h c hc).elim (fun hpart => Fragment.ne_of_isIn hpart hd.1)
    fun hspace => Fragment.ne_of_isIn hspace hd.2

theorem IsWordy.isMark_eq (h : IsWordy x) : ∀ c ∈ x, isMark c = false := by
  intro c hc
  simp only [isMark, Bool.or_eq_false_iff, decide_eq_false_iff_not]
  exact ⟨⟨h.ne hc (by decide), h.ne hc (by decide)⟩, h.ne hc (by decide)⟩

/-- The operators of assignments. -/
def assignOps : List (Option BinaryOp) :=
  [none, some .add, some .sub, some .mul, some .div, some .rem]

/-- The operator of an assignment in front of its `=`. -/
def opText (op : Option BinaryOp) : List Char := (op.map fun op => op.symbol.toList).getD []

/-- The operator of an assignment is one character or none. -/
theorem opText_cases {op : Option BinaryOp} (hop : op ∈ assignOps) :
    (op = none ∧ opText op = []) ∨
      ∃ c ∈ ['+', '-', '*', '/', '%'], opText op = [c] ∧ compoundOp? c = op := by
  simp only [assignOps, List.mem_cons, List.not_mem_nil, or_false] at hop
  rcases hop with rfl | rfl | rfl | rfl | rfl | rfl
  · exact .inl ⟨rfl, rfl⟩
  · exact .inr ⟨'+', by decide, rfl, rfl⟩
  · exact .inr ⟨'-', by decide, rfl, rfl⟩
  · exact .inr ⟨'*', by decide, rfl, rfl⟩
  · exact .inr ⟨'/', by decide, rfl, rfl⟩
  · exact .inr ⟨'%', by decide, rfl, rfl⟩

/-- The search for the sides of an assignment passes over what means nothing to it. -/
theorem findAssign_append {xs : List Char}
    (h : ∀ c ∈ xs, isOpening c = false ∧ isClosing c = false ∧ c ≠ '=')
    (depth position : Nat) (before : Option Char) (ys : List Char) :
    findAssign depth position before (xs ++ ys) =
      findAssign depth (position + byteSize xs) (xs.getLast?.or before) ys := by
  induction xs generalizing position before with
  | nil => rfl
  | cons c xs ih =>
    obtain ⟨hopen, hclose, hassign⟩ := h c List.mem_cons_self
    rw [List.cons_append, findAssign]
    simp only [hopen, hclose, hassign, false_and, if_false, Bool.false_eq_true]
    rw [ih fun d hd => h d (List.mem_cons_of_mem c hd), byteSize_cons, ← Nat.add_assoc,
      List.getLast?_cons]
    cases xs.getLast? <;> rfl

theorem IsWordy.skipped (h : IsWordy x) :
    ∀ c ∈ x, isOpening c = false ∧ isClosing c = false ∧ c ≠ '=' := by
  intro c hc
  have hbrackets : ∀ d ∈ ['(', '[', '{', ')', ']', '}'], c ≠ d := by
    refine fun d hd => h.ne hc ?_
    simp only [List.mem_cons, List.not_mem_nil, or_false] at hd
    rcases hd with rfl | rfl | rfl | rfl | rfl | rfl <;> decide
  obtain ⟨hopen, hclose⟩ := not_isBracket_of_forall hbrackets
  exact ⟨hopen, hclose, h.ne hc (by decide)⟩

/-- A sign of an assignment is code. -/
theorem labels_sign {op : Option BinaryOp} (hop : op ∈ assignOps) :
    Labels .code (opText op ++ ['=']) .code .code := by
  have hequals : Labels .code ['='] .code .code :=
    labels_code fun c hc => by rw [List.mem_singleton.1 hc]; rfl
  obtain ⟨-, htext⟩ | ⟨c, hc, htext, -⟩ := opText_cases hop
  · rw [htext]
    exact hequals
  · rw [htext]
    -- a slash starts no comment in front of the `=`
    have hcode (next : Option Char) : Mode.step .code c (['='].head?.or next) = (.code, .code) := by
      simp only [List.mem_cons, List.not_mem_nil, or_false] at hc
      rcases hc with rfl | rfl | rfl | rfl | rfl <;> rfl
    exact .cons hcode hequals

/-- Words and a sign behind them are shown. -/
theorem masked_append (hleft : IsWordy left) {op : Option BinaryOp} (hop : op ∈ assignOps) :
    masked (left ++ (opText op ++ ('=' :: right))) =
      left ++ (opText op ++ ('=' :: maskFrom .code none right)) := by
  have hsplit : left ++ (opText op ++ ('=' :: right)) =
      (left ++ (opText op ++ ['='])) ++ right := by simp
  obtain ⟨hclass, hmode⟩ := (labels_code hleft.isMark_eq).append (labels_sign hop)
    (right.head?.or none)
  rw [masked_eq_maskFrom, hsplit, maskFrom_append, hmode, maskFrom, hclass, List.flatMap_map]
  simp [maskedChar]

/-- The last character in front of the `=` tells the operator. -/
theorem compoundOp?_opText (hleft : IsWordy left) {op : Option BinaryOp} (hop : op ∈ assignOps) :
    ((opText op).getLast?.or left.getLast?).bind compoundOp? = op ∧
      ((opText op).getLast?.or left.getLast?).all fun b => b ∉ ['=', '!', '<', '>'] := by
  obtain ⟨rfl, htext⟩ | ⟨c, hc, htext, hop⟩ := opText_cases hop
  · rw [htext, List.getLast?_nil, Option.none_or]
    cases hlast : left.getLast? with
    | none => exact ⟨rfl, rfl⟩
    | some c =>
      have hne {d : Char} (hd : isIdentPart d = false ∧ isSpace d = false) : c ≠ d :=
        hleft.ne (List.mem_of_getLast? hlast) hd
      constructor
      · rw [Option.bind_some]
        unfold compoundOp?
        split <;> first | rfl | exact absurd rfl (hne (by decide))
      · rw [Option.all_some, decide_eq_true_eq]
        intro hmem
        simp only [List.mem_cons, List.not_mem_nil, or_false] at hmem
        rcases hmem with h | h | h | h <;> exact absurd h (hne (by decide))
  · rw [htext, List.getLast?_singleton, Option.some_or]
    refine ⟨hop, ?_⟩
    simp only [List.mem_cons, List.not_mem_nil, or_false] at hc
    rcases hc with rfl | rfl | rfl | rfl | rfl <;> rfl

theorem opText_skipped {op : Option BinaryOp} (hop : op ∈ assignOps) :
    ∀ c ∈ opText op, isOpening c = false ∧ isClosing c = false ∧ c ≠ '=' := by
  obtain ⟨-, htext⟩ | ⟨c, hc, htext, -⟩ := opText_cases hop
  · simp [htext]
  · intro d hd
    rw [htext, List.mem_singleton] at hd
    subst hd
    simp only [List.mem_cons, List.not_mem_nil, or_false] at hc
    rcases hc with rfl | rfl | rfl | rfl | rfl <;> decide

theorem byteSize_opText {op : Option BinaryOp} (hop : op ∈ assignOps) :
    byteSize (opText op) = if op.isSome then 1 else 0 := by
  obtain ⟨rfl, htext⟩ | ⟨c, hc, htext, rfl⟩ := opText_cases hop
  · rw [htext]
    rfl
  · rw [htext]
    simp only [List.mem_cons, List.not_mem_nil, or_false] at hc
    rcases hc with rfl | rfl | rfl | rfl | rfl <;> decide

theorem head?_maskFrom_ne {c : Char} (hspace : c ≠ ' ') (mode : Mode) (next : Option Char)
    (h : right.head? ≠ some c) : (maskFrom mode next right).head? ≠ some c := by
  cases right with
  | nil => exact nofun
  | cons d right =>
    rw [maskFrom_cons]
    unfold maskedChar
    dsimp only
    split
    · simpa using h
    · obtain ⟨n, hn⟩ := Nat.exists_eq_succ_of_ne_zero (Nat.ne_of_gt d.utf8Size_pos)
      simpa [hn, List.replicate_succ] using hspace.symm

/-- **The sides of an assignment stand around the first `=`.** -/
theorem splitAssignment?_append (hleft : IsWordy left) {op : Option BinaryOp}
    (hop : op ∈ assignOps) (hright : right.head? ≠ some '=') :
    splitAssignment? (left ++ (opText op ++ ('=' :: right))) =
      some (trim left, op, trim right) := by
  obtain ⟨hcompound, hcomparison⟩ := compoundOp?_opText hleft hop
  have hsize := byteSize_opText hop
  have hplain : ((opText op).getLast?.or left.getLast?).any
      (fun b => b = '=' || b = '!' || b = '<' || b = '>') = false := by
    cases hlast : (opText op).getLast?.or left.getLast? with
    | none => rfl
    | some c =>
      rw [hlast, Option.all_some, decide_eq_true_eq] at hcomparison
      rw [Option.any_some]
      simpa [and_assoc] using hcomparison
  have hnext := head?_maskFrom_ne (by decide) .code none hright
  have hposition : findAssign 0 0 none (left ++ (opText op ++ ('=' :: maskFrom .code none right))) =
      some (byteSize left + byteSize (opText op), (opText op).getLast?.or left.getLast?) := by
    rw [findAssign_append hleft.skipped, findAssign_append (opText_skipped hop), Nat.zero_add,
      Option.or_none, findAssign, if_neg (by decide), if_neg (by decide),
      if_pos ⟨rfl, rfl, hnext, by rw [hplain]; rfl⟩]
  have hfront : (if op.isSome then byteSize left + byteSize (opText op) - 1
      else byteSize left + byteSize (opText op)) = byteSize left := by
    cases op <;> simp [hsize]
  have hback : left ++ (opText op ++ ('=' :: right)) = (left ++ (opText op ++ ['='])) ++ right := by
    simp
  have hstop : byteSize left + byteSize (opText op) + 1 =
      byteSize (left ++ (opText op ++ ['='])) := by
    have hequals : byteSize ['='] = 1 := by decide
    rw [byteSize_append, byteSize_append, hequals, Nat.add_assoc]
  simp only [splitAssignment?, masked_append hleft hop, hposition, Option.bind_eq_bind,
    Option.bind_some, hcompound, hfront, cut?_byteSize_append]
  rw [hback, hstop, cut?_byteSize_append]
  rfl

/-! ## Assignments -/

theorem trim_of_isIdentifier (hx : isIdentifier x = true) : trim x = x := by
  have hall := all_of_isIdentifier hx
  have hsolid {c : Char} (hc : c ∈ x) : isSpace c = false :=
    Lexer.isSpace_of_isIdentPart (List.all_eq_true.1 hall c hc)
  exact trim_eq_self (fun c hc => hsolid (List.mem_of_head? hc))
    fun c hc => hsolid (List.mem_of_getLast? hc)

theorem trim_append_of_isIdentifier (hx : isIdentifier x = true) (hgap : isBlank gap = true) :
    trim (x ++ gap) = x := by
  rw [trim_append_of_isBlank_right hgap, trim_of_isIdentifier hx]

/-- A name alone is no declaration. -/
theorem typeAndName?_of_isIdentifier (hx : isIdentifier x = true) : typeAndName? x = none := by
  have hrun : x.reverse.takeWhile isIdentPart = x.reverse := by
    rw [List.takeWhile_eq_self_iff]
    exact fun c hc => List.all_eq_true.1 (all_of_isIdentifier hx) c (List.mem_reverse.1 hc)
  have htype : dropFinal (trim []) = [] := by
    unfold dropFinal
    rfl
  simp only [typeAndName?, hrun, List.reverse_reverse, Nat.sub_self, List.take_zero, htype]
  simp [isType]

/-- White space around a text is all that trimming takes. -/
theorem mem_trim_iff {c : Char} (hspace : isSpace c = false) {cs : List Char} :
    c ∈ trim cs ↔ c ∈ cs := by
  obtain ⟨s, b, htext, hs, hb⟩ := exists_eq_append_trim cs
  have hblank {b : List Char} (hb : isBlank b = true) : c ∉ b := fun hc =>
    absurd (List.all_eq_true.1 hb c hc) (by simp [hspace])
  have hsplit : c ∈ cs ↔ c ∈ s ++ (trim cs ++ b) := by rw [← htext]
  rw [hsplit, List.mem_append, List.mem_append]
  simp [hblank hs, hblank hb]

/-- An increment is a name with a sign behind it or in front of it. -/
theorem increment?_eq_none {text : List Char}
    (h : ∀ name sign, sign ∈ ["++".toList, "--".toList] →
      trim text = name ++ sign ∨ trim text = sign ++ name → isIdentifier (trim name) = false) :
    increment? text = none := by
  unfold increment?
  dsimp only
  rw [Option.bind_eq_bind, Option.bind_eq_none_iff]
  rintro ⟨name, delta⟩ hname
  suffices hid : isIdentifier (trim name) = false by simp [hid]
  simp only [Option.or_eq_some_iff, Option.map_eq_some_iff, Prod.mk.injEq] at hname
  obtain ⟨_, hname, rfl, -⟩ | ⟨-, ⟨_, hname, rfl, -⟩ | ⟨-, ⟨_, hname, rfl, -⟩ |
    ⟨-, _, hname, rfl, -⟩⟩⟩ := hname
  · exact h _ _ (by simp) (.inl (beforeTail?_eq_some_iff.1 hname))
  · exact h _ _ (by simp) (.inl (beforeTail?_eq_some_iff.1 hname))
  · exact h _ _ (by simp) (.inr (eq_append_of_afterLead? hname))
  · exact h _ _ (by simp) (.inr (eq_append_of_afterLead? hname))

/-- What is no increment by one of its characters. -/
theorem increment?_eq_none_of_mem {text : List Char} {c : Char} (hc : c ∈ text)
    (hpart : isIdentPart c = false) (hspace : isSpace c = false) (hsign : c ∉ ['+', '-']) :
    increment? text = none := by
  refine increment?_eq_none fun name sign hmem htext => ?_
  have hnot : c ∉ sign := by
    have hall : sign = ['+', '+'] ∨ sign = ['-', '-'] := by simpa using hmem
    rcases hall with rfl | rfl <;> simp_all
  have hin : c ∈ trim name := by
    rw [mem_trim_iff hspace]
    have htrim := (mem_trim_iff hspace).2 hc
    obtain htext | htext := htext <;> rw [htext, List.mem_append] at htrim <;> tauto
  rw [Bool.eq_false_iff]
  intro hid
  have hpart' := List.all_eq_true.1 (all_of_isIdentifier hid) c hin
  rw [hpart] at hpart'
  exact Bool.false_ne_true hpart'

/-- The text of an assignment. -/
def assignmentText (x gap : List Char) (op : Option BinaryOp) (e : List Char) : List Char :=
  x ++ gap ++ (opText op ++ ('=' :: e))

/-- What an assignment does. -/
def assignAction (name : String) (value : Operand) : Option BinaryOp → Action
  | none => .assign name value
  | some op => .update name op value

theorem ofText_trim (cs : List Char) : Operand.ofText (trim cs) = .ofText cs := by
  simp only [Operand.ofText, trim_trim]

/-- **An assignment is read as what it says.** -/
theorem action?_assignmentText (hx : isIdentifier x = true) (hgap : isBlank gap = true)
    {op : Option BinaryOp} (hop : op ∈ assignOps) {e : List Char} (he : e.head? ≠ some '=') :
    action? (assignmentText x gap op e) =
      some (assignAction (String.ofList x) (.ofText e) op) := by
  have hwordy : IsWordy (x ++ gap) :=
    (IsWordy.of_all (all_of_isIdentifier hx)).append (.of_isBlank hgap)
  have hsplit : splitAssignment? (assignmentText x gap op e) = some (x, op, trim e) := by
    rw [assignmentText, splitAssignment?_append hwordy hop he, trim_append_of_isIdentifier hx hgap]
  have hdeclaration : declaration? (assignmentText x gap op e) = none := by
    rw [declaration?, hsplit]
    cases op with
    | none => simp [typeAndName?_of_isIdentifier hx]
    | some op => rfl
  have hincrement : increment? (assignmentText x gap op e) = none :=
    increment?_eq_none_of_mem (c := '=') (by simp [assignmentText]) (by decide) (by decide)
      (by decide)
  rw [action?, hdeclaration, hincrement, Option.none_or, Option.none_or, assignment?, hsplit]
  cases op <;> simp [hx, assignAction, ofText_trim]

/-! ## Increments -/

/-- The sign of an increment. -/
def stepSign (up : Bool) : List Char := if up then ['+', '+'] else ['-', '-']

/-- The text of an increment, with its sign in front of the name or behind it. -/
def incrementText (up leading : Bool) (x : List Char) : List Char :=
  if leading then stepSign up ++ x else x ++ stepSign up

/-- What an increment adds. -/
def stepDelta (up : Bool) : Int32 := if up then 1 else -1

theorem stepSign_eq (up : Bool) : ∃ c, (c = '+' ∨ c = '-') ∧ stepSign up = [c, c] := by
  cases up
  · exact ⟨'-', .inr rfl, rfl⟩
  · exact ⟨'+', .inl rfl, rfl⟩

theorem beforeTail?_eq_none {tail text : List Char} {c : Char} (htail : tail.getLast? = some c)
    (htext : text.getLast? ≠ some c) : beforeTail? tail text = none := by
  rw [Option.eq_none_iff_forall_ne_some]
  intro front hfront
  rw [beforeTail?_eq_some_iff.1 hfront, List.getLast?_append, htail] at htext
  exact htext rfl

/-- The first and the last character of a name are no signs. -/
theorem isIdentPart_ends (hx : isIdentifier x = true) :
    ∃ c d, x.head? = some c ∧ x.getLast? = some d ∧ isIdentPart c = true ∧
      isIdentPart d = true := by
  obtain ⟨c, cs, rfl, -, -⟩ := exists_cons_of_isIdentifier hx
  have hall := List.all_eq_true.1 (all_of_isIdentifier hx)
  exact ⟨c, (c :: cs).getLast (by simp), rfl, List.getLast?_eq_some_getLast _,
    hall c List.mem_cons_self, hall _ (List.getLast_mem _)⟩

/-- No white space stands around an increment. -/
theorem trim_incrementText (hx : isIdentifier x = true) (up leading : Bool) :
    trim (incrementText up leading x) = incrementText up leading x := by
  obtain ⟨c, d, hc, hd, hcpart, hdpart⟩ := isIdentPart_ends hx
  have hcspace := Lexer.isSpace_of_isIdentPart hcpart
  have hdspace := Lexer.isSpace_of_isIdentPart hdpart
  obtain ⟨s, hs, hsign⟩ := stepSign_eq up
  have hspace : isSpace s = false := by rcases hs with rfl | rfl <;> rfl
  cases leading
  · refine trim_eq_self ?_ ?_
    · simpa [incrementText, hc] using hcspace
    · simpa [incrementText, hsign] using hspace
  · refine trim_eq_self ?_ ?_
    · simpa [incrementText, hsign] using hspace
    · simpa [incrementText, hd] using hdspace

theorem increment?_incrementText (hx : isIdentifier x = true) (up leading : Bool) :
    increment? (incrementText up leading x) = some (.step (String.ofList x) (stepDelta up)) := by
  obtain ⟨c, d, -, hd, -, hdpart⟩ := isIdentPart_ends hx
  have htrim := trim_of_isIdentifier hx
  -- a name does not end with a sign
  have hlast (sign : List Char) {e : Char} (he : isIdentPart e = false) :
      beforeTail? [e, e] (sign ++ x) = none := by
    refine beforeTail?_eq_none rfl ?_
    rw [List.getLast?_append, hd, Option.some_or, ne_eq, Option.some.injEq]
    exact Fragment.ne_of_isIn hdpart he
  have hplus : "++".toList = ['+', '+'] := rfl
  have hminus : "--".toList = ['-', '-'] := rfl
  rw [increment?, trim_incrementText hx, hplus, hminus]
  cases leading
  · cases up
    · have hnone : beforeTail? ['+', '+'] (x ++ ['-', '-']) = none :=
        beforeTail?_eq_none rfl (by simp)
      have hsome : beforeTail? ['-', '-'] (x ++ ['-', '-']) = some x :=
        beforeTail?_eq_some_iff.2 rfl
      simp [incrementText, stepSign, hnone, hsome, hx, htrim, stepDelta]
    · have hsome : beforeTail? ['+', '+'] (x ++ ['+', '+']) = some x :=
        beforeTail?_eq_some_iff.2 rfl
      simp [incrementText, stepSign, hsome, hx, htrim, stepDelta]
  · have hplus (sign : List Char) := hlast sign (e := '+') (by decide)
    have hminus (sign : List Char) := hlast sign (e := '-') (by decide)
    cases up
    · have hnone : afterLead? ['+', '+'] (['-', '-'] ++ x) = none := rfl
      have hsome := afterLead?_append ['-', '-'] x
      simp only [incrementText, stepSign, if_true, if_false, hplus, hminus, hnone, hsome,
        Bool.false_eq_true]
      simp [hx, htrim, stepDelta]
    · have hsome := afterLead?_append ['+', '+'] x
      simp only [incrementText, stepSign, if_true, hplus, hminus, hsome]
      simp [hx, htrim, stepDelta]

/-- Nothing that can be a type stands in front of the name of an increment. -/
theorem typeAndName?_incrementText (hx : isIdentifier x = true) (up leading : Bool) :
    typeAndName? (incrementText up leading x) = none := by
  obtain ⟨s, hs, hsign⟩ := stepSign_eq up
  have hpart : isIdentPart s = false := by rcases hs with rfl | rfl <;> rfl
  cases leading
  · have hname : (x ++ [s, s]).reverse.takeWhile isIdentPart = [] := by
      simp [hpart]
    simp only [incrementText, hsign, typeAndName?, Bool.false_eq_true, if_false, hname]
    simp [isIdentifier]
  · have hall : ∀ c ∈ x.reverse, isIdentPart c = true := fun c hc =>
      List.all_eq_true.1 (all_of_isIdentifier hx) c (List.mem_reverse.1 hc)
    have hname : ([s, s] ++ x).reverse.takeWhile isIdentPart = x.reverse := by
      rw [List.reverse_append, List.takeWhile_append_of_pos hall]
      simp [hpart]
    have hfront : ([s, s] ++ x).take (([s, s] ++ x).length - x.length) = [s, s] := by
      rw [List.length_append, Nat.add_sub_cancel_right, List.take_left]
    have htype : isType (dropFinal (trim [s, s])) = false := by
      rcases hs with rfl | rfl <;> unfold dropFinal <;> rfl
    simp only [incrementText, hsign, typeAndName?, if_true, hname, List.reverse_reverse, hfront,
      htype]
    simp

/-- The characters of an increment mean nothing to the scanner, open or close no bracket, and assign
nothing. -/
theorem incrementText_skipped (hx : isIdentifier x = true) (up leading : Bool) :
    ∀ c ∈ incrementText up leading x,
      isMark c = false ∧ isOpening c = false ∧ isClosing c = false ∧ c ≠ '=' := by
  have hwordy := IsWordy.of_all (all_of_isIdentifier hx)
  intro c hc
  have hmem : (c = '+' ∨ c = '-') ∨ c ∈ x := by
    obtain ⟨s, hs, hsign⟩ := stepSign_eq up
    have hsplit : c ∈ [s, s] ∨ c ∈ x := by
      rw [incrementText, hsign] at hc
      split at hc
      · exact List.mem_append.1 hc
      · exact (List.mem_append.1 hc).symm
    refine hsplit.imp_left fun h => ?_
    obtain rfl : c = s := by simpa using h
    exact hs
  rcases hmem with (rfl | rfl) | hc
  · decide
  · decide
  · exact ⟨hwordy.isMark_eq c hc, hwordy.skipped c hc⟩

theorem masked_incrementText (hx : isIdentifier x = true) (up leading : Bool) :
    masked (incrementText up leading x) = incrementText up leading x := by
  obtain ⟨hclass, -⟩ := labels_code
    (fun c hc => (incrementText_skipped hx up leading c hc).1) none
  rw [masked_eq_maskFrom, maskFrom, hclass, List.flatMap_map]
  simp [maskedChar]

/-- **An increment is read as what it says.** -/
theorem action?_incrementText (hx : isIdentifier x = true) (up leading : Bool) :
    action? (incrementText up leading x) =
      some (.step (String.ofList x) (stepDelta up)) := by
  have hsplit : splitAssignment? (incrementText up leading x) = none := by
    have hfind := findAssign_append
      (fun c hc => (incrementText_skipped hx up leading c hc).2) 0 0 none []
    rw [List.append_nil] at hfind
    simp only [splitAssignment?, masked_incrementText hx, hfind, findAssign, Option.bind_eq_bind,
      Option.bind_none]
  have hdeclaration : declaration? (incrementText up leading x) = none := by
    rw [declaration?, hsplit]
    simp [trim_incrementText hx, typeAndName?_incrementText hx]
  rw [action?, hdeclaration, Option.none_or, increment?_incrementText hx, Option.some_or]

end Statement

namespace Run

/-! ## Running actions -/

variable {m : Machine}

/-- **A statement that is read as an action changes the variables, and does nothing else.** -/
theorem exec_action (htime : m.limits.timeout ≠ 0) (a : Action) :
    exec (.action a) m = .ok () { m with env := act m.env a } := by
  rw [exec, bind_apply, checkDeadline_of_timeout_ne_zero htime]
  rfl

theorem exec_skip (htime : m.limits.timeout ≠ 0) : exec .skip m = .ok () m := by
  rw [exec, checkDeadline_of_timeout_ne_zero htime]

end Run

end SnippetRunner
