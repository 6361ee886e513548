import Mathlib.Tactic.Common
import SnippetRunner.Proofs.Texts
import SnippetRunner.Scan.Query

/-!
# What the scanner says of the parts of a text

* `kept` is a scanned text without the characters of its comments, their line breaks aside. A scan
  of what is kept finds the same code and the same literals (`classify_keptText`), so dropping
  comments cannot make a literal or a comment out of code.
* `Uncommented` texts are those in which a scan finds no comment. What a scan finds in the front of
  a text, it finds there without the rest (`Uncommented.of_append`).
* A bracketed group is made of its delimiters and of what stands between them (`eq_of_closing?`).
-/

namespace SnippetRunner.Scan

open Text

/-! ## Code -/

/-- Behind a character of code the scanner stands in code. -/
theorem Mode.step_snd_of_code {mode : Mode} {c : Char} {next : Option Char}
    (h : (mode.step c next).1 = .code) : (mode.step c next).2 = .code := by
  cases mode <;> simp only [Mode.step] at h ⊢
  case code | quoted | lineComment | blockComment =>
    split_ifs at h ⊢ <;> simp_all
  all_goals simp at h

theorem Mode.step_of_isSpace {c : Char} (h : isSpace c = true) (next : Option Char) :
    Mode.step .code c next = (.code, .code) := by
  have hslash : c ≠ '/' := by rintro rfl; exact absurd h (by decide)
  have hquote : c ≠ '"' := by rintro rfl; exact absurd h (by decide)
  have hmark : c ≠ '\'' := by rintro rfl; exact absurd h (by decide)
  simp [Mode.step, hslash, hquote, hmark]

/-- White space in code is code, and leads to code. -/
theorem classify_append_of_isBlank {cs : List Char} (h : isBlank cs = true) (ds : List Char) :
    classify .code (cs ++ ds) = cs.map (·, .code) ++ classify .code ds := by
  induction cs with
  | nil => rfl
  | cons c cs ih =>
    simp only [isBlank, List.all_cons, Bool.and_eq_true] at h
    simp [classify, Mode.step_of_isSpace h.1, ih h.2]

/-! ## Dropping comments -/

/-- The mode in which a scan of the text without its comments would be. -/
def Mode.settled : Mode → Mode
  | quoted mark escaped => quoted mark escaped
  | _ => code

/-- The characters of a text that are no comment, and all line breaks. -/
def kept (mode : Mode) : List Char → List (Char × CharClass)
  | [] => []
  | c :: cs =>
    let (cls, mode') := mode.step c cs.head?
    if c = '\n' then ('\n', .code) :: kept mode' cs
    else if cls = .comment then kept mode' cs
    else (c, cls) :: kept mode' cs

/-- The text of what is kept. -/
def keptText (mode : Mode) (cs : List Char) : List Char := (kept mode cs).map Prod.fst

theorem settled_step_of_comment {mode : Mode} {c : Char} {next : Option Char}
    (h : (mode.step c next).1 = .comment) : (mode.step c next).2.settled = mode.settled := by
  cases mode <;> simp only [Mode.step] at h ⊢
  case code | quoted | lineComment | blockComment =>
    split_ifs at h ⊢ <;> rfl
  all_goals rfl

/-- Behind a line break no literal is open. -/
theorem settled_step_newline (mode : Mode) (next : Option Char) :
    (mode.step '\n' next).2.settled = .code := by
  cases mode <;> simp [Mode.step, Mode.settled]

theorem step_settled_newline (mode : Mode) (next : Option Char) :
    mode.settled.step '\n' next = (.code, .code) := by
  cases mode <;> simp [Mode.step, Mode.settled]

/-- A character in code that is no slash starts no comment, so it is kept. -/
theorem head?_keptText_code {d : Char} (hd : d ≠ '/') (cs : List Char) :
    (keptText .code (d :: cs)).head? = some d := by
  by_cases h : d = '\n'
  · simp [keptText, kept, h]
  · have hcls : (Mode.step .code d cs.head?).1 ≠ .comment := by
      simp only [Mode.step, hd, false_and, if_false]
      split <;> simp
    simp [keptText, kept, h, hcls]

/-- A character that is no comment has the same class, and leads to the same mode, in the text
without comments: what follows it matters only for a slash in code, and no comment follows that. -/
theorem step_settled_of_ne_comment {mode : Mode} {c : Char} {cs : List Char} (hc : c ≠ '\n')
    (h : (mode.step c cs.head?).1 ≠ .comment) :
    mode.settled.step c (keptText (mode.step c cs.head?).2 cs).head? =
      ((mode.step c cs.head?).1, (mode.step c cs.head?).2.settled) := by
  cases mode with
  | code =>
    by_cases hs : c = '/'
    · subst hs
      have hnext : cs.head? ≠ some '/' ∧ cs.head? ≠ some '*' := by
        constructor <;> intro hn <;> simp [Mode.step, hn] at h
      have hstep : Mode.step .code '/' cs.head? = (.code, .code) := by
        simp [Mode.step, hnext]
      have hhead : (keptText .code cs).head? = cs.head? := by
        cases cs with
        | nil => rfl
        | cons d ds => exact head?_keptText_code (fun hd => hnext.1 (by rw [hd]; rfl)) ds
      rw [hstep, hhead]
      exact hstep
    · simp only [Mode.settled, Mode.step, hs, false_and, if_false]
      split <;> rfl
  | quoted mark escaped =>
    simp only [Mode.settled, Mode.step, hc, if_false]
    split_ifs <;> rfl
  | lineComment => simp [Mode.step, hc] at h
  | blockComment =>
    simp only [Mode.step] at h
    split_ifs at h <;> simp at h
  | lineOpening | blockOpening | blockClosing => simp [Mode.step] at h

/-- **A scan of a text without its comments finds the same code and the same literals.** -/
theorem classify_keptText (mode : Mode) (cs : List Char) :
    classify mode.settled (keptText mode cs) = kept mode cs := by
  induction cs generalizing mode with
  | nil => rfl
  | cons c cs ih =>
    have ih' := ih (mode.step c cs.head?).2
    by_cases hc : c = '\n'
    · have hk : kept mode (c :: cs) = ('\n', .code) :: kept (mode.step c cs.head?).2 cs := by
        simp [kept, hc]
      rw [hc, settled_step_newline, ← hc] at ih'
      rw [keptText, hk, List.map_cons, ← keptText]
      simp only [classify, step_settled_newline, ih']
    · by_cases hcls : (mode.step c cs.head?).1 = .comment
      · have hk : kept mode (c :: cs) = kept (mode.step c cs.head?).2 cs := by
          simp [kept, hc, hcls]
        rw [keptText, hk, ← keptText, ← settled_step_of_comment hcls, ih']
      · have hk : kept mode (c :: cs) =
            (c, (mode.step c cs.head?).1) :: kept (mode.step c cs.head?).2 cs := by
          simp [kept, hc, hcls]
        rw [keptText, hk, List.map_cons, ← keptText]
        simp only [classify, step_settled_of_ne_comment hc hcls, ih']

/-! ## Texts without comments -/

/-- Whether a scan of the text finds no comment. -/
def Uncommented (mode : Mode) (cs : List Char) : Prop := ∀ p ∈ classify mode cs, p.2 ≠ .comment

@[simp] theorem uncommented_nil (mode : Mode) : Uncommented mode [] := by
  simp [Uncommented, classify]

theorem uncommented_cons {mode : Mode} {c : Char} {cs : List Char} :
    Uncommented mode (c :: cs) ↔
      (mode.step c cs.head?).1 ≠ .comment ∧ Uncommented (mode.step c cs.head?).2 cs := by
  simp [Uncommented, classify]

/-- The last character of a text opens no comment by itself. -/
theorem step_none_ne_comment {mode : Mode} {c : Char} {next : Option Char}
    (h : (mode.step c next).1 ≠ .comment) : (mode.step c none).1 ≠ .comment := by
  cases mode with
  | code =>
    simp only [Mode.step, reduceCtorEq, and_false, if_false]
    split <;> simp
  | quoted | lineComment => exact h
  | blockComment =>
    simp only [Mode.step] at h
    split_ifs at h <;> simp at h
  | lineOpening | blockOpening | blockClosing => simp [Mode.step] at h

/-- A text is without comments if a scan finds none in it while it goes on with another text. -/
theorem uncommented_of_classify_append {mode : Mode} {cs ds : List Char}
    {front back : List (Char × CharClass)} (h : classify mode (cs ++ ds) = front ++ back)
    (hfront : front.map Prod.fst = cs) (hno : ∀ p ∈ front, p.2 ≠ .comment) :
    Uncommented mode cs := by
  induction cs generalizing mode front with
  | nil => simp
  | cons c cs ih =>
    cases front with
    | nil => simp at hfront
    | cons p front =>
      simp only [List.cons_append, classify, List.cons.injEq] at h
      obtain ⟨rfl, htail⟩ := h
      simp only [List.map_cons, List.cons.injEq, true_and] at hfront
      have hc := hno _ List.mem_cons_self
      have hrest : ∀ p ∈ front, p.2 ≠ .comment := fun p hp => hno p (List.mem_cons_of_mem _ hp)
      rw [uncommented_cons]
      cases cs with
      | nil => exact ⟨step_none_ne_comment hc, uncommented_nil _⟩
      | cons d cs => exact ⟨hc, ih htail hfront hrest⟩

/-- What stands in front of a text without comments has none. -/
theorem Uncommented.of_append {mode : Mode} {cs ds : List Char}
    (h : Uncommented mode (cs ++ ds)) : Uncommented mode cs := by
  have hsplit : classify mode (cs ++ ds) =
      (classify mode (cs ++ ds)).take cs.length ++ (classify mode (cs ++ ds)).drop cs.length :=
    (List.take_append_drop _ _).symm
  refine uncommented_of_classify_append hsplit ?_ fun p hp => h p (List.mem_of_mem_take hp)
  rw [List.map_take, map_fst_classify, List.take_left]

/-- White space in front of a text without comments can be dropped. -/
theorem Uncommented.trimStart {cs : List Char} (h : Uncommented .code cs) :
    Uncommented .code (Text.trimStart cs) := by
  induction cs with
  | nil => exact h
  | cons c cs ih =>
    rw [Text.trimStart, List.dropWhile_cons]
    split
    · next hc =>
      rw [uncommented_cons, Mode.step_of_isSpace hc] at h
      exact ih h.2
    · exact h

/-- A text without comments has none when it is trimmed. -/
theorem Uncommented.trim {cs : List Char} (h : Uncommented .code cs) :
    Uncommented .code (Text.trim cs) := by
  obtain ⟨rest, hrest⟩ := trimEnd_isPrefix (Text.trimStart cs)
  have hstart := h.trimStart
  rw [← hrest] at hstart
  exact hstart.of_append

/-! ## Closing delimiters -/

/-- What the search for a closing delimiter finds lies in the text, and starts with the
delimiter. -/
theorem closeFrom_eq_some {opener closer : Char} {depth : Nat} {mode : Mode}
    {cs before after : List Char}
    (h : closeFrom opener closer depth mode cs = some (before, after)) :
    before ++ after = cs ∧ after.head? = some closer := by
  induction cs generalizing depth mode before with
  | nil => simp [closeFrom] at h
  | cons c cs ih =>
    have hnext : ∀ {n : Nat}, (closeFrom opener closer n (mode.step c cs.head?).2 cs).map
        (fun r => (c :: r.1, r.2)) = some (before, after) →
        before ++ after = c :: cs ∧ after.head? = some closer := by
      intro n hn
      obtain ⟨⟨b, a⟩, hb, hba⟩ := Option.map_eq_some_iff.1 hn
      obtain ⟨rfl, rfl⟩ := Prod.mk.inj hba
      obtain ⟨happ, hhead⟩ := ih hb
      exact ⟨by simp [happ], hhead⟩
    simp only [closeFrom] at h
    split_ifs at h with h₁ h₂ h₃
    · exact hnext h
    · obtain ⟨rfl, rfl⟩ := Prod.mk.inj (Option.some.inj h)
      exact ⟨rfl, by simp [h₂.2]⟩
    · exact hnext h
    · exact hnext h

/-- A bracketed group is made of its delimiters and of what stands between them. -/
theorem eq_of_closing? {opener closer : Char} (hne : opener ≠ closer) {cs inner rest : List Char}
    (h : closing? opener closer cs = some (inner, rest)) :
    cs = opener :: inner ++ closer :: rest := by
  simp only [closing?] at h
  split_ifs at h with hhead
  obtain ⟨⟨before, after⟩, hclose, hparts⟩ := Option.map_eq_some_iff.1 h
  obtain ⟨rfl, rfl⟩ := Prod.mk.inj hparts
  obtain ⟨rfl, hafter⟩ := closeFrom_eq_some hclose
  obtain ⟨after, rfl⟩ := List.head?_eq_some_iff.1 hafter
  cases before with
  | nil =>
    simp only [List.nil_append, List.head?_cons, Option.some.injEq] at hhead
    exact absurd hhead.symm hne
  | cons c before =>
    simp only [List.cons_append, List.head?_cons, Option.some.injEq] at hhead
    simp [hhead]

/-- Behind a closing delimiter the scanner stands in code. -/
theorem uncommented_of_closeFrom {opener closer : Char} {depth : Nat} {mode : Mode}
    {cs before after : List Char}
    (h : closeFrom opener closer depth mode cs = some (before, after)) (hno : Uncommented mode cs) :
    Uncommented .code after.tail := by
  induction cs generalizing depth mode before with
  | nil => simp [closeFrom] at h
  | cons c cs ih =>
    have hrest := (uncommented_cons.1 hno).2
    have hnext : ∀ {n : Nat}, (closeFrom opener closer n (mode.step c cs.head?).2 cs).map
        (fun r => (c :: r.1, r.2)) = some (before, after) → Uncommented .code after.tail := by
      intro n hn
      obtain ⟨⟨b, a⟩, hb, hba⟩ := Option.map_eq_some_iff.1 hn
      obtain ⟨-, rfl⟩ := Prod.mk.inj hba
      exact ih hb hrest
    simp only [closeFrom] at h
    split_ifs at h with h₁ h₂ h₃
    · exact hnext h
    · obtain ⟨-, rfl⟩ := Prod.mk.inj (Option.some.inj h)
      rwa [Mode.step_snd_of_code h₂.1] at hrest
    · exact hnext h
    · exact hnext h

/-- A bracketed group in a text without comments has none, and there is none behind it. -/
theorem Uncommented.of_closing? {opener closer : Char} (hne : opener ≠ closer)
    (hcode : ∀ next, Mode.step .code opener next = (.code, .code)) {cs inner rest : List Char}
    (h : closing? opener closer cs = some (inner, rest)) (hno : Uncommented .code cs) :
    Uncommented .code inner ∧ Uncommented .code rest := by
  have hparts := eq_of_closing? hne h
  refine ⟨?_, ?_⟩
  · have hgroup : Uncommented .code (opener :: inner) := by
      rw [hparts] at hno
      exact hno.of_append
    rw [uncommented_cons, hcode] at hgroup
    exact hgroup.2
  · simp only [closing?] at h
    split_ifs at h
    obtain ⟨⟨before, after⟩, hclose, hparts⟩ := Option.map_eq_some_iff.1 h
    obtain ⟨-, rfl⟩ := Prod.mk.inj hparts
    exact uncommented_of_closeFrom hclose hno

theorem findChar?_append {c : Char} {xs : List Char} (h : c ∉ xs) (cs : List Char) :
    findChar? c (xs ++ cs) = (findChar? c cs).map (· + byteSize xs) := by
  induction xs with
  | nil => simp
  | cons x xs ih =>
    simp only [List.mem_cons, not_or] at h
    rw [List.cons_append, findChar?, if_neg (Ne.symm h.1), ih h.2, Option.map_map]
    simp [Function.comp_def, Nat.add_comm, Nat.add_left_comm]

/-- What is found in the masked text is code, and the scanner stands in code behind it. -/
theorem exists_of_findChar? {c : Char} (hspace : c ≠ ' ') (hbreak : c ≠ '\n') {mode : Mode}
    {cs : List Char} {n : Nat} (h : findChar? c ((classify mode cs).flatMap maskedChar) = some n) :
    ∃ before tail, cs = before ++ c :: tail ∧ byteSize before = n ∧
      (Uncommented mode cs → Uncommented .code tail) := by
  induction cs generalizing mode n with
  | nil => simp [classify, findChar?] at h
  | cons d cs ih =>
    have hnext {k : Nat} (hk : (findChar? c ((classify (mode.step d cs.head?).2 cs).flatMap
        maskedChar)).map (· + d.utf8Size) = some k) :
        ∃ before tail, d :: cs = before ++ c :: tail ∧ byteSize before = k ∧
          (Uncommented mode (d :: cs) → Uncommented .code tail) := by
      obtain ⟨j, hj, rfl⟩ := Option.map_eq_some_iff.1 hk
      obtain ⟨before, tail, rfl, hsize, htail⟩ := ih hj
      refine ⟨d :: before, tail, rfl, ?_, fun hno => htail (uncommented_cons.1 hno).2⟩
      rw [byteSize_cons, hsize, Nat.add_comm]
    rw [classify, List.flatMap_cons, maskedChar] at h
    split at h
    · next hshown =>
      rw [List.singleton_append, findChar?] at h
      split at h
      · next hdc =>
        subst hdc
        have hcode := hshown.resolve_right hbreak
        obtain rfl := Option.some.inj h
        refine ⟨[], cs, rfl, rfl, fun hno => ?_⟩
        rw [← Mode.step_snd_of_code hcode]
        exact (uncommented_cons.1 hno).2
      · exact hnext h
    · rw [findChar?_append fun hmem => hspace (List.eq_of_mem_replicate hmem),
        byteSize_replicate_space] at h
      exact hnext h

/-- The search for a closing delimiter in a text whose characters are classified. -/
def closeIn (opener closer : Char) (depth : Nat) :
    List (Char × CharClass) → Option (List Char × List Char)
  | [] => none
  | (c, cls) :: rest =>
    let next (depth : Nat) : Option (List Char × List Char) :=
      (closeIn opener closer depth rest).map fun (before, after) => (c :: before, after)
    if cls = .code ∧ c = opener then next (depth + 1)
    else if cls = .code ∧ c = closer then
      if depth = 1 then some ([], c :: rest.map Prod.fst) else next (depth - 1)
    else next depth

theorem closeFrom_eq_closeIn (opener closer : Char) (depth : Nat) (mode : Mode) (cs : List Char) :
    closeFrom opener closer depth mode cs = closeIn opener closer depth (classify mode cs) := by
  induction cs generalizing depth mode with
  | nil => rfl
  | cons c cs ih => simp only [closeFrom, classify, closeIn, ih, map_fst_classify]

section CloseIn

variable {opener closer : Char} {depth : Nat} {rest : List (Char × CharClass)}

/-- A character that is no delimiter in code lies on the way. -/
theorem closeIn_cons_of_ne {x : Char × CharClass}
    (h : x.2 = .code → x.1 ≠ opener ∧ x.1 ≠ closer) :
    closeIn opener closer depth (x :: rest) =
      (closeIn opener closer depth rest).map fun (before, after) => (x.1 :: before, after) := by
  obtain ⟨c, cls⟩ := x
  have hopen : ¬ (cls = .code ∧ c = opener) := fun hc => (h hc.1).1 hc.2
  have hclose : ¬ (cls = .code ∧ c = closer) := fun hc => (h hc.1).2 hc.2
  simp only [closeIn, if_neg hopen, if_neg hclose]

/-- Characters that are no delimiters in code lie on the way. -/
theorem closeIn_append {xs : List (Char × CharClass)}
    (h : ∀ x ∈ xs, x.2 = .code → x.1 ≠ opener ∧ x.1 ≠ closer) :
    closeIn opener closer depth (xs ++ rest) =
      (closeIn opener closer depth rest).map
        fun (before, after) => (xs.map Prod.fst ++ before, after) := by
  induction xs with
  | nil => simp
  | cons x xs ih =>
    rw [List.forall_mem_cons] at h
    rw [List.cons_append, closeIn_cons_of_ne h.1, ih h.2]
    simp [Option.map_map, Function.comp_def]

/-- An opening delimiter raises the depth. -/
theorem closeIn_opener :
    closeIn opener closer depth ((opener, .code) :: rest) =
      (closeIn opener closer (depth + 1) rest).map
        fun (before, after) => (opener :: before, after) := by
  simp only [closeIn, true_and, if_true]

/-- A closing delimiter lowers the depth. -/
theorem closeIn_closer (hne : closer ≠ opener) :
    closeIn opener closer (depth + 2) ((closer, .code) :: rest) =
      (closeIn opener closer (depth + 1) rest).map
        fun (before, after) => (closer :: before, after) := by
  have hlast : depth + 2 ≠ 1 := by omega
  simp only [closeIn, true_and, if_neg hne, if_true, if_neg hlast, Nat.add_succ_sub_one]

theorem closeIn_replicate_opener (n : Nat) :
    closeIn opener closer depth (List.replicate n (opener, .code) ++ rest) =
      (closeIn opener closer (depth + n) rest).map
        fun (before, after) => (List.replicate n opener ++ before, after) := by
  induction n generalizing depth with
  | zero => simp
  | succ n ih =>
    rw [List.replicate_succ, List.cons_append, closeIn_opener, ih, Nat.add_right_comm,
      Nat.add_assoc]
    simp [List.replicate_succ, Option.map_map, Function.comp_def]

theorem closeIn_replicate_closer (hne : closer ≠ opener) (hdepth : depth ≠ 0) (n : Nat) :
    closeIn opener closer (depth + n) (List.replicate n (closer, .code) ++ rest) =
      (closeIn opener closer depth rest).map
        fun (before, after) => (List.replicate n closer ++ before, after) := by
  obtain ⟨depth, rfl⟩ := Nat.exists_eq_succ_of_ne_zero hdepth
  induction n with
  | zero => simp
  | succ n ih =>
    rw [List.replicate_succ, List.cons_append, show depth.succ + (n + 1) = (depth + n) + 2 by omega,
      closeIn_closer hne, show depth + n + 1 = depth.succ + n by omega, ih]
    simp [List.replicate_succ, Option.map_map, Function.comp_def]

end CloseIn

/-! ## Words -/

/-- A character that is not in the code of a text is not in the masked text. -/
theorem not_mem_masked {c : Char} (hspace : c ≠ ' ') (hbreak : c ≠ '\n') {cs : List Char}
    (h : (c, .code) ∉ classify .code cs) : c ∉ masked cs := by
  intro hc
  obtain ⟨⟨d, cls⟩, hd, hcd⟩ := List.mem_flatMap.1 hc
  simp only [maskedChar] at hcd
  split at hcd
  · next hcode =>
    obtain rfl := List.mem_singleton.1 hcd
    rcases hcode with rfl | hd'
    · exact h hd
    · exact hbreak hd'
  · exact hspace (List.eq_of_mem_replicate hcd)

/-- A word is not found in a text without one of its characters. -/
theorem findWordsFrom_eq_none {word cs : List Char} {c : Char} (hword : c ∈ word) (h : c ∉ cs)
    (words : List (List Char)) (skip position : Nat) (before : Option Char) :
    findWordsFrom (word :: words) skip position before cs = none := by
  induction cs generalizing skip position before with
  | nil => rfl
  | cons d cs ih =>
    have hlead : word.isPrefixOf (d :: cs) = false := by
      rw [Bool.eq_false_iff, ne_eq, List.isPrefixOf_iff_prefix]
      exact fun hlead => h (hlead.subset hword)
    have hrest : c ∉ cs := fun hc => h (List.mem_cons_of_mem d hc)
    simp only [findWordsFrom, List.headD_cons, hlead]
    split
    · exact ih hrest _ _ _
    · exact ih hrest _ _ _

theorem findWords?_eq_none {word cs : List Char} {c : Char} (hword : c ∈ word)
    (hspace : c ≠ ' ') (hbreak : c ≠ '\n') (h : (c, .code) ∉ classify .code cs)
    (words : List (List Char)) : findWords? (word :: words) cs = none := by
  rw [findWords?, List.isEmpty_cons, if_neg (by decide)]
  exact findWordsFrom_eq_none hword (not_mem_masked hspace hbreak h) words 0 0 none

end SnippetRunner.Scan
