import SnippetRunner.Proofs.Masking
import SnippetRunner.Proofs.Rereading

/-!
# The code among the pieces of a text

The scanner and the lexer agree on texts without text blocks: the scanner is in code at the start
of every piece and gives its characters the class that the piece has (`Cuts.classify_eq`). So of a
piece it shows what is spelled there if that is a token without quote marks, and white space of the
same size otherwise (`Cuts.masked_eq`).
-/

namespace SnippetRunner

open Text Lexer Scan

/-! ## Digits -/

namespace Text

/-- All hexadecimal digits. -/
def numerals : List Char :=
  ['0', '1', '2', '3', '4', '5', '6', '7', '8', '9', 'a', 'b', 'c', 'd', 'e', 'f', 'A', 'B', 'C',
   'D', 'E', 'F']

theorem mem_numerals {c : Char} (h : isHexDigit c = true) : c ∈ numerals := by
  have hcodes : c.toNat ∈ numerals.map Char.toNat := by
    simp only [isHexDigit, Char.isDigit, Bool.or_eq_true, Bool.and_eq_true, decide_eq_true_eq,
      Char.le_def, UInt32.le_iff_toNat_le, ge_iff_le] at h
    simp only [numerals, List.map_cons, List.map_nil, List.mem_cons, List.not_mem_nil, or_false,
      Char.reduceToNat]
    change ((48 ≤ c.toNat ∧ c.toNat ≤ 57) ∨ (97 ≤ c.toNat ∧ c.toNat ≤ 102)) ∨
      (65 ≤ c.toNat ∧ c.toNat ≤ 70) at h
    omega
  obtain ⟨d, hd, hcode⟩ := List.mem_map.1 hcodes
  rwa [← Char.toNat_inj.1 hcode]

theorem isIdentPart_of_isHexDigit {c : Char} (h : isHexDigit c = true) : isIdentPart c = true := by
  have hall : numerals.all isIdentPart = true := by decide
  exact List.all_eq_true.1 hall c (mem_numerals h)

theorem isIdentPart_of_isDigit {c : Char} (h : c.isDigit = true) : isIdentPart c = true :=
  isIdentPart_of_isHexDigit (by simp [isHexDigit, h])

/-- No identifier starts with a digit. -/
theorem isIdentStart_of_isDigit {c : Char} (h : c.isDigit = true) : isIdentStart c = false := by
  have hall : numerals.all (fun c => !(c.isDigit && isIdentStart c)) = true := by decide
  have hc := List.all_eq_true.1 hall c (mem_numerals (by simp [isHexDigit, h]))
  simpa [h] using hc

end Text

/-! ## Text that is blanked out -/

namespace Scan

/-- A text without anything but its line breaks, as large as it was. -/
def blanked (cs : List Char) : List Char := cs.flatMap fun c => maskedChar (c, .comment)

theorem blanked_cons (c : Char) (cs : List Char) :
    blanked (c :: cs) = maskedChar (c, .comment) ++ blanked cs := rfl

theorem isBlank_blanked (cs : List Char) : isBlank (blanked cs) = true := by
  induction cs with
  | nil => rfl
  | cons c cs ih =>
    have hchar : isBlank (maskedChar (c, .comment)) = true := by
      unfold maskedChar
      dsimp only
      split
      · next h =>
        obtain rfl : c = '\n' := h.resolve_left nofun
        rfl
      · rw [isBlank, List.all_replicate]
        split <;> rfl
    rw [blanked_cons, isBlank_append, hchar, ih]
    rfl

theorem byteSize_blanked (cs : List Char) : byteSize (blanked cs) = byteSize cs := by
  induction cs with
  | nil => rfl
  | cons c cs ih => rw [blanked_cons, byteSize_append, byteSize_maskedChar, ih, byteSize_cons]

/-- Only the class of code shows. -/
theorem maskedChar_eq_of_ne_code {c : Char} {cls : CharClass} (h : cls ≠ .code ∨ c = '\n') :
    maskedChar (c, cls) = maskedChar (c, .comment) := by
  unfold maskedChar
  dsimp only
  rcases h with h | rfl
  · simp only [h, false_or, reduceCtorEq]
  · simp

/-- The scanner gives all of a text one class, and gets from one mode to another, whatever
follows. -/
def Labels (mode : Mode) (cs : List Char) (k : CharClass) (mode' : Mode) : Prop :=
  ∀ next, classifyFrom mode next cs = cs.map (·, k) ∧ modeAfter mode next cs = mode'

namespace Labels

variable {mode mode₁ mode₂ : Mode} {cs ds : List Char} {k : CharClass}

theorem nil (mode : Mode) (k : CharClass) : Labels mode [] k mode := fun _ => ⟨rfl, rfl⟩

theorem cons {c : Char} {m : Mode} (hstep : ∀ next, mode.step c (cs.head?.or next) = (k, m))
    (h : Labels m cs k mode₂) : Labels mode (c :: cs) k mode₂ := by
  intro next
  obtain ⟨hclass, hmode⟩ := h next
  rw [classifyFrom, modeAfter, hstep, hclass, hmode]
  exact ⟨rfl, rfl⟩

theorem append (h : Labels mode cs k mode₁) (h' : Labels mode₁ ds k mode₂) :
    Labels mode (cs ++ ds) k mode₂ := by
  intro next
  obtain ⟨hclass, hmode⟩ := h (ds.head?.or next)
  obtain ⟨hclass', hmode'⟩ := h' next
  rw [classifyFrom_append, modeAfter_append, hclass, hmode, hclass', hmode', List.map_append]
  exact ⟨rfl, rfl⟩

end Labels

/-- The scanner goes through a text of one class without coming to code on the way, whatever
follows. -/
inductive Within (k : CharClass) : Mode → List Char → Mode → Prop
  | nil (mode : Mode) : Within k mode [] mode
  | cons {mode m mode' : Mode} {c : Char} {cs : List Char} : mode ≠ .code →
      (∀ next, mode.step c (cs.head?.or next) = (k, m)) → Within k m cs mode' →
        Within k mode (c :: cs) mode'

namespace Within

variable {mode mode₁ mode₂ : Mode} {cs ds : List Char} {k : CharClass}

theorem labels (h : Within k mode cs mode₁) : Labels mode cs k mode₁ := by
  induction h with
  | nil mode => exact .nil mode k
  | cons _ hstep _ ih => exact .cons hstep ih

theorem append (h : Within k mode cs mode₁) (h' : Within k mode₁ ds mode₂) :
    Within k mode (cs ++ ds) mode₂ := by
  induction h with
  | nil => exact h'
  | cons hmode hstep _ ih =>
    refine .cons hmode (fun next => ?_) (ih h')
    exact (congrArg _ (head?_append_or _ ds next)).trans (hstep _)

end Within

/-- The scanner leaves code with the first character of a text, and goes through the rest of it
within one class. -/
def Enclosed (k : CharClass) (cs : List Char) (mode : Mode) : Prop :=
  ∃ c u m, cs = c :: u ∧ (∀ next, Mode.step .code c (u.head?.or next) = (k, m)) ∧ Within k m u mode

theorem Enclosed.labels {k : CharClass} {cs : List Char} {mode : Mode} (h : Enclosed k cs mode) :
    Labels .code cs k mode := by
  obtain ⟨c, u, m, rfl, hstep, hwithin⟩ := h
  exact .cons hstep hwithin.labels

/-! ## Literals -/

section Quoted

variable {mark : Char} {w Y : List Char} {t : Token} {k : Nat}

/-- Inside a literal only its mark, a backslash and a line break mean anything. -/
theorem within_quoted {cs : List Char}
    (h : ∀ c ∈ cs, c ≠ '\n' ∧ c ≠ '\\' ∧ c ≠ mark) :
    Within .literal (.quoted mark false) cs (.quoted mark false) := by
  induction cs with
  | nil => exact .nil _
  | cons c cs ih =>
    obtain ⟨hbreak, hslash, hmark⟩ := h c List.mem_cons_self
    refine .cons nofun (fun next => ?_)
      (ih fun d hd => h d (List.mem_cons_of_mem c hd))
    simp [Mode.step, hbreak, hslash, hmark]

/-- A mark closes a literal. -/
theorem within_mark (hmark : mark ≠ '\n') (hslash : mark ≠ '\\') :
    Within .literal (.quoted mark false) [mark] .code := by
  refine .cons nofun (fun next => ?_) (.nil _)
  simp [Mode.step, hmark, hslash]

/-- An escape stays inside its literal. -/
theorem within_escape {value : Char} (h : escape (w ++ Y) = .ok (value, w.length))
    (hmark : mark ≠ 'u' ∧ isHexDigit mark = false) :
    Within .literal (.quoted mark false) ('\\' :: w) (.quoted mark false) := by
  obtain ⟨c, e, rfl, hc, he⟩ := exists_of_escape h
  have hbreak : c ≠ '\n' := by
    rintro rfl
    exact absurd hc (by decide)
  refine .cons (m := .quoted mark true) nofun (fun next => ?_)
    (.cons nofun (fun next => ?_) (within_quoted fun d hd => ?_))
  · simp [Mode.step]
  · simp [Mode.step, hbreak]
  · rcases he d hd with rfl | hhex
    · exact ⟨by decide, by decide, Ne.symm hmark.1⟩
    · refine ⟨?_, ?_, ?_⟩ <;> rintro rfl
      · exact absurd hhex (by decide)
      · exact absurd hhex (by decide)
      · rw [hmark.2] at hhex
        exact absurd hhex Bool.false_ne_true

/-- The scanner sees the end of a string where the lexer does. -/
theorem within_stringBody {read : List Char}
    (h : stringBody read k (w ++ Y) = .ok (t, k + w.length)) :
    Within .literal (.quoted '"' false) w .code := by
  generalize hcs : w ++ Y = cs at h
  fun_induction stringBody read k cs generalizing w with
  | case1 => simp at h
  | case2 read k cs =>
    have hlen : w.length = 1 := by
      have hn := (Prod.mk.inj (Except.ok.inj h)).2
      omega
    obtain ⟨u, rfl, rfl⟩ := exists_cons_of_lt (k := 0) (n := 1) hcs (by omega) (by omega)
    obtain rfl : u = [] := by simpa using hlen
    exact within_mark (by decide) (by decide)
  | case3 => simp at h
  | case4 read k cs value n hescape hquote hbreak ih =>
    have hlt := lt_of_stringBody h
    obtain ⟨u, rfl, rfl⟩ :=
      exists_cons_of_lt (k := k) (n := k + w.length) hcs (by omega) (Nat.le_refl _)
    rw [List.length_cons] at hlt h
    have hn : n ≤ u.length := by omega
    rw [List.drop_append_of_le_length hn] at h ih
    have hcount : k + (u.length + 1) = k + 1 + n + (u.drop n).length := by
      rw [List.length_drop]
      omega
    rw [hcount] at h
    have hlen : (u.take n).length = n := by simp [hn]
    have hfirst : escape (u.take n ++ (u.drop n ++ Y)) = .ok (value, (u.take n).length) := by
      rw [← List.append_assoc, List.take_append_drop, hescape, hlen]
    have hescaped : Within .literal (.quoted '"' false) _ (.quoted '"' false) :=
      within_escape hfirst (by decide)
    have hboth := hescaped.append (ih rfl h)
    rwa [List.cons_append, List.take_append_drop] at hboth
  | case5 => simp at h
  | case6 read k c cs hquote hbreak hslash ih =>
    have hlt := lt_of_stringBody h
    obtain ⟨u, rfl, rfl⟩ :=
      exists_cons_of_lt (k := k) (n := k + w.length) hcs (by omega) (Nat.le_refl _)
    have hcount : k + (c :: u).length = k + 1 + u.length := by
      rw [List.length_cons]
      omega
    rw [hcount] at h
    refine .cons (by simp) (fun next => ?_) (ih rfl h)
    simp [Mode.step, hquote, hbreak, hslash]

theorem pos_of_charBody {cs : List Char} {n : Nat} (h : charBody cs = .ok (t, n)) : 0 < n := by
  cases cs with
  | nil => simp [charBody] at h
  | cons c cs =>
    rw [charBody_cons] at h
    split at h
    · simp at h
    · split at h
      · simp at h
      · split at h
        · obtain ⟨-, rfl⟩ := Prod.mk.inj (Except.ok.inj h)
          exact Nat.succ_pos _
        · simp at h

/-- The scanner sees the end of a character literal where the lexer does. -/
theorem within_charBody (h : charBody (w ++ Y) = .ok (t, w.length)) :
    Within .literal (.quoted '\'' false) w .code := by
  cases w with
  | nil => exact absurd (pos_of_charBody h) (Nat.lt_irrefl 0)
  | cons c w =>
    rw [List.cons_append, charBody_cons] at h
    split at h
    · simp at h
    · next hend =>
      rw [not_or] at hend
      split at h
      · simp at h
      · next value n hread =>
        split at h
        · next hmark =>
          have hlen : w.length = n + 1 := by
            have hcount := (Prod.mk.inj (Except.ok.inj h)).2
            simp only [List.length_cons] at hcount
            omega
          have hlast : w.drop n = ['\''] := by
            obtain ⟨d, hd⟩ : ∃ d, w.drop n = [d] :=
              List.length_eq_one_iff.1 (by rw [List.length_drop]; omega)
            rw [List.drop_append_of_le_length (by omega), hd] at hmark
            rw [hd, show d = '\'' by simpa using hmark]
          have hfirst : Within .literal (.quoted '\'' false)
              (c :: w.take n) (.quoted '\'' false) := by
            split at hread
            · next hslash =>
              subst hslash
              have hn : (w.take n).length = n := by rw [List.length_take]; omega
              have hescape : escape (w.take n ++ (w.drop n ++ Y)) =
                  .ok (value, (w.take n).length) := by
                rw [← List.append_assoc, List.take_append_drop, hread, hn]
              exact within_escape hescape (by decide)
            · next hslash =>
              obtain ⟨-, rfl⟩ := Prod.mk.inj (Except.ok.inj hread)
              exact within_quoted (by simpa using ⟨hend.2, hslash, hend.1⟩)
          have hclosing : Within .literal (.quoted '\'' false) ['\''] .code :=
            within_mark (by decide) (by decide)
          have hboth := hfirst.append hclosing
          rwa [List.cons_append, ← hlast, List.take_append_drop] at hboth
        · simp at h

end Quoted

/-! ## Comments -/

/-- The scanner sees the end of a block comment where the lexer does. -/
theorem within_blockComment {w Y : List Char} (h : commentLength? (w ++ Y) = some w.length) :
    Within .comment .blockComment w .code := by
  induction w with
  | nil => exact absurd (pos_of_commentLength? h) (Nat.lt_irrefl 0)
  | cons c w ih =>
    obtain ⟨rfl, rfl⟩ | ⟨hend, hrest⟩ := commentLength?_cons h
    · exact .cons (m := .blockClosing) nofun (fun _ => rfl)
        (.cons nofun (fun next => rfl) (.nil _))
    · have hne : w ≠ [] := by
        rintro rfl
        exact absurd (pos_of_commentLength? hrest) (Nat.lt_irrefl 0)
      obtain ⟨d, w, rfl⟩ := List.exists_cons_of_ne_nil hne
      refine .cons nofun (fun next => ?_) (ih hrest)
      rw [Mode.step, if_neg]
      exact hend

/-- A line comment goes on to the line break. -/
theorem within_lineComment {y : List Char} (h : '\n' ∉ y) :
    Within .comment .lineComment y .lineComment := by
  induction y with
  | nil => exact .nil _
  | cons c y ih =>
    simp only [List.mem_cons, not_or] at h
    refine .cons nofun (fun next => ?_) (ih h.2)
    rw [Mode.step, if_neg (Ne.symm h.1)]

theorem enclosed_lineComment {y : List Char} (h : '\n' ∉ y) :
    Enclosed .comment ('/' :: '/' :: y) .lineComment :=
  ⟨'/', '/' :: y, .lineOpening, rfl, fun _ => rfl,
    .cons nofun (fun _ => rfl) (within_lineComment h)⟩

theorem enclosed_blockComment {w Y : List Char} (h : commentLength? (w ++ Y) = some w.length) :
    Enclosed .comment ('/' :: '*' :: w) .code :=
  ⟨'/', '*' :: w, .blockOpening, rfl, fun _ => rfl,
    .cons nofun (fun _ => rfl) (within_blockComment h)⟩

/-! ## Code -/

/-- Whether the character means something to the scanner in code. -/
def isMark (c : Char) : Bool := c = '/' || c = '"' || c = '\''

theorem Mode.step_of_not_isMark {c : Char} (h : isMark c = false) (next : Option Char) :
    Mode.step .code c next = (.code, .code) := by
  simp only [isMark, Bool.or_eq_false_iff, decide_eq_false_iff_not] at h
  simp [Mode.step, h]

/-- Text without marks is code. -/
theorem labels_code {cs : List Char} (h : ∀ c ∈ cs, isMark c = false) :
    Labels .code cs .code .code := by
  induction cs with
  | nil => exact .nil _ _
  | cons c cs ih =>
    exact .cons (fun next => Mode.step_of_not_isMark (h c List.mem_cons_self) _)
      (ih fun d hd => h d (List.mem_cons_of_mem c hd))

end Scan

/-! ## Tokens that are code -/

namespace Lexer

/-- What a step reads that takes a token. -/
theorem token_of_step {c : Char} {cs : List Char} {t : Token} {n : Nat}
    (h : step c cs = .token t n) :
    (c = '"' ∧ quoted cs = .ok (t, n)) ∨ (c = '\'' ∧ charBody cs = .ok (t, n)) ∨
      (c.isDigit = true ∧ number c cs = .ok (t, n)) ∨
      (isIdentStart c = true ∧ word c cs = (t, n)) ∨
      ∃ s, Sign.read? (c :: cs) = some s ∧ t = .sign s ∧ n = s.text.length - 1 ∧
        (c = '/' → cs.head? ≠ some '/' ∧ cs.head? ≠ some '*') := by
  unfold step at h
  split at h
  · simp at h
  split at h
  · simp at h
  next hline =>
  split at h
  · split at h <;> simp at h
  next hopen =>
  split at h
  · next hquote => exact .inl ⟨hquote, Step.ofReading_eq_token.1 h⟩
  split at h
  · next hmark => exact .inr (.inl ⟨hmark, Step.ofReading_eq_token.1 h⟩)
  split at h
  · next hdigit => exact .inr (.inr (.inl ⟨hdigit, Step.ofReading_eq_token.1 h⟩))
  split at h
  · next hstart =>
    obtain ⟨ht, hn⟩ := Step.token.inj h
    exact .inr (.inr (.inr (.inl ⟨hstart, Prod.ext ht hn⟩)))
  split at h
  · next s hsign =>
    obtain ⟨rfl, rfl⟩ := Step.token.inj h
    exact .inr (.inr (.inr (.inr ⟨s, hsign, rfl, rfl,
      fun hc => ⟨fun hd => hline ⟨hc, hd⟩, fun hd => hopen ⟨hc, hd⟩⟩⟩)))
  · simp at h

/-! ## Numbers -/

/-- Whether a text reads on a number: signs and points aside it is made of characters of
identifiers, and none of these starts an identifier. -/
def isNumeral (before : Char) : List Char → Bool
  | [] => true
  | c :: cs =>
    (c = '.' || c = '+' || c = '-' || isIdentPart c && (isIdentPart before || !isIdentStart c)) &&
      isNumeral c cs

/-- A part of a number, behind any character of a number. -/
def IsNumeral (cs : List Char) : Prop :=
  ∀ before, isIdentPart before = true →
    isNumeral before cs = true ∧ isIdentPart (cs.getLastD before) = true

theorem isNumeral_append (before : Char) (xs ys : List Char) :
    isNumeral before (xs ++ ys) = (isNumeral before xs && isNumeral (xs.getLastD before) ys) := by
  induction xs generalizing before with
  | nil => simp [isNumeral]
  | cons c xs ih =>
    have hlast : (c :: xs).getLastD before = xs.getLastD c := by cases xs <;> rfl
    rw [List.cons_append, isNumeral, ih, isNumeral, hlast, Bool.and_assoc]

namespace IsNumeral

theorem nil : IsNumeral [] := fun _ h => ⟨rfl, h⟩

theorem append {xs ys : List Char} (h : IsNumeral xs) (h' : IsNumeral ys) :
    IsNumeral (xs ++ ys) := by
  intro before hbefore
  obtain ⟨hxs, hlast⟩ := h before hbefore
  obtain ⟨hys, hlast'⟩ := h' _ hlast
  rw [isNumeral_append, hxs, hys]
  refine ⟨rfl, ?_⟩
  cases ys with
  | nil => simpa using hlast
  | cons y ys =>
    have hend : (xs ++ y :: ys).getLastD before = (y :: ys).getLastD (xs.getLastD before) := by
      simp [List.getLastD_eq_getLast?, List.getLast?_append]
    rwa [hend]

/-- A digit, and characters of identifiers, behind any character. -/
theorem isNumeral_digits {d : Char} {run : List Char} (hd : d.isDigit = true)
    (hrun : IsNumeral run) (before : Char) :
    isNumeral before (d :: run) = true ∧ isIdentPart ((d :: run).getLastD before) = true := by
  obtain ⟨hread, hlast⟩ := hrun d (isIdentPart_of_isDigit hd)
  have hend : (d :: run).getLastD before = run.getLastD d := by cases run <;> rfl
  rw [isNumeral, hread, isIdentPart_of_isDigit hd, isIdentStart_of_isDigit hd, hend]
  exact ⟨by simp, hlast⟩

theorem of_forall {cs : List Char} (h : ∀ c ∈ cs, isIdentPart c = true) : IsNumeral cs := by
  induction cs with
  | nil => exact .nil
  | cons c cs ih =>
    intro before hbefore
    have hc := h c List.mem_cons_self
    obtain ⟨hread, hlast⟩ := ih (fun d hd => h d (List.mem_cons_of_mem c hd)) c hc
    have hend : (c :: cs).getLastD before = cs.getLastD c := by cases cs <;> rfl
    rw [isNumeral, hread, hbefore, hc, hend]
    exact ⟨by simp, hlast⟩

end IsNumeral

theorem mem_digitRun {isDigit : Char → Bool} (hdigit : ∀ c, isDigit c = true → isIdentPart c = true)
    (cs : List Char) : ∀ c ∈ digitRun isDigit cs, isIdentPart c = true := by
  intro c hc
  have hall := List.all_eq_true.1
    (List.all_takeWhile (p := fun c => isDigit c || c = '_') (l := cs)) c hc
  rw [Bool.or_eq_true] at hall
  rcases hall with hdig | hbar
  · exact hdigit c hdig
  · obtain rfl : c = '_' := by simpa using hbar
    decide

theorem digitRun_cons {d : Char} (hd : d.isDigit = true) (rest : List Char) :
    digitRun Char.isDigit (d :: rest) = d :: digitRun Char.isDigit rest := by
  simp [digitRun, hd]

theorem isNumeral_fractionRun (cs : List Char) : IsNumeral (fractionRun cs) := by
  unfold fractionRun
  split
  · next d rest =>
    split
    · next hd =>
      intro before _
      obtain ⟨hread, hlast⟩ := IsNumeral.isNumeral_digits hd
        (.of_forall (mem_digitRun (fun c => isIdentPart_of_isDigit) rest)) '.'
      rw [digitRun_cons hd, isNumeral, hread]
      exact ⟨rfl, hlast⟩
    · exact .nil
  · exact .nil

/-- Signs may stand in front of digits. -/
theorem isNumeral_signed {signs digits : List Char} (hsigns : ∀ c ∈ signs, c = '+' ∨ c = '-')
    (hdigits : ∀ before,
      isNumeral before digits = true ∧ isIdentPart (digits.getLastD before) = true)
    (before : Char) : isNumeral before (signs ++ digits) = true ∧
      isIdentPart ((signs ++ digits).getLastD before) = true := by
  induction signs generalizing before with
  | nil => exact hdigits before
  | cons c signs ih =>
    obtain ⟨hread, hlast⟩ := ih (fun d hd => hsigns d (List.mem_cons_of_mem c hd)) c
    have hend : (c :: (signs ++ digits)).getLastD before = (signs ++ digits).getLastD c := by
      cases signs ++ digits <;> rfl
    rw [List.cons_append, isNumeral, hread, hend]
    refine ⟨?_, hlast⟩
    rcases hsigns c List.mem_cons_self with rfl | rfl <;> rfl

theorem isNumeral_exponentRun (cs : List Char) : IsNumeral (exponentRun cs) := by
  cases cs with
  | nil => exact .nil
  | cons e rest =>
    rw [exponentRun_cons]
    split
    · next h =>
      obtain ⟨he, -, hdigit⟩ := h
      have hpart : isIdentPart e = true := by rcases he with rfl | rfl <;> decide
      have hsigns : ∀ c ∈ signRun rest, c = '+' ∨ c = '-' := by
        intro c hc
        have hall := List.all_eq_true.1
          (List.all_takeWhile (p := fun c => c = '+' || c = '-') (l := rest)) c hc
        simpa using hall
      obtain ⟨d, digits, hdrop, hd⟩ : ∃ d digits,
          rest.drop (signRun rest).length = d :: digits ∧ d.isDigit = true := by
        cases hdrop : rest.drop (signRun rest).length with
        | nil => simp [hdrop] at hdigit
        | cons d digits => exact ⟨d, digits, rfl, by simpa [hdrop] using hdigit⟩
      rw [hdrop, digitRun_cons hd]
      intro before hbefore
      obtain ⟨hread, hlast⟩ := isNumeral_signed hsigns
        (IsNumeral.isNumeral_digits hd
          (.of_forall (mem_digitRun (fun c => isIdentPart_of_isDigit) digits))) e
      have hend : (e :: (signRun rest ++ d :: digitRun Char.isDigit digits)).getLastD before =
          (signRun rest ++ d :: digitRun Char.isDigit digits).getLastD e := by
        cases signRun rest ++ d :: digitRun Char.isDigit digits <;> rfl
      rw [List.cons_append, isNumeral, hread, hpart, hbefore, hend]
      exact ⟨by simp, hlast⟩
    · exact .nil

theorem isNumeral_take_of_hasSuffix {letters cs : List Char}
    (hletters : letters.all isIdentPart = true) (n : Nat) (hn : n ≤ 1)
    (h : n = 1 → hasSuffix letters cs = true) : IsNumeral (cs.take n) := by
  refine .of_forall fun c hc => ?_
  cases cs with
  | nil => simp at hc
  | cons d cs =>
    obtain rfl : n = 1 := by
      rcases Nat.le_one_iff_eq_zero_or_eq_one.1 hn with rfl | rfl
      · simp at hc
      · rfl
    obtain rfl : c = d := by simpa using hc
    have hsuffix := h rfl
    exact List.all_eq_true.1 hletters c (by simpa [hasSuffix] using hsuffix)

theorem take_length_of_isPrefix {xs ys : List Char} (h : xs <+: ys) : ys.take xs.length = xs :=
  (List.prefix_iff_eq_take.1 h).symm

theorem digitRun_isPrefix (isDigit : Char → Bool) (cs : List Char) : digitRun isDigit cs <+: cs :=
  List.takeWhile_prefix _

theorem fractionRun_isPrefix (cs : List Char) : fractionRun cs <+: cs := by
  unfold fractionRun
  split
  · next d rest =>
    split
    · exact (List.prefix_cons_inj '.').2 (digitRun_isPrefix _ _)
    · exact List.nil_prefix
  · exact List.nil_prefix

theorem exponentRun_isPrefix (cs : List Char) : exponentRun cs <+: cs := by
  cases cs with
  | nil => exact List.nil_prefix
  | cons e rest =>
    rw [exponentRun_cons]
    split
    · obtain ⟨tail, htail⟩ := digitRun_isPrefix Char.isDigit (rest.drop (signRun rest).length)
      refine ⟨tail, ?_⟩
      have hsigns : signRun rest ++ rest.drop (signRun rest).length = rest := by
        conv_rhs => rw [← List.take_append_drop (signRun rest).length rest]
        rw [take_length_of_isPrefix (show signRun rest <+: rest from List.takeWhile_prefix _)]
      rw [List.append_assoc, htail, List.cons_append, hsigns]
    · exact List.nil_prefix

theorem isNumeral_hexBody {cs : List Char} {t : Token} {n : Nat} (h : hexBody cs = .ok (t, n)) :
    IsNumeral (cs.take n) := by
  have hdigits : IsNumeral (digitRun isHexDigit cs) :=
    .of_forall (mem_digitRun (fun c => isIdentPart_of_isHexDigit) cs)
  obtain ⟨k, rfl, hk, hlong⟩ : ∃ k, n = (digitRun isHexDigit cs).length + k ∧ k ≤ 1 ∧
      (k = 1 → hasSuffix ['l', 'L'] (cs.drop (digitRun isHexDigit cs).length) = true) := by
    unfold hexBody at h
    dsimp only at h
    split at h
    · simp at h
    · split at h
      · next hlong =>
        obtain ⟨-, rfl⟩ := Prod.mk.inj (Except.ok.inj h)
        exact ⟨1, rfl, Nat.le_refl _, fun _ => hlong⟩
      · next hlong =>
        split at h
        · simp at h
        · obtain ⟨-, rfl⟩ := Prod.mk.inj (Except.ok.inj h)
          exact ⟨0, rfl, Nat.zero_le _, nofun⟩
  rw [List.take_add, take_length_of_isPrefix (digitRun_isPrefix _ _)]
  exact hdigits.append (isNumeral_take_of_hasSuffix (by decide) k hk hlong)

/-- The three runs of a decimal stand one behind the other. -/
theorem take_runs {cs whole fraction exponent : List Char}
    (hwhole : digitRun Char.isDigit cs = whole)
    (hfraction : fractionRun (cs.drop whole.length) = fraction)
    (hexponent : exponentRun (cs.drop (whole.length + fraction.length)) = exponent) :
    cs.take (whole.length + fraction.length + exponent.length) =
      whole ++ (fraction ++ exponent) := by
  subst hwhole hfraction hexponent
  rw [Nat.add_assoc, List.take_add, List.take_add, List.drop_drop,
    take_length_of_isPrefix (digitRun_isPrefix _ _),
    take_length_of_isPrefix (fractionRun_isPrefix _),
    take_length_of_isPrefix (exponentRun_isPrefix _)]

theorem hasSuffix_letters_append (letters more cs : List Char) :
    hasSuffix (letters ++ more) cs = (hasSuffix letters cs || hasSuffix more cs) := by
  cases cs <;> simp [hasSuffix]

/-- **What a number takes is a number for the scanner**, its first digit aside. -/
theorem isNumeral_number {first : Char} {cs : List Char} {t : Token} {n : Nat}
    (h : number first cs = .ok (t, n)) : IsNumeral (cs.take n) := by
  unfold number at h
  split at h
  · next hx =>
    split at h
    · next token m hread =>
      obtain ⟨-, rfl⟩ := Prod.mk.inj (Except.ok.inj h)
      have hmark : IsNumeral (cs.take 1) :=
        isNumeral_take_of_hasSuffix (by decide) 1 (Nat.le_refl _) fun _ => hx.2
      rw [Nat.add_comm, List.take_add]
      exact hmark.append (isNumeral_hexBody hread)
    · simp at h
  · dsimp only at h
    generalize hwhole : digitRun Char.isDigit cs = whole at h
    generalize hfraction : fractionRun (cs.drop whole.length) = fraction at h
    generalize hexponent : exponentRun (cs.drop (whole.length + fraction.length)) = exponent at h
    generalize hbody : whole.length + fraction.length + exponent.length = body at h
    obtain ⟨k, rfl, hk, hsuffix⟩ : ∃ k, n = body + k ∧ k ≤ 1 ∧
        (k = 1 → hasSuffix ['f', 'F', 'd', 'D', 'l', 'L'] (cs.drop body) = true) := by
      have hn : n = body + if hasSuffix ['f', 'F', 'd', 'D'] (cs.drop body) ||
          hasSuffix ['l', 'L'] (cs.drop body) then 1 else 0 := by
        split at h
        · exact (Prod.mk.inj (Except.ok.inj h)).2.symm
        · split at h
          · simp at h
          · exact (Prod.mk.inj (Except.ok.inj h)).2.symm
      refine ⟨_, hn, ?_, fun hone => ?_⟩
      · split <;> omega
      · split at hone
        · next hsuffix =>
          exact (hasSuffix_letters_append ['f', 'F', 'd', 'D'] ['l', 'L'] _).trans hsuffix
        · simp at hone
    have hparts : IsNumeral (whole ++ (fraction ++ exponent)) := by
      rw [← hwhole, ← hfraction, ← hexponent]
      exact (IsNumeral.of_forall (mem_digitRun (fun c => isIdentPart_of_isDigit) cs)).append
        ((isNumeral_fractionRun _).append (isNumeral_exponentRun _))
    rw [List.take_add, ← hbody, take_runs hwhole hfraction hexponent, hbody]
    exact hparts.append (isNumeral_take_of_hasSuffix (by decide) k hk hsuffix)

end Lexer

/-! ## What is shown of a piece -/

/-- Whether a token stands in quote marks. -/
def Token.isQuoted : Token → Bool
  | char _ | string _ => true
  | _ => false

theorem isMark_of_isIdentPart {c : Char} (h : isIdentPart c = true) : isMark c = false := by
  rw [Bool.eq_false_iff]
  intro hmark
  simp only [isMark, Bool.or_eq_true, decide_eq_true_eq] at hmark
  rcases hmark with (rfl | rfl) | rfl <;> exact absurd h (by decide)

namespace Lexer

/-- The characters of words and of numbers. -/
def isWordChar (c : Char) : Bool := c = '.' || c = '+' || c = '-' || isIdentPart c

theorem isWordChar_of_isIdentPart {c : Char} (h : isIdentPart c = true) : isWordChar c = true := by
  rw [isWordChar, h, Bool.or_true]

theorem isMark_of_isWordChar {c : Char} (h : isWordChar c = true) : isMark c = false := by
  simp only [isWordChar, Bool.or_eq_true, decide_eq_true_eq] at h
  rcases h with ((rfl | rfl) | rfl) | hpart
  · rfl
  · rfl
  · rfl
  · exact isMark_of_isIdentPart hpart

theorem isWordChar_of_isNumeral {before : Char} {cs : List Char} (h : isNumeral before cs = true) :
    ∀ c ∈ cs, isWordChar c = true := by
  induction cs generalizing before with
  | nil => simp
  | cons c cs ih =>
    rw [isNumeral, Bool.and_eq_true] at h
    intro d hd
    rcases List.mem_cons.1 hd with rfl | hd
    · have hchar := h.1
      simp only [Bool.or_eq_true, Bool.and_eq_true] at hchar
      simp only [isWordChar, Bool.or_eq_true]
      exact hchar.imp_right And.left
    · exact ih h.2 d hd

/-- A word is made of the characters that the lexer goes through. -/
theorem takeWhile_of_word {first : Char} {u Y : List Char} {t : Token}
    (h : word first (u ++ Y) = (t, u.length)) :
    (u ++ Y).takeWhile isIdentPart = u ∧ u.all isIdentPart = true := by
  have hlength : ((u ++ Y).takeWhile isIdentPart).length = u.length := congrArg Prod.snd h
  have hrun : (u ++ Y).takeWhile isIdentPart = u := by
    rw [← take_length_of_isPrefix (List.takeWhile_prefix (l := u ++ Y) isIdentPart), hlength,
      List.take_left]
  have hall := List.all_takeWhile (p := isIdentPart) (l := u ++ Y)
  rw [hrun] at hall
  exact ⟨hrun, hall⟩

/-- Whether a piece is code: a token without quote marks. -/
def Piece.isCode (q : Piece) : Bool := q.token.any fun t => !t.isQuoted

/-- What a character of a piece belongs to. White space is code, and so is the line break behind a
comment. -/
def Piece.classOf (q : Piece) (c : Char) : CharClass :=
  match q.token with
  | some t => if t.isQuoted then .literal else .code
  | none =>
    if q.text.take 2 = ['/', '*'] ∨ q.text.take 2 = ['/', '/'] ∧ c ≠ '\n' then .comment else .code

/-- The characters of a piece, each with its class. -/
def Piece.classified (q : Piece) : List (Char × CharClass) := q.text.map fun c => (c, q.classOf c)

theorem map_fst_classified (ps : List Piece) :
    (ps.flatMap Piece.classified).map Prod.fst = spell ps := by
  simp [spell, Piece.classified, List.map_flatMap, Function.comp_def]

/-- What the scanner shows of a piece. -/
def Piece.shown (q : Piece) : List Char :=
  if q.isCode || isBlank q.text then q.text else blanked q.text

theorem isQuoted_of_stringBody {read cs : List Char} {k n : Nat} {t : Token}
    (h : stringBody read k cs = .ok (t, n)) : t.isQuoted = true := by
  fun_induction stringBody read k cs with
  | case1 => simp at h
  | case2 =>
    obtain ⟨rfl, -⟩ := Prod.mk.inj (Except.ok.inj h)
    rfl
  | case3 => simp at h
  | case4 _ _ _ _ _ _ _ _ ih => exact ih h
  | case5 => simp at h
  | case6 _ _ _ _ _ _ _ ih => exact ih h

theorem isQuoted_of_blockBody {read cs : List Char} {k n : Nat} {t : Token}
    (h : blockBody read k cs = .ok (t, n)) : t.isQuoted = true := by
  fun_induction blockBody read k cs with
  | case1 => simp at h
  | case2 =>
    obtain ⟨rfl, -⟩ := Prod.mk.inj (Except.ok.inj h)
    rfl
  | case3 _ _ _ _ _ _ _ ih => exact ih h
  | case4 => simp at h
  | case5 _ _ _ _ _ _ ih => exact ih h

theorem isQuoted_of_quoted {cs : List Char} {n : Nat} {t : Token} (h : quoted cs = .ok (t, n)) :
    t.isQuoted = true := by
  unfold quoted at h
  split at h
  · exact isQuoted_of_blockBody h
  · exact isQuoted_of_stringBody h

theorem isQuoted_of_charBody {cs : List Char} {n : Nat} {t : Token}
    (h : charBody cs = .ok (t, n)) : t.isQuoted = true := by
  cases cs with
  | nil => simp [charBody] at h
  | cons c cs =>
    rw [charBody_cons] at h
    split at h
    · simp at h
    · split at h
      · simp at h
      · split at h
        · obtain ⟨rfl, -⟩ := Prod.mk.inj (Except.ok.inj h)
          rfl
        · simp at h

theorem not_isQuoted_of_hexBody {cs : List Char} {n : Nat} {t : Token}
    (h : hexBody cs = .ok (t, n)) : t.isQuoted = false := by
  unfold hexBody at h
  dsimp only at h
  split at h
  · simp at h
  · split at h
    · obtain ⟨rfl, -⟩ := Prod.mk.inj (Except.ok.inj h)
      rfl
    · split at h
      · simp at h
      · obtain ⟨rfl, -⟩ := Prod.mk.inj (Except.ok.inj h)
        rfl

theorem not_isQuoted_of_number {first : Char} {cs : List Char} {n : Nat} {t : Token}
    (h : number first cs = .ok (t, n)) : t.isQuoted = false := by
  unfold number at h
  split at h
  · split at h
    · next hread =>
      obtain ⟨rfl, -⟩ := Prod.mk.inj (Except.ok.inj h)
      exact not_isQuoted_of_hexBody hread
    · simp at h
  · dsimp only at h
    split at h
    · obtain ⟨rfl, -⟩ := Prod.mk.inj (Except.ok.inj h)
      rfl
    · split at h
      · simp at h
      · obtain ⟨rfl, -⟩ := Prod.mk.inj (Except.ok.inj h)
        split <;> rfl

theorem not_isQuoted_of_word {first : Char} {cs : List Char} {n : Nat} {t : Token}
    (h : word first cs = (t, n)) : t.isQuoted = false := by
  obtain ⟨rfl, -⟩ := Prod.mk.inj h
  split <;> rfl

/-- A piece that spells a sign is the text of the sign. -/
theorem eq_text_of_read? {c : Char} {u Y : List Char} {s : Sign}
    (h : Sign.read? (c :: (u ++ Y)) = some s) (hlength : u.length = s.text.length - 1) :
    c :: u = s.text.toList := by
  have hlead : s.text.toList <+: (c :: u) ++ Y := by
    rw [List.cons_append, ← List.isPrefixOf_iff_prefix]
    simpa using List.find?_some h
  have hpos : 0 < s.text.length := by cases s <;> decide
  have hsame : (c :: u).length = s.text.toList.length := by
    rw [List.length_cons, String.length_toList]
    omega
  exact (List.prefix_of_prefix_length_le (List.prefix_append _ _) hlead
    (Nat.le_of_eq hsame)).eq_of_length hsame

/-- A string or a character is a literal of the scanner. -/
theorem enclosed_of_isQuoted {c : Char} {u Y : List Char} {t : Token}
    (h : step c (u ++ Y) = .token t u.length) (hbreak : '\n' ∉ u) (ht : t.isQuoted = true) :
    Enclosed .literal (c :: u) .code := by
  obtain ⟨rfl, hread⟩ | ⟨rfl, hread⟩ | ⟨-, hread⟩ | ⟨-, hread⟩ | ⟨s, -, rfl, -⟩ := token_of_step h
  · have hblock : ¬(u ++ Y).take 2 = ['"', '"'] := by
      intro hblock
      obtain ⟨x, w, -, rfl, -⟩ := exists_of_quoted hblock hread
      exact hbreak (by simp)
    rw [quoted, if_neg hblock, ← Nat.zero_add u.length] at hread
    exact ⟨'"', u, .quoted '"' false, rfl, fun _ => rfl, within_stringBody hread⟩
  · exact ⟨'\'', u, .quoted '\'' false, rfl, fun _ => rfl, within_charBody hread⟩
  · cases ht.symm.trans (not_isQuoted_of_number hread)
  · cases ht.symm.trans (not_isQuoted_of_word hread)
  · cases ht

/-- Every other token is a sign, or made of the characters of words and numbers. -/
theorem spelling_of_not_isQuoted {c : Char} {u Y : List Char} {t : Token}
    (h : step c (u ++ Y) = .token t u.length) (ht : t.isQuoted = false) :
    (∀ d ∈ c :: u, isWordChar d = true) ∨ ∃ s, t = .sign s ∧ c :: u = s.text.toList ∧
      (c = '/' → (u ++ Y).head? ≠ some '/' ∧ (u ++ Y).head? ≠ some '*') := by
  obtain ⟨-, hread⟩ | ⟨-, hread⟩ | ⟨hdigit, hread⟩ | ⟨hstart, hread⟩ |
    ⟨s, hread, rfl, hlength, hline⟩ := token_of_step h
  · cases ht.symm.trans (isQuoted_of_quoted hread)
  · cases ht.symm.trans (isQuoted_of_charBody hread)
  · have hnumeral := (isNumeral_number hread c (isIdentPart_of_isDigit hdigit)).1
    rw [List.take_left] at hnumeral
    exact .inl (List.forall_mem_cons.2 ⟨isWordChar_of_isIdentPart (isIdentPart_of_isDigit hdigit),
      isWordChar_of_isNumeral hnumeral⟩)
  · have hall := List.all_eq_true.1 (takeWhile_of_word hread).2
    exact .inl (List.forall_mem_cons.2
      ⟨isWordChar_of_isIdentPart (isIdentPart_of_isIdentStart hstart),
      fun d hd => isWordChar_of_isIdentPart (hall d hd)⟩)
  · exact .inr ⟨s, rfl, eq_text_of_read? hread hlength, hline⟩

/-- Every other token is code, and leaves the scanner there. -/
theorem labels_of_not_isQuoted {c : Char} {u Y : List Char} {t : Token}
    (h : step c (u ++ Y) = .token t u.length) (ht : t.isQuoted = false) :
    classifyFrom .code Y.head? (c :: u) = (c :: u).map (·, .code) ∧
      modeAfter .code Y.head? (c :: u) = .code := by
  obtain hchars | ⟨s, rfl, htext, hline⟩ := spelling_of_not_isQuoted h ht
  · exact labels_code (fun d hd => isMark_of_isWordChar (hchars d hd)) Y.head?
  · have hmarks : s.text.toList.tail.all (fun d => !isMark d) = true ∧
        s.text.toList.head? ≠ some '"' ∧ s.text.toList.head? ≠ some '\'' := by
      cases s <;> decide
    rw [← htext, List.tail_cons, List.head?_cons] at hmarks
    obtain ⟨hrest, hquote, hmark⟩ := hmarks
    obtain ⟨hclass, hmode⟩ := labels_code
      (fun d hd => by simpa using List.all_eq_true.1 hrest d hd) Y.head?
    have hstep : Mode.step .code c (u.head?.or Y.head?) = (.code, .code) := by
      have hnext : (u ++ Y).head? = u.head?.or Y.head? := List.head?_append
      have hquote' : c ≠ '"' := fun e => hquote (congrArg some e)
      have hmark' : c ≠ '\'' := fun e => hmark (congrArg some e)
      rw [hnext] at hline
      by_cases hc : c = '/'
      · obtain ⟨hslash, hstar⟩ := hline hc
        simp [Mode.step, hslash, hstar, hquote', hmark']
      · simp [Mode.step, hc, hquote', hmark']
    rw [classifyFrom, modeAfter, hstep, hclass, hmode]
    exact ⟨rfl, rfl⟩

/-- **In front of a token the scanner is in code**, and behind it again. -/
theorem labels_of_token {c : Char} {u Y : List Char} {t : Token}
    (h : step c (u ++ Y) = .token t u.length) (hbreak : '\n' ∉ u) :
    classifyFrom .code Y.head? (c :: u) = Piece.classified ⟨c :: u, some t⟩ ∧
      modeAfter .code Y.head? (c :: u) = .code := by
  cases ht : t.isQuoted with
  | true =>
    have hlabels := (enclosed_of_isQuoted h hbreak ht).labels Y.head?
    simpa [Piece.classified, Piece.classOf, ht] using hlabels
  | false =>
    have hlabels := labels_of_not_isQuoted h ht
    simpa [Piece.classified, Piece.classOf, ht] using hlabels

/-- In front of what has no meaning the scanner is in code, and behind it again unless the text ends
in a line comment. -/
theorem labels_of_blank {c : Char} {u Y : List Char} (h : step c (u ++ Y) = .blank u.length) :
    classifyFrom .code Y.head? (c :: u) = Piece.classified ⟨c :: u, none⟩ ∧
      (modeAfter .code Y.head? (c :: u) = .code ∨
        (Y = [] ∧ modeAfter .code Y.head? (c :: u) = .lineComment)) := by
  obtain ⟨hspace, rfl⟩ | ⟨rfl, y, hy, hu⟩ | ⟨rfl, w, rfl, hcount⟩ := blank_of_step h
  · rw [classifyFrom, modeAfter, Mode.step_of_isSpace hspace]
    exact ⟨by simp [Piece.classified, Piece.classOf, classifyFrom], .inl rfl⟩
  · have hclass : ∀ d ∈ y, Piece.classOf ⟨'/' :: u, none⟩ d = .comment := by
      intro d hd
      have hne : d ≠ '\n' := fun e => hy (e ▸ hd)
      rcases hu with rfl | ⟨rfl, -⟩ <;> simp [Piece.classOf, hne]
    have hopened : (y.map fun d => (d, CharClass.comment)) =
        y.map fun d => (d, Piece.classOf ⟨'/' :: u, none⟩ d) :=
      List.map_congr_left fun d hd => by rw [hclass d hd]
    rcases hu with rfl | ⟨rfl, rfl⟩
    · obtain ⟨hline, hmode⟩ := (enclosed_lineComment hy).labels (some '\n')
      rw [← List.cons_append, ← List.cons_append, classifyFrom_append, modeAfter_append,
        List.head?_cons, Option.some_or, hline, hmode]
      refine ⟨?_, .inl rfl⟩
      simp only [Piece.classified, List.map_cons, List.map_append, hopened]
      simp [Piece.classOf, classifyFrom, Mode.step]
    · obtain ⟨hline, hmode⟩ := (enclosed_lineComment hy).labels [].head?
      rw [hline, hmode]
      refine ⟨?_, .inr ⟨rfl, rfl⟩⟩
      simp only [Piece.classified, List.map_cons, hopened]
      simp [Piece.classOf]
  · obtain ⟨hclass, hmode⟩ := (enclosed_blockComment hcount).labels Y.head?
    exact ⟨by simpa [Piece.classified, Piece.classOf] using hclass, .inl hmode⟩

/-- **The scanner and the lexer agree on texts without text blocks**: each character has the class
that its piece gives it. -/
theorem Cuts.classify_eq {cs : List Char} {ps : List Piece} (h : Cuts cs ps [])
    (hblock : ∀ q ∈ ps, q.token ≠ none → '\n' ∉ q.text) :
    classify .code cs = ps.flatMap Piece.classified := by
  rw [classify_eq_classifyFrom]
  generalize hrest : ([] : List Char) = rest at h
  induction h with
  | nil =>
    subst hrest
    rfl
  | @blank c u cs rest ps hstep hcuts ih =>
    obtain ⟨hclass, hmode⟩ := labels_of_blank hstep
    have hlater := ih (fun q hq => hblock q (List.mem_cons_of_mem _ hq)) hrest
    rw [classifyFrom_append, Option.or_none, hclass, List.flatMap_cons]
    rcases hmode with hmode | ⟨rfl, -⟩
    · rw [hmode, hlater]
    · subst hrest
      cases hcuts
      rfl
  | @token c u cs rest t ps hstep hcuts ih =>
    have hline : '\n' ∉ u := fun hmem =>
      hblock _ List.mem_cons_self (by simp) (List.mem_cons_of_mem c hmem)
    obtain ⟨hclass, hmode⟩ := labels_of_token hstep hline
    rw [classifyFrom_append, Option.or_none, hclass, hmode, List.flatMap_cons,
      ih (fun q hq => hblock q (List.mem_cons_of_mem _ hq)) hrest]

/-! ## What is shown of a piece -/

/-- Text of one class, its line breaks aside, shows or it does not. -/
theorem flatMap_maskedChar {f : Char → CharClass} {cs : List Char} :
    ((∀ c ∈ cs, f c = .code) → (cs.map fun c => (c, f c)).flatMap maskedChar = cs) ∧
      ((∀ c ∈ cs, f c ≠ .code ∨ c = '\n') →
        (cs.map fun c => (c, f c)).flatMap maskedChar = blanked cs) := by
  induction cs with
  | nil => exact ⟨fun _ => rfl, fun _ => rfl⟩
  | cons c cs ih =>
    simp only [List.forall_mem_cons]
    refine ⟨fun h => ?_, fun h => ?_⟩
    · rw [List.map_cons, List.flatMap_cons, ih.1 h.2, h.1]
      rfl
    · rw [List.map_cons, List.flatMap_cons, ih.2 h.2, maskedChar_eq_of_ne_code h.1, blanked_cons]

/-- The classes of a piece tell what is shown of it. -/
theorem Cuts.shown_eq {cs rest : List Char} {ps : List Piece} (h : Cuts cs ps rest) {q : Piece}
    (hq : q ∈ ps) : q.classified.flatMap maskedChar = q.shown := by
  induction h with
  | nil => simp at hq
  | @blank c u cs rest ps hstep hcuts ih =>
    rcases List.mem_cons.1 hq with rfl | hq
    · obtain ⟨hspace, rfl⟩ | ⟨rfl, hopen⟩ :
          (isSpace c = true ∧ u = []) ∨ c = '/' ∧ (u.head? = some '/' ∨ u.head? = some '*') := by
        obtain hspace | ⟨rfl, y, -, rfl | ⟨rfl, -⟩⟩ | ⟨rfl, w, rfl, -⟩ := blank_of_step hstep
        exacts [.inl hspace, .inr ⟨rfl, .inl rfl⟩, .inr ⟨rfl, .inl rfl⟩, .inr ⟨rfl, .inr rfl⟩]
      · rw [Piece.classified, flatMap_maskedChar.1 fun d _ => by simp [Piece.classOf]]
        simp [Piece.shown, isBlank, hspace]
      · obtain ⟨d, v, rfl⟩ : ∃ d v, u = d :: v := by
          rcases u with _ | ⟨d, v⟩
          · simp at hopen
          · exact ⟨d, v, rfl⟩
        have hdelimiter : d = '/' ∨ d = '*' := by simpa using hopen
        rw [Piece.classified, flatMap_maskedChar.2 fun e _ => ?_]
        · simp [Piece.shown, Piece.isCode, isBlank_cons, show isSpace '/' = false by decide]
        · rw [or_iff_not_imp_right]
          intro hne
          rcases hdelimiter with rfl | rfl <;> simp [Piece.classOf, hne]
    · exact ih hq
  | @token c u cs rest t ps hstep hcuts ih =>
    rcases List.mem_cons.1 hq with rfl | hq
    · have hspace := (step_eq_token hstep).1
      cases ht : t.isQuoted with
      | true =>
        rw [Piece.classified, flatMap_maskedChar.2 fun d _ => .inl (by simp [Piece.classOf, ht])]
        simp [Piece.shown, Piece.isCode, ht, isBlank_cons, hspace]
      | false =>
        rw [Piece.classified, flatMap_maskedChar.1 fun d _ => by simp [Piece.classOf, ht]]
        simp [Piece.shown, Piece.isCode, ht]
    · exact ih hq

/-- **The scanner shows the code of a text without text blocks**: what it shows of its pieces. -/
theorem Cuts.masked_eq {cs : List Char} {ps : List Piece} (h : Cuts cs ps [])
    (hblock : ∀ q ∈ ps, q.token ≠ none → '\n' ∉ q.text) : masked cs = ps.flatMap Piece.shown := by
  rw [masked, h.classify_eq hblock, List.flatMap_assoc]
  exact List.flatMap_congr fun q hq => h.shown_eq hq

theorem endMode_eq_modeAfter (mode : Mode) (cs : List Char) :
    endMode mode cs = modeAfter mode none cs := by
  induction cs generalizing mode with
  | nil => rfl
  | cons c cs ih => rw [endMode, modeAfter, ih, Option.or_none]

/-- **A text that ends in code is cut into the same pieces in front of a brace.** -/
theorem Cuts.before_brace {cs : List Char} {ps : List Piece} (h : Cuts cs ps [])
    (hblock : ∀ q ∈ ps, q.token ≠ none → '\n' ∉ q.text) (hend : endMode .code cs = .code)
    (X : List Char) : Cuts (cs ++ '}' :: X) ps ('}' :: X) := by
  rw [endMode_eq_modeAfter] at hend
  generalize hrest : ([] : List Char) = rest at h
  induction h with
  | nil =>
    subst hrest
    exact .nil _
  | @blank c u cs rest ps hstep hcuts ih =>
    have hlater := fun hend => ih (fun q hq => hblock q (List.mem_cons_of_mem _ hq)) hend hrest
    obtain ⟨-, hmode⟩ := labels_of_blank hstep
    rw [modeAfter_append, Option.or_none] at hend
    have hcode : modeAfter .code cs.head? (c :: u) = .code := by
      rcases hmode with hmode | ⟨rfl, hmode⟩
      · exact hmode
      · rw [hmode] at hend
        cases hend
    rw [hcode] at hend
    rw [List.append_assoc]
    refine .blank ?_ (hlater hend)
    obtain ⟨hspace, rfl⟩ | ⟨rfl, y, hy, rfl | ⟨rfl, rfl⟩⟩ | ⟨rfl, w, rfl, hcount⟩ :=
      blank_of_step hstep
    · rw [Lexer.step, if_pos hspace]
      rfl
    · exact step_lineComment_append hy _
    · rw [((enclosed_lineComment hy).labels _).2] at hcode
      cases hcode
    · rw [List.cons_append, step_blockComment (commentLength?_append hcount _)]
      rfl
  | @token c u cs rest t ps hstep hcuts ih =>
    have hlater := fun hend => ih (fun q hq => hblock q (List.mem_cons_of_mem _ hq)) hend hrest
    have hline : '\n' ∉ u := fun hmem =>
      hblock _ List.mem_cons_self (by simp) (List.mem_cons_of_mem c hmem)
    rw [modeAfter_append, Option.or_none, (labels_of_token hstep hline).2] at hend
    rw [List.append_assoc]
    refine .token (step_of_alike hstep ?_) (hlater hend)
    exact ⟨cs, [], '}' :: X, (List.append_nil _).symm, rfl, ledBy_nil, ledBy_cons rfl⟩

end Lexer

end SnippetRunner
