import SnippetRunner.Proofs.Scanning
import SnippetRunner.Proofs.Texts
import SnippetRunner.Statement.Fragment

/-!
# What cutting a body into statements keeps

One character of a body changes the statement being read in one of six ways (`Pending.Reads`), and
cutting a body is one such change after another (`splitFrom_cons`). From that:

* a statement has no comment left in it (`uncommented_of_mem_split`);
* a block whose brace does not close is cut into itself (`splitBody_of_isOpenBlock`).
-/

namespace SnippetRunner

open Text Scan

namespace Fragment

namespace Pending

variable {p q : Pending} {c : Char} {cls : CharClass}

/-- What one character finishes, and the state behind it. `rest` is the text that follows. -/
def advance (p : Pending) (c : Char) (cls : CharClass) (rest : List Char) :
    List Fragment × Pending :=
  if c = '\n' then
    if p.isTop && !goesOn p.text rest then (p.finish, p.clear.nextLine) else ([], p.pushBreak)
  else
    match cls with
    | .comment => ([], p)
    | .literal => ([], p.push c)
    | .code =>
      if c = '(' ∨ c = '[' then ([], { p.push c with parens := p.parens + 1 })
      else if c = ')' ∨ c = ']' then ([], { p.push c with parens := p.parens - 1 })
      else if c = '{' then ([], { p.push c with braces := p.braces + 1 })
      else if c = '}' then
        let p' := { p.push c with braces := p.braces - 1 }
        if p'.isTop && !isInitializer p'.text then (p'.finish, p'.clear) else ([], p')
      else if c = ';' ∧ p.isTop then (p.finish, p.clear)
      else ([], p.push c)

/-- What one character of a class can do to a statement while it is read: the statements it
finishes, and the state behind it. -/
inductive Reads (p : Pending) (c : Char) (cls : CharClass) : List Fragment → Pending → Prop
  | endLine : c = '\n' → Reads p c cls p.finish p.clear.nextLine
  | goOn : c = '\n' → Reads p c cls [] p.pushBreak
  | comment : c ≠ '\n' → cls = .comment → Reads p c cls [] p
  /-- One more character of the statement. -/
  | push (q : Pending) : c ≠ '\n' → cls ≠ .comment → q.read = (p.push c).read →
      q.start = (p.push c).start → q.line = p.line → Reads p c cls [] q
  /-- The last character of a statement that ends with a block. -/
  | close (q : Pending) : c ≠ '\n' → cls = .code → q.read = (p.push c).read →
      q.start = (p.push c).start → q.line = p.line → Reads p c cls q.finish q.clear
  | semicolon : c = ';' → cls = .code → Reads p c cls p.finish p.clear

theorem line_push (p : Pending) (c : Char) : (p.push c).line = p.line := by
  unfold push; split <;> rfl

@[simp] theorem text_pushBreak (p : Pending) : p.pushBreak.text = p.text ++ ['\n'] := by
  simp [text, Pending.pushBreak]

theorem isBlank_text (p : Pending) : isBlank p.text = isBlank p.read := List.all_reverse

theorem finish_of_isBlank (h : isBlank p.text = true) : p.finish = [] := by
  simp [finish, trim_eq_nil_iff.2 h]

theorem mem_finish {p : Pending} {f : Fragment} (h : f ∈ p.finish) :
    f = ⟨trim p.text, p.start⟩ := by
  unfold finish at h
  dsimp only at h
  split at h
  · simp at h
  · simpa using h

theorem finish_of_mem {p : Pending} {f : Fragment} (h : f ∈ p.finish) : p.finish = [f] := by
  unfold finish at h ⊢
  dsimp only at h ⊢
  split at h
  · cases h
  · next hkeep => rw [if_neg hkeep, List.mem_singleton.1 h]

/-- **One character does one of six things.** -/
theorem reads_advance (p : Pending) (c : Char) (cls : CharClass) (rest : List Char) :
    Reads p c cls (p.advance c cls rest).1 (p.advance c cls rest).2 := by
  unfold advance
  by_cases hc : c = '\n'
  · rw [if_pos hc]
    split
    · exact .endLine hc
    · exact .goOn hc
  rw [if_neg hc]
  cases cls with
  | comment => exact .comment hc rfl
  | literal => exact .push _ hc (by simp) rfl rfl (line_push p c)
  | code =>
    have hpush : ∀ parens braces : Nat,
        Reads p c .code [] { p.push c with parens := parens, braces := braces } :=
      fun _ _ => .push _ hc (by simp) rfl rfl (line_push p c)
    dsimp only
    split_ifs with h₁ h₂ h₃ h₄ h₅ h₆
    · exact hpush _ _
    · exact hpush _ _
    · exact hpush _ _
    · exact .close _ hc rfl rfl rfl (line_push p c)
    · exact hpush _ _
    · exact .semicolon h₆.1 rfl
    · exact hpush _ _

end Pending

open Pending

/-- Cutting a body takes one character after another. -/
theorem splitFrom_cons (mode : Mode) (p : Pending) (c : Char) (cs : List Char) :
    splitFrom mode p (c :: cs) =
      (p.advance c (mode.step c cs.head?).1 cs).1 ++
        splitFrom (mode.step c cs.head?).2 (p.advance c (mode.step c cs.head?).1 cs).2 cs := by
  by_cases hc : c = '\n'
  · simp only [splitFrom, Pending.advance, if_pos hc]
    split_ifs <;> rfl
  · simp only [splitFrom, Pending.advance, if_neg hc]
    cases (mode.step c cs.head?).1 with
    | comment | literal => rfl
    | code =>
      dsimp only
      split_ifs <;> rfl

/-- The statements of a text whose characters are classified. -/
def splitIn (p : Pending) : List (Char × CharClass) → List Fragment
  | [] => p.finish
  | (c, cls) :: rest =>
    (p.advance c cls (rest.map Prod.fst)).1 ++
      splitIn (p.advance c cls (rest.map Prod.fst)).2 rest

theorem splitFrom_eq_splitIn (mode : Mode) (p : Pending) (cs : List Char) :
    splitFrom mode p cs = splitIn p (classify mode cs) := by
  induction cs generalizing mode p with
  | nil => rfl
  | cons c cs ih => rw [splitFrom_cons, ih, classify, splitIn, map_fst_classify]

/-! ## Comments -/

/-- What is read of a statement scans, in front of what the rest of the text keeps, as it does in
the whole text; and there is no comment in it. -/
def Pending.Agrees (p : Pending) (mode : Mode) (cs : List Char) : Prop :=
  ∃ front : List (Char × CharClass),
    classify .code (p.text ++ keptText mode cs) = front ++ kept mode cs ∧
      front.map Prod.fst = p.text ∧ ∀ x ∈ front, x.2 ≠ .comment

namespace Pending

variable {p q : Pending} {mode : Mode} {c : Char} {cs : List Char}

theorem Agrees.uncommented_text (h : p.Agrees mode cs) : Uncommented .code p.text := by
  obtain ⟨front, hclass, hfront, hno⟩ := h
  exact uncommented_of_classify_append hclass hfront hno

theorem Agrees.uncommented_of_mem_finish (h : p.Agrees mode cs) {f : Fragment}
    (hf : f ∈ p.finish) : Uncommented .code f.text := by
  rw [mem_finish hf]
  exact h.uncommented_text.trim

theorem agrees_of_read_eq_nil (hread : p.read = []) (hmode : mode.settled = .code) :
    p.Agrees mode cs := by
  refine ⟨[], ?_, ?_, by simp⟩
  · rw [← hmode, text, hread]
    exact classify_keptText mode cs
  · simp [text, hread]

theorem Agrees.push (h : p.Agrees mode (c :: cs)) (hc : c ≠ '\n')
    (hcls : (mode.step c cs.head?).1 ≠ .comment) (hread : q.read = (p.push c).read) :
    q.Agrees (mode.step c cs.head?).2 cs := by
  obtain ⟨front, hclass, hfront, hno⟩ := h
  have hk : kept mode (c :: cs) =
      (c, (mode.step c cs.head?).1) :: kept (mode.step c cs.head?).2 cs := by
    simp [kept, hc, hcls]
  rw [keptText, hk, List.map_cons, ← keptText] at hclass
  by_cases hblank : isBlank p.read && !isSpace c
  · -- The white space read so far is dropped.
    have htext : q.text = [c] := by simp [text, hread, Pending.push, hblank]
    have hspaces : isBlank p.text = true := by
      rw [isBlank, text, List.all_reverse]
      exact ((Bool.and_eq_true _ _).mp hblank).1
    rw [classify_append_of_isBlank hspaces] at hclass
    have hlen : (p.text.map (·, CharClass.code)).length = front.length := by
      rw [List.length_map, ← hfront, List.length_map]
    refine ⟨[(c, (mode.step c cs.head?).1)], ?_, ?_, ?_⟩
    · rw [htext]
      exact (List.append_inj hclass hlen).2
    · simp [htext]
    · simpa using hcls
  · have htext : q.text = p.text ++ [c] := by simp [text, hread, Pending.push, hblank]
    refine ⟨front ++ [(c, (mode.step c cs.head?).1)], ?_, ?_, ?_⟩
    · rw [htext, List.append_assoc, List.append_assoc]
      exact hclass
    · simp [htext, hfront]
    · intro x hx
      rcases List.mem_append.1 hx with hx | hx
      · exact hno x hx
      · rw [List.mem_singleton.1 hx]
        exact hcls

theorem Agrees.pushBreak (h : p.Agrees mode ('\n' :: cs)) :
    p.pushBreak.Agrees (mode.step '\n' cs.head?).2 cs := by
  obtain ⟨front, hclass, hfront, hno⟩ := h
  have hk : kept mode ('\n' :: cs) = ('\n', .code) :: kept (mode.step '\n' cs.head?).2 cs := by
    simp [kept]
  rw [keptText, hk, List.map_cons, ← keptText] at hclass
  have htext : p.pushBreak.text = p.text ++ ['\n'] := by simp [text, Pending.pushBreak]
  refine ⟨front ++ [('\n', .code)], ?_, ?_, ?_⟩
  · rw [htext, List.append_assoc, List.append_assoc]
    exact hclass
  · simp [htext, hfront]
  · intro x hx
    rcases List.mem_append.1 hx with hx | hx
    · exact hno x hx
    · rw [List.mem_singleton.1 hx]
      simp

theorem Agrees.comment (h : p.Agrees mode (c :: cs)) (hc : c ≠ '\n')
    (hcls : (mode.step c cs.head?).1 = .comment) : p.Agrees (mode.step c cs.head?).2 cs := by
  have hk : kept mode (c :: cs) = kept (mode.step c cs.head?).2 cs := by simp [kept, hc, hcls]
  obtain ⟨front, hclass, hfront, hno⟩ := h
  rw [keptText, hk, ← keptText] at hclass
  exact ⟨front, hclass, hfront, hno⟩

end Pending

theorem uncommented_of_mem_splitFrom {mode : Mode} {p : Pending} {cs : List Char} {f : Fragment}
    (h : f ∈ splitFrom mode p cs) (hp : p.Agrees mode cs) : Uncommented .code f.text := by
  induction cs generalizing mode p with
  | nil => exact hp.uncommented_of_mem_finish h
  | cons c cs ih =>
    rw [splitFrom_cons] at h
    have hr := reads_advance p c (mode.step c cs.head?).1 cs
    generalize (p.advance c (mode.step c cs.head?).1 cs).1 = out at h hr
    generalize (p.advance c (mode.step c cs.head?).1 cs).2 = p' at h hr
    rcases List.mem_append.1 h with hout | hrest
    · cases hr with
      | endLine | semicolon => exact hp.uncommented_of_mem_finish hout
      | goOn | comment | push => simp at hout
      | close q hc hcls hread =>
        exact (hp.push hc (by simp [hcls]) hread).uncommented_of_mem_finish hout
    · refine ih hrest ?_
      cases hr with
      | endLine hc =>
        subst hc
        exact agrees_of_read_eq_nil rfl (settled_step_newline mode cs.head?)
      | goOn hc =>
        subst hc
        exact hp.pushBreak
      | comment hc hcls => exact hp.comment hc hcls
      | push q hc hcls hread => exact hp.push hc hcls hread
      | close q hc hcls =>
        exact agrees_of_read_eq_nil rfl (by rw [Mode.step_snd_of_code hcls]; rfl)
      | semicolon hc hcls =>
        exact agrees_of_read_eq_nil rfl (by rw [Mode.step_snd_of_code hcls]; rfl)

/-- **A statement has no comment left in it.** -/
theorem uncommented_of_mem_split {body : List Char} {line : Nat} {f : Fragment}
    (h : f ∈ split body line) : Uncommented .code f.text :=
  uncommented_of_mem_splitFrom h (agrees_of_read_eq_nil rfl rfl)

/-! ## Blocks -/

/-- A statement that is a block by its first and last characters, but whose opening brace no brace
in code closes. -/
def IsOpenBlock (f : Fragment) : Prop :=
  f.text.head? = some '{' ∧ f.text.getLast? = some '}' ∧ closing? '{' '}' f.text = none

instance (f : Fragment) : Decidable f.IsOpenBlock :=
  inferInstanceAs (Decidable (_ ∧ _ ∧ _))

namespace Pending

variable {p : Pending} {c : Char} {cls : CharClass}

theorem read_push (hp : isBlank p.read = false) : (p.push c).read = c :: p.read := by
  simp [push, hp]

theorem start_push (hp : isBlank p.read = false) : (p.push c).start = p.start := by
  simp [push, hp]

/-- The open braces behind a character. -/
def bracesAfter (c : Char) (cls : CharClass) (braces : Nat) : Nat :=
  if cls = .code ∧ c = '{' then braces + 1
  else if cls = .code ∧ c = '}' then braces - 1
  else braces

/-- While a brace is open and stays open, no character finishes a statement. -/
theorem advance_of_braces_ne_zero (hp : isBlank p.read = false) (hbraces : p.braces ≠ 0)
    (hcls : cls ≠ .comment) (hopen : bracesAfter c cls p.braces ≠ 0) (rest : List Char) :
    ∃ q, p.advance c cls rest = ([], q) ∧ q.read = c :: p.read ∧ q.start = p.start ∧
      q.braces = bracesAfter c cls p.braces := by
  have htop : p.isTop = false := by simp [isTop, hbraces]
  have hread := read_push (c := c) hp
  have hstart := start_push (c := c) hp
  have hkeep : (p.push c).braces = p.braces := by unfold push; split <;> rfl
  by_cases hc : c = '\n'
  · refine ⟨p.pushBreak, by simp [advance, hc, htop], by simp [pushBreak, hc], rfl, ?_⟩
    simp [bracesAfter, hc, pushBreak]
  cases cls with
  | comment => exact absurd rfl hcls
  | literal =>
    exact ⟨p.push c, by simp [advance, hc], hread, hstart, by simp [bracesAfter, hkeep]⟩
  | code =>
    simp only [advance, if_neg hc]
    split_ifs with h₁ h₂ h₃ h₄ h₅ h₆
    · refine ⟨_, rfl, hread, hstart, ?_⟩
      rcases h₁ with rfl | rfl <;> simp [bracesAfter, hkeep]
    · refine ⟨_, rfl, hread, hstart, ?_⟩
      rcases h₂ with rfl | rfl <;> simp [bracesAfter, hkeep]
    · exact ⟨_, rfl, hread, hstart, by simp [bracesAfter, h₃]⟩
    · simp only [bracesAfter, h₄] at hopen
      simp [isTop] at h₅
      simp at hopen
      omega
    · exact ⟨_, rfl, hread, hstart, by simp [bracesAfter, h₄]⟩
    · simp [htop] at h₆
    · exact ⟨_, rfl, hread, hstart, by simp [bracesAfter, h₃, h₄, hkeep]⟩

end Pending

/-- If the search for a closing brace fails, then it fails behind every character, and the depth is
never zero. -/
theorem closeFrom_cons_eq_none {mode : Mode} {depth : Nat} {c : Char} {cs : List Char}
    (hdepth : depth ≠ 0) (h : closeFrom '{' '}' depth mode (c :: cs) = none) :
    bracesAfter c (mode.step c cs.head?).1 depth ≠ 0 ∧
      closeFrom '{' '}' (bracesAfter c (mode.step c cs.head?).1 depth) (mode.step c cs.head?).2 cs =
        none := by
  simp only [closeFrom] at h
  unfold bracesAfter
  split_ifs at h ⊢ with h₁ h₂ h₃
  · exact ⟨by omega, Option.map_eq_none_iff.1 h⟩
  · exact ⟨by omega, Option.map_eq_none_iff.1 h⟩
  · exact ⟨hdepth, Option.map_eq_none_iff.1 h⟩

/-- A text in which a brace stays open up to the end belongs to one statement. -/
theorem splitFrom_of_closeFrom_eq_none {mode : Mode} {p : Pending} {cs : List Char}
    (hp : isBlank p.read = false) (hbraces : p.braces ≠ 0) (hno : Uncommented mode cs)
    (h : closeFrom '{' '}' p.braces mode cs = none) :
    ∃ q : Pending, splitFrom mode p cs = q.finish ∧ q.text = p.text ++ cs ∧ q.start = p.start := by
  induction cs generalizing mode p with
  | nil => exact ⟨p, rfl, by simp, rfl⟩
  | cons c cs ih =>
    obtain ⟨hopen, hrest⟩ := closeFrom_cons_eq_none hbraces h
    obtain ⟨hcls, hno'⟩ := uncommented_cons.1 hno
    obtain ⟨p', hadvance, hread, hstart, hbraces'⟩ :=
      advance_of_braces_ne_zero hp hbraces hcls hopen cs
    rw [← hbraces'] at hopen hrest
    have hblank : isBlank p'.read = false := by
      rw [hread]
      simp only [isBlank, List.all_cons, Bool.and_eq_false_iff]
      exact .inr hp
    obtain ⟨q, hq, htext, hqstart⟩ := ih hblank hopen hno' hrest
    refine ⟨q, ?_, ?_, hqstart.trans hstart⟩
    · rw [splitFrom_cons, hadvance, List.nil_append, hq]
    · rw [htext, Pending.text, Pending.text, hread]
      simp

/-- **A block that does not close is cut into itself.** -/
theorem splitBody_of_isOpenBlock {f : Fragment} (h : f.IsOpenBlock)
    (hno : Uncommented .code f.text) : splitBody f.text f.line = [f] := by
  obtain ⟨text, line⟩ := f
  obtain ⟨hhead, hlast, hclose⟩ := h
  dsimp only at hhead hlast hclose hno ⊢
  obtain ⟨rest, rfl⟩ := List.head?_eq_some_iff.1 hhead
  have hbrace : Mode.step .code '{' rest.head? = (.code, .code) := by simp [Mode.step]
  have htrim : trimStart ('{' :: rest) = '{' :: rest :=
    trimStart_eq_self (by simp [isSpace])
  have hopen : closeFrom '{' '}' 1 .code rest = none := by
    simpa [closing?, closeFrom, hbrace] using hclose
  have hno' : Uncommented .code rest := by
    simpa [uncommented_cons, hbrace] using hno
  have hsplit : splitBody ('{' :: rest) line = split ('{' :: rest) line := by
    simp [splitBody, htrim, hclose, newlines]
  rw [hsplit]
  let p : Pending := { (Pending.empty line).push '{' with braces := 1 }
  have hpush : (Pending.empty line).advance '{' .code rest = ([], p) := rfl
  obtain ⟨q, hq, htext, hstart⟩ :=
    splitFrom_of_closeFrom_eq_none (p := p) rfl Nat.one_ne_zero hno' hopen
  have hqtext : q.text = '{' :: rest := by rw [htext]; rfl
  have hqstart : q.start = line := by rw [hstart]; rfl
  have hqtrim : trim q.text = '{' :: rest := by
    rw [hqtext]
    refine trim_eq_self (by simp [isSpace]) ?_
    rw [hlast]
    simp [isSpace]
  have hfinish : q.finish = [⟨'{' :: rest, line⟩] := by
    simp [Pending.finish, hqtrim, hqstart, isSkipped]
  rw [split, splitFrom_cons, hbrace, hpush, List.nil_append, hq, hfinish]

example : IsOpenBlock ⟨"\x7b \"\x7d".toList, 1⟩ := by decide

theorem uncommented_of_mem_splitBody {body : List Char} {line : Nat} {g : Fragment}
    (h : g ∈ splitBody body line) : Uncommented .code g.text := by
  unfold splitBody at h
  dsimp only at h
  split at h
  · exact uncommented_of_mem_split h
  · exact uncommented_of_mem_split h

end Fragment

end SnippetRunner
