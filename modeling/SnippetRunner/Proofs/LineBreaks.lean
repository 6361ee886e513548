import SnippetRunner.Proofs.CodeWords
import SnippetRunner.Proofs.CommentSpace

/-!
# Line breaks inside of a statement

White space put into the text of an assignment (`spread`) keeps it one statement as long as the
statement goes on at every line break outside of all brackets, and a line break where it does not
go on cuts it short (`split_spread_eq_iff`).

* White space in code changes the class of no character (`classifyFrom_spread`) and opens no
  bracket (`parensIn_spreadIn`).
* A text without braces, comments and semicolons is read to its end as one statement, or it ends at
  its first line break that does not go on (`splitIn_eq_singleton_iff`).
-/

namespace SnippetRunner

open Text Scan

/-! ## White space put into a text -/

/-- The text that starts at byte `p`, with the white space that `gap` puts in front of the
characters at the byte positions. -/
def spread (gap : Nat → List Char) (p : Nat) : List Char → List Char
  | [] => []
  | c :: cs => gap p ++ c :: spread gap (p + c.utf8Size) cs

/-- The same for characters with their classes. What is put in is code. -/
def spreadIn (gap : Nat → List Char) (p : Nat) : List (Char × CharClass) → List (Char × CharClass)
  | [] => []
  | x :: xs => (gap p).map (·, .code) ++ x :: spreadIn gap (p + x.1.utf8Size) xs

/-- Whether the white space of a layout is put into code, and in front of something solid. -/
structure Spreads (gap : Nat → List Char) (e : List Char) : Prop where
  isBlank_gap (p : Nat) : isBlank (gap p) = true
  inCode {f : List Char} {c : Char} {g : List Char} :
    e = f ++ c :: g → gap (byteSize f) ≠ [] → modeAfter .code (some c) f = .code
  before_solid {f : List Char} {c : Char} {g : List Char} :
    e = f ++ c :: g → gap (byteSize f) ≠ [] → isBlank (c :: g) = false

section Layout

variable {gap : Nat → List Char} {mode : Mode} {xs : List (Char × CharClass)}

theorem spreadIn_append (p : Nat) (xs ys : List (Char × CharClass)) :
    spreadIn gap p (xs ++ ys) =
      spreadIn gap p xs ++ spreadIn gap (p + byteSize (xs.map Prod.fst)) ys := by
  induction xs generalizing p with
  | nil => rfl
  | cons x xs ih => simp [spreadIn, ih, Nat.add_assoc]

theorem map_fst_map_code (s : List Char) : (s.map (·, CharClass.code)).map Prod.fst = s := by
  simp [Function.comp_def]

theorem map_fst_spreadIn (p : Nat) (xs : List (Char × CharClass)) :
    (spreadIn gap p xs).map Prod.fst = spread gap p (xs.map Prod.fst) := by
  induction xs generalizing p with
  | nil => rfl
  | cons x xs ih =>
    rw [spreadIn, List.map_append, map_fst_map_code, List.map_cons, ih, List.map_cons, spread]

/-- Solid text stays solid. -/
theorem isBlank_spread {cs : List Char} {p : Nat} (h : isBlank cs = false) :
    isBlank (spread gap p cs) = false := by
  induction cs generalizing p with
  | nil => exact h
  | cons c cs ih =>
    rw [isBlank_cons, Bool.and_eq_false_iff] at h
    rw [spread, isBlank_append, Bool.and_eq_false_iff, isBlank_cons, Bool.and_eq_false_iff]
    exact .inr (h.imp_right ih)

theorem mem_spreadIn (hblank : ∀ p, isBlank (gap p) = true) {p : Nat} {x : Char × CharClass}
    (h : x ∈ spreadIn gap p xs) : x ∈ xs ∨ x.2 = .code ∧ isSpace x.1 = true := by
  induction xs generalizing p with
  | nil => exact absurd h List.not_mem_nil
  | cons y xs ih =>
    rw [spreadIn, List.mem_append, List.mem_cons] at h
    obtain hspace | rfl | h := h
    · obtain ⟨c, hc, rfl⟩ := List.mem_map.1 hspace
      exact .inr ⟨rfl, List.all_eq_true.1 (hblank p) c hc⟩
    · exact .inl List.mem_cons_self
    · exact (ih h).imp_left (List.mem_cons_of_mem y)

/-- A character in code or in a literal belongs to what it does, whatever is put in behind it. -/
theorem Scan.Mode.step_of_isSpace_next {c w : Char} {next : Option Char}
    (h : (mode.step c next).1 ≠ .comment) (hw : isSpace w = true) :
    mode.step c (some w) = mode.step c next := by
  obtain ⟨hslash, hstar⟩ := isPlain_of_isSpace hw
  cases mode with
  | code =>
    simp only [Mode.step] at h ⊢
    split_ifs at h ⊢ <;> simp_all
  | blockComment =>
    simp only [Mode.step] at h
    split_ifs at h <;> simp at h
  | _ => rfl

/-- What is behind a text does not matter, if it cannot be the second character of a delimiter. -/
theorem Scan.classifyFrom_eq_of_isPlain {next next' : Option Char} (h : IsPlain next)
    (h' : IsPlain next') (mode : Mode) (cs : List Char) :
    classifyFrom mode next cs = classifyFrom mode next' cs := by
  induction cs generalizing mode with
  | nil => rfl
  | cons c cs ih =>
    have hstep : mode.step c (cs.head?.or next) = mode.step c (cs.head?.or next') := by
      cases cs with
      | nil => exact step_eq_of_isPlain h h' mode c
      | cons d cs => rfl
    rw [classifyFrom, classifyFrom, hstep, ih]

/-- White space in code is code. -/
theorem Scan.labels_of_isBlank {s : List Char} (hs : isBlank s = true) :
    Labels .code s .code .code := by
  refine labels_code fun c hc => ?_
  have hspace := List.all_eq_true.1 hs c hc
  rw [Bool.eq_false_iff]
  intro hmark
  simp only [isMark, Bool.or_eq_true, decide_eq_true_eq] at hmark
  rcases hmark with (rfl | rfl) | rfl <;> exact absurd hspace (by decide)

/-- **White space in code changes the class of no character.** -/
theorem classifyFrom_spread {next : Option Char} {e : List Char} (p : Nat)
    (hno : ∀ x ∈ classifyFrom mode next e, x.2 ≠ .comment)
    (hblank : ∀ p, isBlank (gap p) = true)
    (hcode : ∀ f c g, e = f ++ c :: g → gap (p + byteSize f) ≠ [] →
      modeAfter mode (some c) f = .code) :
    classifyFrom mode next (spread gap p e) = spreadIn gap p (classifyFrom mode next e) ∧
      modeAfter mode next (spread gap p e) = modeAfter mode next e := by
  induction e generalizing mode p with
  | nil => exact ⟨rfl, rfl⟩
  | cons c cs ih =>
    have hno' : (mode.step c (cs.head?.or next)).1 ≠ .comment ∧
        ∀ x ∈ classifyFrom (mode.step c (cs.head?.or next)).2 next cs, x.2 ≠ .comment := by
      simpa [classifyFrom] using hno
    have hstep : mode.step c ((spread gap (p + c.utf8Size) cs).head?.or next) =
        mode.step c (cs.head?.or next) := by
      cases cs with
      | nil => rfl
      | cons d ds =>
        rw [spread]
        cases hgap : gap (p + c.utf8Size) with
        | nil => rfl
        | cons w ws =>
          have hw : isSpace w = true := by
            have hall := hblank (p + c.utf8Size)
            rw [hgap, isBlank_cons, Bool.and_eq_true] at hall
            exact hall.1
          exact Mode.step_of_isSpace_next hno'.1 hw
    obtain ⟨hclass, hmode⟩ := ih (p + c.utf8Size)
      hno'.2 fun f d g hcs hgap => by
        have hlater := hcode (c :: f) d g (by rw [hcs]; rfl)
          (by rwa [byteSize_cons, ← Nat.add_assoc])
        rwa [modeAfter, show f.head?.or (some d) = cs.head?.or next by
          rw [hcs]; cases f <;> rfl] at hlater
    have hrest : classifyFrom mode next (c :: spread gap (p + c.utf8Size) cs) =
          (c, (mode.step c (cs.head?.or next)).1) :: spreadIn gap (p + c.utf8Size)
            (classifyFrom (mode.step c (cs.head?.or next)).2 next cs) ∧
        modeAfter mode next (c :: spread gap (p + c.utf8Size) cs) =
          modeAfter mode next (c :: cs) := by
      rw [classifyFrom, modeAfter, hstep, hclass, hmode]
      exact ⟨rfl, rfl⟩
    have hspread : spreadIn gap p (classifyFrom mode next (c :: cs)) = (gap p).map (·, .code) ++
        classifyFrom mode next (c :: spread gap (p + c.utf8Size) cs) := by
      rw [hrest.1]
      rfl
    rw [spread, classifyFrom_append, modeAfter_append, hspread]
    cases hgap : gap p with
    | nil => exact ⟨rfl, hrest.2⟩
    | cons w ws =>
      have hmode : mode = .code := hcode [] c cs rfl (by simp [hgap])
      have hlabels := labels_of_isBlank (hgap ▸ hblank p)
      subst hmode
      rw [(hlabels _).1, (hlabels _).2]
      exact ⟨rfl, hrest.2⟩

/-- A line break in the layout of a text without one was put in. -/
theorem exists_of_spreadIn_newline {p : Nat} {a b : List (Char × CharClass)} {k : CharClass}
    (h : spreadIn gap p xs = a ++ ('\n', k) :: b) (hbreak : ∀ x ∈ xs, x.1 ≠ '\n') :
    ∃ ys x zs s s', xs = ys ++ x :: zs ∧
      gap (p + byteSize (ys.map Prod.fst)) = s ++ '\n' :: s' ∧
      a = spreadIn gap p ys ++ s.map (·, .code) ∧
      b = s'.map (·, .code) ++ x ::
        spreadIn gap (p + byteSize (ys.map Prod.fst) + x.1.utf8Size) zs := by
  induction xs generalizing p a with
  | nil => exact absurd h (by simp [spreadIn])
  | cons x xs ih =>
    rw [spreadIn] at h
    obtain ⟨a', ha, hb⟩ | ⟨c', hc, hb⟩ := List.append_eq_append_iff.1 h
    · -- the break is behind what is put in here, and `x` is no break
      cases a' with
      | nil =>
        obtain ⟨rfl, -⟩ := List.cons.inj hb
        exact absurd rfl (hbreak _ List.mem_cons_self)
      | cons y a' =>
        obtain ⟨rfl, hrest⟩ := List.cons.inj hb
        obtain ⟨ys, z, zs, s, s', rfl, hgap, rfl, rfl⟩ :=
          ih hrest fun z hz => hbreak z (List.mem_cons_of_mem _ hz)
        refine ⟨x :: ys, z, zs, s, s', rfl, ?_, ?_, ?_⟩
        · rw [List.map_cons, byteSize_cons, ← Nat.add_assoc, hgap]
        · rw [ha, spreadIn, List.append_assoc, List.cons_append]
        · rw [List.map_cons, byteSize_cons, ← Nat.add_assoc]
    · cases c' with
      | nil =>
        obtain ⟨rfl, -⟩ := List.cons.inj hb
        exact absurd rfl (hbreak _ List.mem_cons_self)
      | cons y c' =>
        obtain ⟨rfl, rfl⟩ := List.cons.inj hb
        obtain ⟨s, t, hgap, hs, ht⟩ := List.map_eq_append_iff.1 hc
        obtain ⟨d, s', rfl, hd, hs'⟩ := List.map_eq_cons_iff.1 ht
        obtain rfl : d = '\n' := congrArg Prod.fst hd
        exact ⟨[], x, xs, s, s', rfl, by simpa using hgap, by simp [spreadIn, hs],
          by simp [hs']⟩

end Layout

namespace Fragment

/-! ## Open brackets -/

/-- The parentheses and brackets that are open behind characters. -/
def parensIn (parens : Nat) (xs : List (Char × CharClass)) : Nat :=
  xs.foldl (fun parens x => parensAfter x.1 x.2 parens) parens

/-- The parentheses and brackets that a text leaves open. -/
def openIn (cs : List Char) : Nat := parensIn 0 (classify .code cs)

theorem parensIn_append (parens : Nat) (xs ys : List (Char × CharClass)) :
    parensIn parens (xs ++ ys) = parensIn (parensIn parens xs) ys := List.foldl_append

/-- Whether a character is neither a parenthesis nor a bracket in code. -/
def IsFlat (x : Char × CharClass) : Prop :=
  x.2 = .code → x.1 ≠ '(' ∧ x.1 ≠ ')' ∧ x.1 ≠ '[' ∧ x.1 ≠ ']'

theorem parensAfter_of_isFlat {x : Char × CharClass} (h : IsFlat x) (parens : Nat) :
    parensAfter x.1 x.2 parens = parens := by
  unfold parensAfter
  by_cases hx : x.2 = .code
  · simp [h hx]
  · simp [hx]

theorem parensIn_of_isFlat {xs : List (Char × CharClass)} (h : ∀ x ∈ xs, IsFlat x)
    (parens : Nat) : parensIn parens xs = parens := by
  induction xs generalizing parens with
  | nil => rfl
  | cons x xs ih =>
    rw [parensIn, List.foldl_cons, parensAfter_of_isFlat (h x List.mem_cons_self)]
    exact ih (fun y hy => h y (List.mem_cons_of_mem x hy)) parens

theorem isFlat_of_isSpace {c : Char} (h : isSpace c = true) (cls : CharClass) :
    IsFlat (c, cls) := by
  intro _
  refine ⟨?_, ?_, ?_, ?_⟩ <;> rintro rfl <;> exact absurd h (by decide)

theorem parensIn_map_code_of_isBlank {s : List Char} (hs : isBlank s = true) (parens : Nat) :
    parensIn parens (s.map (·, .code)) = parens := by
  refine parensIn_of_isFlat (fun x hx => ?_) parens
  obtain ⟨c, hc, rfl⟩ := List.mem_map.1 hx
  exact isFlat_of_isSpace (List.all_eq_true.1 hs c hc) .code

/-- White space opens and closes nothing. -/
theorem parensIn_spreadIn {gap : Nat → List Char} (hblank : ∀ p, isBlank (gap p) = true)
    (p parens : Nat) (xs : List (Char × CharClass)) :
    parensIn parens (spreadIn gap p xs) = parensIn parens xs := by
  induction xs generalizing p parens with
  | nil => rfl
  | cons x xs ih =>
    rw [spreadIn, parensIn_append, parensIn_map_code_of_isBlank (hblank p), parensIn,
      List.foldl_cons]
    exact ih _ _

/-! ## One statement -/

/-- Whether a character neither ends a statement nor opens a block, and is no comment. -/
def IsInner (x : Char × CharClass) : Prop :=
  x.2 ≠ .comment ∧ (x.2 = .code → x.1 ≠ ';' ∧ x.1 ≠ '{' ∧ x.1 ≠ '}')

theorem isInner_of_isSpace {c : Char} {cls : CharClass} (h : isSpace c = true)
    (hcls : cls ≠ .comment) : IsInner (c, cls) := by
  refine ⟨hcls, fun _ => ⟨?_, ?_, ?_⟩⟩ <;> rintro rfl <;> exact absurd h (by decide)

namespace Pending

variable {p : Pending} {c : Char} {cls : CharClass}

theorem advance_newline (p : Pending) (cls : CharClass) (rest : List Char) :
    p.advance '\n' cls rest =
      if p.isTop && !goesOn p.text rest then (p.finish, p.clear.nextLine) else ([], p.pushBreak) :=
  rfl

/-- Such a character is read, unless it is a line break. -/
theorem advance_of_isInner (hc : c ≠ '\n') (h : IsInner (c, cls)) (rest : List Char) :
    ∃ q, p.advance c cls rest = ([], q) ∧ q.text = (p.push c).text ∧
      q.start = (p.push c).start ∧ q.parens = parensAfter c cls p.parens ∧ q.braces = p.braces := by
  obtain ⟨hcomment, hends⟩ := h
  obtain ⟨hparens, hbraces⟩ := brackets_advance p c cls rest
  have hbraces' : bracesAfter c cls p.braces = p.braces := by
    unfold bracesAfter
    by_cases hcode : cls = .code
    · simp [hends hcode]
    · simp [hcode]
  have hreads : ∃ q, p.advance c cls rest = ([], q) ∧ q.text = (p.push c).text ∧
      q.start = (p.push c).start := by
    unfold advance
    rw [if_neg hc]
    cases cls with
    | comment => exact absurd rfl hcomment
    | literal => exact ⟨_, rfl, rfl, rfl⟩
    | code =>
      obtain ⟨hsemicolon, hopen, hclose⟩ := hends rfl
      simp only at hsemicolon hopen hclose
      simp only [hsemicolon, hopen, hclose, false_and, if_false]
      split_ifs <;> exact ⟨_, rfl, rfl, rfl⟩
  obtain ⟨q, hq, htext, hstart⟩ := hreads
  rw [hq] at hparens hbraces
  exact ⟨q, hq, htext, hstart, hparens, hbraces.trans hbraces'⟩

end Pending

open Pending

theorem isSkipped_of_isPrefix {a b : List Char} (h : a <+: b) (hskip : isSkipped a = true) :
    isSkipped b = true := by
  obtain ⟨tail, rfl⟩ := h
  simp only [isSkipped, Bool.or_eq_true, decide_eq_true_eq, List.isPrefixOf_iff_prefix] at hskip ⊢
  obtain (himport | hpackage) | hat := hskip
  · exact .inl (.inl (himport.trans (List.prefix_append a tail)))
  · exact .inl (.inr (hpackage.trans (List.prefix_append a tail)))
  · obtain ⟨rest, rfl⟩ := List.head?_eq_some_iff.1 hat
    exact .inr rfl

/-- What is read of a statement that starts with a solid character is a statement, if the whole of
it is one. -/
theorem Pending.finish_eq {p : Pending} {more : List Char}
    (hhead : ∃ c ∈ p.text.head?, isSpace c = false)
    (hskip : isSkipped (p.text ++ more) = false) : p.finish = [⟨trim p.text, p.start⟩] := by
  obtain ⟨c, hc, hspace⟩ := hhead
  obtain ⟨rest, htext⟩ := List.head?_eq_some_iff.1 hc
  have hblank : isBlank p.text = false := by
    rw [htext, isBlank_cons, hspace]
    rfl
  have hlead : trim p.text <+: p.text ++ more := by
    rw [trim, trimStart_eq_self (by simpa [htext] using hspace)]
    exact (trimEnd_isPrefix _).trans (List.prefix_append _ _)
  have hstatement : isSkipped (trim p.text) = false := by
    rw [Bool.eq_false_iff]
    intro hskipped
    rw [isSkipped_of_isPrefix hlead hskipped] at hskip
    exact Bool.false_ne_true hskip.symm
  simp [finish, isEmpty_trim, hblank, hstatement]

/-- A statement that ends in front of something solid is not all of the text. -/
theorem finish_append_ne {p : Pending} {more : List Char}
    (hfinish : p.finish = [⟨trim p.text, p.start⟩]) (hmore : isBlank more = false)
    (out : List Fragment) : p.finish ++ out ≠ [⟨trim (p.text ++ more), p.start⟩] := by
  intro h
  rw [hfinish, List.cons_append, List.cons.injEq, Fragment.mk.injEq] at h
  have hsolid := congrArg solid h.1.1
  rw [solid_trim, solid_trim, solid_append, List.self_eq_append_right, solid_eq_nil_iff,
    hmore] at hsolid
  exact Bool.false_ne_true hsolid

/-- Such characters without line breaks are read one behind another. -/
theorem splitIn_append_of_isInner {p : Pending} {hs : List (Char × CharClass)}
    (hp : isBlank p.text = false) (hinner : ∀ x ∈ hs, IsInner x ∧ x.1 ≠ '\n')
    (xs : List (Char × CharClass)) :
    ∃ q, splitIn p (hs ++ xs) = splitIn q xs ∧ q.text = p.text ++ hs.map Prod.fst ∧
      q.start = p.start ∧ q.parens = parensIn p.parens hs ∧ q.braces = p.braces := by
  induction hs generalizing p with
  | nil => exact ⟨p, rfl, by simp, rfl, rfl, rfl⟩
  | cons x hs ih =>
    obtain ⟨⟨hx, hbreak⟩, hhs⟩ := List.forall_mem_cons.1 hinner
    obtain ⟨q, hq, htext, hstart, hparens, hbraces⟩ :=
      advance_of_isInner (p := p) hbreak hx ((hs ++ xs).map Prod.fst)
    obtain ⟨hptext, hpstart⟩ := Pending.text_push (r := p) (c := x.1) (.inl hp)
    obtain ⟨r, hr, hrtext, hrstart, hrparens, hrbraces⟩ :=
      ih (p := q) (by rw [htext, hptext, isBlank_append, hp, Bool.false_and]) hhs
    refine ⟨r, ?_, ?_, hrstart.trans (hstart.trans hpstart), ?_, hrbraces.trans hbraces⟩
    · rw [List.cons_append, splitIn, hq, List.nil_append, hr]
    · rw [hrtext, htext, hptext, List.map_cons, List.append_assoc]
      rfl
    · rw [hrparens, hparens]
      rfl

theorem forall_append_cons_iff {α : Type} {P : List α → α → List α → Prop} {x : α}
    {xs : List α} :
    (∀ a y b, x :: xs = a ++ y :: b → P a y b) ↔
      P [] x xs ∧ ∀ a y b, xs = a ++ y :: b → P (x :: a) y b := by
  refine ⟨fun h => ⟨h [] x xs rfl, fun a y b hxs => h (x :: a) y b (by rw [hxs]; rfl)⟩, ?_⟩
  rintro ⟨hhead, htail⟩ (_ | ⟨z, a⟩) y b hxs
  · obtain ⟨rfl, rfl⟩ := List.cons.inj hxs
    exact hhead
  · obtain ⟨rfl, rfl⟩ := List.cons.inj hxs
    exact htail a y b rfl

/-- Whether a statement goes on at all line breaks among the characters that follow it. -/
def Carried (p : Pending) (xs : List (Char × CharClass)) : Prop :=
  ∀ a x b, xs = a ++ x :: b → x.1 = '\n' →
    parensIn p.parens a ≠ 0 ∨ goesOn (p.text ++ a.map Prod.fst) (b.map Prod.fst ++ [';']) = true

theorem carried_cons {p q : Pending} {x : Char × CharClass} {xs : List (Char × CharClass)}
    (htext : q.text = p.text ++ [x.1]) (hparens : q.parens = parensAfter x.1 x.2 p.parens) :
    Carried p (x :: xs) ↔ (x.1 = '\n' →
      p.parens ≠ 0 ∨ goesOn p.text (xs.map Prod.fst ++ [';']) = true) ∧ Carried q xs := by
  unfold Carried
  rw [forall_append_cons_iff]
  simp only [htext, hparens, List.map_nil, List.append_nil, List.map_cons, List.append_assoc,
    List.singleton_append]
  rfl

/-- A semicolon outside of brackets ends the statement. -/
theorem splitIn_semicolon {p : Pending} (hhead : ∃ c ∈ p.text.head?, isSpace c = false)
    (hskip : isSkipped p.text = false) (htop : p.isTop = true) :
    splitIn p [(';', .code)] = [⟨trim p.text, p.start⟩] := by
  have hadvance : p.advance ';' .code [] = (p.finish, p.clear) := by
    simp [Pending.advance, htop]
  have hskip' : isSkipped (p.text ++ []) = false := by rwa [List.append_nil]
  rw [splitIn, List.map_nil, hadvance, splitIn, finish_of_isBlank (p := p.clear) rfl,
    List.append_nil, Pending.finish_eq hhead hskip']

/-- At a line break a text is one statement if it goes on there and is one statement with the break
in it. -/
theorem splitIn_newline_eq_singleton_iff {p : Pending} {cls : CharClass}
    {xs : List (Char × CharClass)} (hhead : ∃ c ∈ p.text.head?, isSpace c = false)
    (hskip : isSkipped (p.text ++ '\n' :: xs.map Prod.fst) = false) (hbraces : p.braces = 0)
    (hsolid : isBlank (xs.map Prod.fst) = false)
    (hnext : splitIn p.pushBreak (xs ++ [(';', .code)]) =
      [⟨trim (p.text ++ '\n' :: xs.map Prod.fst), p.start⟩] ↔ Carried p.pushBreak xs) :
    splitIn p (('\n', cls) :: (xs ++ [(';', .code)])) =
      [⟨trim (p.text ++ '\n' :: xs.map Prod.fst), p.start⟩] ↔ Carried p (('\n', cls) :: xs) := by
  have hparens : p.pushBreak.parens = parensAfter '\n' cls p.parens := by
    simp [parensAfter, pushBreak]
  have hrest : (xs ++ [(';', CharClass.code)]).map Prod.fst = xs.map Prod.fst ++ [';'] := by simp
  have htop : p.isTop = decide (p.parens = 0) := by simp [isTop, hbraces]
  rw [splitIn, carried_cons (text_pushBreak p) hparens, ← hnext, advance_newline, hrest]
  by_cases hgo : p.parens ≠ 0 ∨ goesOn p.text (xs.map Prod.fst ++ [';']) = true
  · have hstays : (p.isTop && !goesOn p.text (xs.map Prod.fst ++ [';'])) = false := by
      rw [htop]
      obtain hopen | hgoes := hgo
      · simp [hopen]
      · simp [hgoes]
    rw [hstays]
    exact (and_iff_right fun _ => hgo).symm
  · -- the statement ends here, in front of something solid
    have hends : (p.isTop && !goesOn p.text (xs.map Prod.fst ++ [';'])) = true := by
      rw [not_or, not_not] at hgo
      simp [htop, hgo.1, hgo.2]
    rw [hends]
    refine iff_of_false ?_ fun h => hgo (h.1 rfl)
    refine finish_append_ne (finish_eq hhead hskip) ?_ _
    rw [isBlank_cons, hsolid, Bool.and_false]

/-- **A text without braces and comments in front of a semicolon is one statement exactly if it
goes on at every line break.** -/
theorem splitIn_eq_singleton_iff {p : Pending} {xs : List (Char × CharClass)}
    (hhead : ∃ c ∈ p.text.head?, isSpace c = false)
    (hskip : isSkipped (p.text ++ xs.map Prod.fst) = false) (hbraces : p.braces = 0)
    (hinner : ∀ x ∈ xs, IsInner x) (hend : parensIn p.parens xs = 0)
    (hsolid : ∀ a x b, xs = a ++ x :: b → x.1 = '\n' → isBlank (b.map Prod.fst) = false) :
    splitIn p (xs ++ [(';', .code)]) = [⟨trim (p.text ++ xs.map Prod.fst), p.start⟩] ↔
      Carried p xs := by
  induction xs generalizing p with
  | nil =>
    rw [List.map_nil, List.append_nil] at hskip ⊢
    have htop : p.isTop = true := by simpa [isTop, hbraces, parensIn] using hend
    exact iff_of_true (splitIn_semicolon hhead hskip htop) fun a x b h => absurd h (by simp)
  | cons x xs ih =>
    obtain ⟨c, cls⟩ := x
    obtain ⟨hx, hxs⟩ := List.forall_mem_cons.1 hinner
    obtain ⟨hsolidx, hsolidxs⟩ := forall_append_cons_iff.1 hsolid
    obtain ⟨d, hd, hdspace⟩ := hhead
    obtain ⟨t, ht⟩ := List.head?_eq_some_iff.1 hd
    -- one more character of the statement
    have hread {q : Pending} (htext : q.text = p.text ++ [c]) (hstart : q.start = p.start)
        (hparens : q.parens = parensAfter c cls p.parens) (hq : q.braces = p.braces) :
        splitIn q (xs ++ [(';', .code)]) =
          [⟨trim (p.text ++ ((c, cls) :: xs).map Prod.fst), p.start⟩] ↔ Carried q xs := by
      have hwhole : q.text ++ xs.map Prod.fst = p.text ++ ((c, cls) :: xs).map Prod.fst := by
        simp [htext]
      rw [← hwhole, ← hstart]
      refine ih ⟨d, by simp [htext, ht], hdspace⟩ (by rw [hwhole]; exact hskip)
        (hq.trans hbraces) hxs ?_ hsolidxs
      rw [hparens]
      exact hend
    by_cases hc : c = '\n'
    · subst hc
      exact splitIn_newline_eq_singleton_iff ⟨d, hd, hdspace⟩ hskip hbraces (hsolidx rfl)
        (hread (text_pushBreak p) rfl (by simp [parensAfter, pushBreak]) rfl)
    · have hblank : isBlank p.text = false := by
        rw [ht, isBlank_cons, hdspace]
        rfl
      obtain ⟨q, hq, htext, hstart, hparens, hqbraces⟩ :=
        advance_of_isInner (p := p) hc hx ((xs ++ [(';', CharClass.code)]).map Prod.fst)
      obtain ⟨hptext, hpstart⟩ := Pending.text_push (r := p) (c := c) (.inl hblank)
      rw [List.cons_append, splitIn, hq, List.nil_append, carried_cons (htext.trans hptext) hparens,
        hread (htext.trans hptext) (hstart.trans hpstart) hparens hqbraces]
      exact (and_iff_right fun h => absurd h hc).symm

/-! ## Assignments -/

/-- White space in front of the next line does not matter to whether a text goes on. -/
theorem goesOn_isBlank_append {s : List Char} (hs : isBlank s = true) (t rest : List Char) :
    goesOn t (s ++ rest) = goesOn t rest := by
  rw [goesOn_eq_of_code, goesOn_eq_of_code, skipToCode_of_isBlank_append hs]

/-- A character that is in a class is none of those outside of it. -/
theorem ne_of_isIn {isIn : Char → Bool} {c d : Char} (h : isIn c = true) (hd : isIn d = false) :
    c ≠ d := by
  rintro rfl
  rw [h] at hd
  exact Bool.false_ne_true hd.symm

theorem isInner_of_isIdentPart {c : Char} (h : isIdentPart c = true) :
    IsInner (c, .code) ∧ c ≠ '\n' ∧ IsFlat (c, .code) := by
  have hne {d : Char} (hd : isIdentPart d = false) : c ≠ d := ne_of_isIn h hd
  exact ⟨⟨nofun, fun _ => ⟨hne (by decide), hne (by decide), hne (by decide)⟩⟩, hne (by decide),
    fun _ => ⟨hne (by decide), hne (by decide), hne (by decide), hne (by decide)⟩⟩

/-- An assignment to what is no reserved word is a statement. -/
theorem isSkipped_assignment {x : List Char} (hx : isIdentifier x = true)
    (hword : Keyword.ofText? (String.ofList x) = none) (rest : List Char) :
    isSkipped (x ++ ' ' :: rest) = false := by
  have hrun (word rest' : List Char) (hw : word.all isIdentPart = true)
      (h : word ++ ' ' :: rest' = x ++ ' ' :: rest) : word = x := by
    have htake (w r : List Char) (hw : w.all isIdentPart = true) :
        (w ++ ' ' :: r).takeWhile isIdentPart = w := by
      rw [List.takeWhile_append_of_pos (List.all_eq_true.1 hw)]
      exact List.append_nil w
    rw [← htake word rest' hw, h, htake x rest (all_of_isIdentifier hx)]
  rw [Bool.eq_false_iff]
  intro hskip
  simp only [isSkipped, Bool.or_eq_true, decide_eq_true_eq, List.isPrefixOf_iff_prefix] at hskip
  obtain (⟨tail, htail⟩ | ⟨tail, htail⟩) | hat := hskip
  · obtain rfl := hrun "import".toList tail (by decide) htail
    exact absurd hword (by decide)
  · obtain rfl := hrun "package".toList tail (by decide) htail
    exact absurd hword (by decide)
  · obtain ⟨c, cs, rfl, hc, -⟩ := exists_cons_of_isIdentifier hx
    obtain rfl : c = '@' := Option.some.inj hat
    exact absurd hc (by decide)

/-- What stands in front of the value in an assignment. -/
def target (x : List Char) : List Char := x ++ " = ".toList

/-- The state in which the value of an assignment is read. -/
theorem splitIn_target {x : List Char} (hx : isIdentifier x = true) (line : Nat)
    (xs : List (Char × CharClass)) :
    ∃ q, splitIn (.empty line) ((target x).map (·, .code) ++ xs) = splitIn q xs ∧
      q.text = target x ∧ q.start = line ∧ q.parens = 0 ∧ q.braces = 0 := by
  obtain ⟨c, cs, rfl, hc, hcs⟩ := exists_cons_of_isIdentifier hx
  have hpart := isIdentPart_of_isIdentStart hc
  obtain ⟨hinner, hbreak, hflat⟩ := isInner_of_isIdentPart hpart
  have hmore : ∀ y ∈ (cs ++ " = ".toList).map (·, CharClass.code),
      (IsInner y ∧ y.1 ≠ '\n') ∧ IsFlat y := by
    intro y hy
    obtain ⟨d, hd, rfl⟩ := List.mem_map.1 hy
    rcases List.mem_append.1 hd with hd | hd
    · obtain ⟨hinner, hbreak, hflat⟩ := isInner_of_isIdentPart (List.all_eq_true.1 hcs d hd)
      exact ⟨⟨hinner, hbreak⟩, hflat⟩
    · obtain rfl | rfl : d = ' ' ∨ d = '=' := by
        have hall : " = ".toList.all (fun d => d = ' ' || d = '=') = true := by decide
        simpa using List.all_eq_true.1 hall d hd
      all_goals simp [IsInner, IsFlat]
  obtain ⟨p, hp, htext, hstart, hparens, hbraces⟩ :=
    advance_of_isInner (p := .empty line) hbreak hinner
      (((cs ++ " = ".toList).map (·, CharClass.code) ++ xs).map Prod.fst)
  obtain ⟨hpush, hline⟩ := text_push_of_isBlank (r := .empty line) rfl
    (Lexer.isSpace_of_isIdentPart hpart)
  obtain ⟨q, hq, hqtext, hqstart, hqparens, hqbraces⟩ := splitIn_append_of_isInner (p := p)
    (by rw [htext, hpush, isBlank_cons, Lexer.isSpace_of_isIdentPart hpart, Bool.false_and])
    (fun y hy => (hmore y hy).1) xs
  refine ⟨q, ?_, ?_, hqstart.trans (hstart.trans hline), ?_, hqbraces.trans hbraces⟩
  · rw [← hq, target, List.cons_append, List.map_cons, List.cons_append, splitIn, hp,
      List.nil_append]
  · rw [hqtext, htext, hpush, map_fst_map_code]
    rfl
  · rw [hqparens, parensIn_of_isFlat fun y hy => (hmore y hy).2, hparens,
      parensAfter_of_isFlat hflat]
    rfl

theorem labels_target {x : List Char} (hx : isIdentifier x = true) :
    Labels .code (target x) .code .code := by
  have hassign : " = ".toList.all (fun c => !isMark c) = true := by decide
  refine (labels_code fun c hc => ?_).append (labels_code fun c hc => ?_)
  · exact isMark_of_isIdentPart (List.all_eq_true.1 (all_of_isIdentifier hx) c hc)
  · simpa using List.all_eq_true.1 hassign c hc

section Assignment

variable {gap : Nat → List Char} {x e : List Char}

/-- The classes of the front of an assignment whose value is laid out. -/
theorem classifyFrom_target_spread (hx : isIdentifier x = true) {next : Option Char}
    (hno : ∀ y ∈ classifyFrom .code next e, y.2 ≠ .comment)
    (hblank : ∀ p, isBlank (gap p) = true)
    (hcode : ∀ f c g, e = f ++ c :: g → gap (byteSize f) ≠ [] →
      modeAfter .code (some c) f = .code) :
    classifyFrom .code next (target x ++ spread gap 0 e) =
        (target x).map (·, .code) ++ spreadIn gap 0 (classifyFrom .code next e) ∧
      modeAfter .code next (target x ++ spread gap 0 e) = modeAfter .code next e := by
  obtain ⟨hspread, hmode⟩ := classifyFrom_spread 0 hno hblank fun f c g he hne =>
    hcode f c g he (by rwa [Nat.zero_add] at hne)
  obtain ⟨htarget, htargetMode⟩ := labels_target hx ((spread gap 0 e).head?.or next)
  rw [classifyFrom_append, modeAfter_append, htarget, htargetMode, hspread, hmode]
  exact ⟨rfl, rfl⟩

/-- A semicolon behind a text that ends in code changes no class. -/
theorem classifyFrom_semicolon (hmode : modeAfter .code none e = .code) :
    classifyFrom .code (some ';') e = classify .code e ∧
      modeAfter .code (some ';') e = .code := by
  have hplain : IsPlain (some ';') := ⟨by decide, by decide⟩
  rw [classify_eq_classifyFrom, (maskFrom_eq_of_isPlain hplain isPlain_none .code e).2]
  exact ⟨classifyFrom_eq_of_isPlain hplain isPlain_none .code e, hmode⟩

/-- The classes of an assignment whose value is laid out. -/
theorem classify_assignment (hx : isIdentifier x = true)
    (hinner : ∀ y ∈ classify .code e, IsInner y) (hmode : modeAfter .code none e = .code)
    (hgap : Spreads gap e) :
    classify .code (target x ++ spread gap 0 e ++ [';']) =
      (target x).map (·, .code) ++ (spreadIn gap 0 (classify .code e) ++ [(';', .code)]) := by
  obtain ⟨hclass, hend⟩ := classifyFrom_semicolon hmode
  have hno : ∀ y ∈ classifyFrom .code (some ';') e, y.2 ≠ .comment :=
    fun y hy => (hinner y (hclass ▸ hy)).1
  obtain ⟨hspread, hspreadMode⟩ :=
    classifyFrom_target_spread hx hno hgap.isBlank_gap fun _ _ _ => hgap.inCode
  rw [classify_eq_classifyFrom, classifyFrom_append]
  simp only [List.head?_cons, Option.some_or]
  rw [hspread, hspreadMode, hclass, hend, List.append_assoc]
  rfl

/-- What goes on at the line breaks of the layout, seen from the text itself. -/
theorem carried_spreadIn_iff {p : Pending} (hinner : ∀ y ∈ classify .code e, IsInner y)
    (hbreak : '\n' ∉ e) (hgap : Spreads gap e) (hparens : p.parens = 0) :
    Carried p (spreadIn gap 0 (classify .code e)) ↔
      ∀ f c g, e = f ++ c :: g → '\n' ∈ gap (byteSize f) → openIn f ≠ 0 ∨
        goesOn (p.text ++ spread gap 0 f)
          (c :: spread gap (byteSize f + c.utf8Size) g ++ [';']) = true := by
  have hfst : (classify .code e).map Prod.fst = e := map_fst_classify .code e
  generalize hxs : classify .code e = xs at hinner hfst ⊢
  subst hfst
  -- the same place in the layout and in the text
  have hplace {ys zs : List (Char × CharClass)} {y : Char × CharClass} {s s' : List Char}
      (hcut : xs = ys ++ y :: zs) (hs : gap (byteSize (ys.map Prod.fst)) = s ++ '\n' :: s') :
      (parensIn p.parens (spreadIn gap 0 ys ++ s.map (·, .code)) ≠ 0 ∨
        goesOn (p.text ++ (spreadIn gap 0 ys ++ s.map (·, CharClass.code)).map Prod.fst)
          ((s'.map (·, CharClass.code) ++ y ::
            spreadIn gap (byteSize (ys.map Prod.fst) + y.1.utf8Size) zs).map Prod.fst ++
              [';']) = true) ↔
      (openIn (ys.map Prod.fst) ≠ 0 ∨ goesOn (p.text ++ spread gap 0 (ys.map Prod.fst))
        (y.1 :: spread gap (byteSize (ys.map Prod.fst) + y.1.utf8Size) (zs.map Prod.fst) ++
          [';']) = true) := by
    have hblank := hgap.isBlank_gap (byteSize (ys.map Prod.fst))
    rw [hs, isBlank_append, isBlank_cons, Bool.and_eq_true, Bool.and_eq_true] at hblank
    have hfront : classify .code (ys.map Prod.fst) = ys := by
      have hwhole : classify .code (ys.map Prod.fst ++ y.1 :: zs.map Prod.fst) = ys ++ y :: zs := by
        rw [hcut] at hxs
        simpa using hxs
      exact classify_of_append hwhole rfl fun z hz => (hinner z (by simp [hcut, hz])).1
    rw [hparens, parensIn_append, parensIn_spreadIn hgap.isBlank_gap,
      parensIn_map_code_of_isBlank hblank.1, openIn, hfront, List.map_append, map_fst_spreadIn,
      map_fst_map_code, ← List.append_assoc, goesOn_append_of_isBlank hblank.1, List.map_append,
      map_fst_map_code, List.append_assoc, goesOn_isBlank_append hblank.2.2, List.map_cons,
      map_fst_spreadIn]
  constructor
  · intro h f c g hcut hmem
    obtain ⟨ys, yzs, hys, rfl, hyzs⟩ := List.map_eq_append_iff.1 hcut
    obtain ⟨y, zs, rfl, rfl, rfl⟩ := List.map_eq_cons_iff.1 hyzs
    obtain ⟨s, s', hs⟩ := List.append_of_mem hmem
    refine (hplace hys hs).1 (h _ ('\n', .code) _ ?_ rfl)
    rw [hys, spreadIn_append, spreadIn, Nat.zero_add, hs]
    simp
  · rintro h a ⟨c, k⟩ b hab rfl
    obtain ⟨ys, y, zs, s, s', hcut, hs, rfl, rfl⟩ := exists_of_spreadIn_newline hab
      fun y hy hy' => hbreak (List.mem_map.2 ⟨y, hy, hy'⟩)
    rw [Nat.zero_add] at hs
    have hlater := h (ys.map Prod.fst) y.1 (zs.map Prod.fst) (by simp [hcut]) (by simp [hs])
    rw [Nat.zero_add]
    exact (hplace hcut hs).2 hlater

/-- **An assignment is one statement exactly if it goes on at every line break that is put into its
value outside of all brackets.** -/
theorem split_spread_eq_iff (hx : isIdentifier x = true)
    (hword : Keyword.ofText? (String.ofList x) = none)
    (hinner : ∀ y ∈ classify .code e, IsInner y) (hmode : modeAfter .code none e = .code)
    (hend : openIn e = 0) (hbreak : '\n' ∉ e) (hgap : Spreads gap e) (line : Nat) :
    split (target x ++ spread gap 0 e ++ [';']) line =
        [⟨trim (target x ++ spread gap 0 e), line⟩] ↔
      ∀ f c g, e = f ++ c :: g → '\n' ∈ gap (byteSize f) → openIn f ≠ 0 ∨
        goesOn (target x ++ spread gap 0 f)
          (c :: spread gap (byteSize f + c.utf8Size) g ++ [';']) = true := by
  have hfst : (classify .code e).map Prod.fst = e := map_fst_classify .code e
  obtain ⟨p, hp, htext, hstart, hparens, hbraces⟩ :=
    splitIn_target hx line (spreadIn gap 0 (classify .code e) ++ [(';', .code)])
  have hwhole : p.text ++ (spreadIn gap 0 (classify .code e)).map Prod.fst =
      target x ++ spread gap 0 e := by
    rw [htext, map_fst_spreadIn, hfst]
  have hhead : ∃ c ∈ p.text.head?, isSpace c = false := by
    obtain ⟨c, cs, rfl, hc, -⟩ := exists_cons_of_isIdentifier hx
    exact ⟨c, by rw [htext]; rfl, Lexer.isSpace_of_isIdentPart (isIdentPart_of_isIdentStart hc)⟩
  have hskip : isSkipped (p.text ++ (spreadIn gap 0 (classify .code e)).map Prod.fst) = false := by
    rw [hwhole, target, List.append_assoc]
    exact isSkipped_assignment hx hword _
  have hinner' : ∀ y ∈ spreadIn gap 0 (classify .code e), IsInner y := fun y hy => by
    obtain hy | ⟨hcode, hspace⟩ := mem_spreadIn hgap.isBlank_gap hy
    · exact hinner y hy
    · obtain ⟨c, cls⟩ := y
      obtain rfl : cls = .code := hcode
      exact isInner_of_isSpace hspace nofun
  have hend' : parensIn p.parens (spreadIn gap 0 (classify .code e)) = 0 := by
    rw [hparens, parensIn_spreadIn hgap.isBlank_gap]
    exact hend
  have hsolid : ∀ a y b, spreadIn gap 0 (classify .code e) = a ++ y :: b → y.1 = '\n' →
      isBlank (b.map Prod.fst) = false := by
    rintro a ⟨c, cls⟩ b h rfl
    obtain ⟨ys, y, zs, s, s', hcut, hs, -, rfl⟩ := exists_of_spreadIn_newline h
      fun y hy hy' => hbreak (hfst ▸ List.mem_map.2 ⟨y, hy, hy'⟩)
    have hlater := hgap.before_solid (f := ys.map Prod.fst) (c := y.1) (g := zs.map Prod.fst)
      (by rw [← hfst, hcut]; simp) (by rw [← Nat.zero_add (byteSize _), hs]; simp)
    rw [isBlank_cons, Bool.and_eq_false_iff] at hlater
    rw [List.map_append, map_fst_map_code, isBlank_append, Bool.and_eq_false_iff, List.map_cons,
      isBlank_cons, Bool.and_eq_false_iff, map_fst_spreadIn]
    exact .inr (hlater.imp_right isBlank_spread)
  have hrun := splitIn_eq_singleton_iff hhead hskip hbraces hinner' hend' hsolid
  rw [hwhole, hstart, ← hp, ← classify_assignment hx hinner hmode hgap] at hrun
  rw [split, splitFrom_eq_splitIn, hrun, ← htext]
  exact carried_spreadIn_iff hinner hbreak hgap hparens

end Assignment

end Fragment

end SnippetRunner
