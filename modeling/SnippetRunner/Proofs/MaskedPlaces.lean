import Mathlib.Order.Bounds.Basic
import SnippetRunner.Proofs.Masking

/-!
# Places in the masked text

The masked text is as large as the text, so a place found in it is looked up in the text. This is
safe: what the masked text shows at a place, blanks aside, stands at the same place of the text
(`isMaskOf_masked`), and the text can be cut in front of it and behind it.

* What is shown is the character of a label, and shown text comes from as many labels
  (`exists_of_flatMap_maskedChar`, `exists_labels_of_flatMap_maskedChar`).
* A scan that starts anew at a character that is shown goes on as the scan of the whole text does
  (`exists_of_masked_eq`).
* A masked text has no quote marks and opens no comments (`isBare_masked`), and such a text is code
  from end to end (`classify_of_isBare`). So masking it again changes nothing.
-/

namespace SnippetRunner

/-! ## Characters at byte positions -/

namespace Text

variable {n : Nat} {c : Char} {cs front back : List Char}

/-- The character that starts at a byte position. -/
def charAt? (n : Nat) (cs : List Char) : Option Char := (cut? n cs).bind fun parts => parts.2.head?

theorem cut?_eq_some_iff :
    cut? n cs = some (front, back) ↔ cs = front ++ back ∧ byteSize front = n := by
  constructor
  · exact fun h => ⟨(append_of_cut? h).symm, byteSize_of_cut? h⟩
  · rintro ⟨rfl, rfl⟩
    exact cut?_byteSize_append front back

theorem charAt?_eq_some_iff :
    charAt? n cs = some c ↔ ∃ front back, cs = front ++ c :: back ∧ byteSize front = n := by
  constructor
  · intro h
    obtain ⟨⟨front, tail⟩, hcut, hhead⟩ := Option.bind_eq_some_iff.1 h
    obtain ⟨back, rfl⟩ := List.head?_eq_some_iff.1 hhead
    exact ⟨front, back, cut?_eq_some_iff.1 hcut⟩
  · rintro ⟨front, back, hcs, hsize⟩
    rw [charAt?, cut?_eq_some_iff.2 ⟨hcs, hsize⟩]
    rfl

/-! ## First positions -/

/-- A search that finds a least position or says that there is none. -/
theorem eq_iff_isLeast {result : Option Nat} {places : Set Nat}
    (hsome : ∀ n, result = some n → IsLeast places n) (hnone : result = none → ∀ n, n ∉ places) :
    (∀ n, result = some n ↔ IsLeast places n) ∧ (result = none ↔ ¬ ∃ n, n ∈ places) := by
  cases result with
  | none =>
    have hempty := hnone rfl
    exact ⟨fun n => iff_of_false nofun fun h => hempty n h.1,
      iff_of_true rfl fun ⟨n, hn⟩ => hempty n hn⟩
  | some m =>
    have hleast := hsome m rfl
    refine ⟨fun n => ⟨hsome n, fun h => congrArg some (hleast.unique h)⟩, ?_⟩
    exact iff_of_false nofun fun h => h ⟨m, hleast.1⟩

end Text

namespace Scan

open Text

variable {mode : Mode} {next : Option Char} {c : Char} {cs front back word : List Char}
variable {xs : List (Char × CharClass)}

/-! ## What is shown of labels -/

@[simp] theorem maskedChar_code (c : Char) : maskedChar (c, .code) = [c] := by simp [maskedChar]

theorem byteSize_flatMap_maskedChar (xs : List (Char × CharClass)) :
    byteSize (xs.flatMap maskedChar) = byteSize (xs.map Prod.fst) := by
  induction xs with
  | nil => rfl
  | cons x xs ih =>
    rw [List.flatMap_cons, byteSize_append, byteSize_maskedChar, ih, List.map_cons, byteSize_cons]

/-- Every label leaves something. -/
theorem eq_nil_of_flatMap_maskedChar (h : xs.flatMap maskedChar = []) : xs = [] := by
  cases xs with
  | nil => rfl
  | cons x xs =>
    have hsize := congrArg byteSize h
    have hpos := x.1.utf8Size_pos
    rw [byteSize_flatMap_maskedChar, List.map_cons, byteSize_cons, byteSize_nil] at hsize
    omega

/-- A character that is no blank is shown by the only label that it can come from. -/
theorem eq_of_maskedChar_eq {x : Char × CharClass} (hc : c ≠ ' ')
    (h : maskedChar x = front ++ c :: back) :
    front = [] ∧ back = [] ∧ x.1 = c ∧ (x.2 = .code ∨ c = '\n') := by
  obtain ⟨d, cls⟩ := x
  rw [maskedChar] at h
  split at h
  · next hshown =>
    obtain ⟨rfl, htail⟩ := (List.append_eq_singleton_iff.1 h.symm).resolve_right (by simp)
    obtain ⟨rfl, rfl⟩ := List.cons.inj htail
    exact ⟨rfl, rfl, rfl, hshown⟩
  · have hmem : c ∈ List.replicate d.utf8Size ' ' := by
      rw [h]
      simp
    exact absurd (List.eq_of_mem_replicate hmem) hc

/-- **What is shown, blanks aside, is the character of a label**, and what stands around it is shown
of the labels around that one. -/
theorem exists_of_flatMap_maskedChar (hc : c ≠ ' ')
    (h : xs.flatMap maskedChar = front ++ c :: back) :
    ∃ ys cls zs, xs = ys ++ (c, cls) :: zs ∧ ys.flatMap maskedChar = front ∧
      zs.flatMap maskedChar = back ∧ (cls = .code ∨ c = '\n') := by
  induction xs generalizing front with
  | nil => simp at h
  | cons x xs ih =>
    have hlater {front' : List Char} (h' : xs.flatMap maskedChar = front' ++ c :: back) :
        ∃ ys cls zs, x :: xs = ys ++ (c, cls) :: zs ∧
          ys.flatMap maskedChar = maskedChar x ++ front' ∧ zs.flatMap maskedChar = back ∧
          (cls = .code ∨ c = '\n') := by
      obtain ⟨ys, cls, zs, rfl, rfl, hback, hcls⟩ := ih h'
      exact ⟨x :: ys, cls, zs, rfl, rfl, hback, hcls⟩
    rw [List.flatMap_cons] at h
    obtain ⟨front', rfl, hrest⟩ | ⟨part, hshown, hpart⟩ := List.append_eq_append_iff.1 h
    · exact hlater hrest
    · cases part with
      | nil =>
        rw [List.append_nil] at hshown
        have hrest : xs.flatMap maskedChar = [] ++ c :: back := hpart.symm
        have hall := hlater hrest
        rwa [List.append_nil, hshown] at hall
      | cons d part =>
        obtain ⟨rfl, hback⟩ := List.cons.inj hpart
        obtain ⟨rfl, rfl, hx, hcls⟩ := eq_of_maskedChar_eq hc hshown
        exact ⟨[], x.2, xs, by rw [← hx]; rfl, rfl, hback.symm, hcls⟩

/-- A word without blanks that is shown is the text of as many labels. -/
theorem exists_labels_of_flatMap_maskedChar (hword : word ≠ []) (hblank : ' ' ∉ word)
    (h : xs.flatMap maskedChar = front ++ (word ++ back)) :
    ∃ ys ws zs, xs = ys ++ (ws ++ zs) ∧ ws.map Prod.fst = word ∧ ys.flatMap maskedChar = front ∧
      zs.flatMap maskedChar = back ∧ ∀ w ∈ ws, w.2 = .code ∨ w.1 = '\n' := by
  induction word generalizing xs front with
  | nil => exact absurd rfl hword
  | cons c word ih =>
    rw [List.mem_cons, not_or] at hblank
    obtain ⟨ys, cls, zs, rfl, rfl, hzs, hcls⟩ := exists_of_flatMap_maskedChar (Ne.symm hblank.1) h
    rcases eq_or_ne word [] with rfl | hne
    · exact ⟨ys, [(c, cls)], zs, rfl, rfl, rfl, hzs, by simpa using hcls⟩
    · have hrest : zs.flatMap maskedChar = [] ++ (word ++ back) := hzs
      obtain ⟨ys', ws, zs', rfl, rfl, hnil, hback, hws⟩ := ih hne hblank.2 hrest
      obtain rfl := eq_nil_of_flatMap_maskedChar hnil
      exact ⟨ys, (c, cls) :: ws, zs', rfl, rfl, rfl, hback, List.forall_mem_cons.2 ⟨hcls, hws⟩⟩

/-! ## Parts of a scan -/

theorem classify_cons (mode : Mode) (c : Char) (cs : List Char) :
    classify mode (c :: cs) =
      (c, (mode.step c cs.head?).1) :: classify (mode.step c cs.head?).2 cs := rfl

/-- What a scan finds behind a part of a text is what a scan of the rest finds in some mode. -/
theorem exists_mode_of_classify_eq {ys zs : List (Char × CharClass)}
    (h : classify mode cs = ys ++ zs) : ∃ mode', zs = classify mode' (zs.map Prod.fst) := by
  induction ys generalizing mode cs with
  | nil =>
    obtain rfl : classify mode cs = zs := h
    exact ⟨mode, by rw [map_fst_classify]⟩
  | cons y ys ih =>
    cases cs with
    | nil => exact absurd h nofun
    | cons c cs => exact ih (List.cons.inj h).2

theorem map_fst_of_classify_eq {ys zs : List (Char × CharClass)}
    (h : classify mode cs = ys ++ zs) : cs = ys.map Prod.fst ++ zs.map Prod.fst := by
  rw [← List.map_append, ← h, map_fst_classify]

/-- A character of code, line breaks aside, is met in code only. -/
theorem Mode.eq_code_of_step (hc : c ≠ '\n') (h : (mode.step c next).1 = .code) : mode = .code := by
  cases mode <;> simp only [Mode.step, hc, if_false] at h
  case code => rfl
  case quoted | blockComment => split_ifs at h
  all_goals cases h

/-- A label of code was given in code, and the scan behind it goes on in code. -/
theorem classify_of_code {ys zs : List (Char × CharClass)} (hc : c ≠ '\n')
    (h : classify mode cs = ys ++ (c, .code) :: zs) :
    classify .code (c :: zs.map Prod.fst) = (c, .code) :: zs ∧
      classify .code (zs.map Prod.fst) = zs := by
  obtain ⟨mode', hscan⟩ := exists_mode_of_classify_eq h
  rw [List.map_cons, classify_cons, List.cons.injEq, Prod.mk.injEq] at hscan
  obtain ⟨⟨-, hstep⟩, htail⟩ := hscan
  obtain rfl := Mode.eq_code_of_step hc hstep.symm
  rw [Mode.step_snd_of_code hstep.symm] at htail
  rw [classify_cons, Mode.step_snd_of_code hstep.symm, ← hstep, ← htail]
  exact ⟨rfl, rfl⟩

/-- **A scan that starts anew at what is shown goes on as the scan of the whole text.** The mask of
the rest is the rest of the mask. -/
theorem exists_of_masked_eq (hc : c ≠ ' ') (hbreak : c ≠ '\n')
    (h : masked cs = front ++ c :: back) :
    ∃ before tail, cs = before ++ c :: tail ∧ byteSize before = byteSize front ∧
      classify .code (c :: tail) = (c, .code) :: classify .code tail ∧ masked tail = back := by
  obtain ⟨ys, cls, zs, hcs, rfl, rfl, hcls⟩ := exists_of_flatMap_maskedChar hc h
  obtain rfl : cls = .code := hcls.resolve_right hbreak
  obtain ⟨hwhole, htail⟩ := classify_of_code hbreak hcs
  exact ⟨ys.map Prod.fst, zs.map Prod.fst, map_fst_of_classify_eq hcs,
    (byteSize_flatMap_maskedChar ys).symm, by rw [hwhole, htail], by rw [masked, htail]⟩

theorem masked_cons_of_code (h : classify .code (c :: cs) = (c, .code) :: classify .code cs) :
    masked (c :: cs) = c :: masked cs := by
  rw [masked, h, List.flatMap_cons, maskedChar_code, List.singleton_append, masked]

/-! ## Texts that are code from end to end -/

/-- A text without quote marks in which no comment opens. -/
structure IsBare (cs : List Char) : Prop where
  not_mem_quote : '"' ∉ cs
  not_mem_apostrophe : '\'' ∉ cs
  not_lineComment : ¬ "//".toList <:+: cs
  not_blockComment : ¬ "/*".toList <:+: cs

theorem IsBare.of_cons (h : IsBare (c :: cs)) : IsBare cs where
  not_mem_quote hmem := h.not_mem_quote (List.mem_cons_of_mem c hmem)
  not_mem_apostrophe hmem := h.not_mem_apostrophe (List.mem_cons_of_mem c hmem)
  not_lineComment hin := h.not_lineComment (List.infix_cons hin)
  not_blockComment hin := h.not_blockComment (List.infix_cons hin)

theorem IsBare.step_eq (h : IsBare (c :: cs)) : Mode.step .code c cs.head? = (.code, .code) := by
  have hmark : c ≠ '"' ∧ c ≠ '\'' :=
    ⟨fun e => h.not_mem_quote (by simp [e]), fun e => h.not_mem_apostrophe (by simp [e])⟩
  have hopen (d : Char) (hd : ¬ ['/', d] <:+: c :: cs) : ¬ (c = '/' ∧ cs.head? = some d) := by
    rintro ⟨rfl, hnext⟩
    obtain ⟨rest, rfl⟩ := List.head?_eq_some_iff.1 hnext
    exact hd (List.prefix_append ['/', d] rest).isInfix
  rw [Mode.step, if_neg (hopen '/' h.not_lineComment), if_neg (hopen '*' h.not_blockComment),
    if_neg (by simp [hmark])]

theorem classify_of_isBare (h : IsBare cs) : classify .code cs = cs.map (·, .code) := by
  induction cs with
  | nil => rfl
  | cons c cs ih => rw [classify_cons, h.step_eq, ih h.of_cons, List.map_cons]

theorem flatMap_maskedChar_code (cs : List Char) :
    (cs.map fun c => (c, CharClass.code)).flatMap maskedChar = cs := by
  induction cs with
  | nil => rfl
  | cons c cs ih =>
    rw [List.map_cons, List.flatMap_cons, ih, maskedChar_code, List.singleton_append]

theorem masked_of_isBare (h : IsBare cs) : masked cs = cs := by
  rw [masked, classify_of_isBare h, flatMap_maskedChar_code]

/-- A quote mark is part of a literal or of a comment. -/
theorem Mode.step_ne_code_of_mark (hc : c = '"' ∨ c = '\'') : (mode.step c next).1 ≠ .code := by
  have hbreak : c ≠ '\n' := by rcases hc with rfl | rfl <;> decide
  intro h
  obtain rfl := Mode.eq_code_of_step hbreak h
  rcases hc with rfl | rfl <;> simp [Mode.step] at h

/-- A slash in front of the second character of a delimiter is no code. -/
theorem Mode.step_slash_ne_code {d : Char} (hd : d = '/' ∨ d = '*') :
    (mode.step '/' (some d)).1 ≠ .code := by
  intro h
  obtain rfl := Mode.eq_code_of_step (by decide) h
  rcases hd with rfl | rfl <;> simp [Mode.step] at h

theorem not_mem_masked_of_mark (hc : c = '"' ∨ c = '\'') (cs : List Char) : c ∉ masked cs := by
  intro hmem
  have hne : c ≠ ' ' ∧ c ≠ '\n' := by rcases hc with rfl | rfl <;> decide
  obtain ⟨front, back, h⟩ := List.append_of_mem hmem
  obtain ⟨-, tail, -, -, hscan, -⟩ := exists_of_masked_eq hne.1 hne.2 h
  rw [classify_cons, List.cons.injEq, Prod.mk.injEq] at hscan
  exact Mode.step_ne_code_of_mark hc hscan.1.2

theorem not_isInfix_masked_of_opening {d : Char} (hd : d = '/' ∨ d = '*') (cs : List Char) :
    ¬ ['/', d] <:+: masked cs := by
  rintro ⟨front, back, h⟩
  have hd' : d ≠ ' ' := by rcases hd with rfl | rfl <;> decide
  have hslash : masked cs = front ++ '/' :: (d :: back) := by rw [← h, List.append_assoc]; rfl
  -- what follows the slash is shown, so it follows the slash in the text as well
  obtain ⟨-, tail, -, -, hscan, hshown⟩ := exists_of_masked_eq (by decide) (by decide) hslash
  have hhead : tail.head? = some d := by
    cases tail with
    | nil => cases hshown
    | cons e tail =>
      have hstart : (classify .code (e :: tail)).flatMap maskedChar = [] ++ d :: back := hshown
      obtain ⟨ys, cls, zs, hlabels, hys, -, -⟩ := exists_of_flatMap_maskedChar hd' hstart
      obtain rfl := eq_nil_of_flatMap_maskedChar hys
      rw [classify_cons, List.nil_append, List.cons.injEq, Prod.mk.injEq] at hlabels
      rw [List.head?_cons, hlabels.1.1]
  rw [classify_cons, hhead, List.cons.injEq, Prod.mk.injEq] at hscan
  exact Mode.step_slash_ne_code hd hscan.1.2

theorem isBare_masked (cs : List Char) : IsBare (masked cs) where
  not_mem_quote := not_mem_masked_of_mark (.inl rfl) cs
  not_mem_apostrophe := not_mem_masked_of_mark (.inr rfl) cs
  not_lineComment := not_isInfix_masked_of_opening (.inl rfl) cs
  not_blockComment := not_isInfix_masked_of_opening (.inr rfl) cs

/-! ## Masks -/

/-- The class of the character that starts at a byte position. -/
def classAt? (n : Nat) (cs : List Char) : Option CharClass :=
  (cut? n cs).bind fun parts => ((classify .code cs)[parts.1.length]?).map Prod.snd

theorem charAt?_of_classify_eq {ys zs : List (Char × CharClass)} {cls : CharClass}
    (h : classify .code cs = ys ++ (c, cls) :: zs) :
    charAt? (byteSize (ys.map Prod.fst)) cs = some c ∧
      classAt? (byteSize (ys.map Prod.fst)) cs = some cls := by
  have hcs := map_fst_of_classify_eq h
  refine ⟨charAt?_eq_some_iff.2 ⟨_, _, hcs, rfl⟩, ?_⟩
  rw [classAt?, cut?_eq_some_iff.2 ⟨hcs, rfl⟩, h]
  simp

theorem exists_classify_eq_of_charAt? {n : Nat} (h : charAt? n cs = some c) :
    ∃ ys cls zs, classify .code cs = ys ++ (c, cls) :: zs ∧ byteSize (ys.map Prod.fst) = n := by
  obtain ⟨before, tail, hcs, hsize⟩ := charAt?_eq_some_iff.1 h
  obtain ⟨ys, rest, hscan, rfl, hrest⟩ :=
    List.map_eq_append_iff.1 ((map_fst_classify .code cs).trans hcs)
  obtain ⟨x, zs, rfl, rfl, -⟩ := List.map_eq_cons_iff.1 hrest
  exact ⟨ys, x.2, zs, hscan, hsize⟩

theorem charAt?_masked_iff {n : Nat} (hc : c ≠ ' ') :
    charAt? n (masked cs) = some c ↔
      charAt? n cs = some c ∧ (classAt? n cs = some .code ∨ c = '\n') := by
  constructor
  · intro h
    obtain ⟨front, back, hmask, rfl⟩ := charAt?_eq_some_iff.1 h
    obtain ⟨ys, cls, zs, hscan, rfl, -, hcls⟩ := exists_of_flatMap_maskedChar hc hmask
    obtain ⟨hchar, hclass⟩ := charAt?_of_classify_eq hscan
    rw [byteSize_flatMap_maskedChar, hclass, Option.some.injEq]
    exact ⟨hchar, hcls⟩
  · rintro ⟨hchar, hcls⟩
    obtain ⟨ys, cls, zs, hscan, rfl⟩ := exists_classify_eq_of_charAt? hchar
    rw [(charAt?_of_classify_eq hscan).2, Option.some.injEq] at hcls
    refine charAt?_eq_some_iff.2
      ⟨ys.flatMap maskedChar, zs.flatMap maskedChar, ?_, byteSize_flatMap_maskedChar ys⟩
    rw [masked, hscan, List.flatMap_append, List.flatMap_cons, maskedChar, if_pos hcls]
    rfl

/-- The text has the word that is found in its masked text, at the same place. -/
theorem cut?_of_masked_eq (hword : word ≠ []) (hblank : ' ' ∉ word)
    (h : masked cs = front ++ (word ++ back)) :
    ∃ before after, cut? (byteSize front) cs = some (before, word ++ after) ∧
      cut? (byteSize (front ++ word)) cs = some (before ++ word, after) := by
  obtain ⟨ys, ws, zs, hscan, rfl, rfl, -, -⟩ := exists_labels_of_flatMap_maskedChar hword hblank h
  have hcs : cs = ys.map Prod.fst ++ (ws.map Prod.fst ++ zs.map Prod.fst) := by
    rw [map_fst_of_classify_eq hscan, List.map_append]
  have hfront := (byteSize_flatMap_maskedChar ys).symm
  refine ⟨_, _, cut?_eq_some_iff.2 ⟨hcs, hfront⟩, cut?_eq_some_iff.2 ⟨?_, ?_⟩⟩
  · rw [hcs, List.append_assoc]
  · rw [byteSize_append, hfront, byteSize_append]

/-- `IsMaskOf mask cs`: the mask is the text with blanks for all characters but code and line
breaks. -/
structure IsMaskOf (mask cs : List Char) : Prop where
  byteSize_eq : byteSize mask = byteSize cs
  /-- Line breaks stand where they stand in the text. -/
  newline_iff (n : Nat) : charAt? n mask = some '\n' ↔ charAt? n cs = some '\n'
  /-- What is no blank starts at the same position in the text, so that this is no position inside
  a character. -/
  charAt?_eq (n : Nat) (c : Char) (hc : c ≠ ' ') (h : charAt? n mask = some c) :
    charAt? n cs = some c
  /-- All code is shown and, line breaks aside, nothing else. -/
  code_iff (n : Nat) (c : Char) (hc : c ≠ ' ') (hbreak : c ≠ '\n') :
    charAt? n mask = some c ↔ charAt? n cs = some c ∧ classAt? n cs = some .code
  /-- The text can be cut around a word that is found in the mask, and has the word there. -/
  cut?_eq (front word back : List Char) (h : mask = front ++ (word ++ back)) (hword : word ≠ [])
    (hblank : ' ' ∉ word) : ∃ before after,
      cut? (byteSize front) cs = some (before, word ++ after) ∧
      cut? (byteSize (front ++ word)) cs = some (before ++ word, after)

/-- **The masked text is an aligned mask of the text, and masking it again changes nothing.** It has
no quote marks and opens no comments. -/
theorem isMaskOf_masked (cs : List Char) :
    IsMaskOf (masked cs) cs ∧ IsBare (masked cs) ∧ masked (masked cs) = masked cs := by
  refine ⟨?_, isBare_masked cs, masked_of_isBare (isBare_masked cs)⟩
  constructor
  case byteSize_eq => exact byteSize_masked cs
  case newline_iff =>
    intro n
    rw [charAt?_masked_iff (by decide)]
    exact and_iff_left (.inr rfl)
  case charAt?_eq =>
    intro n c hc h
    exact ((charAt?_masked_iff hc).1 h).1
  case code_iff =>
    intro n c hc hbreak
    rw [charAt?_masked_iff hc, or_iff_left hbreak]
  case cut?_eq =>
    intro front word back h hword hblank
    exact cut?_of_masked_eq hword hblank h

end Scan

end SnippetRunner
