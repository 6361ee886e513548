import Mathlib.Tactic.Common
import SnippetRunner.Text.Class

/-!
# Trimming and cutting texts

Laws of the operations on texts: trimming takes white space from the two ends and nothing else
(`trimEnd_isPrefix`, `trim_eq_self`), a cut at the size of a front part gives back that part
(`cut?_byteSize_append`), and a text is made of its lines and their breaks (`lines_intercalate`,
`eq_dropBreak_append`).
-/

namespace SnippetRunner.Text

/-! ## White space -/

theorem isBlank_cons (c : Char) (cs : List Char) :
    isBlank (c :: cs) = (isSpace c && isBlank cs) := rfl

theorem isBlank_append (xs ys : List Char) :
    isBlank (xs ++ ys) = (isBlank xs && isBlank ys) := List.all_append

theorem isBlank_append_cons {c : Char} (hc : isSpace c = false) (s x : List Char) :
    isBlank (s ++ c :: x) = false := by
  simp [isBlank, hc]

theorem isBlank_of_isInfix {xs ys : List Char} (h : xs <:+: ys) (hys : isBlank ys = true) :
    isBlank xs = true :=
  List.all_eq_true.2 fun c hc => List.all_eq_true.1 hys c (h.subset hc)

theorem isBlank_spaces (k : Nat) : isBlank (List.replicate k ' ') = true := by
  simp [isBlank, show isSpace ' ' = true from by decide]

theorem newline_not_mem_spaces (k : Nat) : '\n' ∉ List.replicate k ' ' := fun h =>
  absurd (List.eq_of_mem_replicate h) (by decide)

/-- A text that is not blank starts with white space and a character that is none. -/
theorem exists_of_not_isBlank {l : List Char} (h : isBlank l = false) :
    ∃ s c x, l = s ++ c :: x ∧ isBlank s = true ∧ isSpace c = false := by
  induction l with
  | nil => simp [isBlank] at h
  | cons c l ih =>
    cases hc : isSpace c with
    | false => exact ⟨[], c, l, rfl, rfl, hc⟩
    | true =>
      have hl : isBlank l = false := by simpa [isBlank_cons, hc] using h
      obtain ⟨s, d, x, rfl, hs, hd⟩ := ih hl
      exact ⟨c :: s, d, x, rfl, by simpa [isBlank_cons, hc] using hs, hd⟩

/-! ## Trimming -/

theorem trimEnd_isPrefix (cs : List Char) : trimEnd cs <+: cs := by
  induction cs with
  | nil => exact List.prefix_rfl
  | cons c cs ih =>
    simp only [trimEnd]
    split
    · split
      · exact List.nil_prefix
      · exact (List.prefix_cons_inj c).2 List.nil_prefix
    · exact (List.prefix_cons_inj c).2 ih

theorem trimEnd_eq_self {cs : List Char} (h : ∀ c ∈ cs.getLast?, isSpace c = false) :
    trimEnd cs = cs := by
  induction cs with
  | nil => rfl
  | cons c cs ih =>
    cases cs with
    | nil => simp [trimEnd, h c (by simp)]
    | cons d ds =>
      have ih' := ih fun c' hc' => h c' (by simpa [List.getLast?_cons_cons] using hc')
      rw [trimEnd, ih']

theorem trimStart_eq_self {cs : List Char} (h : ∀ c ∈ cs.head?, isSpace c = false) :
    trimStart cs = cs := by
  cases cs with
  | nil => rfl
  | cons c cs => simp [trimStart, h c (by simp)]

theorem trim_eq_self {cs : List Char} (hhead : ∀ c ∈ cs.head?, isSpace c = false)
    (hlast : ∀ c ∈ cs.getLast?, isSpace c = false) : trim cs = cs := by
  rw [trim, trimStart_eq_self hhead, trimEnd_eq_self hlast]

/-! ## Trimming parts of a text -/

section Parts

variable {a b : List Char}

theorem trimStart_append_of_isBlank (h : isBlank a = true) : trimStart (a ++ b) = trimStart b := by
  induction a with
  | nil => rfl
  | cons c a ih =>
    rw [isBlank_cons, Bool.and_eq_true] at h
    rw [List.cons_append, trimStart, List.dropWhile_cons_of_pos h.1, ← trimStart, ih h.2]

theorem trimStart_of_isBlank (h : isBlank a = true) : trimStart a = [] := by
  have hempty := trimStart_append_of_isBlank (b := []) h
  rwa [List.append_nil] at hempty

theorem trimStart_append_of_not_isBlank (h : isBlank a = false) :
    trimStart (a ++ b) = trimStart a ++ b := by
  obtain ⟨s, c, x, rfl, hs, hc⟩ := exists_of_not_isBlank h
  rw [List.append_assoc, trimStart_append_of_isBlank hs, trimStart_append_of_isBlank hs,
    List.cons_append, trimStart_eq_self (by simpa using hc), trimStart_eq_self (by simpa using hc),
    List.cons_append]

/-- What is trimmed starts with no white space. -/
theorem exists_trimStart_eq (h : isBlank a = false) :
    ∃ c x, trimStart a = c :: x ∧ isSpace c = false := by
  obtain ⟨s, c, x, rfl, hs, hc⟩ := exists_of_not_isBlank h
  exact ⟨c, x, by rw [trimStart_append_of_isBlank hs, trimStart_eq_self (by simpa using hc)], hc⟩

theorem trimEnd_of_isBlank (h : isBlank a = true) : trimEnd a = [] := by
  induction a with
  | nil => rfl
  | cons c a ih =>
    rw [isBlank_cons, Bool.and_eq_true] at h
    rw [trimEnd, ih h.2]
    simp [h.1]

theorem trimEnd_append_of_isBlank (h : isBlank b = true) : trimEnd (a ++ b) = trimEnd a := by
  induction a with
  | nil => exact trimEnd_of_isBlank h
  | cons c a ih => rw [List.cons_append, trimEnd, trimEnd, ih]

/-- What is trimmed ends with no white space. -/
theorem exists_trimEnd_eq (h : isBlank a = false) :
    ∃ x d, trimEnd a = x ++ [d] ∧ isSpace d = false := by
  induction a with
  | nil => simp [isBlank] at h
  | cons c a ih =>
    rw [isBlank_cons, Bool.and_eq_false_iff] at h
    cases ha : isBlank a with
    | true =>
      have hc : isSpace c = false := by simpa [ha] using h
      exact ⟨[], c, by simp [trimEnd, trimEnd_of_isBlank ha, hc], hc⟩
    | false =>
      obtain ⟨x, d, hx, hd⟩ := ih ha
      refine ⟨c :: x, d, ?_, hd⟩
      rw [trimEnd, hx]
      split
      · next heq => simp at heq
      · rfl

theorem trimEnd_append_of_not_isBlank (h : isBlank b = false) :
    trimEnd (a ++ b) = a ++ trimEnd b := by
  induction a with
  | nil => rfl
  | cons c a ih =>
    obtain ⟨x, d, hx, -⟩ := exists_trimEnd_eq h
    rw [List.cons_append, trimEnd, ih, hx]
    split
    · next heq => simp at heq
    · rfl

theorem trim_append_of_isBlank_left (h : isBlank a = true) : trim (a ++ b) = trim b := by
  rw [trim, trimStart_append_of_isBlank h, trim]

theorem trim_append_of_isBlank_right (h : isBlank b = true) : trim (a ++ b) = trim a := by
  cases ha : isBlank a with
  | true =>
    have hwhole : isBlank (a ++ b) = true := by rw [isBlank_append, ha, h]; rfl
    rw [trim, trimStart_of_isBlank hwhole, trim, trimStart_of_isBlank ha]
  | false => rw [trim, trimStart_append_of_not_isBlank ha, trimEnd_append_of_isBlank h, trim]

/-- The middle of a text is not trimmed. -/
theorem trim_append_append (ha : isBlank a = false) (hb : isBlank b = false) (u : List Char) :
    trim (a ++ u ++ b) = trimStart a ++ u ++ trimEnd b := by
  rw [trim, List.append_assoc, trimStart_append_of_not_isBlank ha, ← List.append_assoc,
    trimEnd_append_of_not_isBlank hb]

theorem exists_eq_trimEnd_append (cs : List Char) :
    ∃ b, cs = trimEnd cs ++ b ∧ isBlank b = true := by
  induction cs with
  | nil => exact ⟨[], rfl, rfl⟩
  | cons c cs ih =>
    obtain ⟨b, hcs, hb⟩ := ih
    rw [trimEnd]
    split
    · next hnil =>
      rw [hnil, List.nil_append] at hcs
      split
      · next hc => exact ⟨c :: cs, rfl, by rw [hcs, isBlank_cons, hc, hb]; rfl⟩
      · exact ⟨cs, rfl, by rw [hcs, hb]⟩
    · exact ⟨b, congrArg (c :: ·) hcs, hb⟩

/-- A text is its trimmed text between white space. -/
theorem exists_eq_append_trim (cs : List Char) :
    ∃ s b, cs = s ++ (trim cs ++ b) ∧ isBlank s = true ∧ isBlank b = true := by
  obtain ⟨b, hend, hb⟩ := exists_eq_trimEnd_append (trimStart cs)
  refine ⟨cs.takeWhile isSpace, b, ?_, List.all_takeWhile, hb⟩
  rw [trim, ← hend]
  exact (List.takeWhile_append_dropWhile).symm

theorem trim_trim (a : List Char) : trim (trim a) = trim a := by
  obtain ⟨s, b, ha, hs, hb⟩ := exists_eq_append_trim a
  have hall := trim_append_of_isBlank_left (b := trim a ++ b) hs
  rw [← ha, trim_append_of_isBlank_right hb] at hall
  exact hall.symm

theorem trim_eq_nil_iff : trim a = [] ↔ isBlank a = true := by
  constructor
  · intro h
    by_contra hne
    have hblank : isBlank a = false := by simpa using hne
    obtain ⟨c, x, hx, hc⟩ := exists_trimStart_eq hblank
    have hrest : isBlank (c :: x) = false := by simp [isBlank_cons, hc]
    obtain ⟨y, d, hy, -⟩ := exists_trimEnd_eq hrest
    rw [trim, hx, hy] at h
    simp at h
  · intro h
    rw [trim, trimStart_of_isBlank h]
    rfl

/-- A trimmed text has white space at neither end. -/
theorem isSpace_eq_of_trim_eq_self (h : trim a = a) :
    (∀ c ∈ a.head?, isSpace c = false) ∧ ∀ c ∈ a.getLast?, isSpace c = false := by
  cases hblank : isBlank a with
  | true =>
    rw [trim_eq_nil_iff.2 hblank] at h
    subst h
    exact ⟨nofun, nofun⟩
  | false =>
    obtain ⟨c, x, hx, hc⟩ := exists_trimStart_eq hblank
    have hrest : isBlank (c :: x) = false := by simp [isBlank_cons, hc]
    obtain ⟨y, d, hy, hd⟩ := exists_trimEnd_eq hrest
    have hpre := trimEnd_isPrefix (c :: x)
    rw [trim, hx] at h
    constructor
    · intro e he
      obtain ⟨a, rfl⟩ := List.head?_eq_some_iff.1 he
      rw [h, List.cons_prefix_cons] at hpre
      rw [hpre.1, hc]
    · rw [← h, hy, List.getLast?_concat]
      rintro _ ⟨⟩
      exact hd

/-- A text that ends with a trimmed one is trimmed if no white space stands at its start. -/
theorem trim_append_eq_self (ha : ∀ c ∈ a.head?, isSpace c = false) (hb : trim b = b)
    (hne : b ≠ []) : trim (a ++ b) = a ++ b := by
  obtain ⟨hhead, hlast⟩ := isSpace_eq_of_trim_eq_self hb
  refine trim_eq_self (fun c hc => ?_) (fun c hc => hlast c ?_)
  · cases a with
    | nil => exact hhead c hc
    | cons d a => exact ha c hc
  · rwa [List.getLast?_append, List.getLast?_eq_some_getLast hne, Option.some_or,
      ← List.getLast?_eq_some_getLast hne] at hc

theorem head?_trim_cons {c : Char} (hc : isSpace c = false) (a : List Char) :
    (trim (c :: a)).head? = some c := by
  have hstart : trimStart (c :: a) = c :: a := List.dropWhile_cons_of_neg (by simp [hc])
  rw [trim, hstart, trimEnd]
  split
  · rw [if_neg (by simp [hc])]
    rfl
  · rfl

theorem isEmpty_trim (a : List Char) : (trim a).isEmpty = isBlank a := by
  rw [Bool.eq_iff_iff, List.isEmpty_iff, trim_eq_nil_iff]

end Parts

/-! ## Cutting -/

/-- A front part shifts the position of a cut by its size. -/
theorem cut?_byteSize_add (xs ys : List Char) (n : Nat) :
    cut? (byteSize xs + n) (xs ++ ys) =
      (cut? n ys).map fun (front, back) => (xs ++ front, back) := by
  induction xs with
  | nil => simp
  | cons c cs ih =>
    obtain ⟨k, hk⟩ : ∃ k, byteSize (c :: cs) + n = k + 1 :=
      ⟨c.utf8Size - 1 + byteSize cs + n, by
        have := c.utf8Size_pos; simp only [byteSize_cons]; omega⟩
    have hle : c.utf8Size ≤ k + 1 := by rw [← hk, byteSize_cons]; omega
    have hsub : k + 1 - c.utf8Size = byteSize cs + n := by rw [← hk, byteSize_cons]; omega
    rw [hk, List.cons_append, cut?, if_pos hle, hsub, ih, Option.map_map]
    rfl

theorem cut?_byteSize_append (xs ys : List Char) :
    cut? (byteSize xs) (xs ++ ys) = some (xs, ys) := by
  have hcut := cut?_byteSize_add xs ys 0
  simpa [cut?] using hcut

/-- Of two cuts of a text with fronts of the same size both parts are the same. -/
theorem append_inj_of_byteSize {a b c d : List Char} (h : a ++ b = c ++ d)
    (hsize : byteSize a = byteSize c) : a = c ∧ b = d := by
  have hcut := cut?_byteSize_append a b
  rw [h, hsize, cut?_byteSize_append] at hcut
  obtain ⟨rfl, rfl⟩ := Prod.mk.inj (Option.some.inj hcut)
  exact ⟨rfl, rfl⟩

/-- A middle part is what stands between the sizes of what ends where it starts and where it
ends. -/
theorem slice_append (xs ys zs : List Char) :
    slice (byteSize xs) (byteSize (xs ++ ys)) (xs ++ (ys ++ zs)) = ys := by
  have hsize : byteSize (xs ++ ys) - byteSize xs = byteSize ys := by
    rw [byteSize_append]
    omega
  rw [slice, cut?_byteSize_append]
  simp only [hsize, cut?_byteSize_append, Option.map_some, Option.getD_some]

/-- The text between two positions stands between them, if it is not empty. -/
theorem exists_of_slice_ne_nil {start stop : Nat} {cs : List Char} (h : slice start stop cs ≠ []) :
    ∃ front back, cs = front ++ (slice start stop cs ++ back) ∧ byteSize front = start := by
  unfold slice at h ⊢
  cases hcut : cut? start cs with
  | none => simp [hcut] at h
  | some parts =>
    obtain ⟨front, tail⟩ := parts
    simp only [hcut] at h ⊢
    cases htail : cut? (stop - start) tail with
    | none => simp [htail] at h
    | some parts =>
      obtain ⟨body, back⟩ := parts
      refine ⟨front, back, ?_, byteSize_of_cut? hcut⟩
      rw [Option.map_some, Option.getD_some, append_of_cut? htail, append_of_cut? hcut]

/-! ## Parts between separators -/

theorem splitAtEach_append (sep : Char → Bool) {c : Char} (hc : sep c = true) (x y : List Char) :
    splitAtEach sep (x ++ c :: y) = splitAtEach sep x ++ splitAtEach sep y := by
  induction x with
  | nil => simp [splitAtEach, hc]
  | cons d x ih =>
    rw [List.cons_append, splitAtEach, splitAtEach, ih]
    split
    · rfl
    · obtain ⟨p, ps, hps⟩ : ∃ p ps, splitAtEach sep x = p :: ps := by
        cases x with
        | nil => exact ⟨[], [], rfl⟩
        | cons e x =>
          rw [splitAtEach]
          split
          · exact ⟨_, _, rfl⟩
          · cases splitAtEach sep x with
            | nil => exact ⟨_, _, rfl⟩
            | cons q qs => exact ⟨_, _, rfl⟩
      rw [hps]
      rfl

theorem splitAtEach_of_forall {sep : Char → Bool} {x : List Char} (h : ∀ c ∈ x, sep c = false) :
    splitAtEach sep x = [x] := by
  induction x with
  | nil => rfl
  | cons c x ih =>
    rw [splitAtEach, h c List.mem_cons_self, ih fun d hd => h d (List.mem_cons_of_mem c hd)]
    rfl

/-! ## Lines -/

theorem afterLead?_append (lead tail : List Char) : afterLead? lead (lead ++ tail) = some tail := by
  induction lead with
  | nil => rfl
  | cons c lead ih => simpa [afterLead?] using ih

theorem beforeTail?_eq_some_iff {tail cs before : List Char} :
    beforeTail? tail cs = some before ↔ cs = before ++ tail := by
  simp only [beforeTail?, Option.map_eq_some_iff]
  constructor
  · rintro ⟨rest, hrest, rfl⟩
    have h := congrArg List.reverse (eq_append_of_afterLead? hrest)
    simpa using h
  · rintro rfl
    refine ⟨before.reverse, ?_, by simp⟩
    rw [List.reverse_append]
    exact afterLead?_append _ _

/-- The breaks that a line may end with. -/
def lineBreaks : List (List Char) := [[], ['\n'], ['\r', '\n']]

/-- A line is its content and its break. -/
theorem eq_dropBreak_append (line : List Char) :
    ∃ b ∈ lineBreaks, line = dropBreak line ++ b := by
  unfold dropBreak
  cases hbreak : beforeTail? ['\n'] line with
  | none => exact ⟨[], by simp [lineBreaks], by simp⟩
  | some body =>
    have hline := beforeTail?_eq_some_iff.1 hbreak
    dsimp only
    cases hreturn : beforeTail? ['\r'] body with
    | none => exact ⟨['\n'], by simp [lineBreaks], by simp [hline]⟩
    | some inner =>
      have hbody := beforeTail?_eq_some_iff.1 hreturn
      exact ⟨['\r', '\n'], by simp [lineBreaks], by simp [hline, hbody]⟩

theorem isBlank_of_mem_lineBreaks {b : List Char} (h : b ∈ lineBreaks) : isBlank b = true := by
  simp only [lineBreaks, List.mem_cons, List.not_mem_nil, or_false] at h
  rcases h with rfl | rfl | rfl <;> decide

/-- The break of a line is white space at its end. -/
theorem trim_dropBreak (line : List Char) : trim (dropBreak line) = trim line := by
  obtain ⟨b, hb, hline⟩ := eq_dropBreak_append line
  have htrim := trim_append_of_isBlank_right (a := dropBreak line) (isBlank_of_mem_lineBreaks hb)
  rw [← hline] at htrim
  exact htrim.symm

theorem dropBreak_append_newline {line : List Char} (h : line.getLast? ≠ some '\r') :
    dropBreak (line ++ ['\n']) = line := by
  have hbreak : beforeTail? ['\n'] (line ++ ['\n']) = some line :=
    beforeTail?_eq_some_iff.2 rfl
  have hreturn : beforeTail? ['\r'] line = none := by
    rw [Option.eq_none_iff_forall_ne_some]
    intro inner hinner
    rw [beforeTail?_eq_some_iff] at hinner
    rw [hinner, List.getLast?_concat] at h
    exact h rfl
  simp [dropBreak, hbreak, hreturn]

theorem dropBreak_append_return (line : List Char) : dropBreak (line ++ ['\r', '\n']) = line := by
  have hbreak : beforeTail? ['\n'] (line ++ ['\r', '\n']) = some (line ++ ['\r']) :=
    beforeTail?_eq_some_iff.2 (by simp)
  have hreturn : beforeTail? ['\r'] (line ++ ['\r']) = some line :=
    beforeTail?_eq_some_iff.2 rfl
  simp [dropBreak, hbreak, hreturn]

theorem dropBreak_of_getLast?_ne {line : List Char} (h : line.getLast? ≠ some '\n') :
    dropBreak line = line := by
  have hbreak : beforeTail? ['\n'] line = none := by
    rw [Option.eq_none_iff_forall_ne_some]
    intro body hbody
    rw [beforeTail?_eq_some_iff] at hbody
    rw [hbody, List.getLast?_concat] at h
    exact h rfl
  simp [dropBreak, hbreak]

theorem linesWithBreaks_append_newline {line : List Char} (h : '\n' ∉ line) (rest : List Char) :
    linesWithBreaks (line ++ '\n' :: rest) = (line ++ ['\n']) :: linesWithBreaks rest := by
  induction line with
  | nil => simp [linesWithBreaks]
  | cons c line ih =>
    simp only [List.mem_cons, not_or] at h
    rw [List.cons_append, linesWithBreaks, if_neg (Ne.symm h.1), ih h.2]
    rfl

theorem linesWithBreaks_of_newline_not_mem {line : List Char} (h : '\n' ∉ line)
    (hne : line ≠ []) : linesWithBreaks line = [line] := by
  induction line with
  | nil => exact absurd rfl hne
  | cons c line ih =>
    simp only [List.mem_cons, not_or] at h
    rw [linesWithBreaks, if_neg (Ne.symm h.1)]
    cases line with
    | nil => rfl
    | cons d line => rw [ih h.2 (by simp), consPart]

/-- The lines of a text in two parts. -/
theorem linesWithBreaks_flatten {front back : List (List Char)} {cs : List Char}
    (h : linesWithBreaks cs = front ++ back) :
    linesWithBreaks front.flatten = front ∧ linesWithBreaks back.flatten = back ∧
      (back ≠ [] → ∀ d ∈ front.flatten.getLast?, d = '\n') := by
  induction front generalizing cs with
  | nil =>
    refine ⟨rfl, ?_, by simp⟩
    rw [List.nil_append] at h
    rw [← h, flatten_linesWithBreaks]
  | cons l front ih =>
    by_cases hbreak : '\n' ∈ cs
    · obtain ⟨x, rest, rfl, hx⟩ := List.eq_append_cons_of_mem hbreak
      rw [linesWithBreaks_append_newline hx, List.cons_append, List.cons.injEq] at h
      obtain ⟨rfl, hrest⟩ := h
      obtain ⟨hfront, hback, hend⟩ := ih hrest
      refine ⟨?_, hback, fun hne d hd => ?_⟩
      · have hsplit : ((x ++ ['\n']) :: front).flatten = x ++ '\n' :: front.flatten := by simp
        rw [hsplit, linesWithBreaks_append_newline hx, hfront]
      · rw [List.flatten_cons, List.getLast?_append] at hd
        cases hlast : front.flatten.getLast? with
        | some e =>
          rw [hlast] at hd
          obtain rfl := Option.some.inj hd
          exact hend hne _ hlast
        | none =>
          rw [hlast, List.getLast?_concat] at hd
          exact (Option.some.inj hd).symm
    · have hne : cs ≠ [] := by
        rintro rfl
        exact absurd h nofun
      rw [linesWithBreaks_of_newline_not_mem hbreak hne, List.cons_append, List.cons.injEq] at h
      obtain ⟨rfl, hrest⟩ := h
      obtain ⟨rfl, rfl⟩ := List.append_eq_nil_iff.1 hrest.symm
      refine ⟨?_, rfl, fun hnil => absurd rfl hnil⟩
      rw [List.flatten_singleton, linesWithBreaks_of_newline_not_mem hbreak hne]

/-- What a line loses in front of its line feed is white space. -/
theorem exists_eq_dropBreak_append (x : List Char) :
    ∃ b, x = dropBreak (x ++ ['\n']) ++ b ∧ isBlank b = true := by
  by_cases hreturn : x.getLast? = some '\r'
  · obtain ⟨y, rfl⟩ := List.getLast?_eq_some_iff.1 hreturn
    refine ⟨['\r'], ?_, by decide⟩
    rw [List.append_assoc, List.singleton_append, dropBreak_append_return]
  · exact ⟨[], by rw [dropBreak_append_newline hreturn, List.append_nil], rfl⟩

theorem newline_not_mem_dropBreak {x : List Char} (h : '\n' ∉ x) :
    '\n' ∉ dropBreak (x ++ ['\n']) := by
  obtain ⟨b, hx, -⟩ := exists_eq_dropBreak_append x
  exact fun hmem => h (by rw [hx]; exact List.mem_append_left _ hmem)

theorem lines_append_newline {x : List Char} (h : '\n' ∉ x) (rest : List Char) :
    lines (x ++ '\n' :: rest) = dropBreak (x ++ ['\n']) :: lines rest := by
  rw [lines, linesWithBreaks_append_newline h, List.map_cons, ← lines]

theorem lines_of_newline_not_mem {x : List Char} (h : '\n' ∉ x) (hne : x ≠ []) : lines x = [x] := by
  have hlast : x.getLast? ≠ some '\n' := fun e => h (List.mem_of_getLast? e)
  rw [lines, linesWithBreaks_of_newline_not_mem h hne, List.map_singleton,
    dropBreak_of_getLast?_ne hlast]

theorem newlines_eq_zero {x : List Char} (h : '\n' ∉ x) : newlines x = 0 := List.count_eq_zero.2 h

theorem newlines_append_newline {x : List Char} (h : '\n' ∉ x) (rest : List Char) :
    newlines (x ++ '\n' :: rest) = newlines rest + 1 := by
  rw [newlines_append, newlines_eq_zero h, Nat.zero_add]
  exact List.count_cons_self

/-- A character that is no white space stands on the line with the number of line breaks in front
of it. -/
theorem exists_line_of_append {c : Char} (hc : isSpace c = false) (a b : List Char) :
    ∃ l, (lines (a ++ c :: b))[newlines a]? = some l ∧ isBlank l = false := by
  induction hn : a.length using Nat.strongRecOn generalizing a with
  | _ n ih =>
    by_cases ha : '\n' ∈ a
    · obtain ⟨x, a, rfl, hx⟩ := List.eq_append_cons_of_mem ha
      obtain ⟨l, hl, hblank⟩ := ih a.length (by rw [← hn]; simp; omega) a rfl
      refine ⟨l, ?_, hblank⟩
      rw [List.append_assoc, List.cons_append, lines_append_newline hx, newlines_append_newline hx,
        List.getElem?_cons_succ]
      exact hl
    · rw [newlines_eq_zero ha]
      have hbreak : '\n' ≠ c := by
        rintro rfl
        exact absurd hc (by decide)
      by_cases hb : '\n' ∈ b
      · obtain ⟨x, b, rfl, hx⟩ := List.eq_append_cons_of_mem hb
        have hline : '\n' ∉ a ++ c :: x := by
          simp only [List.mem_append, List.mem_cons, not_or]
          exact ⟨ha, hbreak, hx⟩
        have hsplit : a ++ c :: (x ++ '\n' :: b) = (a ++ c :: x) ++ '\n' :: b := by simp
        refine ⟨dropBreak (a ++ c :: x ++ ['\n']), ?_, ?_⟩
        · rw [hsplit, lines_append_newline hline]
          rfl
        · -- the line keeps the character, since what it loses is white space
          by_contra hne
          obtain ⟨s, hs, hblank⟩ := exists_eq_dropBreak_append (a ++ c :: x)
          have hall := isBlank_append_cons hc a x
          rw [hs, isBlank_append, hblank, Bool.and_true] at hall
          exact hne hall
      · have hline : '\n' ∉ a ++ c :: b := by
          simp only [List.mem_append, List.mem_cons, not_or]
          exact ⟨ha, hbreak, hb⟩
        refine ⟨a ++ c :: b, ?_, isBlank_append_cons hc a b⟩
        rw [lines_of_newline_not_mem hline (by simp)]
        rfl

/-- **A text that is joined from lines has these lines.** -/
theorem lines_intercalate {ls : List (List Char)}
    (h : ∀ l ∈ ls, l ≠ [] ∧ '\n' ∉ l ∧ l.getLast? ≠ some '\r') :
    lines (['\n'].intercalate ls) = ls := by
  induction ls with
  | nil => rfl
  | cons l ls ih =>
    obtain ⟨hne, hbreak, hreturn⟩ := h l List.mem_cons_self
    cases ls with
    | nil =>
      rw [List.intercalate_singleton, lines_of_newline_not_mem hbreak hne]
    | cons l' ls =>
      have ih' := ih fun l hl => h l (List.mem_cons_of_mem _ hl)
      have hjoin : ['\n'].intercalate (l :: l' :: ls) =
          l ++ '\n' :: ['\n'].intercalate (l' :: ls) := by
        simp [List.intercalate_cons_cons]
      rw [hjoin, lines_append_newline hbreak, dropBreak_append_newline hreturn, ih']

/-- The text that is written as lines, each with a break behind it. -/
def joined (ls : List (List Char)) : List Char := ls.flatMap fun l => l ++ ['\n']

theorem joined_cons (l : List Char) (ls : List (List Char)) :
    joined (l :: ls) = l ++ '\n' :: joined ls := by
  simp [joined]

/-- What is written as lines is read as these lines, but for a carriage return at their ends. -/
theorem lines_joined {ls : List (List Char)} (h : ∀ l ∈ ls, '\n' ∉ l) :
    lines (joined ls) = ls.map fun l => dropBreak (l ++ ['\n']) := by
  induction ls with
  | nil => rfl
  | cons l ls ih =>
    rw [List.forall_mem_cons] at h
    rw [joined_cons, lines_append_newline h.1, ih h.2, List.map_cons]

theorem newlines_joined {ls : List (List Char)} (h : ∀ l ∈ ls, '\n' ∉ l) :
    newlines (joined ls) = ls.length := by
  induction ls with
  | nil => rfl
  | cons l ls ih =>
    obtain ⟨hl, hls⟩ := List.forall_mem_cons.1 h
    rw [joined_cons, newlines_append_newline hl, ih hls, List.length_cons]

theorem trim_dropBreak_append_newline (l : List Char) :
    trim (dropBreak (l ++ ['\n'])) = trim l := by
  rw [trim_dropBreak, trim_append_of_isBlank_right (by decide)]

end SnippetRunner.Text
