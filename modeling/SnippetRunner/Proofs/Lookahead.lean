import Mathlib.Tactic.Common
import SnippetRunner.Token.Lexer

/-!
# How far the lexer looks

A token is read from the text up to the next white space or closing brace (`endsToken`), and from
nothing behind it. So a step that takes a token takes it again from a text that is the same up to
there (`step_of_alike`): words, numbers and signs go as far as they can, and such a character ends
them (`word_append`, `number_append`, `read?_append`), while what stands in quote marks ends by
itself (`quoted_append`). And no token ends with white space (`getLast?_of_step`).
-/

namespace SnippetRunner

open Text

namespace Text

/-! ## White space -/

/-- All white space characters. -/
def spaces : List Char :=
  ['\t', '\n', '\x0b', '\x0c', '\r', ' ', '\x85', '\xa0', '\u1680', '\u2000', '\u2001', '\u2002',
   '\u2003', '\u2004', '\u2005', '\u2006', '\u2007', '\u2008', '\u2009', '\u200a', '\u2028',
   '\u2029', '\u202f', '\u205f', '\u3000']

theorem mem_spaces {c : Char} (h : isSpace c = true) : c ∈ spaces := by
  have hcodes : c.toNat ∈ spaces.map Char.toNat := by
    simp only [isSpace, Bool.or_eq_true, Bool.and_eq_true, decide_eq_true_eq, beq_iff_eq] at h
    simp only [spaces, List.map_cons, List.map_nil, List.mem_cons, List.not_mem_nil, or_false,
      Char.reduceToNat]
    omega
  obtain ⟨d, hd, hcode⟩ := List.mem_map.1 hcodes
  rwa [← Char.toNat_inj.1 hcode]

/-- What holds of all white space characters is a matter of looking at them. -/
theorem of_isSpace {p : Char → Bool} (h : spaces.all p = true) {c : Char} (hc : isSpace c = true) :
    p c = true :=
  List.all_eq_true.1 h c (mem_spaces hc)

theorem isIdentPart_of_isSpace {c : Char} (h : isSpace c = true) : isIdentPart c = false := by
  have hall : spaces.all (fun c => !isIdentPart c) = true := by decide +kernel
  simpa using of_isSpace hall h

/-- A text that is empty or starts with a character that passes the test. -/
def LedBy (q : Char → Bool) (cs : List Char) : Prop := ∀ c ∈ cs.head?, q c = true

variable {q : Char → Bool} {cs Z : List Char}

theorem ledBy_nil : LedBy q [] := by simp [LedBy]

theorem ledBy_cons {c : Char} (h : q c = true) : LedBy q (c :: cs) := by
  simpa [LedBy] using h

/-- A character that does not pass is not the first one. -/
theorem LedBy.head?_ne (h : LedBy q Z) {c : Char} (hc : q c = false) : Z.head? ≠ some c := by
  intro hhead
  rw [h c hhead] at hc
  exact Bool.noConfusion hc

/-- A run ends where characters pass that are not part of it. -/
theorem takeWhile_append {p : Char → Bool} (hp : ∀ c, q c = true → p c = false) (hZ : LedBy q Z)
    (cs : List Char) : (cs ++ Z).takeWhile p = cs.takeWhile p := by
  induction cs with
  | nil =>
    cases Z with
    | nil => rfl
    | cons z Z => simp [hp z (hZ z rfl)]
  | cons c cs ih =>
    rw [List.cons_append, List.takeWhile_cons, List.takeWhile_cons, ih]

theorem any_head?_append {p : Char → Bool} (hp : ∀ c, q c = true → p c = false) (hZ : LedBy q Z)
    (cs : List Char) : (cs ++ Z).head?.any p = cs.head?.any p := by
  cases cs with
  | cons c cs => rfl
  | nil =>
    cases Z with
    | nil => rfl
    | cons z Z => exact hp z (hZ z rfl)

/-- A word goes no further than characters that are not in it. -/
theorem isPrefixOf_append {word : List Char} (hword : word.all (fun c => !q c) = true)
    (hZ : LedBy q Z) (cs : List Char) : word.isPrefixOf (cs ++ Z) = word.isPrefixOf cs := by
  induction word generalizing cs with
  | nil => simp
  | cons w word ih =>
    simp only [List.all_cons, Bool.and_eq_true, Bool.not_eq_true'] at hword
    cases cs with
    | nil =>
      cases Z with
      | nil => rfl
      | cons z Z =>
        have hne : w ≠ z := by
          rintro rfl
          simp [hZ w rfl] at hword
        simp [List.isPrefixOf, hne]
    | cons c cs => simp [List.isPrefixOf, ih hword.2 cs]

end Text

namespace Lexer

/-- Whether a character ends a token in front of it: white space or a closing brace. -/
def endsToken (c : Char) : Bool := isSpace c || c = '}'

theorem endsToken_of_isSpace {c : Char} (h : isSpace c = true) : endsToken c = true := by
  rw [endsToken, h, Bool.true_or]

/-- What holds of all characters that end tokens is a matter of looking at them. -/
theorem of_endsToken {p : Char → Bool} (h : ('}' :: spaces).all p = true) {c : Char}
    (hc : endsToken c = true) : p c = true := by
  rw [List.all_cons, Bool.and_eq_true] at h
  rw [endsToken, Bool.or_eq_true, decide_eq_true_eq] at hc
  obtain hspace | rfl := hc
  · exact of_isSpace h.2 hspace
  · exact h.1

theorem isIdentPart_of_endsToken {c : Char} (h : endsToken c = true) : isIdentPart c = false := by
  have hall : ('}' :: spaces).all (fun c => !isIdentPart c) = true := by decide +kernel
  simpa using of_endsToken hall h

variable {cs Z : List Char}

/-! ## Words and signs -/

theorem word_append (hZ : LedBy endsToken Z) (first : Char) (cs : List Char) :
    word first (cs ++ Z) = word first cs := by
  simp only [word, takeWhile_append (fun c => isIdentPart_of_endsToken) hZ]

/-- Behind its first character a sign has none that ends tokens. -/
theorem tail_text (s : Sign) : s.text.toList.tail.all (fun c => !endsToken c) = true := by
  cases s <;> decide

theorem read?_append (hZ : LedBy endsToken Z) (c : Char) (cs : List Char) :
    Sign.read? (c :: cs ++ Z) = Sign.read? (c :: cs) := by
  refine congrArg (List.find? · Sign.all) (funext fun s => ?_)
  have htail := tail_text s
  generalize s.text.toList = word at htail ⊢
  cases word with
  | nil => simp
  | cons w word =>
    rw [List.tail_cons] at htail
    simp [List.isPrefixOf, isPrefixOf_append htail hZ]

/-! ## Numbers -/

theorem digitRun_append {isDigit : Char → Bool}
    (hdigit : ∀ c, endsToken c = true → isDigit c = false)
    (hZ : LedBy endsToken Z) (cs : List Char) :
    digitRun isDigit (cs ++ Z) = digitRun isDigit cs := by
  refine takeWhile_append (fun c hc => ?_) hZ cs
  have hbar : c ≠ '_' := by
    rintro rfl
    exact absurd hc (by decide)
  simp [hdigit c hc, hbar]

theorem isDigit_of_endsToken {c : Char} (h : endsToken c = true) : c.isDigit = false := by
  have hall : ('}' :: spaces).all (fun c => !c.isDigit) = true := by decide
  simpa using of_endsToken hall h

theorem isHexDigit_of_endsToken {c : Char} (h : endsToken c = true) : isHexDigit c = false := by
  have hall : ('}' :: spaces).all (fun c => !isHexDigit c) = true := by decide
  simpa using of_endsToken hall h

theorem hasSuffix_append {letters : List Char}
    (hletters : letters.all (fun c => !endsToken c) = true)
    (hZ : LedBy endsToken Z) (cs : List Char) :
    hasSuffix letters (cs ++ Z) = hasSuffix letters cs := by
  refine any_head?_append (fun c hc => ?_) hZ cs
  have hmem : c ∉ letters := by
    intro hmem
    have hspace := List.all_eq_true.1 hletters c hmem
    simp [hc] at hspace
  simpa using hmem

theorem length_digitRun_le (isDigit : Char → Bool) (cs : List Char) :
    (digitRun isDigit cs).length ≤ cs.length :=
  (List.takeWhile_prefix _).length_le

theorem fractionRun_cons_of_ne {c : Char} (h : c ≠ '.') (cs : List Char) :
    fractionRun (c :: cs) = [] := by
  simp [fractionRun, h]

theorem fractionRun_append (hZ : LedBy endsToken Z) (cs : List Char) :
    fractionRun (cs ++ Z) = fractionRun cs := by
  cases cs with
  | nil =>
    cases Z with
    | nil => rfl
    | cons z Z =>
      have hz : z ≠ '.' := by
        rintro rfl
        exact absurd (hZ '.' rfl) (by decide)
      exact fractionRun_cons_of_ne hz Z
  | cons c cs =>
    by_cases hc : c = '.'
    · subst hc
      cases cs with
      | nil =>
        cases Z with
        | nil => rfl
        | cons z Z => simp [fractionRun, isDigit_of_endsToken (hZ z rfl)]
      | cons d cs =>
        have hrun := digitRun_append (fun c => isDigit_of_endsToken) hZ (d :: cs)
        rw [List.cons_append] at hrun
        simp only [List.cons_append, fractionRun, hrun]
    · rw [List.cons_append, fractionRun_cons_of_ne hc, fractionRun_cons_of_ne hc]

theorem length_fractionRun_le (cs : List Char) : (fractionRun cs).length ≤ cs.length := by
  unfold fractionRun
  split
  · next d rest =>
    have hle := length_digitRun_le Char.isDigit (d :: rest)
    split
    · simp only [List.length_cons] at hle ⊢
      omega
    · exact Nat.zero_le _
  · exact Nat.zero_le _

/-- The signs that an exponent starts with. -/
def signRun (cs : List Char) : List Char := cs.takeWhile fun c => c = '+' || c = '-'

theorem signRun_append (hZ : LedBy endsToken Z) (cs : List Char) :
    signRun (cs ++ Z) = signRun cs := by
  refine takeWhile_append (fun c hc => ?_) hZ cs
  have hne : c ≠ '+' ∧ c ≠ '-' := by
    constructor <;> rintro rfl <;> exact absurd hc (by decide)
  simp [hne]

theorem length_signRun_le (cs : List Char) : (signRun cs).length ≤ cs.length :=
  (List.takeWhile_prefix _).length_le

theorem exponentRun_cons (e : Char) (rest : List Char) :
    exponentRun (e :: rest) =
      if (e = 'e' ∨ e = 'E') ∧ (signRun rest).length ≤ 1 ∧
          (rest.drop (signRun rest).length).head?.any Char.isDigit then
        e :: signRun rest ++ digitRun Char.isDigit (rest.drop (signRun rest).length)
      else [] := rfl

theorem exponentRun_append (hZ : LedBy endsToken Z) (cs : List Char) :
    exponentRun (cs ++ Z) = exponentRun cs := by
  cases cs with
  | nil =>
    cases Z with
    | nil => rfl
    | cons z Z =>
      have hz : z ≠ 'e' ∧ z ≠ 'E' := by
        constructor <;> rintro rfl <;> exact absurd (hZ _ rfl) (by decide)
      rw [List.nil_append, exponentRun_cons, if_neg (by simp [hz])]
      rfl
  | cons e rest =>
    have hdrop : (rest ++ Z).drop (signRun rest).length = rest.drop (signRun rest).length ++ Z :=
      List.drop_append_of_le_length (length_signRun_le rest)
    have hdigit := any_head?_append (fun c => isDigit_of_endsToken) hZ
      (rest.drop (signRun rest).length)
    have hrun := digitRun_append (fun c => isDigit_of_endsToken) hZ
      (rest.drop (signRun rest).length)
    rw [List.cons_append, exponentRun_cons, exponentRun_cons, signRun_append hZ, hdrop, hdigit,
      hrun]

theorem length_exponentRun_le (cs : List Char) : (exponentRun cs).length ≤ cs.length := by
  cases cs with
  | nil => exact Nat.le_refl _
  | cons e rest =>
    have hle := length_digitRun_le Char.isDigit (rest.drop (signRun rest).length)
    have hsign := length_signRun_le rest
    rw [exponentRun_cons]
    split
    · simp only [List.length_cons, List.length_append, List.length_drop] at hle ⊢
      omega
    · exact Nat.zero_le _

/-- The parts of a number are part of the text. -/
theorem add_length_runs_le (cs : List Char) :
    (digitRun Char.isDigit cs).length +
      (fractionRun (cs.drop (digitRun Char.isDigit cs).length)).length +
      (exponentRun (cs.drop ((digitRun Char.isDigit cs).length +
        (fractionRun (cs.drop (digitRun Char.isDigit cs).length)).length))).length ≤ cs.length := by
  have hwhole := length_digitRun_le Char.isDigit cs
  have hfraction := length_fractionRun_le (cs.drop (digitRun Char.isDigit cs).length)
  have hexponent := length_exponentRun_le (cs.drop ((digitRun Char.isDigit cs).length +
    (fractionRun (cs.drop (digitRun Char.isDigit cs).length)).length))
  rw [List.length_drop] at hfraction hexponent
  omega

theorem hexBody_append (hZ : LedBy endsToken Z) (cs : List Char) :
    hexBody (cs ++ Z) = hexBody cs := by
  have hrun := digitRun_append (fun c => isHexDigit_of_endsToken) hZ cs
  have hdrop : (cs ++ Z).drop (digitRun isHexDigit cs).length =
      cs.drop (digitRun isHexDigit cs).length ++ Z :=
    List.drop_append_of_le_length (length_digitRun_le isHexDigit cs)
  have hlong (cs : List Char) : hasSuffix ['l', 'L'] (cs ++ Z) = hasSuffix ['l', 'L'] cs :=
    hasSuffix_append (by decide) hZ cs
  simp only [hexBody, hrun, hdrop, hlong]

theorem number_append (hZ : LedBy endsToken Z) (first : Char) (cs : List Char) :
    number first (cs ++ Z) = number first cs := by
  have hhex : hasSuffix ['x', 'X'] (cs ++ Z) = hasSuffix ['x', 'X'] cs :=
    hasSuffix_append (by decide) hZ cs
  have hfloating (cs : List Char) :
      hasSuffix ['f', 'F', 'd', 'D'] (cs ++ Z) = hasSuffix ['f', 'F', 'd', 'D'] cs :=
    hasSuffix_append (by decide) hZ cs
  have hlong (cs : List Char) : hasSuffix ['l', 'L'] (cs ++ Z) = hasSuffix ['l', 'L'] cs :=
    hasSuffix_append (by decide) hZ cs
  unfold number
  rw [hhex]
  by_cases hx : first = '0' ∧ hasSuffix ['x', 'X'] cs = true
  · rw [if_pos hx, if_pos hx]
    cases cs with
    | nil => simp [hasSuffix] at hx
    | cons c cs => rw [List.cons_append, List.drop_one, List.drop_one, List.tail_cons,
        List.tail_cons, hexBody_append hZ]
  · rw [if_neg hx, if_neg hx]
    let whole := digitRun Char.isDigit cs
    let fraction := fractionRun (cs.drop whole.length)
    let exponent := exponentRun (cs.drop (whole.length + fraction.length))
    have hwhole : digitRun Char.isDigit (cs ++ Z) = whole :=
      digitRun_append (fun c => isDigit_of_endsToken) hZ cs
    have hlen : whole.length + fraction.length + exponent.length ≤ cs.length :=
      add_length_runs_le cs
    have hfraction : fractionRun ((cs ++ Z).drop whole.length) = fraction := by
      rw [List.drop_append_of_le_length (by omega), fractionRun_append hZ]
    have hexponent : exponentRun ((cs ++ Z).drop (whole.length + fraction.length)) = exponent := by
      rw [List.drop_append_of_le_length (by omega), exponentRun_append hZ]
    have hrest : (cs ++ Z).drop (whole.length + fraction.length + exponent.length) =
        cs.drop (whole.length + fraction.length + exponent.length) ++ Z :=
      List.drop_append_of_le_length hlen
    simp only [hwhole, hfraction, hexponent, hrest, hfloating, hlong]
    rfl

/-! ## Quoted literals -/

section Quoted

variable {u Y : List Char} {t : Token} {n k : Nat}

theorem takeWhile_append_of_length_lt {p : Char → Bool}
    (h : ((u ++ Y).takeWhile p).length < u.length) (Y' : List Char) :
    (u ++ Y').takeWhile p = (u ++ Y).takeWhile p := by
  induction u with
  | nil => simp at h
  | cons c u ih =>
    simp only [List.cons_append, List.takeWhile_cons] at h ⊢
    split
    · next hc =>
      rw [if_pos hc, List.length_cons, List.length_cons] at h
      rw [ih (by omega)]
    · rfl

/-- An escape is read from the characters it takes. -/
theorem unicodeEscape_append {value : Char} (h : unicodeEscape (u ++ Y) = .ok (value, n))
    (hn : n ≤ u.length) (Y' : List Char) : unicodeEscape (u ++ Y') = .ok (value, n) := by
  have hmarks : ((u ++ Y).takeWhile (· = 'u')).length + 4 = n := by
    unfold unicodeEscape at h
    dsimp only at h
    split at h
    · simp at h
    · split at h
      · exact congrArg Prod.snd (Except.ok.inj h)
      · simp at h
  have hsame := takeWhile_append_of_length_lt (u := u) (Y := Y) (p := (· = 'u')) (by omega) Y'
  have hdrop (Y' : List Char) :
      ((u ++ Y').drop ((u ++ Y).takeWhile (· = 'u')).length).take 4 =
        (u.drop ((u ++ Y).takeWhile (· = 'u')).length).take 4 := by
    rw [List.drop_append_of_le_length (by omega), List.take_append_of_le_length]
    rw [List.length_drop]
    omega
  unfold unicodeEscape at h ⊢
  dsimp only at h ⊢
  rw [hsame]
  rw [hdrop] at h ⊢
  split at h
  · simp at h
  · next hdigits =>
    rw [if_neg hdigits]
    exact h

/-- An escape of one letter is read from that letter. -/
theorem escape_cons_of_ne {c : Char} (h : c ≠ 'u') (cs cs' : List Char) :
    escape (c :: cs) = escape (c :: cs') := by
  unfold escape
  split
  · next heq => simp at heq
  · next heq => exact absurd (List.cons.inj heq).1 h
  · next heq =>
    obtain ⟨rfl, -⟩ := List.cons.inj heq
    rfl

theorem escape_cons_u (cs : List Char) :
    escape ('u' :: cs) = match unicodeEscape cs with
      | .ok (c, n) => .ok (c, n + 1)
      | .error (fault, n) => .error (fault, n + 1) := rfl

theorem pos_of_escape {value : Char} {cs : List Char} (h : escape cs = .ok (value, n)) :
    0 < n := by
  unfold escape at h
  split at h
  · simp at h
  · split at h
    · obtain ⟨-, rfl⟩ := Prod.mk.inj (Except.ok.inj h)
      exact Nat.succ_pos _
    · simp at h
  · split at h
    · obtain ⟨-, rfl⟩ := Prod.mk.inj (Except.ok.inj h)
      exact Nat.one_pos
    · simp at h

theorem escape_append {value : Char} (h : escape (u ++ Y) = .ok (value, n)) (hn : n ≤ u.length)
    (Y' : List Char) : escape (u ++ Y') = .ok (value, n) := by
  cases u with
  | nil => exact absurd (pos_of_escape h) (Nat.not_lt.2 hn)
  | cons c u =>
    rw [List.cons_append] at h ⊢
    by_cases hc : c = 'u'
    · subst hc
      rw [escape_cons_u] at h ⊢
      cases hread : unicodeEscape (u ++ Y) with
      | error e => simp [hread] at h
      | ok r =>
        obtain ⟨value', m⟩ := r
        rw [hread] at h
        obtain ⟨rfl, rfl⟩ := Prod.mk.inj (Except.ok.inj h)
        rw [List.length_cons] at hn
        rw [unicodeEscape_append hread (by omega) Y']
    · rwa [escape_cons_of_ne hc _ (u ++ Y)]

/-- A string takes at least its closing quote mark. -/
theorem lt_of_stringBody {read cs : List Char} (h : stringBody read k cs = .ok (t, n)) : k < n := by
  fun_induction stringBody read k cs with
  | case1 => simp at h
  | case2 =>
    obtain ⟨-, rfl⟩ := Prod.mk.inj (Except.ok.inj h)
    exact Nat.lt_succ_self _
  | case3 => simp at h
  | case4 read k cs value m hescape _ _ ih =>
    have hlt := ih h
    omega
  | case5 => simp at h
  | case6 read k c cs _ _ _ ih =>
    have hlt := ih h
    omega

/-- A reading that takes some of the characters in front takes the first of them. -/
theorem exists_cons_of_lt {c : Char} {cs : List Char} (hcs : u ++ Y = c :: cs) (hlt : k < n)
    (hn : n ≤ k + u.length) : ∃ u', u = c :: u' ∧ cs = u' ++ Y := by
  cases u with
  | nil =>
    rw [List.length_nil] at hn
    omega
  | cons d u =>
    obtain ⟨rfl, rfl⟩ := List.cons.inj hcs
    exact ⟨u, rfl, rfl⟩

/-- A string is read from the characters it takes. -/
theorem stringBody_append {read : List Char} (h : stringBody read k (u ++ Y) = .ok (t, n))
    (hn : n ≤ k + u.length) (Y' : List Char) : stringBody read k (u ++ Y') = .ok (t, n) := by
  generalize hcs : u ++ Y = cs at h
  fun_induction stringBody read k cs generalizing u with
  | case1 => simp at h
  | case2 read k cs =>
    have hlt : k < n := by
      obtain ⟨-, rfl⟩ := Prod.mk.inj (Except.ok.inj h)
      exact Nat.lt_succ_self k
    obtain ⟨u, rfl, rfl⟩ := exists_cons_of_lt hcs hlt hn
    rw [List.cons_append, stringBody, if_pos rfl]
    exact h
  | case3 => simp at h
  | case4 read k cs value m hescape hquote hbreak ih =>
    have hlt := lt_of_stringBody h
    obtain ⟨u, rfl, rfl⟩ := exists_cons_of_lt hcs (by omega) hn
    rw [List.length_cons] at hn
    have hm : m ≤ u.length := by omega
    rw [List.cons_append, stringBody, if_neg hquote, if_neg hbreak, if_pos rfl,
      escape_append hescape hm Y']
    dsimp only
    rw [List.drop_append_of_le_length hm] at h ih ⊢
    exact ih (by rw [List.length_drop]; omega) rfl h
  | case5 => simp at h
  | case6 read k c cs hquote hbreak hslash ih =>
    have hlt := lt_of_stringBody h
    obtain ⟨u, rfl, rfl⟩ := exists_cons_of_lt hcs (by omega) hn
    rw [List.length_cons] at hn
    rw [List.cons_append, stringBody, if_neg hquote, if_neg hbreak, if_neg hslash]
    exact ih (by omega) rfl h

/-- A text block takes at least its closing delimiter. -/
theorem le_of_blockBody {read cs : List Char} (h : blockBody read k cs = .ok (t, n)) :
    k + 3 ≤ n := by
  fun_induction blockBody read k cs with
  | case1 => simp at h
  | case2 =>
    obtain ⟨-, rfl⟩ := Prod.mk.inj (Except.ok.inj h)
    exact Nat.le_refl _
  | case3 read k cs value m hescape _ ih =>
    have hle := ih h
    omega
  | case4 => simp at h
  | case5 read k c cs _ _ ih =>
    have hle := ih h
    omega

/-- A text block is read from the characters it takes. -/
theorem blockBody_append {read : List Char} (h : blockBody read k (u ++ Y) = .ok (t, n))
    (hn : n ≤ k + u.length) (Y' : List Char) : blockBody read k (u ++ Y') = .ok (t, n) := by
  have htake {u : List Char} (hu : 2 ≤ u.length) (Y' : List Char) :
      (u ++ Y').take 2 = u.take 2 := List.take_append_of_le_length hu
  generalize hcs : u ++ Y = cs at h
  fun_induction blockBody read k cs generalizing u with
  | case1 => simp at h
  | case2 read k c cs hclose =>
    have hlt : n = k + 3 := by
      obtain ⟨-, rfl⟩ := Prod.mk.inj (Except.ok.inj h)
      rfl
    obtain ⟨u, rfl, rfl⟩ := exists_cons_of_lt hcs (by omega) hn
    rw [List.length_cons] at hn
    rw [htake (by omega)] at hclose
    rw [List.cons_append, blockBody, htake (by omega), if_pos hclose]
    exact h
  | case3 read k cs value m hescape hclose ih =>
    have hle := le_of_blockBody h
    obtain ⟨u, rfl, rfl⟩ := exists_cons_of_lt hcs (by omega) hn
    rw [List.length_cons] at hn
    have hm : m ≤ u.length := by omega
    have hquote : ¬('\\' = '"' ∧ (u ++ Y').take 2 = ['"', '"']) := fun hquote =>
      absurd hquote.1 (by decide)
    rw [List.cons_append, blockBody, if_neg hquote, if_pos rfl, escape_append hescape hm Y']
    dsimp only
    rw [List.drop_append_of_le_length hm] at h ih ⊢
    exact ih (by rw [List.length_drop]; omega) rfl h
  | case4 => simp at h
  | case5 read k c cs hclose hslash ih =>
    have hle := le_of_blockBody h
    obtain ⟨u, rfl, rfl⟩ := exists_cons_of_lt hcs (by omega) hn
    rw [List.length_cons] at hn
    rw [htake (by omega)] at hclose
    rw [List.cons_append, blockBody, htake (by omega), if_neg hclose, if_neg hslash]
    exact ih (by omega) rfl h

theorem throughBreak_append_of_lt (h : throughBreak (u ++ Y) < u.length) (Y' : List Char) :
    throughBreak (u ++ Y') = throughBreak (u ++ Y) := by
  induction u with
  | nil => simp at h
  | cons c u ih =>
    simp only [List.cons_append, throughBreak] at h ⊢
    split
    · rfl
    · next hc =>
      rw [if_neg hc, List.length_cons] at h
      rw [ih (by omega)]

/-- What is read of a character literal, its closing quote mark included. -/
theorem charBody_cons (c : Char) (cs : List Char) :
    charBody (c :: cs) =
      if c = '\'' ∨ c = '\n' then .error (.emptyChar, 1)
      else
        match if c = '\\' then escape cs else .ok (c, 0) with
        | .error (fault, n) => .error (fault, n + 1)
        | .ok (value, n) =>
          if (cs.drop n).head? = some '\'' then .ok (.char value, n + 2)
          else .error (.unclosedChar, n + 1) := rfl

/-- A character literal is read from the characters it takes. -/
theorem charBody_append (h : charBody (u ++ Y) = .ok (t, n)) (hn : n ≤ u.length) (Y' : List Char) :
    charBody (u ++ Y') = .ok (t, n) := by
  generalize hcs : u ++ Y = cs at h
  cases cs with
  | nil => simp [charBody] at h
  | cons c cs =>
    rw [charBody_cons] at h
    split at h
    · simp at h
    · next hend =>
      split at h
      · simp at h
      · next value m hread =>
        split at h
        · next hmark =>
          obtain ⟨rfl, rfl⟩ := Prod.mk.inj (Except.ok.inj h)
          obtain ⟨u, rfl, rfl⟩ :=
            exists_cons_of_lt (k := 0) (n := m + 2) hcs (Nat.succ_pos _) (by omega)
          rw [List.length_cons] at hn
          have hread' : (if c = '\\' then escape (u ++ Y') else .ok (c, 0)) = .ok (value, m) := by
            split at hread
            · next hslash => rw [if_pos hslash, escape_append hread (by omega) Y']
            · next hslash => rw [if_neg hslash, hread]
          have hlt : m < u.length := by omega
          rw [List.head?_drop, List.getElem?_append_left hlt] at hmark
          rw [List.cons_append, charBody_cons, if_neg hend, hread']
          dsimp only
          rw [List.head?_drop, List.getElem?_append_left hlt, if_pos hmark]
        · simp at h

/-- Texts that are the same up to white space or a closing brace. -/
def Alike (Y Y' : List Char) : Prop :=
  ∃ v Z Z', Y = v ++ Z ∧ Y' = v ++ Z' ∧ LedBy endsToken Z ∧ LedBy endsToken Z'

theorem Alike.head?_append {Y' : List Char} (hY : Alike Y Y') (u : List Char) {c : Char}
    (hc : endsToken c = false) : (u ++ Y).head? = some c ↔ (u ++ Y').head? = some c := by
  obtain ⟨v, Z, Z', rfl, rfl, hZ, hZ'⟩ := hY
  cases u with
  | cons d u => simp
  | nil =>
    cases v with
    | cons d v => simp
    | nil => simp [hZ.head?_ne hc, hZ'.head?_ne hc]

theorem take_one_eq_iff {cs : List Char} {c : Char} : cs.take 1 = [c] ↔ cs.head? = some c := by
  cases cs with
  | nil => simp
  | cons d cs => simp

/-- What stands in quote marks is read from the characters it takes, except that an empty string
is told from a text block by the character behind it. -/
theorem quoted_append {Y' : List Char} (h : quoted (u ++ Y) = .ok (t, u.length))
    (hhead : Y'.head? = some '"' → Y.head? = some '"') : quoted (u ++ Y') = .ok (t, u.length) := by
  unfold quoted at h ⊢
  by_cases hblock : (u ++ Y).take 2 = ['"', '"']
  · rw [if_pos hblock] at h
    have hle := le_of_blockBody h
    have htake (Y' : List Char) : (u ++ Y').take 2 = u.take 2 :=
      List.take_append_of_le_length (by omega)
    have hdrop (Y' : List Char) : (u ++ Y').drop 2 = u.drop 2 ++ Y' :=
      List.drop_append_of_le_length (by omega)
    have hopening : throughBreak (u.drop 2 ++ Y') = throughBreak (u.drop 2 ++ Y) := by
      refine throughBreak_append_of_lt ?_ Y'
      rw [hdrop] at hle
      rw [List.length_drop]
      omega
    have hblock' : (u ++ Y').take 2 = ['"', '"'] := by rw [htake, ← htake Y, hblock]
    rw [if_pos hblock']
    dsimp only at h ⊢
    rw [hdrop] at h hle ⊢
    rw [hopening]
    rw [List.drop_append_of_le_length (by omega)] at h ⊢
    exact blockBody_append h (by rw [List.length_drop]; omega) Y'
  · rw [if_neg hblock] at h
    have hlt := lt_of_stringBody h
    have hblock' : ¬(u ++ Y').take 2 = ['"', '"'] := by
      cases u with
      | nil => simp at hlt
      | cons d u =>
        have hnext : (u ++ Y').head? = some '"' → (u ++ Y).head? = some '"' := by
          cases u with
          | nil => exact hhead
          | cons => exact id
        intro hsame
        apply hblock
        rw [List.cons_append, List.take_succ_cons, List.cons.injEq, take_one_eq_iff] at hsame ⊢
        exact ⟨hsame.1, hnext hsame.2⟩
    rw [if_neg hblock']
    exact stringBody_append h (by omega) Y'

end Quoted

/-! ## One step -/

theorem Step.ofReading_eq_token {r : Reading Token} {t : Token} {n : Nat} :
    Step.ofReading r = .token t n ↔ r = .ok (t, n) := by
  cases r with
  | error e => simp [Step.ofReading]
  | ok r => simp [Step.ofReading, Prod.ext_iff]

theorem Step.ofReading_ne_blank {r : Reading Token} {n : Nat} : Step.ofReading r ≠ .blank n := by
  cases r <;> simp [Step.ofReading]

/-- **A token is taken again from a text that is the same up to a character that ends it.** -/
theorem step_of_alike {c : Char} {u Y Y' : List Char} {t : Token}
    (h : step c (u ++ Y) = .token t u.length) (hY : Alike Y Y') :
    step c (u ++ Y') = .token t u.length := by
  have hhead {d : Char} (hd : endsToken d = false) := hY.head?_append u hd
  unfold step at h ⊢
  by_cases hspace : isSpace c = true
  · simp [hspace] at h
  rw [if_neg hspace] at h ⊢
  by_cases hline : c = '/' ∧ (u ++ Y).head? = some '/'
  · simp [hline] at h
  rw [if_neg hline] at h
  rw [hhead (by decide)] at hline
  rw [if_neg hline]
  by_cases hopen : c = '/' ∧ (u ++ Y).head? = some '*'
  · rw [if_pos hopen] at h
    split at h <;> simp at h
  rw [if_neg hopen] at h
  rw [hhead (by decide)] at hopen
  rw [if_neg hopen]
  by_cases hquote : c = '"'
  · rw [if_pos hquote, Step.ofReading_eq_token] at h ⊢
    exact quoted_append h (hY.head?_append [] (by decide)).2
  rw [if_neg hquote] at h ⊢
  by_cases hmark : c = '\''
  · rw [if_pos hmark, Step.ofReading_eq_token] at h ⊢
    exact charBody_append h (Nat.le_refl _) Y'
  rw [if_neg hmark] at h ⊢
  -- what is left goes as far as a character that ends it, and up to there the texts are the same
  obtain ⟨v, Z, Z', rfl, rfl, hZ, hZ'⟩ := hY
  rw [← List.append_assoc] at h ⊢
  have hcons (Z : List Char) : c :: (u ++ v ++ Z) = c :: (u ++ v) ++ Z := rfl
  rw [number_append hZ, word_append hZ, hcons, read?_append hZ] at h
  rw [number_append hZ', word_append hZ', hcons, read?_append hZ']
  exact h

/-- What has no meaning is a white space character, a line comment or a block comment. -/
theorem step_eq_blank {c : Char} {cs : List Char} {n : Nat} (h : step c cs = .blank n) :
    (isSpace c = true ∧ n = 0) ∨
      (c = '/' ∧ cs.head? = some '/' ∧ n = throughBreak cs) ∨
      (c = '/' ∧ cs.head? = some '*' ∧ ∃ k, commentLength? (cs.drop 1) = some k ∧ n = k + 1) := by
  unfold step at h
  split at h
  · next hspace => exact .inl ⟨hspace, (Step.blank.inj h).symm⟩
  split at h
  · next hline => exact .inr (.inl ⟨hline.1, hline.2, (Step.blank.inj h).symm⟩)
  split at h
  · next hopen =>
    split at h
    · next k hlength =>
      exact .inr (.inr ⟨hopen.1, hopen.2, k, hlength, (Step.blank.inj h).symm⟩)
    · simp at h
  split at h
  · exact absurd h Step.ofReading_ne_blank
  split at h
  · exact absurd h Step.ofReading_ne_blank
  split at h
  · exact absurd h Step.ofReading_ne_blank
  split at h
  · simp at h
  split at h <;> simp at h

/-! ## The last character of a token -/

section Last

variable {cs : List Char} {t : Token} {n k : Nat}

theorem getElem?_of_stringBody {read : List Char} (h : stringBody read k cs = .ok (t, n)) :
    cs[n - 1 - k]? = some '"' := by
  fun_induction stringBody read k cs with
  | case1 => simp at h
  | case2 =>
    obtain ⟨-, rfl⟩ := Prod.mk.inj (Except.ok.inj h)
    simp
  | case3 => simp at h
  | case4 read k cs value m hescape _ _ ih =>
    have hlt := lt_of_stringBody h
    have hlast := ih h
    have hindex : n - 1 - k = m + (n - 1 - (k + 1 + m)) + 1 := by omega
    rw [List.getElem?_drop] at hlast
    rwa [hindex, List.getElem?_cons_succ]
  | case5 => simp at h
  | case6 read k c cs _ _ _ ih =>
    have hlt := lt_of_stringBody h
    have hlast := ih h
    have hindex : n - 1 - k = (n - 1 - (k + 1)) + 1 := by omega
    rwa [hindex, List.getElem?_cons_succ]

theorem getElem?_of_blockBody {read : List Char} (h : blockBody read k cs = .ok (t, n)) :
    cs[n - 1 - k]? = some '"' := by
  fun_induction blockBody read k cs with
  | case1 => simp at h
  | case2 read k c cs hclose =>
    obtain ⟨-, rfl⟩ := Prod.mk.inj (Except.ok.inj h)
    have hindex : k + 3 - 1 - k = 1 + 1 := by omega
    have htwo : (cs.take 2)[1]? = some '"' := by rw [hclose.2]; rfl
    rw [List.getElem?_take_of_lt (by omega)] at htwo
    rwa [hindex, List.getElem?_cons_succ]
  | case3 read k cs value m hescape _ ih =>
    have hle := le_of_blockBody h
    have hlast := ih h
    have hindex : n - 1 - k = m + (n - 1 - (k + 1 + m)) + 1 := by omega
    rw [List.getElem?_drop] at hlast
    rwa [hindex, List.getElem?_cons_succ]
  | case4 => simp at h
  | case5 read k c cs _ _ ih =>
    have hle := le_of_blockBody h
    have hlast := ih h
    have hindex : n - 1 - k = (n - 1 - (k + 1)) + 1 := by omega
    rwa [hindex, List.getElem?_cons_succ]

theorem getElem?_of_charBody (h : charBody cs = .ok (t, n)) : cs[n - 1]? = some '\'' := by
  cases cs with
  | nil => simp [charBody] at h
  | cons c cs =>
    rw [charBody_cons] at h
    split at h
    · simp at h
    · split at h
      · simp at h
      · next value m _ =>
        split at h
        · next hmark =>
          obtain ⟨-, rfl⟩ := Prod.mk.inj (Except.ok.inj h)
          rw [List.head?_drop] at hmark
          simpa using hmark
        · simp at h

theorem getElem?_of_quoted (h : quoted cs = .ok (t, n)) : cs[n - 1]? = some '"' := by
  unfold quoted at h
  split at h
  · dsimp only at h
    have hle := le_of_blockBody h
    have hlast := getElem?_of_blockBody h
    rw [List.getElem?_drop] at hlast
    rw [← hlast]
    congr 1
    omega
  · have hlt := lt_of_stringBody h
    have hlast := getElem?_of_stringBody h
    rwa [Nat.sub_zero] at hlast

theorem length_pos_of_hasSuffix {letters : List Char} (h : hasSuffix letters cs = true) :
    0 < cs.length := by
  cases cs with
  | nil => simp [hasSuffix] at h
  | cons c cs => exact Nat.succ_pos _

theorem le_of_hexBody (h : hexBody cs = .ok (t, n)) : n ≤ cs.length := by
  have hle := length_digitRun_le isHexDigit cs
  unfold hexBody at h
  dsimp only at h
  split at h
  · simp at h
  · split at h
    · next hlong =>
      obtain ⟨-, rfl⟩ := Prod.mk.inj (Except.ok.inj h)
      have hpos := length_pos_of_hasSuffix hlong
      rw [List.length_drop] at hpos
      omega
    · split at h
      · simp at h
      · obtain ⟨-, rfl⟩ := Prod.mk.inj (Except.ok.inj h)
        exact hle

theorem le_of_number {first : Char} (h : number first cs = .ok (t, n)) : n ≤ cs.length := by
  unfold number at h
  split at h
  · next hx =>
    have hpos := length_pos_of_hasSuffix hx.2
    split at h
    · next token m hread =>
      obtain ⟨-, rfl⟩ := Prod.mk.inj (Except.ok.inj h)
      have hle := le_of_hexBody hread
      rw [List.length_drop] at hle
      omega
    · simp at h
  · have hle := add_length_runs_le cs
    dsimp only at h
    generalize hbody : (digitRun Char.isDigit cs).length +
      (fractionRun (cs.drop (digitRun Char.isDigit cs).length)).length +
      (exponentRun (cs.drop ((digitRun Char.isDigit cs).length +
        (fractionRun (cs.drop (digitRun Char.isDigit cs).length)).length))).length = body at h hle
    have hsuffix : body + (if hasSuffix ['f', 'F', 'd', 'D'] (cs.drop body) ||
        hasSuffix ['l', 'L'] (cs.drop body) then 1 else 0) ≤ cs.length := by
      split
      · next hsuffix =>
        rw [Bool.or_eq_true] at hsuffix
        have hpos := hsuffix.elim length_pos_of_hasSuffix length_pos_of_hasSuffix
        rw [List.length_drop] at hpos
        omega
      · exact hle
    split at h
    · obtain ⟨-, rfl⟩ := Prod.mk.inj (Except.ok.inj h)
      exact hsuffix
    · split at h
      · simp at h
      · obtain ⟨-, rfl⟩ := Prod.mk.inj (Except.ok.inj h)
        exact hsuffix

theorem length_text_le_of_read? {s : Sign} (h : Sign.read? cs = some s) :
    s.text.length ≤ cs.length := by
  have hlead : s.text.toList.isPrefixOf cs = true := by
    simpa using List.find?_some h
  rw [← String.length_toList]
  exact (List.isPrefixOf_iff_prefix.1 hlead).length_le

/-- A token is what stands in quote marks, or goes no further than a character that ends it. -/
theorem step_eq_token {c : Char} (h : step c cs = .token t n) :
    isSpace c = false ∧
      ((c = '"' ∧ quoted cs = .ok (t, n)) ∨ (c = '\'' ∧ charBody cs = .ok (t, n)) ∨
        ∀ x Z, cs = x ++ Z → LedBy endsToken Z → n ≤ x.length) := by
  unfold step at h
  split at h
  · simp at h
  · next hspace =>
    refine ⟨by simpa using hspace, ?_⟩
    split at h
    · simp at h
    split at h
    · split at h <;> simp at h
    split at h
    · next hquote => exact .inl ⟨hquote, Step.ofReading_eq_token.1 h⟩
    split at h
    · next hmark => exact .inr (.inl ⟨hmark, Step.ofReading_eq_token.1 h⟩)
    refine .inr (.inr fun x Z hcs hZ => ?_)
    subst hcs
    split at h
    · rw [Step.ofReading_eq_token, number_append hZ] at h
      exact le_of_number h
    split at h
    · rw [word_append hZ] at h
      obtain rfl : (x.takeWhile isIdentPart).length = n := (Step.token.inj h).2
      exact (List.takeWhile_prefix isIdentPart).length_le
    · have hread := read?_append hZ c x
      rw [List.cons_append] at hread
      rw [hread] at h
      split at h
      · next sign hsign =>
        obtain rfl : sign.text.length - 1 = n := (Step.token.inj h).2
        have hle := length_text_le_of_read? hsign
        rw [List.length_cons] at hle
        omega
      · simp at h

/-- **A token does not end with white space.** -/
theorem getLast?_of_step {c : Char} {u Y : List Char} (h : step c (u ++ Y) = .token t u.length) :
    ∀ d ∈ (c :: u).getLast?, isSpace d = false := by
  intro d hd
  obtain ⟨hc, hkind⟩ := step_eq_token h
  rcases List.eq_nil_or_concat u with rfl | ⟨x, s, rfl⟩
  · obtain rfl : c = d := by simpa using hd
    exact hc
  · obtain rfl : s = d := by simpa [List.getLast?_cons] using hd
    have hlast : (x.concat s ++ Y)[(x.concat s).length - 1]? = some s := by simp
    rcases hkind with ⟨-, hread⟩ | ⟨-, hread⟩ | hle
    · rw [getElem?_of_quoted hread] at hlast
      obtain rfl := Option.some.inj hlast
      decide
    · rw [getElem?_of_charBody hread] at hlast
      obtain rfl := Option.some.inj hlast
      decide
    · by_contra hspace
      rw [Bool.not_eq_false] at hspace
      have hlen := hle x (s :: Y) (by simp) (ledBy_cons (endsToken_of_isSpace hspace))
      rw [List.length_concat] at hlen
      omega

end Last

end Lexer

end SnippetRunner
