import SnippetRunner.Proofs.CodePieces

/-!
# Words in the code of a text

A search for words (`findWords?`) goes through the text with its literals and comments blanked out.
It finds the first tokens that spell these words one behind the other, literals between them aside
(`findWords?_eq`). The texts are those without text blocks in which no word touches a number in
front of it: a number ends where a word may start, and the search takes both together for one word.
-/

namespace SnippetRunner

open Text Lexer Scan

/-! ## The search without its jumps -/

namespace Scan

/-- The first position from which the words stand in a text, each of them whole. -/
def wordsFrom (words : List (List Char)) (position : Nat) (before : Option Char) :
    List Char → Option Nat
  | [] => none
  | c :: cs =>
    if !before.any isIdentPart && startsWithWords words (c :: cs) then some position
    else wordsFrom words (position + c.utf8Size) (some c) cs

theorem isPrefixOf_of_startsWithWords {word : List Char} {words : List (List Char)} {cs : List Char}
    (h : startsWithWords (word :: words) cs = true) : word.isPrefixOf cs = true := by
  rw [startsWithWords] at h
  split at h
  · exact absurd h Bool.false_ne_true
  · next tail htail =>
    rw [List.isPrefixOf_iff_prefix]
    exact ⟨tail, (eq_append_of_afterLead? htail).symm⟩

theorem findWordsFrom_cons (word : List Char) (words : List (List Char)) (skip position : Nat)
    (before : Option Char) (c : Char) (cs : List Char) :
    findWordsFrom (word :: words) skip position before (c :: cs) =
      if skip > 0 then findWordsFrom (word :: words) (skip - 1) (position + c.utf8Size) (some c) cs
      else if word.isPrefixOf (c :: cs) then
        if !before.any isIdentPart && startsWithWords (word :: words) (c :: cs) then some position
        else findWordsFrom (word :: words) (word.length - 1) (position + c.utf8Size) (some c) cs
      else findWordsFrom (word :: words) 0 (position + c.utf8Size) (some c) cs := rfl

/-- The search passes over no place where the words could stand: inside a word no other one
starts. -/
theorem findWordsFrom_eq {word : List Char} (hword : word.all isIdentPart = true)
    (words : List (List Char)) {skip : Nat} (position : Nat) {before : Option Char} {cs : List Char}
    (hskip : skip = 0 ∨
      before.any isIdentPart = true ∧ (cs.take (skip - 1)).all isIdentPart = true) :
    findWordsFrom (word :: words) skip position before cs =
      wordsFrom (word :: words) position before cs := by
  induction cs generalizing skip position before with
  | nil => rfl
  | cons c cs ih =>
    rw [findWordsFrom_cons, wordsFrom]
    by_cases hzero : skip = 0
    · subst hzero
      rw [if_neg (Nat.lt_irrefl 0)]
      by_cases hlead : word.isPrefixOf (c :: cs) = true
      · have hnext : word.length - 1 = 0 ∨ (some c).any isIdentPart = true ∧
            (cs.take (word.length - 1 - 1)).all isIdentPart = true := by
          cases word with
          | nil => exact .inl rfl
          | cons w word =>
            obtain ⟨rfl, tail, rfl⟩ := List.cons_prefix_cons.1 (List.isPrefixOf_iff_prefix.1 hlead)
            rw [List.all_cons, Bool.and_eq_true] at hword
            refine .inr ⟨hword.1, ?_⟩
            rw [List.length_cons, Nat.add_sub_cancel,
              List.take_append_of_le_length (Nat.sub_le _ _),
              List.all_eq_true]
            exact fun d hd => List.all_eq_true.1 hword.2 d (List.mem_of_mem_take hd)
        rw [if_pos hlead, ih _ hnext]
      · have hnone : startsWithWords (word :: words) (c :: cs) = false := by
          rw [Bool.eq_false_iff]
          exact fun h => hlead (isPrefixOf_of_startsWithWords h)
        rw [if_neg hlead, hnone, Bool.and_false, if_neg Bool.false_ne_true, ih _ (.inl rfl)]
    · obtain ⟨hbefore, hrest⟩ := hskip.resolve_left hzero
      rw [if_pos (Nat.pos_of_ne_zero hzero), hbefore, Bool.not_true, Bool.false_and,
        if_neg Bool.false_ne_true]
      refine ih _ ?_
      cases hskip' : skip - 1 with
      | zero => exact .inl rfl
      | succ n =>
        rw [hskip', List.take_succ_cons, List.all_cons, Bool.and_eq_true] at hrest
        exact .inr hrest

/-! ## Text without words -/

/-- Whether no word starts in the text: every character that could start one stands behind a
character of a word. -/
def startless (before : Option Char) : List Char → Bool
  | [] => true
  | c :: cs => (before.any isIdentPart || !isIdentStart c) && startless (some c) cs

theorem exists_cons_of_isIdentifier {word : List Char} (h : isIdentifier word = true) :
    ∃ c cs, word = c :: cs ∧ isIdentStart c = true ∧ cs.all isIdentPart = true := by
  cases word with
  | nil => exact absurd h Bool.false_ne_true
  | cons c cs =>
    rw [isIdentifier, Bool.and_eq_true] at h
    exact ⟨c, cs, rfl, h.1, h.2⟩

theorem all_of_isIdentifier {word : List Char} (h : isIdentifier word = true) :
    word.all isIdentPart = true := by
  obtain ⟨c, cs, rfl, hc, hcs⟩ := exists_cons_of_isIdentifier h
  rw [List.all_cons, isIdentPart_of_isIdentStart hc, hcs]
  rfl

/-- Words do not stand where no word starts. -/
theorem startsWithWords_eq_false {word : List Char} (hword : isIdentifier word = true)
    (words : List (List Char)) {cs : List Char} (h : ∀ c ∈ cs.head?, isIdentStart c = false) :
    startsWithWords (word :: words) cs = false := by
  obtain ⟨w, word, rfl, hw, -⟩ := exists_cons_of_isIdentifier hword
  rw [Bool.eq_false_iff]
  intro hstarts
  obtain ⟨tail, rfl⟩ := List.isPrefixOf_iff_prefix.1 (isPrefixOf_of_startsWithWords hstarts)
  have hnone := h w rfl
  rw [hw] at hnone
  exact absurd hnone.symm Bool.false_ne_true

/-- The search goes on behind text without words. -/
theorem wordsFrom_append {word : List Char} (hword : isIdentifier word = true)
    (words : List (List Char)) (position : Nat) {before : Option Char} {xs : List Char}
    (h : startless before xs = true) (ys : List Char) :
    wordsFrom (word :: words) position before (xs ++ ys) =
      wordsFrom (word :: words) (position + byteSize xs) (xs.getLast?.or before) ys := by
  induction xs generalizing position before with
  | nil => rfl
  | cons c xs ih =>
    rw [startless, Bool.and_eq_true] at h
    have hnot : (!before.any isIdentPart && startsWithWords (word :: words) (c :: (xs ++ ys))) =
        false := by
      cases hbefore : before.any isIdentPart with
      | true => rfl
      | false =>
        have hstart : isIdentStart c = false := by simpa [hbefore] using h.1
        rw [startsWithWords_eq_false hword words (by simpa using hstart)]
        rfl
    have hlast : (c :: xs).getLast?.or before = xs.getLast?.or (some c) := by
      cases xs with
      | nil => rfl
      | cons d xs => simp [List.getLast?_cons]
    rw [List.cons_append, wordsFrom, hnot, if_neg Bool.false_ne_true, ih _ h.2, byteSize_cons,
      hlast, Nat.add_assoc]

theorem startless_of_forall {xs : List Char} (h : ∀ c ∈ xs, isIdentStart c = false)
    (before : Option Char) : startless before xs = true := by
  induction xs generalizing before with
  | nil => rfl
  | cons c xs ih =>
    rw [startless, h c List.mem_cons_self, ih fun d hd => h d (List.mem_cons_of_mem c hd)]
    simp

/-- Inside a word no word starts. -/
theorem startless_of_all {xs : List Char} (h : xs.all isIdentPart = true) {before : Option Char}
    (hbefore : before.any isIdentPart = true) : startless before xs = true := by
  induction xs generalizing before with
  | nil => rfl
  | cons c xs ih =>
    rw [List.all_cons, Bool.and_eq_true] at h
    have hrest : startless (some c) xs = true := ih h.2 h.1
    rw [startless, hbefore, hrest]
    rfl

theorem startless_of_isNumeral {before : Char} {xs : List Char} (h : isNumeral before xs = true) :
    startless (some before) xs = true := by
  induction xs generalizing before with
  | nil => rfl
  | cons c xs ih =>
    rw [isNumeral, Bool.and_eq_true] at h
    rw [startless, ih h.2, Bool.and_true]
    have hchar := h.1
    simp only [Bool.or_eq_true, Bool.and_eq_true, decide_eq_true_eq] at hchar
    rcases hchar with ((rfl | rfl) | rfl) | ⟨-, hpart⟩
    · simp +decide
    · simp +decide
    · simp +decide
    · simpa using hpart

end Scan

/-! ## Pieces that are words -/

/-- The word that a token is: a name or a reserved word. -/
def Token.word? : Token → Option String
  | ident name => some name
  | keyword k => some k.text
  | _ => none

/-- Whether a token is a number. -/
def Token.isNumber : Token → Bool
  | int _ | long _ | double _ => true
  | _ => false

namespace Lexer

/-- Whether a piece is a word. -/
def Piece.isWord (q : Piece) : Bool := q.token.any fun t => t.word?.isSome

/-- Whether a piece is a number. -/
def Piece.isNumber (q : Piece) : Bool := q.token.any Token.isNumber

/-- Pieces as the lexer takes them off a text: each word as long as it can be, and none of them
right behind a number. -/
inductive Legible : List Piece → Prop
  | nil : Legible []
  | filler {q : Piece} {ps : List Piece} : q.isCode = false → q.text ≠ [] → Legible ps →
      Legible (q :: ps)
  | word {text : List Char} {t : Token} {ps : List Piece} : isIdentifier text = true →
      t.word? = some (String.ofList text) → (∀ c ∈ (spell ps).head?, isIdentPart c = false) →
      Legible ps → Legible (⟨text, some t⟩ :: ps)
  | number {c : Char} {u : List Char} {t : Token} {ps : List Piece} : c.isDigit = true →
      isNumeral c u = true → t.isNumber = true → (∀ q ∈ ps.head?, q.isWord = false) →
      Legible ps → Legible (⟨c :: u, some t⟩ :: ps)
  | sign (s : Sign) {ps : List Piece} : Legible ps → Legible (.sign s :: ps)

theorem isNumber_of_number {first : Char} {cs : List Char} {n : Nat} {t : Token}
    (h : number first cs = .ok (t, n)) : t.isNumber = true := by
  have hhex {cs : List Char} {n : Nat} {t : Token} (h : hexBody cs = .ok (t, n)) :
      t.isNumber = true := by
    unfold hexBody at h
    dsimp only at h
    split at h
    · simp at h
    · split at h
      · obtain ⟨rfl, -⟩ := Prod.mk.inj (Except.ok.inj h)
        rfl
      · split at h
        · simp at h
        · obtain ⟨rfl, -⟩ := Prod.mk.inj (Except.ok.inj h)
          rfl
  unfold number at h
  split at h
  · split at h
    · next hread =>
      obtain ⟨rfl, -⟩ := Prod.mk.inj (Except.ok.inj h)
      exact hhex hread
    · simp at h
  · dsimp only at h
    split at h
    · obtain ⟨rfl, -⟩ := Prod.mk.inj (Except.ok.inj h)
      rfl
    · split at h
      · simp at h
      · obtain ⟨rfl, -⟩ := Prod.mk.inj (Except.ok.inj h)
        split <;> rfl

theorem word?_of_word {first : Char} {cs : List Char} {n : Nat} {t : Token}
    (h : word first cs = (t, n)) :
    t.word? = some (String.ofList (first :: cs.takeWhile isIdentPart)) := by
  obtain ⟨rfl, -⟩ := Prod.mk.inj h
  split
  · next k hk =>
    have htext : k.text = String.ofList (first :: cs.takeWhile isIdentPart) := by
      simpa using List.find?_some hk
    exact congrArg some htext
  · rfl

/-- A sign has one spelling. -/
theorem text_of_step_sign {c : Char} {u Y : List Char} {s : Sign}
    (h : step c (u ++ Y) = .token (.sign s) u.length) : c :: u = s.text.toList := by
  obtain ⟨-, hread⟩ | ⟨-, hread⟩ | ⟨-, hread⟩ | ⟨-, hread⟩ | ⟨s', hread, hs, hlength, -⟩ :=
    token_of_step h
  · exact absurd (isQuoted_of_quoted hread) nofun
  · exact absurd (isQuoted_of_charBody hread) nofun
  · exact absurd (isNumber_of_number hread) nofun
  · exact absurd (word?_of_word hread) nofun
  · obtain rfl := Token.sign.inj hs
    exact eq_text_of_read? hread hlength

/-- A run of characters stops where the next one does not belong to it. -/
theorem head?_of_takeWhile_append {p : Char → Bool} {u cs : List Char}
    (h : ((u ++ cs).takeWhile p).length = u.length) : ∀ c ∈ cs.head?, p c = false := by
  induction u with
  | nil =>
    intro c hc
    cases cs with
    | nil => simp at hc
    | cons d cs =>
      obtain rfl : d = c := by simpa using hc
      by_contra hp
      rw [Bool.not_eq_false] at hp
      simp [hp] at h
  | cons d u ih =>
    rw [List.cons_append, List.takeWhile_cons] at h
    split at h
    · exact ih (by simpa using h)
    · simp at h

/-- **The pieces of a text are legible** if no word stands right behind a number. -/
theorem Cuts.legible {cs : List Char} {ps : List Piece} (h : Cuts cs ps [])
    (hapart : ps.IsChain fun q q' => ¬(q.isNumber = true ∧ q'.isWord = true)) : Legible ps := by
  generalize hrest : ([] : List Char) = rest at h
  induction h with
  | nil => exact .nil
  | @blank c u cs rest ps hstep hcuts ih =>
    exact .filler rfl (List.cons_ne_nil c u) (ih hapart.of_cons hrest)
  | @token c u cs rest t ps hstep hcuts ih =>
    have hlater := ih hapart.of_cons hrest
    subst hrest
    have hspell : cs = Lexer.spell ps := by simpa using hcuts.spell
    have hquoted (ht : t.isQuoted = true) : Legible (⟨c :: u, some t⟩ :: ps) :=
      .filler (by simp [Piece.isCode, ht]) (List.cons_ne_nil c u) hlater
    obtain ⟨-, hread⟩ | ⟨-, hread⟩ | ⟨hdigit, hread⟩ | ⟨hstart, hread⟩ |
      ⟨s, hread, rfl, hlength, -⟩ := token_of_step hstep
    · exact hquoted (isQuoted_of_quoted hread)
    · exact hquoted (isQuoted_of_charBody hread)
    · have hnumeral := (isNumeral_number hread c (isIdentPart_of_isDigit hdigit)).1
      rw [List.take_left] at hnumeral
      refine .number hdigit hnumeral (isNumber_of_number hread) (fun q hq => ?_) hlater
      obtain ⟨qs, rfl⟩ := List.head?_eq_some_iff.1 hq
      have hnot := (List.isChain_cons_cons.1 hapart).1
      rw [Bool.eq_false_iff]
      exact fun hword => hnot ⟨isNumber_of_number hread, hword⟩
    · obtain ⟨hrun, hall⟩ := takeWhile_of_word hread
      have hword := word?_of_word hread
      rw [hrun] at hword
      refine .word ?_ hword (hspell ▸ head?_of_takeWhile_append (congrArg List.length hrun)) hlater
      rw [isIdentifier, hstart, hall]
      rfl
    · have htext := eq_text_of_read? hread hlength
      rw [htext]
      exact .sign s hlater

theorem isCode_of_word? {text : List Char} {t : Token} {w : String} (h : t.word? = some w) :
    Piece.isCode ⟨text, some t⟩ = true := by
  cases t <;> first | rfl | exact absurd h nofun

theorem isCode_of_isNumber {text : List Char} {t : Token} (h : t.isNumber = true) :
    Piece.isCode ⟨text, some t⟩ = true := by
  cases t <;> first | rfl | exact absurd h nofun

theorem word?_of_isNumber {t : Token} (h : t.isNumber = true) : t.word? = none := by
  cases t <;> first | rfl | exact absurd h nofun

namespace Legible

variable {ps qs : List Piece} {text : List Char} {t : Token}

theorem of_append (h : Legible (ps ++ qs)) : Legible qs := by
  induction ps with
  | nil => exact h
  | cons q ps ih =>
    cases h with
    | filler _ _ h | word _ _ _ h | number _ _ _ _ h | sign _ h => exact ih h

theorem isIdentifier_of_word? {w : String} (h : Legible (⟨text, some t⟩ :: ps))
    (ht : t.word? = some w) : text = w.toList ∧ isIdentifier text = true := by
  cases h with
  | filler hcode =>
    rw [isCode_of_word? ht] at hcode
    exact absurd hcode.symm Bool.false_ne_true
  | word hident hword =>
    rw [hword] at ht
    obtain rfl := Option.some.inj ht
    exact ⟨String.toList_ofList.symm, hident⟩
  | number _ _ hnumber =>
    rw [word?_of_isNumber hnumber] at ht
    exact absurd ht nofun
  | sign => exact absurd ht nofun

theorem isIdentifier_of_mem {x : String} (h : Legible ps) (hx : .ident x ∈ tokensOf ps) :
    isIdentifier x.toList = true := by
  obtain ⟨⟨text, token⟩, hq, rfl⟩ := List.mem_filterMap.1 hx
  obtain ⟨front, rest, rfl⟩ := List.append_of_mem hq
  obtain ⟨rfl, hident⟩ := h.of_append.isIdentifier_of_word? (w := x) rfl
  exact hident

end Legible

/-! ## What is shown of legible pieces -/

theorem isSpace_of_mem_shown {q : Piece} (h : q.isCode = false) : isBlank q.shown = true := by
  unfold Piece.shown
  split
  · next hblank => simpa [h] using hblank
  · exact isBlank_blanked _

theorem byteSize_shown (q : Piece) : byteSize q.shown = byteSize q.text := by
  unfold Piece.shown
  split
  · rfl
  · exact byteSize_blanked _

theorem shown_ne_nil {q : Piece} (h : q.text ≠ []) : q.shown ≠ [] := by
  obtain ⟨c, u, hq⟩ := List.exists_cons_of_ne_nil h
  intro hnil
  have hsize := byteSize_shown q
  rw [hnil, hq, byteSize_cons, byteSize_nil] at hsize
  have hpos := c.utf8Size_pos
  omega

theorem shown_of_isCode {q : Piece} (h : q.isCode = true) : q.shown = q.text := by
  rw [Piece.shown, h, Bool.true_or, if_pos rfl]

theorem isSpace_of_isIdentPart {c : Char} (h : isIdentPart c = true) : isSpace c = false := by
  rw [Bool.eq_false_iff]
  intro hspace
  rw [isIdentPart_of_isSpace hspace] at h
  exact absurd h Bool.false_ne_true

/-- What is shown of a sign starts no word and ends none. -/
theorem signText (s : Sign) : (∀ c ∈ s.text.toList, isIdentStart c = false) ∧
    ∃ u c, s.text.toList = u ++ [c] ∧ isIdentPart c = false ∧
      s.text.toList.head?.any isSpace = false := by
  have hall : s.text.toList.all (fun c => !isIdentStart c) = true ∧ s.text.toList ≠ [] ∧
      s.text.toList.getLast?.all (fun c => !isIdentPart c) = true ∧
      s.text.toList.head?.any isSpace = false := by
    cases s <;> decide
  obtain ⟨hstart, hne, hlast, hspace⟩ := hall
  refine ⟨fun c hc => by simpa using List.all_eq_true.1 hstart c hc, _, _,
    (List.dropLast_concat_getLast hne).symm, ?_, hspace⟩
  rw [List.getLast?_eq_some_getLast hne] at hlast
  simpa using hlast

end Lexer

/-! ## Runs of words -/

/-- Whether tokens start with the words. -/
def startsWithRun : List String → List Token → Bool
  | [], _ => true
  | _ :: _, [] => false
  | w :: ws, t :: ts => t.word? = some w && startsWithRun ws ts

namespace Lexer

/-- The tokens of pieces that are code. -/
def codeOf (ps : List Piece) : List Token := (tokensOf ps).filter fun t => !t.isQuoted

theorem codeOf_filler {q : Piece} (h : q.isCode = false) (ps : List Piece) :
    codeOf (q :: ps) = codeOf ps := by
  obtain ⟨text, token⟩ := q
  cases token with
  | none => rfl
  | some t =>
    have ht : (!t.isQuoted) = false := h
    simp [codeOf, tokensOf, ht]

theorem codeOf_code {text : List Char} {t : Token} (h : Piece.isCode ⟨text, some t⟩ = true)
    (ps : List Piece) : codeOf (⟨text, some t⟩ :: ps) = t :: codeOf ps := by
  have ht : (!t.isQuoted) = true := h
  simp only [codeOf, tokensOf, List.filterMap_cons, List.filter_cons, ht, if_true]

variable {ps : List Piece}

/-- Right behind a word no other one stands. -/
theorem Legible.isWord_head?_eq_false (h : Legible ps)
    (hhead : ∀ c ∈ (spell ps).head?, isIdentPart c = false) :
    ∀ q ∈ ps.head?, q.isWord = false := by
  intro q hq
  cases h with
  | nil => simp at hq
  | @filler q' ps hcode =>
    obtain rfl : q' = q := by simpa using hq
    obtain ⟨text, token⟩ := q'
    cases token with
    | none => rfl
    | some t =>
      cases t <;> first | rfl | exact absurd hcode nofun
  | @word text t ps hident =>
    obtain ⟨c, u, rfl, hc, -⟩ := exists_cons_of_isIdentifier hident
    have hnone := hhead c (by simp [spell])
    rw [isIdentPart_of_isIdentStart hc] at hnone
    exact absurd hnone.symm Bool.false_ne_true
  | @number c u t ps _ _ hnumber =>
    obtain rfl : (⟨c :: u, some t⟩ : Piece) = q := by simpa using hq
    simp [Piece.isWord, word?_of_isNumber hnumber]
  | sign s =>
    obtain rfl : Piece.sign s = q := by simpa using hq
    rfl

/-- What is shown behind a word does not go on with it. -/
theorem Legible.head?_shown (h : Legible ps)
    (hhead : ∀ c ∈ (spell ps).head?, isIdentPart c = false) :
    ∀ c ∈ (ps.flatMap Piece.shown).head?, isIdentPart c = false := by
  cases h with
  | nil => simp
  | @filler q ps hcode hne =>
    obtain ⟨d, u, hq⟩ := List.exists_cons_of_ne_nil (shown_ne_nil hne)
    have hblank := isSpace_of_mem_shown hcode
    rw [hq, isBlank_cons, Bool.and_eq_true] at hblank
    intro c hc
    rw [List.flatMap_cons, hq, List.cons_append, List.head?_cons] at hc
    obtain rfl := Option.some.inj hc
    exact isIdentPart_of_isSpace hblank.1
  | @word text t ps hident hword =>
    rw [List.flatMap_cons, shown_of_isCode (isCode_of_word? hword)]
    obtain ⟨c, u, rfl, hc, -⟩ := exists_cons_of_isIdentifier hident
    simpa [spell] using hhead
  | @number c u t ps _ _ hnumber =>
    rw [List.flatMap_cons, shown_of_isCode (isCode_of_isNumber hnumber)]
    simpa [spell] using hhead
  | @sign s ps =>
    rw [List.flatMap_cons, shown_of_isCode rfl]
    obtain ⟨-, u, c, htext, -⟩ := signText s
    have hne : s.text.toList ≠ [] := by rw [htext]; simp
    obtain ⟨d, v, hd⟩ := List.exists_cons_of_ne_nil hne
    simpa [spell, Piece.sign, hd] using hhead

end Lexer

namespace Scan

/-- A word is whole if the text goes on with none. -/
theorem afterLead?_word {text X : List Char} (htext : text.all isIdentPart = true)
    (hX : ∀ c ∈ X.head?, isIdentPart c = false) {word : List Char}
    (hword : word.all isIdentPart = true) {tail : List Char}
    (h : afterLead? word (text ++ X) = some tail) (hend : endsWord tail = true) :
    word = text ∧ tail = X := by
  have happ := eq_append_of_afterLead? h
  have htail : ∀ c ∈ tail.head?, isIdentPart c = false := by
    intro c hc
    obtain ⟨tail, rfl⟩ := List.head?_eq_some_iff.1 hc
    simpa [endsWord] using hend
  have hrun {xs ys : List Char} (hxs : xs.all isIdentPart = true)
      (hys : ∀ c ∈ ys.head?, isIdentPart c = false) : (xs ++ ys).takeWhile isIdentPart = xs := by
    rw [List.takeWhile_append_of_pos (List.all_eq_true.1 hxs)]
    cases ys with
    | nil => simp
    | cons y ys => simp [hys y rfl]
  have hsame : word = text := by
    rw [← hrun htext hX, happ, hrun hword htail]
  subst hsame
  exact ⟨rfl, (List.append_cancel_left happ).symm⟩

/-- Where a text starts with a word, words stand there if this is the first of them and the others
stand behind it, set off by white space. -/
theorem startsWithWords_word {text X : List Char} (htext : text.all isIdentPart = true)
    (hX : ∀ c ∈ X.head?, isIdentPart c = false) {word : List Char}
    (hword : word.all isIdentPart = true) (words : List (List Char)) :
    startsWithWords (word :: words) (text ++ X) = (decide (word = text) &&
      (words.isEmpty || (X.head?.any isSpace && startsWithWords words (trimStart X)))) := by
  by_cases hsame : word = text
  · have hend : endsWord X = true := by
      cases X with
      | nil => rfl
      | cons x X => simpa [endsWord] using hX x rfl
    rw [hsame, startsWithWords, afterLead?_append]
    dsimp only
    rw [hend, decide_eq_true rfl, Bool.true_and]
  · rw [decide_eq_false hsame, Bool.false_and, startsWithWords]
    split
    · rfl
    · next tail htail =>
      cases hend : endsWord tail with
      | false => rfl
      | true => exact absurd (afterLead?_word htext hX hword htail hend).1 hsame

end Scan

namespace Lexer

variable {ps : List Piece}

theorem startsWithRun_cons_of_none {t : Token} (h : t.word? = none) (w : String) (ws : List String)
    (ts : List Token) : startsWithRun (w :: ws) (t :: ts) = false := by
  simp [startsWithRun, h]

/-- Behind a word, words that are not set off by white space do not go on. -/
theorem Legible.startsWithRun_eq_false (h : Legible ps)
    (hhead : ∀ c ∈ (spell ps).head?, isIdentPart c = false)
    (hspace : (ps.flatMap Piece.shown).head?.any isSpace = false) (w : String) (ws : List String) :
    startsWithRun (w :: ws) (codeOf ps) = false := by
  have hword := h.isWord_head?_eq_false hhead
  cases h with
  | nil => rfl
  | @filler q ps hcode hne =>
    obtain ⟨d, u, hq⟩ := List.exists_cons_of_ne_nil (shown_ne_nil hne)
    have hblank := isSpace_of_mem_shown hcode
    rw [hq, isBlank_cons, Bool.and_eq_true] at hblank
    rw [List.flatMap_cons, hq, List.cons_append, List.head?_cons, Option.any_some,
      hblank.1] at hspace
    exact absurd hspace.symm Bool.false_ne_true
  | @word text t ps _ hspell =>
    have hnone := hword _ rfl
    rw [Piece.isWord, Option.any_some, hspell] at hnone
    exact absurd hnone.symm Bool.false_ne_true
  | @number c u t ps _ _ hnumber =>
    rw [codeOf_code (isCode_of_isNumber hnumber)]
    exact startsWithRun_cons_of_none (word?_of_isNumber hnumber) w ws _
  | @sign s ps =>
    rw [Piece.sign, codeOf_code rfl]
    exact startsWithRun_cons_of_none rfl w ws _

/-- Words whose first is the word of a token stand where the others stand behind it. -/
theorem Legible.startsWithWords_word (h : Legible ps) {text : List Char} {t : Token} {w : String}
    {ws : List String} (htext : isIdentifier text = true)
    (hword : t.word? = some (String.ofList text))
    (hhead : ∀ c ∈ (spell ps).head?, isIdentPart c = false) (hw : isIdentifier w.toList = true)
    (hrest : startsWithWords (ws.map String.toList) (trimStart (ps.flatMap Piece.shown)) =
      startsWithRun ws (codeOf ps)) :
    startsWithWords ((w :: ws).map String.toList) (text ++ ps.flatMap Piece.shown) =
      startsWithRun (w :: ws) (t :: codeOf ps) := by
  have hsame : t.word? = some w ↔ w.toList = text := by
    rw [hword, Option.some.injEq]
    constructor
    · rintro rfl
      exact String.toList_ofList
    · intro htext
      rw [← htext, String.ofList_toList]
  rw [List.map_cons, Scan.startsWithWords_word (all_of_isIdentifier htext) (h.head?_shown hhead)
    (all_of_isIdentifier hw), startsWithRun, decide_eq_decide.2 hsame]
  congr 1
  cases ws with
  | nil => rfl
  | cons w' ws =>
    rw [List.map_cons, List.isEmpty_cons, Bool.false_or, ← List.map_cons, hrest]
    cases hspace : (ps.flatMap Piece.shown).head?.any isSpace with
    | true => rfl
    | false => rw [Bool.false_and, h.startsWithRun_eq_false hhead hspace]

/-- **Words stand in the code that is shown if the tokens start with them.** -/
theorem Legible.startsWithWords_shown (h : Legible ps) {ws : List String}
    (hws : ∀ w ∈ ws, isIdentifier w.toList = true) :
    startsWithWords (ws.map String.toList) (trimStart (ps.flatMap Piece.shown)) =
      startsWithRun ws (codeOf ps) := by
  induction ws generalizing ps with
  | nil => rfl
  | cons w ws ih =>
    have hw := hws w List.mem_cons_self
    have hfirst {x : List Char} {c : Char} (hspace : isSpace c = false)
        (hstart : isIdentStart c = false) : startsWithWords ((w :: ws).map String.toList)
          (trimStart (c :: x)) = false := by
      rw [trimStart_eq_self (by simpa using hspace)]
      exact startsWithWords_eq_false hw _ (by simpa using hstart)
    induction h with
    | nil => exact startsWithWords_eq_false hw _ (by simp [trimStart])
    | @filler q ps hcode _ _ ih' =>
      rw [List.flatMap_cons, trimStart_append_of_isBlank (isSpace_of_mem_shown hcode), ih',
        codeOf_filler hcode]
    | @word text t ps hident hword hhead hps _ =>
      have hcode : Piece.isCode ⟨text, some t⟩ = true := isCode_of_word? hword
      have htrim : trimStart (text ++ ps.flatMap Piece.shown) = text ++ ps.flatMap Piece.shown := by
        obtain ⟨c, u, rfl, hc, -⟩ := exists_cons_of_isIdentifier hident
        have hspace := isSpace_of_isIdentPart (isIdentPart_of_isIdentStart hc)
        exact trimStart_eq_self (by simpa using hspace)
      rw [List.flatMap_cons, shown_of_isCode hcode, htrim, codeOf_code hcode]
      exact hps.startsWithWords_word hident hword hhead hw
        (ih hps fun v hv => hws v (List.mem_cons_of_mem w hv))
    | @number c u t ps hdigit _ hnumber _ _ _ =>
      have hcode : Piece.isCode ⟨c :: u, some t⟩ = true := isCode_of_isNumber hnumber
      rw [List.flatMap_cons, shown_of_isCode hcode, codeOf_code hcode,
        startsWithRun_cons_of_none (word?_of_isNumber hnumber)]
      exact hfirst (isSpace_of_isIdentPart (isIdentPart_of_isDigit hdigit))
        (isIdentStart_of_isDigit hdigit)
    | @sign s ps _ _ =>
      obtain ⟨hstart, u, c, htext, -, hspace⟩ := signText s
      have hne : s.text.toList ≠ [] := by rw [htext]; simp
      obtain ⟨d, v, hd⟩ := List.exists_cons_of_ne_nil hne
      rw [List.flatMap_cons, shown_of_isCode rfl, Piece.sign, codeOf_code rfl,
        startsWithRun_cons_of_none rfl]
      rw [hd] at hspace hstart
      dsimp only
      rw [hd]
      exact hfirst (by simpa using hspace) (hstart d List.mem_cons_self)

/-- The first pieces that start with the words, and the pieces in front of them. -/
def firstRun? (ws : List String) : List Piece → Option (List Piece × List Piece)
  | [] => none
  | q :: ps =>
    if q.isCode && startsWithRun ws (codeOf (q :: ps)) then some ([], q :: ps)
    else (firstRun? ws ps).map fun (front, rest) => (q :: front, rest)

theorem firstRun?_of_false {ws : List String} {q : Piece}
    (h : (q.isCode && startsWithRun ws (codeOf (q :: ps))) = false) :
    firstRun? ws (q :: ps) = (firstRun? ws ps).map fun (front, rest) => (q :: front, rest) := by
  rw [firstRun?, h, if_neg Bool.false_ne_true]

/-- The search goes on behind a piece in which no word starts and that no run starts with. -/
theorem wordsFrom_piece {w : String} (hw : isIdentifier w.toList = true) (ws : List String)
    (position : Nat) {before : Option Char} {q : Piece}
    (hstartless : startless before q.shown = true)
    (hrun : (q.isCode && startsWithRun (w :: ws) (codeOf (q :: ps))) = false)
    (hrest : ∀ position, wordsFrom ((w :: ws).map String.toList) position
        (q.shown.getLast?.or before) (ps.flatMap Piece.shown) =
      (firstRun? (w :: ws) ps).map fun (front, _) => position + byteSize (spell front)) :
    wordsFrom ((w :: ws).map String.toList) position before ((q :: ps).flatMap Piece.shown) =
      (firstRun? (w :: ws) (q :: ps)).map fun (front, _) => position + byteSize (spell front) := by
  rw [List.flatMap_cons, List.map_cons, wordsFrom_append hw _ _ hstartless, ← List.map_cons, hrest,
    firstRun?_of_false hrun, Option.map_map, byteSize_shown]
  congr 1
  funext ⟨front, rest⟩
  simp [spell, Nat.add_assoc]

/-- **The search finds the first run of words.** -/
theorem Legible.wordsFrom_shown (h : Legible ps) {w : String} {ws : List String}
    (hws : ∀ v ∈ w :: ws, isIdentifier v.toList = true) (position : Nat) {before : Option Char}
    (hbefore : ∀ q ∈ ps.head?, q.isWord = true → before.any isIdentPart = false) :
    wordsFrom ((w :: ws).map String.toList) position before (ps.flatMap Piece.shown) =
      (firstRun? (w :: ws) ps).map fun (front, _) => position + byteSize (spell front) := by
  have hw := hws w List.mem_cons_self
  induction h generalizing position before with
  | nil => rfl
  | @filler q ps hcode hne hps ih =>
    have hblank := isSpace_of_mem_shown hcode
    have hspaces : ∀ c ∈ q.shown, isIdentPart c = false := fun c hc =>
      isIdentPart_of_isSpace (List.all_eq_true.1 hblank c hc)
    refine wordsFrom_piece hw ws position (startless_of_forall (fun c hc => ?_) before)
      (by rw [hcode, Bool.false_and]) fun position => ih position fun _ _ _ => ?_
    · rw [Bool.eq_false_iff]
      intro hstart
      have hpart := isIdentPart_of_isIdentStart hstart
      rw [hspaces c hc] at hpart
      exact absurd hpart Bool.false_ne_true
    · rw [List.getLast?_eq_some_getLast (shown_ne_nil hne), Option.some_or, Option.any_some]
      exact hspaces _ (List.getLast_mem _)
  | @word text t ps hident hword hhead hps ih =>
    have hcode : Piece.isCode ⟨text, some t⟩ = true := isCode_of_word? hword
    have hself : Legible (⟨text, some t⟩ :: ps) := .word hident hword hhead hps
    have hfree : before.any isIdentPart = false := hbefore _ rfl (by simp [Piece.isWord, hword])
    obtain ⟨c, u, rfl, hc, hu⟩ := exists_cons_of_isIdentifier hident
    have hpart := isIdentPart_of_isIdentStart hc
    have hstands := hself.startsWithWords_shown hws
    rw [List.flatMap_cons, shown_of_isCode hcode] at hstands ⊢
    rw [trimStart_eq_self (by simpa using isSpace_of_isIdentPart hpart)] at hstands
    dsimp only [List.cons_append] at hstands ⊢
    rw [wordsFrom, hstands, hfree, Bool.not_false, Bool.true_and, firstRun?, hcode, Bool.true_and]
    split
    · simp [spell]
    · rw [List.map_cons, wordsFrom_append hw _ _ (startless_of_all hu (by simpa using hpart)),
        ← List.map_cons, ih _ fun q hq hqword => ?_, Option.map_map]
      · congr 1
        funext found
        obtain ⟨front, rest⟩ := found
        simp [spell, Nat.add_assoc]
      · rw [hps.isWord_head?_eq_false hhead q hq] at hqword
        exact absurd hqword Bool.false_ne_true
  | @number c u t ps hdigit hnumeral hnumber hhead _ ih =>
    have hcode : Piece.isCode ⟨c :: u, some t⟩ = true := isCode_of_isNumber hnumber
    refine wordsFrom_piece hw ws position ?_ ?_ fun position => ih position fun q hq hqword => ?_
    · rw [shown_of_isCode hcode, startless, isIdentStart_of_isDigit hdigit,
        startless_of_isNumeral hnumeral]
      simp
    · rw [codeOf_code hcode, startsWithRun_cons_of_none (word?_of_isNumber hnumber), Bool.and_false]
    · rw [hhead q hq] at hqword
      exact absurd hqword Bool.false_ne_true
  | @sign s ps _ ih =>
    obtain ⟨hstart, u, c, htext, hc, -⟩ := signText s
    refine wordsFrom_piece hw ws position ?_ ?_ fun position => ih position fun _ _ _ => ?_
    · rw [shown_of_isCode rfl]
      exact startless_of_forall hstart before
    · rw [Piece.sign, codeOf_code rfl, startsWithRun_cons_of_none rfl, Bool.and_false]
    · rw [shown_of_isCode rfl]
      dsimp only [Piece.sign]
      rw [htext, List.getLast?_concat, Option.some_or, Option.any_some, hc]

/-- What is found is a run. -/
theorem of_firstRun? {ws : List String} {front rest : List Piece}
    (h : firstRun? ws ps = some (front, rest)) : ps = front ++ rest ∧
      ∃ text t qs, rest = ⟨text, some t⟩ :: qs ∧ startsWithRun ws (t :: codeOf qs) = true := by
  induction ps generalizing front with
  | nil => exact absurd h nofun
  | cons q ps ih =>
    rw [firstRun?] at h
    split at h
    · next hrun =>
      obtain ⟨rfl, rfl⟩ := Prod.mk.inj (Option.some.inj h)
      rw [Bool.and_eq_true] at hrun
      obtain ⟨text, token⟩ := q
      cases token with
      | none => exact absurd hrun.1 Bool.false_ne_true
      | some t => exact ⟨rfl, text, t, ps, rfl, codeOf_code hrun.1 ps ▸ hrun.2⟩
    · obtain ⟨⟨front, rest⟩, hfound, heq⟩ := Option.map_eq_some_iff.1 h
      obtain ⟨rfl, rfl⟩ := Prod.mk.inj heq
      obtain ⟨rfl, hrun⟩ := ih hfound
      exact ⟨rfl, hrun⟩

end Lexer

/-! ## The tokens in code -/

/-- The tokens without the literals in quote marks. -/
def codeTokens (ts : List Lexeme) : List Lexeme := ts.filter fun t => !t.token.isQuoted

/-- The tokens from the first run of the words on. -/
def findRun? (ws : List String) : List Lexeme → Option (List Lexeme)
  | [] => none
  | t :: ts =>
    if startsWithRun ws ((t :: ts).map Lexeme.token) then some (t :: ts) else findRun? ws ts

/-- No word stands right behind a number. -/
def NumbersApart (ts : List Lexeme) : Prop :=
  ts.IsChain fun t t' =>
    ¬ (t.token.isNumber = true ∧ t'.token.word?.isSome = true ∧ t.span.stop = t'.span.start)

instance (ts : List Lexeme) : Decidable (NumbersApart ts) :=
  inferInstanceAs (Decidable (List.IsChain _ ts))

namespace Lexer

theorem map_token_codeTokens (p : Position) (ps : List Piece) :
    (codeTokens (place p ps)).map Lexeme.token = codeOf ps := by
  rw [codeOf, ← map_token_place p ps, List.filter_map]
  rfl

theorem codeTokens_filler {q : Piece} (h : q.isCode = false) (p : Position) (ps : List Piece) :
    codeTokens (place p (q :: ps)) = codeTokens (place (p.after q.text) ps) := by
  obtain ⟨text, token⟩ := q
  cases token with
  | none => rfl
  | some t =>
    have ht : (!t.isQuoted) = false := h
    simp [codeTokens, place, ht]

theorem codeTokens_code {text : List Char} {t : Token} (h : Piece.isCode ⟨text, some t⟩ = true)
    (p : Position) (ps : List Piece) :
    codeTokens (place p (⟨text, some t⟩ :: ps)) =
      ⟨t, Span.ofText p text⟩ :: codeTokens (place (p.after text) ps) := by
  have ht : (!t.isQuoted) = true := h
  simp only [codeTokens, place, List.filter_cons, ht, if_true]

/-- The first run of words among the tokens is that among the pieces. -/
theorem findRun?_codeTokens (ws : List String) (p : Position) (ps : List Piece) :
    findRun? ws (codeTokens (place p ps)) =
      (firstRun? ws ps).map fun (front, rest) =>
        codeTokens (place (p.after (spell front)) rest) := by
  induction ps generalizing p with
  | nil => rfl
  | cons q ps ih =>
    have hnext : ((firstRun? ws ps).map fun (front, rest) =>
          codeTokens (place ((p.after q.text).after (spell front)) rest)) =
        ((firstRun? ws ps).map fun (front, rest) => (q :: front, rest)).map fun (front, rest) =>
          codeTokens (place (p.after (spell front)) rest) := by
      rw [Option.map_map]
      congr 1
      funext ⟨front, rest⟩
      simp [spell]
    cases hcode : q.isCode with
    | false =>
      rw [codeTokens_filler hcode, ih, firstRun?_of_false (by rw [hcode, Bool.false_and]), hnext]
    | true =>
      obtain ⟨text, token⟩ := q
      cases token with
      | none => exact absurd hcode Bool.false_ne_true
      | some t =>
        have hrun : ((⟨t, Span.ofText p text⟩ :: codeTokens (place (p.after text) ps)).map
            Lexeme.token) = codeOf (⟨text, some t⟩ :: ps) := by
          rw [← map_token_codeTokens p, codeTokens_code hcode]
        rw [codeTokens_code hcode, findRun?, hrun, firstRun?, hcode, Bool.true_and, ih]
        split
        · rw [Option.map_some, ← codeTokens_code hcode]
          rfl
        · exact hnext

/-- Pieces of tokens that are apart are apart. -/
theorem isChain_of_numbersApart {p : Position} {ps : List Piece} (h : NumbersApart (place p ps)) :
    ps.IsChain fun q q' => ¬ (q.isNumber = true ∧ q'.isWord = true) := by
  induction ps generalizing p with
  | nil => exact .nil
  | cons q ps ih =>
    have hlater : NumbersApart (place (p.after q.text) ps) := by
      obtain ⟨text, _ | t⟩ := q
      · exact h
      · exact h.of_cons
    cases ps with
    | nil => exact .singleton q
    | cons q' ps =>
      refine List.isChain_cons_cons.2 ⟨?_, ih hlater⟩
      obtain ⟨text, _ | t⟩ := q
      · exact fun hboth => absurd hboth.1 Bool.false_ne_true
      obtain ⟨text', _ | t'⟩ := q'
      · exact fun hboth => absurd hboth.2 Bool.false_ne_true
      intro hboth
      refine (List.isChain_cons_cons.1 h).1 ⟨hboth.1, hboth.2, ?_⟩
      simp [Span.ofText]

/-- The pieces of a text with numbers apart are legible. -/
theorem Cuts.legible_of_numbersApart {cs : List Char} {ps : List Piece} (h : Cuts cs ps [])
    (hapart : NumbersApart (place .start ps)) : Legible ps :=
  h.legible (isChain_of_numbersApart hapart)

end Lexer

/-- A search goes through what is shown of the pieces. -/
theorem findWords?_of_cuts {cs : List Char} {ps : List Piece} (hcuts : Cuts cs ps [])
    (hblock : ∀ q ∈ ps, q.token ≠ none → '\n' ∉ q.text) (hapart : NumbersApart (place .start ps))
    {w : String} {ws : List String} (hws : ∀ v ∈ w :: ws, isIdentifier v.toList = true) :
    findWords? ((w :: ws).map String.toList) cs =
      (firstRun? (w :: ws) ps).map fun (front, _) => byteSize (spell front) := by
  have hw : w.toList.all isIdentPart = true := all_of_isIdentifier (hws w List.mem_cons_self)
  have hsearch : findWordsFrom (w.toList :: ws.map String.toList) 0 0 none (masked cs) = _ :=
    findWordsFrom_eq hw _ 0 (.inl rfl)
  have hfound : wordsFrom ((w :: ws).map String.toList) 0 none (ps.flatMap Piece.shown) = _ :=
    (hcuts.legible_of_numbersApart hapart).wordsFrom_shown hws 0 fun _ _ _ => rfl
  rw [findWords?, List.map_cons, List.isEmpty_cons, if_neg Bool.false_ne_true, hsearch,
    hcuts.masked_eq hblock, ← List.map_cons, hfound]
  simp

/-- **Words are found where the code has them as tokens**, one behind the other. -/
theorem findWords?_eq {cs : List Char} {tokens : Lexemes} (hlex : lex cs = .ok tokens)
    (hblock : ∀ t ∈ tokens.list, ¬ t.IsTextBlock cs) (hapart : NumbersApart tokens.list)
    {w : String} {ws : List String} (hws : ∀ v ∈ w :: ws, isIdentifier v.toList = true) :
    findWords? ((w :: ws).map String.toList) cs =
      (findRun? (w :: ws) (codeTokens tokens.list)).bind fun ts =>
        ts.head?.map fun t => t.span.start := by
  obtain ⟨ps, hcuts, rfl⟩ := exists_cuts_of_lex hlex
  rw [findWords?_of_cuts hcuts (fun q hq => hcuts.newline_not_mem hblock hq) hapart hws,
    findRun?_codeTokens]
  cases hfound : firstRun? (w :: ws) ps with
  | none => rfl
  | some found =>
    obtain ⟨front, rest⟩ := found
    obtain ⟨-, text, t, qs, rfl, hrun⟩ := of_firstRun? hfound
    have hcode : Piece.isCode ⟨text, some t⟩ = true := by
      simp only [startsWithRun, Bool.and_eq_true, decide_eq_true_eq] at hrun
      exact isCode_of_word? hrun.1
    rw [Option.map_some, Option.map_some, Option.bind_some]
    dsimp only
    rw [codeTokens_code hcode]
    simp [Span.ofText, Position.start]

theorem exists_cons_of_findRun? {ws : List String} {ts found : List Lexeme}
    (h : findRun? ws ts = some found) : ∃ t rest, found = t :: rest := by
  induction ts with
  | nil => exact absurd h nofun
  | cons t ts ih =>
    rw [findRun?] at h
    split at h
    · exact ⟨t, ts, (Option.some.inj h).symm⟩
    · exact ih h

theorem isSome_findWords? {cs : List Char} {tokens : Lexemes} (hlex : lex cs = .ok tokens)
    (hblock : ∀ t ∈ tokens.list, ¬ t.IsTextBlock cs) (hapart : NumbersApart tokens.list)
    {w : String} {ws : List String} (hws : ∀ v ∈ w :: ws, isIdentifier v.toList = true) :
    (findWords? ((w :: ws).map String.toList) cs).isSome =
      (findRun? (w :: ws) (codeTokens tokens.list)).isSome := by
  rw [findWords?_eq hlex hblock hapart hws]
  cases hfound : findRun? (w :: ws) (codeTokens tokens.list) with
  | none => rfl
  | some found =>
    obtain ⟨t, rest, rfl⟩ := exists_cons_of_findRun? hfound
    rfl

end SnippetRunner
