import Mathlib.Order.Nat
import SnippetRunner.Proofs.CodeWords
import SnippetRunner.Proofs.MaskedPlaces

/-!
# The first place of a sequence of words

A search for words finds the least position at which the masked text has them in order, each of them
whole, with white space and nothing else between them (`findWords?_eq_iff_isLeast`).

* `InOrder` says how the words stand, one after another. This is what is checked at a place where
  the search looks (`inOrder_iff_stands`).
* The search jumps over a first word that is in the wrong place, and misses nothing there
  (`findWordsFrom_eq`): behind the first character of a word no other one is whole.
* A search without jumps finds the first place at which the check succeeds
  (`wordsFrom_eq_some_iff`).
-/

namespace SnippetRunner.Scan

open Text

variable {w : List Char} {words : List (List Char)} {cs front gap tail : List Char} {n : Nat}

/-! ## Words in order -/

/-- A text that a word can be: it is not empty, and all of it can stand inside an identifier. -/
structure IsWord (w : List Char) : Prop where
  ne_nil : w ≠ []
  all_isIdentPart : w.all isIdentPart = true

/-- Whether a word between two texts ends at both sides. -/
structure IsBounded (front tail : List Char) : Prop where
  left : front.getLast?.any isIdentPart = false
  right : tail.head?.any isIdentPart = false

/-- `InOrder front words cs`: the text starts with the words in order, each of them whole, with
white space and nothing else between them. `front` is the text before it. -/
inductive InOrder : List Char → List (List Char) → List Char → Prop
  | last {front w tail : List Char} (h : IsBounded front tail) : InOrder front [w] (w ++ tail)
  | cons {front w gap tail : List Char} {words : List (List Char)}
      (h : IsBounded front (gap ++ tail)) (hgap : gap ≠ []) (hblank : isBlank gap = true)
      (hrest : InOrder (front ++ w ++ gap) words tail) :
      InOrder front (w :: words) (w ++ (gap ++ tail))

/-- In the code of the text the words stand in order from the position on. -/
def WordsStandAt (words : List (List Char)) (cs : List Char) (n : Nat) : Prop :=
  ∃ front tail, masked cs = front ++ tail ∧ byteSize front = n ∧ InOrder front words tail

theorem IsWord.exists_cons (h : IsWord w) : ∃ c u, w = c :: u ∧ isSpace c = false := by
  obtain ⟨c, u, rfl⟩ := List.exists_cons_of_ne_nil h.ne_nil
  have hc := List.all_eq_true.1 h.all_isIdentPart c List.mem_cons_self
  exact ⟨c, u, rfl, Lexer.isSpace_of_isIdentPart hc⟩

/-! ## The check at a place -/

theorem endsWord_eq_true_iff : endsWord cs = true ↔ cs.head?.any isIdentPart = false := by
  cases cs <;> simp [endsWord]

theorem startsWithWords_cons_eq_true_iff :
    startsWithWords (w :: words) cs = true ↔ ∃ tail, cs = w ++ tail ∧
      tail.head?.any isIdentPart = false ∧ (words = [] ∨
        tail.head?.any isSpace = true ∧ startsWithWords words (trimStart tail) = true) := by
  rw [startsWithWords]
  constructor
  · intro h
    split at h
    · exact absurd h Bool.false_ne_true
    · next tail htail =>
      rw [Bool.and_eq_true, Bool.or_eq_true, Bool.and_eq_true, List.isEmpty_iff,
        endsWord_eq_true_iff] at h
      exact ⟨tail, eq_append_of_afterLead? htail, h⟩
  · rintro ⟨tail, rfl, h⟩
    rw [afterLead?_append, ← endsWord_eq_true_iff] at *
    simpa using h

theorem startsWithWords_nil_eq_false (hwords : ∀ w ∈ words, IsWord w) (hne : words ≠ []) :
    startsWithWords words [] = false := by
  obtain ⟨w, rest, rfl⟩ := List.exists_cons_of_ne_nil hne
  obtain ⟨c, u, rfl, -⟩ := (hwords w List.mem_cons_self).exists_cons
  rfl

/-- A word at the head of a text, and others behind it. -/
theorem startsWithWords_cons_iff_of_ne_nil (hwords : ∀ w ∈ words, IsWord w) (hne : words ≠ []) :
    startsWithWords (w :: words) cs = true ↔ ∃ gap tail, cs = w ++ (gap ++ tail) ∧ gap ≠ [] ∧
      isBlank gap = true ∧ startsWithWords words tail = true := by
  rw [startsWithWords_cons_eq_true_iff]
  constructor
  · rintro ⟨rest, rfl, -, hrest⟩
    obtain ⟨hspace, hlater⟩ := hrest.resolve_left hne
    refine ⟨rest.takeWhile isSpace, trimStart rest, ?_, ?_, List.all_takeWhile, hlater⟩
    · rw [trimStart, List.takeWhile_append_dropWhile]
    · cases rest with
      | nil => cases hspace
      | cons c rest => simp [show isSpace c = true from hspace]
  · rintro ⟨gap, tail, rfl, hgap, hblank, hlater⟩
    -- the next word is no white space, so the gap is all that is trimmed
    have htrim : trimStart (gap ++ tail) = tail := by
      obtain ⟨v, rest, rfl⟩ := List.exists_cons_of_ne_nil hne
      obtain ⟨c, u, rfl, hc⟩ := (hwords v List.mem_cons_self).exists_cons
      obtain ⟨behind, rfl, -⟩ := startsWithWords_cons_eq_true_iff.1 hlater
      rw [trimStart_append_of_isBlank hblank]
      exact trimStart_eq_self (by simpa using hc)
    rw [← htrim] at hlater
    obtain ⟨c, gap, rfl⟩ := List.exists_cons_of_ne_nil hgap
    have hc : isSpace c = true := List.all_eq_true.1 hblank c List.mem_cons_self
    exact ⟨_, rfl, isIdentPart_of_isSpace hc, .inr ⟨hc, hlater⟩⟩

/-- The words stand whole at the head of a text, with the given character in front. -/
def Stands (words : List (List Char)) (before : Option Char) (cs : List Char) : Prop :=
  before.any isIdentPart = false ∧ startsWithWords words cs = true

/-- White space bounds a word at its right and the next one at its left. -/
theorem any_isIdentPart_of_isBlank (hgap : gap ≠ []) (hblank : isBlank gap = true)
    (a b : List Char) :
    (a ++ gap).getLast?.any isIdentPart = false ∧ (gap ++ b).head?.any isIdentPart = false := by
  have hnone {c : Char} (hc : c ∈ gap) : isIdentPart c = false :=
    isIdentPart_of_isSpace (List.all_eq_true.1 hblank c hc)
  constructor
  · rw [List.getLast?_append, List.getLast?_eq_some_getLast hgap]
    exact hnone (List.getLast_mem hgap)
  · rw [List.head?_append, List.head?_eq_some_head hgap]
    exact hnone (List.head_mem hgap)

/-- **The check at a place says whether the words stand there in order.** -/
theorem inOrder_iff_stands (hwords : ∀ w ∈ words, IsWord w) (hne : words ≠ []) :
    InOrder front words cs ↔ Stands words front.getLast? cs := by
  induction words generalizing front cs with
  | nil => exact absurd rfl hne
  | cons w words ih =>
    obtain ⟨-, hlater⟩ := List.forall_mem_cons.1 hwords
    rcases eq_or_ne words [] with rfl | hmore
    · constructor
      · rintro (⟨hleft, hright⟩ | ⟨-, -, -, ⟨⟩⟩)
        exact ⟨hleft, startsWithWords_cons_eq_true_iff.2 ⟨_, rfl, hright, .inl rfl⟩⟩
      · rintro ⟨hleft, hstarts⟩
        obtain ⟨tail, rfl, hright, -⟩ := startsWithWords_cons_eq_true_iff.1 hstarts
        exact .last ⟨hleft, hright⟩
    · rw [Stands, startsWithWords_cons_iff_of_ne_nil hlater hmore]
      constructor
      · rintro (- | ⟨⟨hleft, -⟩, hgap, hblank, hrest⟩)
        · exact absurd rfl hmore
        · exact ⟨hleft, _, _, rfl, hgap, hblank, ((ih hlater hmore).1 hrest).2⟩
      · rintro ⟨hleft, gap, tail, rfl, hgap, hblank, hstarts⟩
        obtain ⟨hbefore, hbehind⟩ := any_isIdentPart_of_isBlank hgap hblank (front ++ w) tail
        exact .cons ⟨hleft, hbehind⟩ hgap hblank ((ih hlater hmore).2 ⟨hbefore, hstarts⟩)

/-! ## The search -/

theorem getLast?_cons_or (c : Char) (cs : List Char) (before : Option Char) :
    (c :: cs).getLast?.or before = cs.getLast?.or (some c) := by
  cases cs with
  | nil => rfl
  | cons d cs => simp [List.getLast?_cons]

/-- **The search finds the first place where the words stand.** -/
theorem wordsFrom_eq_some_iff {words : List (List Char)} (hnil : startsWithWords words [] = false)
    {position n : Nat} {before : Option Char} {cs : List Char} :
    wordsFrom words position before cs = some n ↔
      (∃ front tail, cs = front ++ tail ∧ position + byteSize front = n ∧
        Stands words (front.getLast?.or before) tail) ∧
      ∀ front tail, cs = front ++ tail → position + byteSize front < n →
        ¬ Stands words (front.getLast?.or before) tail := by
  induction cs generalizing position before with
  | nil =>
    refine ⟨nofun, ?_⟩
    rintro ⟨⟨front, tail, htext, -, -, hstarts⟩, -⟩
    obtain ⟨-, rfl⟩ := List.append_eq_nil_iff.1 htext.symm
    rw [hnil] at hstarts
    exact absurd hstarts Bool.false_ne_true
  | cons c cs ih =>
    rw [wordsFrom]
    by_cases hstands : Stands words before (c :: cs)
    · rw [if_pos (by simpa [Stands] using hstands)]
      constructor
      · rintro ⟨⟩
        exact ⟨⟨[], c :: cs, rfl, rfl, hstands⟩, fun front _ _ hlt => by omega⟩
      · rintro ⟨⟨front, -, -, hsize, -⟩, hfirst⟩
        have hle : n ≤ position := Nat.le_of_not_lt fun hlt =>
          hfirst [] (c :: cs) rfl (by simpa using hlt) hstands
        exact congrArg some (by omega)
    · rw [if_neg (by simpa [Stands] using hstands), ih]
      constructor
      · rintro ⟨⟨front, tail, rfl, hsize, hlater⟩, hfirst⟩
        refine ⟨⟨c :: front, tail, rfl, ?_, getLast?_cons_or c front before ▸ hlater⟩, ?_⟩
        · rw [byteSize_cons]
          omega
        · rintro (_ | ⟨d, front'⟩) tail' htext hlt
          · obtain rfl : c :: (front ++ tail) = tail' := htext
            exact hstands
          · obtain ⟨rfl, hrest⟩ := List.cons.inj htext
            rw [getLast?_cons_or]
            rw [byteSize_cons] at hlt
            exact hfirst front' tail' hrest (by omega)
      · rintro ⟨⟨_ | ⟨d, front⟩, tail, htext, hsize, hlater⟩, hfirst⟩
        · obtain rfl : c :: cs = tail := htext
          exact absurd hlater hstands
        · obtain ⟨rfl, rfl⟩ := List.cons.inj htext
          rw [getLast?_cons_or] at hlater
          rw [byteSize_cons] at hsize
          refine ⟨⟨front, tail, rfl, by omega, hlater⟩, fun front' tail' htext hlt => ?_⟩
          rw [← getLast?_cons_or c front' before]
          exact hfirst (c :: front') tail' (congrArg (c :: ·) htext) (by rw [byteSize_cons]; omega)

theorem findWords?_eq_some_iff_isLeast (hne : words ≠ []) (hwords : ∀ w ∈ words, IsWord w) :
    findWords? words cs = some n ↔ IsLeast {p | WordsStandAt words cs p} n := by
  have hsearch : findWords? words cs = wordsFrom words 0 none (masked cs) := by
    obtain ⟨w, rest, rfl⟩ := List.exists_cons_of_ne_nil hne
    rw [findWords?, if_neg (by simp)]
    exact findWordsFrom_eq (hwords w List.mem_cons_self).all_isIdentPart rest 0 (.inl rfl)
  have hat (p : Nat) : WordsStandAt words cs p ↔ ∃ front tail, masked cs = front ++ tail ∧
      0 + byteSize front = p ∧ Stands words (front.getLast?.or none) tail := by
    simp only [WordsStandAt, inOrder_iff_stands hwords hne, Nat.zero_add, Option.or_none]
  rw [hsearch, wordsFrom_eq_some_iff (startsWithWords_nil_eq_false hwords hne), ← hat]
  refine and_congr_right fun _ => ?_
  constructor
  · intro hfirst p hp
    obtain ⟨front, tail, htext, rfl, hstands⟩ := (hat p).1 hp
    exact Nat.le_of_not_lt fun hlt => hfirst front tail htext hlt hstands
  · intro hleast front tail htext hlt hstands
    have hle := hleast ((hat _).2 ⟨front, tail, htext, rfl, hstands⟩)
    omega

/-- **A search for words finds the least position at which they stand in order**, and nothing iff
there is none. -/
theorem findWords?_eq_iff_isLeast (hne : words ≠ []) (hwords : ∀ w ∈ words, IsWord w)
    (cs : List Char) :
    (∀ i, findWords? words cs = some i ↔ IsLeast {n | WordsStandAt words cs n} i) ∧
      (findWords? words cs = none ↔ ¬ ∃ n, WordsStandAt words cs n) := by
  classical
  refine Text.eq_iff_isLeast (fun n => (findWords?_eq_some_iff_isLeast hne hwords).1) ?_
  intro hnone n hn
  have hsome := (findWords?_eq_some_iff_isLeast hne hwords).2 (Nat.isLeast_find ⟨n, hn⟩)
  rw [hnone] at hsome
  cases hsome

/-- The words in a comment, in one word, in front of a longer one, and around a comment. -/
def scatteredWords : List Char :=
  "/* é public class */ publicclass public classes public /* . */ class C".toList

theorem findWords?_scatteredWords :
    ["public".toList, "class".toList] ≠ [] ∧
      (∀ w ∈ ["public".toList, "class".toList], IsWord w) ∧
      findWords? ["public".toList, "class".toList] scatteredWords = some 49 ∧
      IsLeast {n | WordsStandAt ["public".toList, "class".toList] scatteredWords n} 49 := by
  have hwords : ∀ w ∈ ["public".toList, "class".toList], IsWord w :=
    List.forall_mem_cons.2
      ⟨⟨by decide, by decide⟩, List.forall_mem_singleton.2 ⟨by decide, by decide⟩⟩
  have hfind : findWords? ["public".toList, "class".toList] scatteredWords = some 49 := by
    decide +kernel
  have hsearch := findWords?_eq_iff_isLeast (List.cons_ne_nil _ _) hwords scatteredWords
  exact ⟨List.cons_ne_nil _ _, hwords, hfind, (hsearch.1 49).1 hfind⟩

end SnippetRunner.Scan
