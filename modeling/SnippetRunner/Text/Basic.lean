/-!
# Text as a list of characters

Program text is handled as a `List Char`. Positions in it are counted in UTF-8 bytes, so a cut is
possible only between two characters: `cut?` takes a byte count and returns the two sides, and it
fails exactly when the count falls inside a character or beyond the end.

* `byteSize` measures a text, and is additive (`byteSize_append`).
* `cut?` splits without losing anything (`append_of_cut?`), and where its argument says
  (`byteSize_of_cut?`).
* `slice` spells the text between two byte positions.
-/

namespace SnippetRunner.Text

/-- The length of a text in UTF-8 bytes. -/
def byteSize : List Char → Nat
  | [] => 0
  | c :: cs => c.utf8Size + byteSize cs

@[simp] theorem byteSize_nil : byteSize [] = 0 := rfl

@[simp] theorem byteSize_cons (c : Char) (cs : List Char) :
    byteSize (c :: cs) = c.utf8Size + byteSize cs := rfl

@[simp] theorem byteSize_append (xs ys : List Char) :
    byteSize (xs ++ ys) = byteSize xs + byteSize ys := by
  induction xs with
  | nil => simp
  | cons c cs ih => simp [ih, Nat.add_assoc]

/-- The two sides of the text at a byte position, if the position is between two characters. -/
def cut? : Nat → List Char → Option (List Char × List Char)
  | 0, cs => some ([], cs)
  | _ + 1, [] => none
  | n + 1, c :: cs =>
    if c.utf8Size ≤ n + 1 then
      (cut? (n + 1 - c.utf8Size) cs).map fun (before, after) => (c :: before, after)
    else none

theorem append_of_cut? {n : Nat} {cs before after : List Char}
    (h : cut? n cs = some (before, after)) : before ++ after = cs := by
  induction cs generalizing n before with
  | nil => cases n <;> simp_all [cut?]
  | cons c cs ih =>
    cases n with
    | zero => simp_all [cut?]
    | succ n =>
      simp only [cut?] at h
      split at h
      · obtain ⟨⟨b, a⟩, hb, hba⟩ := Option.map_eq_some_iff.1 h
        obtain ⟨rfl, rfl⟩ := Prod.mk.inj hba
        simp [ih hb]
      · simp at h

theorem byteSize_of_cut? {n : Nat} {cs before after : List Char}
    (h : cut? n cs = some (before, after)) : byteSize before = n := by
  induction cs generalizing n before with
  | nil => cases n <;> simp_all [cut?]
  | cons c cs ih =>
    cases n with
    | zero => simp_all [cut?]
    | succ n =>
      simp only [cut?] at h
      split at h
      · obtain ⟨⟨b, a⟩, hb, hba⟩ := Option.map_eq_some_iff.1 h
        obtain ⟨rfl, rfl⟩ := Prod.mk.inj hba
        simp only [byteSize_cons, ih hb]
        omega
      · simp at h

/-- The text from byte `start` up to byte `stop`; nothing if they do not bound a part of it. -/
def slice (start stop : Nat) (cs : List Char) : List Char :=
  match cut? start cs with
  | some (_, tail) => ((cut? (stop - start) tail).map Prod.fst).getD []
  | none => []

/-- The number of line breaks. -/
def newlines (cs : List Char) : Nat := cs.count '\n'

@[simp] theorem newlines_append (xs ys : List Char) :
    newlines (xs ++ ys) = newlines xs + newlines ys := by
  simp [newlines]

/-! ## Parts of a text -/

/-- Parts of a text, with one character more in front of the first part. -/
def consPart (c : Char) : List (List Char) → List (List Char)
  | [] => [[c]]
  | part :: parts => (c :: part) :: parts

@[simp] theorem flatten_consPart (c : Char) (parts : List (List Char)) :
    (consPart c parts).flatten = c :: parts.flatten := by
  cases parts <;> simp [consPart]

/-- Every maximal part between two occurrences of a character that satisfies `sep`; there is one
more of them than there are such characters. -/
def splitAtEach (sep : Char → Bool) : List Char → List (List Char)
  | [] => [[]]
  | c :: cs => if sep c then [] :: splitAtEach sep cs else consPart c (splitAtEach sep cs)

/-- The position of the first occurrence of `word`: the text before it and the text from it on. -/
def breakOn? (word : List Char) : List Char → Option (List Char × List Char)
  | [] => if word.isPrefixOf [] then some ([], []) else none
  | c :: cs =>
    if word.isPrefixOf (c :: cs) then some ([], c :: cs)
    else (breakOn? word cs).map fun (before, after) => (c :: before, after)

theorem append_of_breakOn? {word cs before after : List Char}
    (h : breakOn? word cs = some (before, after)) : before ++ after = cs := by
  induction cs generalizing before with
  | nil =>
    simp only [breakOn?] at h
    split at h <;> simp_all
  | cons c cs ih =>
    simp only [breakOn?] at h
    split at h
    · obtain ⟨rfl, rfl⟩ := Prod.mk.inj (Option.some.inj h)
      rfl
    · obtain ⟨⟨b, a⟩, hb, hba⟩ := Option.map_eq_some_iff.1 h
      obtain ⟨rfl, rfl⟩ := Prod.mk.inj hba
      simp [ih hb]

/-- Whether `word` occurs in the text. -/
def contains (word cs : List Char) : Bool := (breakOn? word cs).isSome

/-- What follows `lead`, if the text starts with it. -/
def afterLead? : (lead cs : List Char) → Option (List Char)
  | [], cs => some cs
  | _ :: _, [] => none
  | l :: ls, c :: cs => if l = c then afterLead? ls cs else none

theorem eq_append_of_afterLead? {lead cs tail : List Char} (h : afterLead? lead cs = some tail) :
    cs = lead ++ tail := by
  induction lead generalizing cs with
  | nil => simp_all [afterLead?]
  | cons l ls ih =>
    cases cs with
    | nil => simp [afterLead?] at h
    | cons c cs =>
      simp only [afterLead?] at h
      split at h
      · next e => simp [e, ih h]
      · simp at h

/-- What precedes `tail`, if the text ends with it. -/
def beforeTail? (tail cs : List Char) : Option (List Char) :=
  (afterLead? tail.reverse cs.reverse).map List.reverse

/-- The lines with their line breaks; no line after a final line break. -/
def linesWithBreaks : List Char → List (List Char)
  | [] => []
  | c :: cs =>
    if c = '\n' then [c] :: linesWithBreaks cs else consPart c (linesWithBreaks cs)

/-- The parts of `linesWithBreaks` lose nothing. -/
theorem flatten_linesWithBreaks (cs : List Char) : (linesWithBreaks cs).flatten = cs := by
  induction cs with
  | nil => rfl
  | cons c cs ih =>
    simp only [linesWithBreaks]
    split <;> simp [ih]

/-- A line without its break, which is a line feed that a carriage return may precede. -/
def dropBreak (line : List Char) : List Char :=
  match beforeTail? ['\n'] line with
  | none => line
  | some body => (beforeTail? ['\r'] body).getD body

/-- The lines of a text, without their breaks. -/
def lines (cs : List Char) : List (List Char) := (linesWithBreaks cs).map dropBreak

end SnippetRunner.Text
