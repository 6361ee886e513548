import Mathlib.Data.List.TakeWhile
import SnippetRunner.Proofs.CodePieces
import SnippetRunner.Proofs.Literals

/-!
# Strings as they are written

A character of a string is written as itself, as an escape of one letter, or as the escapes of its
code units in UTF-16 (`WrittenChar`). One escape is read as one character, so an escape of half a
surrogate pair is none, and of the characters beyond the basic plane nothing is left but to write
them as themselves.

* A written character is read as the character (`WrittenChar.stringBody_text`), unless it is a pair.
* The first half of a pair is a fault (`UnitEscape.stringBody_text_of_not_isValidChar`).

So a literal without pairs is one token whose payload is the string, and a literal with pairs is
refused at the first of them (`lex_written`).
-/

namespace SnippetRunner

open Text Lexer

/-! ## Writing -/

/-- The letters of escapes, each with the character it stands for. -/
def simpleEscapes : List (Char × Char) :=
  [('b', '\x08'), ('t', '\t'), ('n', '\n'), ('f', '\x0c'), ('r', '\r'), ('s', ' '), ('0', '\x00'),
   ('\\', '\\'), ('\'', '\''), ('"', '"')]

/-- The hexadecimal digits, each at the place of its value. -/
def hexDigits : List Char := "0123456789abcdef".toList

/-- An escape of a code unit: the letter `u`, any number of times, and four hexadecimal digits. -/
structure UnitEscape where
  /-- How often the letter is repeated. -/
  more : Nat
  digits : List Char
  length_digits : digits.length = 4
  all_isHexDigit : digits.all isHexDigit = true

/-- The code units of a character in UTF-16. -/
def utf16 (c : Char) : List Nat :=
  if c.toNat < 0x10000 then [c.toNat]
  else [0xD800 + (c.toNat - 0x10000) / 0x400, 0xDC00 + (c.toNat - 0x10000) % 0x400]

namespace UnitEscape

/-- An escape as it is written. -/
def text (e : UnitEscape) : List Char := '\\' :: 'u' :: (List.replicate e.more 'u' ++ e.digits)

/-- The code unit that an escape spells. -/
def unit (e : UnitEscape) : Nat :=
  e.digits.foldl (fun n d => 16 * n + hexDigits.idxOf d.toLower) 0

end UnitEscape

/-- A character of a string in one of its spellings. -/
inductive WrittenChar
  | plain (c : Char) (h : c ≠ '"' ∧ c ≠ '\\' ∧ c ≠ '\n')
  | simple (letter c : Char) (h : (letter, c) ∈ simpleEscapes)
  | units (c : Char) (escapes : List UnitEscape) (h : escapes.map UnitEscape.unit = utf16 c)

namespace WrittenChar

/-- The character that is written. -/
def char : WrittenChar → Char
  | plain c _ => c
  | simple _ c _ => c
  | units c _ _ => c

/-- The text between the quote marks. -/
def text : WrittenChar → List Char
  | plain c _ => [c]
  | simple letter _ _ => ['\\', letter]
  | units _ escapes _ => escapes.flatMap UnitEscape.text

/-- Whether two escapes stand for one character. -/
def IsPair (w : WrittenChar) : Prop :=
  ∃ c high low h, w = units c [high, low] h

/-- The text of written characters. -/
def body (ws : List WrittenChar) : List Char := ws.flatMap text

/-- The string literal of written characters. -/
def inQuotes (ws : List WrittenChar) : List Char := '"' :: body ws ++ ['"']

end WrittenChar

/-! ## Escapes -/

theorem digitValue_eq_idxOf {d : Char} (h : isHexDigit d = true) :
    Decimal.digitValue d = hexDigits.idxOf d.toLower := by
  have hall : numerals.all
      (fun d => Decimal.digitValue d == hexDigits.idxOf d.toLower) = true := by decide
  exact beq_iff_eq.1 (List.all_eq_true.1 hall d (mem_numerals h))

namespace UnitEscape

theorem digitsValue_digits (e : UnitEscape) : Decimal.digitsValue 16 e.digits = e.unit := by
  rw [Decimal.digitsValue, unit]
  refine List.foldl_ext _ _ _ fun n d hd => ?_
  rw [digitValue_eq_idxOf (List.all_eq_true.1 e.all_isHexDigit d hd), Nat.mul_comm]

/-- An escape of a code unit takes its characters, whatever stands behind it. -/
theorem unicodeEscape_eq (e : UnitEscape) (rest : List Char) :
    unicodeEscape (List.replicate e.more 'u' ++ (e.digits ++ rest)) =
      if e.unit.isValidChar then .ok (Char.ofNat e.unit, e.more + 4)
      else .error (.invalidUnicode (String.ofList e.digits), e.more + 4) := by
  have hmarks : (List.replicate e.more 'u' ++ (e.digits ++ rest)).takeWhile (· = 'u') =
      List.replicate e.more 'u' := by
    obtain ⟨d, ds, hdigits⟩ := List.exists_cons_of_length_pos
      (by rw [e.length_digits]; decide : 0 < e.digits.length)
    have hne : d ≠ 'u' := by
      rintro rfl
      exact absurd (List.all_eq_true.1 e.all_isHexDigit 'u' (by simp [hdigits])) (by decide)
    rw [hdigits, List.takeWhile_append_of_pos (by simp), List.cons_append,
      List.takeWhile_cons_of_neg (by simpa using hne), List.append_nil]
  have hfour : ((List.replicate e.more 'u' ++ (e.digits ++ rest)).drop e.more).take 4 =
      e.digits := by
    rw [List.drop_left' List.length_replicate, ← e.length_digits, List.take_left]
  have hall : e.digits.takeWhile isHexDigit = e.digits := by
    rw [List.takeWhile_eq_self_iff]
    exact List.all_eq_true.1 e.all_isHexDigit
  rw [unicodeEscape, hmarks, List.length_replicate, hfour, hall]
  dsimp only
  rw [if_neg (by rw [e.length_digits]; decide), e.digitsValue_digits]

theorem length_text (e : UnitEscape) : e.text.length = e.more + 6 := by
  simp only [text, List.length_cons, List.length_append, List.length_replicate, e.length_digits]

theorem text_append (e : UnitEscape) (rest : List Char) :
    e.text ++ rest = '\\' :: 'u' :: (List.replicate e.more 'u' ++ (e.digits ++ rest)) := by
  simp [text]

/-- An escape of a unit that is a character is read as the character. -/
theorem stringBody_text_of_isValidChar {e : UnitEscape} (h : e.unit.isValidChar)
    (read : List Char) (n : Nat) (rest : List Char) :
    stringBody read n (e.text ++ rest) =
      stringBody (Char.ofNat e.unit :: read) (n + e.text.length) rest := by
  have hdrop : ('u' :: (List.replicate e.more 'u' ++ (e.digits ++ rest))).drop (e.more + 4 + 1) =
      rest := by
    rw [List.drop_succ_cons, ← List.append_assoc, List.drop_left']
    simp [e.length_digits]
  have hcount : n + 1 + (e.more + 4 + 1) = n + e.text.length := by
    rw [length_text]
    omega
  rw [text_append, stringBody, if_neg (by decide), if_neg (by decide), if_pos rfl, escape_cons_u,
    unicodeEscape_eq, if_pos h]
  dsimp only
  rw [hdrop, hcount]

/-- An escape of half a surrogate pair is a fault. -/
theorem stringBody_text_of_not_isValidChar {e : UnitEscape} (h : ¬e.unit.isValidChar)
    (read : List Char) (n : Nat) (rest : List Char) :
    stringBody read n (e.text ++ rest) =
      .error (.invalidUnicode (String.ofList e.digits), n + e.text.length) := by
  have hcount : n + 1 + (e.more + 4 + 1) = n + e.text.length := by
    rw [length_text]
    omega
  rw [text_append, stringBody, if_neg (by decide), if_neg (by decide), if_pos rfl, escape_cons_u,
    unicodeEscape_eq, if_neg h]
  dsimp only
  rw [hcount]

end UnitEscape

/-! ## Characters -/

theorem simpleEscape?_of_mem {letter c : Char} (h : (letter, c) ∈ simpleEscapes) :
    simpleEscape? letter = some c ∧ letter ≠ 'u' := by
  have hall : ∀ p ∈ simpleEscapes, simpleEscape? p.1 = some p.2 ∧ p.1 ≠ 'u' := by decide
  exact hall _ h

/-- A character has one code unit, which is the character, or two, of which the first is none. -/
theorem utf16_cases (c : Char) :
    (utf16 c = [c.toNat] ∧ c.toNat.isValidChar) ∨
      ∃ high low, utf16 c = [high, low] ∧ ¬high.isValidChar := by
  unfold utf16
  split
  · exact .inl ⟨rfl, c.valid⟩
  · have hvalid : c.toNat < 0xD800 ∨ 0xDFFF < c.toNat ∧ c.toNat < 0x110000 := c.valid
    refine .inr ⟨_, _, rfl, ?_⟩
    rintro (h | h) <;> omega

namespace WrittenChar

variable {w : WrittenChar} {ws : List WrittenChar}

/-- The two ways of writing a character by escapes of its code units. -/
theorem units_cases {c : Char} {escapes : List UnitEscape}
    (h : escapes.map UnitEscape.unit = utf16 c) :
    (∃ e, escapes = [e] ∧ e.unit = c.toNat ∧ e.unit.isValidChar) ∨
      ∃ high low, escapes = [high, low] ∧ ¬high.unit.isValidChar := by
  rcases utf16_cases c with ⟨hunits, hvalid⟩ | ⟨high, low, hunits, hhigh⟩ <;> rw [hunits] at h
  · obtain ⟨e, rfl, he⟩ := List.map_eq_singleton_iff.1 h
    exact .inl ⟨e, rfl, he, he ▸ hvalid⟩
  · obtain ⟨e, tail, rfl, rfl, htail⟩ := List.map_eq_cons_iff.1 h
    obtain ⟨e', rfl, -⟩ := List.map_eq_singleton_iff.1 htail
    exact .inr ⟨e, e', rfl, hhigh⟩

/-- **A written character is read as the character**, unless it is a pair. -/
theorem stringBody_text (hw : ¬w.IsPair) (read : List Char) (n : Nat) (rest : List Char) :
    stringBody read n (w.text ++ rest) = stringBody (w.char :: read) (n + w.text.length) rest := by
  cases w with
  | plain c h =>
    obtain ⟨hquote, hslash, hbreak⟩ := h
    exact stringBody_plain hquote hslash hbreak read n rest
  | simple letter c h =>
    obtain ⟨hletter, hu⟩ := simpleEscape?_of_mem h
    exact stringBody_simple hletter hu read n rest
  | units c escapes h =>
    rcases units_cases h with ⟨e, rfl, hunit, hvalid⟩ | ⟨high, low, rfl, -⟩
    · rw [text, List.flatMap_singleton, UnitEscape.stringBody_text_of_isValidChar hvalid, hunit,
        Char.ofNat_toNat, char]
    · exact absurd ⟨c, high, low, h, rfl⟩ hw

theorem body_cons (w : WrittenChar) (ws : List WrittenChar) : body (w :: ws) = w.text ++ body ws :=
  rfl

/-- **Written characters are read as the characters**, if there is no pair among them. -/
theorem stringBody_body (hws : ∀ w ∈ ws, ¬w.IsPair) (read : List Char) (n : Nat)
    (rest : List Char) :
    stringBody read n (body ws ++ rest) =
      stringBody ((ws.map char).reverse ++ read) (n + (body ws).length) rest := by
  induction ws generalizing read n with
  | nil => rfl
  | cons w ws ih =>
    obtain ⟨hw, hws⟩ := List.forall_mem_cons.1 hws
    rw [body_cons, List.append_assoc, stringBody_text hw, ih hws, List.map_cons,
      List.reverse_cons, List.append_assoc, List.singleton_append, List.length_append,
      Nat.add_assoc]

/-- A written character does not start with a quote mark. -/
theorem exists_text_eq_cons (w : WrittenChar) : ∃ c cs, w.text = c :: cs ∧ c ≠ '"' := by
  cases w with
  | plain c h => exact ⟨c, [], rfl, h.1⟩
  | simple letter c h => exact ⟨'\\', [letter], rfl, by decide⟩
  | units c escapes h =>
    rcases units_cases h with ⟨e, rfl, -⟩ | ⟨high, low, rfl, -⟩ <;>
      exact ⟨'\\', _, rfl, by decide⟩

/-- What a literal says stands on one line, not in a block. -/
theorem quoted_body (ws : List WrittenChar) :
    quoted (body ws ++ ['"']) = stringBody [] 0 (body ws ++ ['"']) := by
  rw [quoted, if_neg]
  cases ws with
  | nil => simp [body]
  | cons w ws =>
    obtain ⟨c, cs, htext, hc⟩ := w.exists_text_eq_cons
    simp [body_cons, htext, hc]

theorem step_body (ws : List WrittenChar) :
    step '"' (body ws ++ ['"']) = .ofReading (stringBody [] 0 (body ws ++ ['"'])) := by
  rw [← quoted_body]
  rfl

end WrittenChar

open WrittenChar

/-- **A string literal is one token whose payload is the string, however its characters are
written**, as long as none is written as a pair. The first half of a pair is a fault. -/
theorem lex_written (ws : List WrittenChar) :
    ((∀ w ∈ ws, ¬w.IsPair) →
      lex (inQuotes ws) = .ok ⟨[⟨.string (String.ofList (ws.map char)),
        Span.ofText .start (inQuotes ws)⟩], Span.ofText (Position.start.after (inQuotes ws)) []⟩) ∧
    ∀ front c high low h back, ws = front ++ .units c [high, low] h :: back →
      (∀ w ∈ front, ¬w.IsPair) →
        lex (inQuotes ws) = .error ⟨.invalidUnicode (String.ofList high.digits),
          Span.ofText .start ('"' :: body front ++ high.text)⟩ := by
  constructor
  · intro hws
    have hstep : step '"' (body ws ++ ['"'] ++ []) =
        .token (.string (String.ofList (ws.map char))) (body ws ++ ['"']).length := by
      rw [List.append_nil, step_body, stringBody_body hws, stringBody, if_pos rfl]
      simp [Step.ofReading]
    have hcuts : Cuts (inQuotes ws)
        [⟨inQuotes ws, some (.string (String.ofList (ws.map char)))⟩] [] := by
      have hcuts := Cuts.token hstep (.nil [])
      rwa [List.append_nil] at hcuts
    rw [lex_of_cuts hcuts]
    rfl
  · rintro front c high low h back rfl hfront
    have hhigh : ¬high.unit.isValidChar := by
      rcases units_cases h with ⟨e, he, -⟩ | ⟨e, e', he, hinvalid⟩
      · simp at he
      · rwa [(List.cons.inj he).1]
    have hbody : body (front ++ .units c [high, low] h :: back) ++ ['"'] =
        body front ++ (high.text ++ (low.text ++ (body back ++ ['"']))) := by
      simp [body, text]
    have hstep : step '"' (body (front ++ .units c [high, low] h :: back) ++ ['"']) =
        .fault (.invalidUnicode (String.ofList high.digits))
          (body front ++ high.text).length := by
      rw [step_body, hbody, stringBody_body hfront,
        UnitEscape.stringBody_text_of_not_isValidChar hhigh, Nat.zero_add, ← List.length_append]
      rfl
    rw [lex, inQuotes, List.cons_append, lexFrom_cons, hstep, hbody]
    dsimp only
    rw [← List.append_assoc, List.take_left]
    rfl

namespace WrittenChar

/-- The halves of a character beyond the basic plane. -/
def highHalf : UnitEscape := ⟨0, "D83D".toList, rfl, by decide⟩

def lowHalf : UnitEscape := ⟨1, "de00".toList, rfl, by decide⟩

/-- A character as a pair of escapes. -/
def paired : WrittenChar := .units '😀' [highHalf, lowHalf] (by decide)

/-- A letter as its escape, the character beyond the basic plane as itself, and a tab. -/
def unpaired : List WrittenChar :=
  [.units 'é' [⟨2, "00E9".toList, rfl, by decide⟩] (by decide), .plain '😀' (by decide),
    .simple 't' '\t' (by decide)]

theorem not_isPair_of_mem_unpaired : ∀ w ∈ unpaired, ¬w.IsPair := by
  rintro _ hw ⟨c, high, low, h, rfl⟩
  simp [unpaired] at hw

end WrittenChar

/-- A string without pairs, and the same string with a pair behind it. -/
theorem lex_written_unpaired :
    lex "\"\\uuu00E9😀\\t\"".toList =
        .ok ⟨[⟨.string "é😀\t", ⟨0, 16, 1, 1⟩⟩], ⟨16, 16, 1, 14⟩⟩ ∧
      lex "\"\\uuu00E9😀\\t\\uD83D\\uude00\"".toList =
        .error ⟨.invalidUnicode "D83D", ⟨0, 21, 1, 1⟩⟩ :=
  ⟨(lex_written unpaired).1 not_isPair_of_mem_unpaired,
    (lex_written (unpaired ++ [paired])).2 unpaired '😀' highHalf lowHalf (by decide) [] rfl
      not_isPair_of_mem_unpaired⟩

/-- A character that is written as a pair is not read. -/
theorem not_lex_paired : ¬∀ ws : List WrittenChar, ∃ span stop,
    lex (inQuotes ws) = .ok ⟨[⟨.string (String.ofList (ws.map char)), span⟩], stop⟩ := by
  intro h
  obtain ⟨span, stop, hread⟩ := h [paired]
  have hrefused : (lex (inQuotes [paired])).isOk = false := by decide +kernel
  rw [hread] at hrefused
  exact absurd hrefused nofun

end SnippetRunner
