import Mathlib.Tactic.MkIffOfInductiveProp
import SnippetRunner.Proofs.CompilerOutput

/-!
# Reports in lines

Other compilers write each report as a line of its own, with the file, the line of the program, the
severity and the message, and show the line of the program and a mark below it (`Report.entry`).
Every line of the output is then looked at by itself.

* `ofLine?_position`: the line of a report is read as that report, but an error whose message has
  the label of a warning becomes a warning.
* `ofLine?_trim_eq_none_iff`: a line is passed over iff it is blank, a rule or a count, or has none
  of the marks of a report. Nothing tells a line that is shown from a line that is written.
* So the reports are read back iff all of them are plain (`read_entryLines`): the lines that are
  shown are passed over, and no error has the label of a warning in its message.
-/

namespace SnippetRunner

open Text
open Decimal (digitsOf)

namespace Messages

/-! ## Marks -/

/-- The words that make a line a report. -/
def markWords : List (List Char) :=
  ["warning:", "error", "ERROR", "Exception", "at line"].map String.toList

/-- A line with a position such as `path/File.java:12:`. It is the one behind the first `.java:`,
and numbers end below `2 ^ 64`. -/
def HasPosition (line : List Char) : Prop :=
  ∃ front numeral rest, line = front ++ ".java:".toList ++ (numeral ++ ':' :: rest) ∧
    contains ".java:".toList front = false ∧ IsNumeral numeral ∧
    Decimal.digitsValue 10 numeral < UInt64.size

/-- A line that looks like a report. -/
def CarriesMark (line : List Char) : Prop := (∃ word ∈ markWords, word <:+: line) ∨ HasPosition line

/-- A line that is passed over. -/
def IsQuiet (line : List Char) : Prop :=
  isBlank line = true ∨ trim line = rule ∨ IsCount line ∨ ¬ CarriesMark (trim line)

theorem position?_eq_some_iff {line message : List Char} {n : Nat} :
    position? line = some (n, message) ↔
      ∃ front numeral, line = front ++ ".java:".toList ++ (numeral ++ ':' :: message) ∧
        contains ".java:".toList front = false ∧ IsNumeral numeral ∧
        Decimal.digitsValue 10 numeral = n ∧ n < UInt64.size := by
  have hbehind {after : List Char} : behind? ".java:".toList line = some after ↔
      ∃ front, line = front ++ ".java:".toList ++ after ∧
        contains ".java:".toList front = false :=
    behind?_eq_some_iff (c := '.') (by decide)
  unfold position?
  simp only [Option.bind_eq_bind, Option.bind_eq_some_iff, Option.pure_def, Option.some.injEq,
    Prod.mk.injEq, Prod.exists]
  constructor
  · rintro ⟨after, hline, n', after', hnumber, message', hlead, rfl, rfl⟩
    obtain ⟨front, hline, hfront⟩ := hbehind.1 hline
    obtain ⟨numeral, rfl, hnumeral, -, hvalue, hlt⟩ := leadingNumber?_eq_some_iff.1 hnumber
    rw [eq_append_of_afterLead? hlead] at hline
    exact ⟨front, numeral, hline, hfront, hnumeral, hvalue, hlt⟩
  · rintro ⟨front, numeral, hline, hfront, hnumeral, hvalue, hlt⟩
    refine ⟨_, hbehind.2 ⟨front, hline, hfront⟩, n, ':' :: message, ?_, message, ?_, rfl, rfl⟩
    · exact leadingNumber?_eq_some_iff.2
        ⟨numeral, rfl, hnumeral, by rintro _ ⟨⟩; decide, hvalue, hlt⟩
    · exact afterLead?_append [':'] message

theorem isSome_position?_iff {line : List Char} :
    (position? line).isSome = true ↔ HasPosition line := by
  rw [Option.isSome_iff_exists, Prod.exists]
  constructor
  · rintro ⟨n, message, h⟩
    obtain ⟨front, numeral, hline, hfront, hnumeral, rfl, hlt⟩ := position?_eq_some_iff.1 h
    exact ⟨front, numeral, message, hline, hfront, hnumeral, hlt⟩
  · rintro ⟨front, numeral, message, hline, hfront, hnumeral, hlt⟩
    exact ⟨_, message, position?_eq_some_iff.2 ⟨front, numeral, hline, hfront, hnumeral, rfl, hlt⟩⟩

theorem severity?_eq_none_iff {line : List Char} : severity? line = none ↔ ¬ CarriesMark line := by
  have hmarks : (∃ word ∈ markWords, word <:+: line) ↔ contains "warning:".toList line = true ∨
      ∃ word ∈ ["error", "ERROR", "Exception", "at line"], contains word.toList line = true := by
    simp only [markWords, List.map_cons, List.exists_mem_cons_iff, contains_iff_isInfix]
    simp
  rw [CarriesMark, hmarks, ← isSome_position?_iff, severity?]
  split
  · next hwarning => simp only [reduceCtorEq, hwarning, true_or, not_true]
  · next hwarning =>
    rw [← List.any_eq_true]
    split
    · next herror =>
      rw [Bool.or_eq_true] at herror
      simp only [reduceCtorEq, false_iff, not_not]
      exact herror.elim .inr fun hword => .inl (.inr hword)
    · next herror =>
      rw [Bool.or_eq_true, not_or] at herror
      simp only [true_iff, not_or]
      exact ⟨⟨hwarning, herror.2⟩, herror.1⟩

instance (line : List Char) : Decidable (CarriesMark line) :=
  decidable_of_iff (severity? line ≠ none) (not_iff_comm.1 severity?_eq_none_iff.symm)

instance (line : List Char) : Decidable (IsQuiet line) :=
  inferInstanceAs (Decidable (_ ∨ _ ∨ _ ∨ ¬ _))

theorem ofLine?_trim_eq_none_iff {p : Program} {line : List Char} :
    ofLine? p (trim line) = none ↔ IsQuiet line := by
  rw [ofLine?, isEmpty_trim, isSummary_trim, IsQuiet, ← isSummary_iff, ← severity?_eq_none_iff]
  split
  · next hskipped =>
    rw [Bool.or_eq_true, Bool.or_eq_true, decide_eq_true_eq] at hskipped
    simp only [true_iff]
    obtain (h | h) | h := hskipped
    · exact .inl h
    · exact .inr (.inl h)
    · exact .inr (.inr (.inl h))
  · next hread =>
    rw [Bool.or_eq_true, Bool.or_eq_true, decide_eq_true_eq, not_or, not_or] at hread
    rw [Option.map_eq_none_iff, or_iff_right hread.1.1, or_iff_right hread.1.2,
      or_iff_right hread.2]

/-! ## How reports are written in lines -/

/-- The word for a severity in a line. -/
def label (s : Severity) : List Char := s.label.toList

/-- The line with the report: `File.java:3: error: ';' expected`. -/
def Report.position (r : Report) : List Char :=
  r.path ++ ".java:".toList ++
    (digitsOf r.number.toNat ++ ':' :: (' ' :: (label r.severity ++ ':' :: (' ' :: r.message))))

/-- The lines of a report. -/
def Report.entry (r : Report) : List (List Char) := [r.position, r.echo, r.caret]

/-- The lines of an output of reports in lines; counts come last. -/
def entryLines (rs : List Report) (counts : List (List Char)) : List (List Char) :=
  rs.flatMap Report.entry ++ counts

/-- The first word is no number, and is not made of digits and the start of a line that opens a
block. -/
def StartsPlainly (cs : List Char) : Prop :=
  (leadingWord cs).dropWhile Char.isDigit ∉ [] :: openingWords

instance (cs : List Char) : Decidable (StartsPlainly cs) := inferInstanceAs (Decidable (_ ∉ _))

/-- A report whose file is named apart from its extension and has nothing in its name that looks
like another part of the line, and whose mark is one below a character. -/
@[mk_iff]
structure Report.FitsEntry (r : Report) : Prop where
  path_oneLine : '\n' ∉ r.path
  path_extension : contains ".java:".toList r.path = false
  path_label : contains "warning:".toList r.path = false
  path_start : StartsPlainly (r.path ++ ".java:".toList)
  message_oneLine : '\n' ∉ r.message
  message_ne_nil : r.message ≠ []
  trim_message : trim r.message = r.message
  echo_oneLine : '\n' ∉ r.echo
  caret_oneLine : '\n' ∉ r.caret
  trim_caret : trim r.caret = ['^']

/-- A report that is read as it was written: no error with the label of a warning in its message,
and the line that it shows is passed over. -/
def Report.IsPlain (r : Report) : Prop :=
  (r.severity = .error → contains "warning:".toList r.message = false) ∧ IsQuiet r.echo

instance (r : Report) : Decidable r.FitsEntry := decidable_of_iff _ (Report.fitsEntry_iff r).symm

instance (r : Report) : Decidable r.IsPlain := inferInstanceAs (Decidable (_ ∧ _))

/-- What the line of a report is read as. -/
def Report.readAs (p : Program) (r : Report) : Diagnostic :=
  ⟨if contains "warning:".toList r.message then .warning else r.severity,
    String.ofList r.message, p.sourceLine? r.number.toNat⟩

theorem Report.readAs_eq_diagnostic_iff {p : Program} {r : Report} :
    r.readAs p = r.diagnostic p ↔
      (r.severity = .error → contains "warning:".toList r.message = false) := by
  rw [Report.readAs, Report.diagnostic, Diagnostic.mk.injEq, and_iff_left ⟨rfl, rfl⟩]
  cases r.severity <;> cases contains "warning:".toList r.message <;> simp

/-! ## Messages -/

section DropLeads

variable {first : Char} {others cs : List Char}

theorem dropLeads_append (rest : List Char) :
    dropLeads first others (first :: others ++ rest) = dropLeads first others rest := by
  rw [dropLeads]
  split
  · next rest' h =>
    rw [afterLead?_append] at h
    rw [Option.some.inj h]
  · next h =>
    rw [afterLead?_append] at h
    cases h

theorem dropLeads_eq_self (h : cs.head? ≠ some first) : dropLeads first others cs = cs := by
  rw [dropLeads]
  split
  · next rest hlead =>
    rw [eq_append_of_afterLead? hlead] at h
    exact absurd rfl h
  · rfl

end DropLeads

/-- The label of a message is dropped, whatever the message starts with. -/
theorem messageText_label (s : Severity) {message : List Char} (hne : message ≠ [])
    (htrim : trim message = message) :
    messageText (' ' :: (label s ++ ':' :: (' ' :: message))) = message := by
  have hlabel : trim (' ' :: (label s ++ ':' :: (' ' :: message))) =
      label s ++ ':' :: (' ' :: message) := by
    have happend : label s ++ ':' :: (' ' :: message) = label s ++ [':', ' '] ++ message := by simp
    rw [← List.singleton_append, trim_append_of_isBlank_left (by decide), happend]
    exact trim_append_eq_self (by cases s <;> rintro _ ⟨⟩ <;> decide) htrim hne
  -- the space behind the label keeps the message from losing words of its own
  have hkeep {c : Char} (hc : c ≠ ' ') (others : List Char) :
      dropLeads c others (' ' :: message) = ' ' :: message :=
    dropLeads_eq_self (by simpa using hc.symm)
  have hdrop : dropLeads 'w' "arning:".toList
      (dropLeads 'e' "rror:".toList (label s ++ ':' :: (' ' :: message))) = ' ' :: message := by
    cases s with
    | error =>
      have herror : dropLeads 'e' "rror:".toList (label .error ++ ':' :: (' ' :: message)) =
          ' ' :: message :=
        (dropLeads_append _).trans (hkeep (by decide) _)
      rw [herror, hkeep (by decide)]
    | warning =>
      have hwarning : label .warning ++ ':' :: (' ' :: message) =
          'w' :: "arning:".toList ++ ' ' :: message := rfl
      have hfirst : ('w' :: "arning:".toList ++ ' ' :: message).head? ≠ some 'e' := by simp
      rw [hwarning, dropLeads_eq_self hfirst, dropLeads_append, hkeep (by decide)]
  rw [messageText, hlabel, hdrop, ← List.singleton_append,
    trim_append_of_isBlank_left (by decide), htrim]

/-! ## Lines of reports -/

theorem StartsPlainly.not_isCount {cs : List Char} (h : StartsPlainly cs) : ¬ IsCount cs := by
  intro hcount
  refine h (List.mem_cons.2 (.inl ?_))
  exact List.dropWhile_eq_nil_iff.2 hcount.leadingWord_eq

theorem StartsPlainly.opensBlock_eq {cs : List Char} (h : StartsPlainly cs) :
    opensBlock cs = false := by
  by_contra hopens
  exact h (List.mem_cons_of_mem _ (leadingWord_of_opensBlock (by simpa using hopens)))

/-- What follows the extension of a file does not matter to the start of the line. -/
theorem StartsPlainly.append {path : List Char} (h : StartsPlainly (path ++ ".java:".toList))
    (rest : List Char) : StartsPlainly (path ++ ".java:".toList ++ rest) := by
  have hcolon : ':' ∈ path ++ ".java:".toList := by simp
  have hblank : isBlank (path ++ ".java:".toList) = false := isBlank_append_cons (by decide) _ _
  generalize path ++ ".java:".toList = cs at h hcolon hblank
  obtain ⟨s, w, t, rfl, hs, hw, ht⟩ := exists_word_of_not_isBlank hblank
  cases t with
  | cons d t =>
    -- the first word ends in front of the rest
    have hword : leadingWord (s ++ (w ++ d :: t) ++ rest) = leadingWord (s ++ (w ++ d :: t)) := by
      rw [leadingWord_append hs hw ht, List.append_assoc, List.append_assoc]
      exact leadingWord_append hs hw ht
    rwa [StartsPlainly, hword]
  | nil =>
    rw [List.append_nil] at hcolon ⊢
    -- the colon is in the first word, which may go on
    have hmem : ':' ∈ w := by
      refine (List.mem_append.1 hcolon).resolve_left fun hin => ?_
      exact absurd (List.all_eq_true.1 hs ':' hin) (by decide)
    have hdrop : ':' ∈ (leadingWord (s ++ w ++ rest)).dropWhile Char.isDigit := by
      have hall : ':' ∈ leadingWord (s ++ w ++ rest) := by
        rw [leadingWord_append_of_isUnspaced hs hw]
        exact List.mem_append_left _ hmem
      rw [← List.takeWhile_append_dropWhile (p := Char.isDigit) (l := leadingWord _)] at hall
      refine (List.mem_append.1 hall).resolve_left fun hin => ?_
      exact absurd (List.mem_takeWhile_imp hin) (by decide)
    intro hopening
    have hnone : ∀ word ∈ [] :: openingWords, ':' ∉ word := by decide
    exact hnone _ hopening hdrop

namespace Report.FitsEntry

variable {r : Report} (hr : r.FitsEntry)
include hr

theorem startsPlainly_position : StartsPlainly r.position := hr.path_start.append _

/-- The line of a report is trimmed in the name of its file only. -/
theorem exists_trim_position : ∃ front, front <:+ r.path ∧
    trim r.position = front ++ ".java:".toList ++
      (digitsOf r.number.toNat ++
        ':' :: (' ' :: (label r.severity ++ ':' :: (' ' :: r.message)))) := by
  refine ⟨r.path.dropWhile isSpace, List.dropWhile_suffix _, ?_⟩
  have hblank : isBlank (r.path.takeWhile isSpace) = true := List.all_takeWhile
  have hsplit : r.position = r.path.takeWhile isSpace ++ ((r.path.dropWhile isSpace ++
      ".java:".toList ++
      (digitsOf r.number.toNat ++ ':' :: ' ' :: (label r.severity ++ [':', ' ']))) ++
      r.message) := by
    simp only [Report.position, List.append_assoc, List.cons_append, List.nil_append]
    rw [← List.append_assoc (r.path.takeWhile isSpace), List.takeWhile_append_dropWhile]
  rw [hsplit, trim_append_of_isBlank_left hblank,
    trim_append_eq_self ?_ hr.trim_message hr.message_ne_nil]
  · simp
  · intro c hc
    cases hpath : r.path.dropWhile isSpace with
    | nil =>
      rw [hpath] at hc
      obtain rfl := Option.some.inj hc
      decide
    | cons d path =>
      rw [hpath] at hc
      obtain rfl := Option.some.inj hc
      exact eq_false_of_mem_head?_dropWhile (by rw [hpath]; rfl)

/-- The label of a warning is in the line of a report only as its own label or in its message. -/
theorem label_isInfix_position_iff : "warning:".toList <:+: r.position ↔
    r.severity = .warning ∨ "warning:".toList <:+: r.message := by
  have hsplit : r.position =
      (r.path ++ '.' :: ("java:".toList ++ (digitsOf r.number.toNat ++ [':']))) ++
      ' ' :: ((label r.severity ++ [':']) ++ ' ' :: r.message) := by
    simp [Report.position]
  have hpath : ¬ "warning:".toList <:+: r.path := contains_eq_false_iff.1 hr.path_label
  have hnumber : ¬ "warning:".toList <:+: "java:".toList ++ (digitsOf r.number.toNat ++ [':']) := by
    intro hin
    have hmem : 'w' ∈ "java:".toList ++ (digitsOf r.number.toNat ++ [':']) :=
      hin.subset (List.mem_cons_self (a := 'w') (l := "arning:".toList))
    rw [List.mem_append, List.mem_append] at hmem
    obtain hmem | hmem | hmem := hmem
    · exact absurd hmem (by decide)
    · exact not_mem_digitsOf (by decide) _ hmem
    · exact absurd hmem (by decide)
  have hlabel : "warning:".toList <:+: label r.severity ++ [':'] ↔ r.severity = .warning := by
    cases r.severity <;> decide
  rw [hsplit, isInfix_append_cons_iff (by decide), isInfix_append_cons_iff (by decide),
    isInfix_append_cons_iff (by decide), hlabel,
    or_iff_right (by rw [not_or]; exact ⟨hpath, hnumber⟩)]

theorem position?_trim_position : position? (trim r.position) =
    some (r.number.toNat, ' ' :: (label r.severity ++ ':' :: (' ' :: r.message))) := by
  obtain ⟨front, hfront, htrim⟩ := hr.exists_trim_position
  refine position?_eq_some_iff.2 ⟨front, _, htrim, ?_, isNumeral_digitsOf _,
    Decimal.digitsValue_toDigits (by decide) (by decide) _, r.number.toNat_lt_size⟩
  exact contains_eq_false_iff.2 fun hin =>
    contains_eq_false_iff.1 hr.path_extension (hin.trans hfront.isInfix)

theorem severity?_trim_position : severity? (trim r.position) =
    some (if contains "warning:".toList r.message then .warning else r.severity) := by
  have hword : IsUnspaced "warning:".toList := by decide
  have hlabel := (hword.isInfix_trim_iff r.position).trans hr.label_isInfix_position_iff
  rw [← contains_iff_isInfix, ← contains_iff_isInfix] at hlabel
  rw [severity?, hr.position?_trim_position]
  split
  · next hline =>
    obtain hwarning | hmessage := hlabel.1 hline
    · rw [hwarning, ite_self]
    · rw [if_pos hmessage]
  · next hline =>
    rw [hlabel, not_or] at hline
    have herror : r.severity = .error := by
      cases hs : r.severity with
      | error => rfl
      | warning => exact absurd hs hline.1
    rw [if_neg hline.2, herror]
    rfl

theorem trim_position_ne_rule : trim r.position ≠ rule := by
  obtain ⟨front, -, htrim⟩ := hr.exists_trim_position
  intro hrule
  have hmem : '.' ∈ trim r.position := by simp [htrim]
  rw [hrule] at hmem
  exact absurd hmem (by decide)

/-- The line of a report is read as that report, with its severity if it does not speak of
warnings. -/
theorem ofLine?_position (p : Program) : ofLine? p (trim r.position) = some (r.readAs p) := by
  have hempty : (trim r.position).isEmpty = false := by
    obtain ⟨front, -, htrim⟩ := hr.exists_trim_position
    simp [htrim]
  have hsummary : isSummary (trim r.position) = false := by
    rw [isSummary_trim, ← Bool.not_eq_true, isSummary_iff]
    exact hr.startsPlainly_position.not_isCount
  rw [ofLine?, hempty, decide_eq_false hr.trim_position_ne_rule, hsummary, if_neg (by decide),
    hr.severity?_trim_position, Option.map_some, hr.position?_trim_position]
  dsimp only
  rw [messageText_label _ hr.message_ne_nil hr.trim_message]
  rfl

end Report.FitsEntry

/-! ## Lines that are shown -/

theorem carriesMark_of_opensBlock {line : List Char} (h : opensBlock line = true) :
    CarriesMark (trim line) := by
  have hplace : "(at line".toList <:+: dropOrdinal (trim line) := by
    rw [opensBlock, isHeader, Bool.and_eq_true] at h
    exact contains_iff_isInfix.1 h.2
  have hsuffix : dropOrdinal (trim line) <:+ trim line := by
    obtain heq | ⟨numeral, -, hline⟩ := dropOrdinal_cases (trim line)
    · exact ⟨[], heq⟩
    · refine ⟨numeral ++ ['.', ' '], ?_⟩
      rw [List.append_assoc]
      exact hline.symm
  have hword : "at line".toList <:+: "(at line".toList := ⟨['('], [], rfl⟩
  exact .inl ⟨"at line".toList, by decide, hword.trans (hplace.trans hsuffix.isInfix)⟩

theorem trim_ne_rule_of_opensBlock {line : List Char} (h : opensBlock line = true) :
    trim line ≠ rule := by
  intro hrule
  rw [opensBlock, hrule] at h
  exact absurd h (by decide)

/-- A line that opens a block is not passed over. -/
theorem not_isQuiet_of_opensBlock {line : List Char} (h : opensBlock line = true) :
    ¬ IsQuiet line := by
  rintro (hblank | hrule | hcount | hmark)
  · have hword := leadingWord_of_opensBlock h
    rw [leadingWord, words_of_isBlank hblank] at hword
    exact absurd hword (by decide)
  · exact trim_ne_rule_of_opensBlock h hrule
  · exact Bool.false_ne_true (hcount.opensBlock_eq.symm.trans h)
  · exact hmark (carriesMark_of_opensBlock h)

namespace Report.FitsEntry

variable {r : Report} (hr : r.FitsEntry)
include hr

theorem opensBlock_caret : opensBlock r.caret = false := by
  rw [opensBlock, hr.trim_caret]
  decide

theorem ofLine?_caret (p : Program) : ofLine? p (trim r.caret) = none := by
  rw [hr.trim_caret]
  rfl

/-- Of the lines of a report only the one that is shown may open a block. -/
theorem opensBlock_of_mem_entry {l : List Char} (hl : l ∈ r.entry) (hopens : opensBlock l = true) :
    l = r.echo := by
  simp only [entry, List.mem_cons, List.not_mem_nil, or_false] at hl
  obtain rfl | rfl | rfl := hl
  · exact absurd hopens (by rw [hr.startsPlainly_position.opensBlock_eq]; decide)
  · rfl
  · exact absurd hopens (by rw [hr.opensBlock_caret]; decide)

theorem newline_not_mem_of_mem_entry : ∀ l ∈ r.entry, '\n' ∉ l := by
  have hdigits : '\n' ∉ digitsOf r.number.toNat := not_mem_digitsOf (by decide) _
  have hlabel : '\n' ∉ label r.severity := by cases r.severity <;> decide
  have hposition : '\n' ∉ r.position := by
    simp [position, hr.path_oneLine, hdigits, hlabel, hr.message_oneLine]
  simp [entry, hposition, hr.echo_oneLine, hr.caret_oneLine]

end Report.FitsEntry

/-! ## Outputs -/

section Output

variable {p : Program} {rs : List Report} {counts : List (List Char)}

theorem mem_entryLines {l : List Char} :
    l ∈ entryLines rs counts ↔ (∃ r ∈ rs, l ∈ r.entry) ∨ l ∈ counts := by
  rw [entryLines, List.mem_append, List.mem_flatMap]

/-- If no line that is shown opens a block, the reports come one by one, and behind each of them
what its line is read as. -/
theorem readLines_entryLines (hrs : ∀ r ∈ rs, r.FitsEntry) (hcounts : ∀ c ∈ counts, IsCount c)
    (hopens : ∀ r ∈ rs, opensBlock r.echo = false) :
    readLines p (entryLines rs counts) =
      rs.flatMap fun r => r.readAs p :: (ofLine? p (trim r.echo)).toList := by
  have hheader : header? (entryLines rs counts) = none := by
    rw [header?_eq_none_iff]
    intro l hl
    obtain ⟨r, hr, hl⟩ | hl := mem_entryLines.1 hl
    · by_contra hopen
      have hecho := (hrs r hr).opensBlock_of_mem_entry hl (by simpa using hopen)
      rw [hecho, hopens r hr] at hopen
      exact hopen rfl
    · exact (hcounts l hl).opensBlock_eq
  have hnone : counts.filterMap (fun l => ofLine? p (trim l)) = [] :=
    List.filterMap_eq_nil_iff.2 fun c hc => (hcounts c hc).ofLine?_eq_none p
  rw [readLines, hheader, Option.isSome_none, if_neg Bool.false_ne_true, List.filterMap_map]
  change (entryLines rs counts).filterMap (fun l => ofLine? p (trim l)) = _
  rw [entryLines, List.filterMap_append, hnone, List.append_nil, List.filterMap_flatMap]
  refine List.flatMap_congr fun r hr => ?_
  simp only [Report.entry, List.filterMap_cons, (hrs r hr).ofLine?_position,
    (hrs r hr).ofLine?_caret,
    List.filterMap_nil]
  cases ofLine? p (trim r.echo) <;> rfl

/-- A list that has at least one item for each of another list and no more items than that has
exactly one for each. -/
theorem forall_of_flatMap_eq_map {α β : Type} {f d : α → β} {g : α → Option β} {xs : List α}
    (h : (xs.flatMap fun x => f x :: (g x).toList) = xs.map d) :
    ∀ x ∈ xs, f x = d x ∧ g x = none := by
  have hlength (xs : List α) :
      xs.length ≤ (xs.flatMap fun x => f x :: (g x).toList).length := by
    induction xs with
    | nil => rfl
    | cons x xs ih =>
      simp only [List.flatMap_cons, List.length_append, List.length_cons]
      omega
  induction xs with
  | nil => exact nofun
  | cons x xs ih =>
    rw [List.flatMap_cons, List.map_cons, List.cons_append] at h
    obtain ⟨hfirst, hrest⟩ := List.cons.inj h
    have hnone : g x = none := by
      cases hg : g x with
      | none => rfl
      | some y =>
        have hsize := congrArg List.length hrest
        rw [hg, Option.toList_some, List.singleton_append, List.length_cons,
          List.length_map] at hsize
        have hle := hlength xs
        omega
    rw [hnone, Option.toList_none, List.nil_append] at hrest
    rw [List.forall_mem_cons]
    exact ⟨⟨hfirst, hnone⟩, ih hrest⟩

/-- Whether some line opens the block. -/
def isOpened (block : List (List Char)) : Bool := block.any opensBlock

theorem isSome_ofBlock? (block : List (List Char)) :
    (ofBlock? p block).isSome = isOpened block := by
  rw [ofBlock?, Option.isSome_map, Bool.eq_iff_iff, isSome_header?_iff, isOpened, List.any_eq_true]

theorem countP_blocks_le (ls : List (List Char)) :
    (blocks ls).countP isOpened ≤ ls.countP opensBlock := by
  induction ls with
  | nil => exact Nat.le_refl _
  | cons l ls ih =>
    rw [blocks, List.countP_cons]
    split
    · have hempty : ¬ isOpened [] = true := by decide
      rw [List.countP_cons_of_neg hempty]
      omega
    · cases hblocks : blocks ls with
      | nil => simp [isOpened]
      | cons block others =>
        have hopened : isOpened (l :: block) = (opensBlock l || isOpened block) := List.any_cons
        rw [hblocks, List.countP_cons] at ih
        rw [List.countP_cons, hopened]
        cases opensBlock l <;> cases hblock : isOpened block <;> simp [hblock] at ih ⊢ <;> omega

/-- There are no more diagnostics in blocks than lines that open one. -/
theorem length_filterMap_blocks_le (ls : List (List Char)) :
    ((blocks ls).filterMap (ofBlock? p)).length ≤ ls.countP opensBlock := by
  rw [List.length_filterMap_eq_countP, funext (isSome_ofBlock? (p := p))]
  exact countP_blocks_le ls

theorem countP_entryLines (hrs : ∀ r ∈ rs, r.FitsEntry) (hcounts : ∀ c ∈ counts, IsCount c) :
    (entryLines rs counts).countP opensBlock = rs.countP fun r => opensBlock r.echo := by
  induction rs with
  | nil =>
    rw [entryLines, List.flatMap_nil, List.nil_append, List.countP_nil, List.countP_eq_zero]
    intro c hc
    rw [(hcounts c hc).opensBlock_eq]
    exact Bool.false_ne_true
  | cons r rs ih =>
    rw [List.forall_mem_cons] at hrs
    have hcons : entryLines (r :: rs) counts =
        r.position :: r.echo :: r.caret :: entryLines rs counts := rfl
    rw [hcons, List.countP_cons, List.countP_cons, List.countP_cons, ih hrs.2, List.countP_cons,
      hrs.1.startsPlainly_position.opensBlock_eq, hrs.1.opensBlock_caret]
    simp

/-- The last line that says something is the mark below the line that is shown last. -/
theorem said_entryLines {r : Report} (hr : r.FitsEntry) (hcounts : ∀ c ∈ counts, IsCount c) :
    ((entryLines [r] counts).reverse.map trim).find?
      (fun line => !line.isEmpty && !isSummary line) =
      some ['^'] := by
  have hreverse : (entryLines [r] counts).reverse.map trim =
      counts.reverse.map trim ++ ['^'] :: [trim r.echo, trim r.position] := by
    simp [entryLines, Report.entry, hr.trim_caret]
  have hnone : (counts.reverse.map trim).find? (fun line => !line.isEmpty && !isSummary line) =
      none := by
    rw [List.find?_eq_none]
    intro line hline
    obtain ⟨c, hc, rfl⟩ := List.mem_map.1 hline
    have hsummary := isSummary_iff.2 (hcounts c (List.mem_reverse.1 hc))
    rw [isSummary_trim, hsummary, Bool.not_true, Bool.and_false]
    exact Bool.false_ne_true
  rw [hreverse, List.find?_append, hnone, Option.none_or]
  rfl

/-- Reports of which one shows a line that opens a block are not read back: there are fewer blocks
than reports, or the message is the mark. -/
theorem readLines_entryLines_ne (hrs : ∀ r ∈ rs, r.FitsEntry) (hcounts : ∀ c ∈ counts, IsCount c)
    (hmessage : ∀ r ∈ rs, r.message ≠ ['^']) {r : Report} (hr : r ∈ rs)
    (hopens : opensBlock r.echo = true) :
    readLines p (entryLines rs counts) ≠ rs.map (Report.diagnostic p) := by
  intro h
  have hecho : r.echo ∈ entryLines rs counts :=
    mem_entryLines.2 (.inl ⟨r, hr, by simp [Report.entry]⟩)
  have hheader : (header? (entryLines rs counts)).isSome = true :=
    isSome_header?_iff.2 ⟨r.echo, hecho, hopens⟩
  rw [readLines, if_pos hheader] at h
  -- as many blocks as reports leave no line to be a rule, so there is one block
  have hall : ∀ r ∈ rs, opensBlock r.echo = true := by
    have hle := length_filterMap_blocks_le (p := p) (entryLines rs counts)
    rw [h, List.length_map, countP_entryLines hrs hcounts] at hle
    exact List.countP_eq_length.1 (Nat.le_antisymm List.countP_le_length hle)
  have hrule : ∀ l ∈ entryLines rs counts, trim l ≠ rule := by
    intro l hl
    obtain ⟨r, hr, hl⟩ | hl := mem_entryLines.1 hl
    · simp only [Report.entry, List.mem_cons, List.not_mem_nil, or_false] at hl
      obtain rfl | rfl | rfl := hl
      · exact (hrs r hr).trim_position_ne_rule
      · exact trim_ne_rule_of_opensBlock (hall r hr)
      · rw [(hrs r hr).trim_caret]
        decide
    · exact (hcounts l hl).trim_ne_rule
  obtain ⟨header, hheader⟩ := Option.isSome_iff_exists.1 hheader
  rw [blocks_of_forall hrule, List.filterMap_cons_some (by rw [ofBlock?, hheader, Option.map_some]),
    List.filterMap_nil, eq_comm, List.map_eq_singleton_iff] at h
  obtain ⟨r', rfl, hread⟩ := h
  have hmark : r'.message = ['^'] := by
    rw [said_entryLines (hrs r' (by simp)) hcounts] at hread
    exact String.ofList_injective (Diagnostic.mk.inj hread).2.1
  exact hmessage r' (by simp) hmark

/-- **Plain reports in lines are read back**, each as one diagnostic on its line of the snippet.
Only plain ones are, unless a message is the mark that stands below the line. -/
theorem read_entryLines (p : Program) (hrs : ∀ r ∈ rs, r.FitsEntry)
    (hcounts : ∀ c ∈ counts, IsCount c ∧ '\n' ∉ c) :
    ((∀ r ∈ rs, r.IsPlain) →
      read p (joined (entryLines rs counts)) = rs.map (Report.diagnostic p)) ∧
    ((∀ r ∈ rs, r.message ≠ ['^']) →
      read p (joined (entryLines rs counts)) = rs.map (Report.diagnostic p) →
        ∀ r ∈ rs, r.IsPlain) := by
  have hnewline : ∀ l ∈ entryLines rs counts, '\n' ∉ l := by
    intro l hl
    obtain ⟨r, hr, hl⟩ | hl := mem_entryLines.1 hl
    · exact (hrs r hr).newline_not_mem_of_mem_entry l hl
    · exact (hcounts l hl).2
  have hcounted : ∀ c ∈ counts, IsCount c := fun c hc => (hcounts c hc).1
  rw [read_joined p hnewline]
  constructor
  · intro hplain
    have hopens : ∀ r ∈ rs, opensBlock r.echo = false := fun r hr => by
      by_contra hopen
      exact not_isQuiet_of_opensBlock (by simpa using hopen) (hplain r hr).2
    rw [readLines_entryLines hrs hcounted hopens, List.map_eq_flatMap]
    refine List.flatMap_congr fun r hr => ?_
    rw [Report.readAs_eq_diagnostic_iff.2 (hplain r hr).1,
      ofLine?_trim_eq_none_iff.2 (hplain r hr).2]
    rfl
  · intro hmessage hread r hr
    have hopens : ∀ r ∈ rs, opensBlock r.echo = false := fun r hr => by
      by_contra hopen
      exact readLines_entryLines_ne hrs hcounted hmessage hr (by simpa using hopen) hread
    rw [readLines_entryLines hrs hcounted hopens] at hread
    obtain ⟨hline, hecho⟩ := forall_of_flatMap_eq_map hread r hr
    exact ⟨Report.readAs_eq_diagnostic_iff.1 hline, ofLine?_trim_eq_none_iff.1 hecho⟩

/-- Two plain reports: the message of the first one starts like a label, and the second one shows a
line that looks like a count. -/
theorem read_entryLines_oddEchoes :
    let p := Program.ofSnippet "int n = 1;\n2 errors".toList
    let unused : Report :=
      ⟨.warning, 3, "error: n is unused at line 3".toList, "w/TempClass".toList,
      "        int n = 1;".toList, "            ^".toList⟩
    let unfinished : Report := ⟨.error, 4, "not a statement".toList, "w/TempClass".toList,
      "        2 errors".toList, "        ^".toList⟩
    let counts := ["1 error".toList, "1 warning".toList]
    (∀ r ∈ [unused, unfinished], r.FitsEntry) ∧ (∀ c ∈ counts, IsCount c ∧ '\n' ∉ c) ∧
      (∀ r ∈ [unused, unfinished], r.IsPlain ∧ r.message ≠ ['^']) ∧
      read p (joined (entryLines [unused, unfinished] counts)) =
        [.warning "error: n is unused at line 3" (some 1), .error "not a statement" (some 2)] := by
  intro p unused unfinished counts
  have hrs : ∀ r ∈ [unused, unfinished], r.FitsEntry := by decide +kernel
  have hcounts : ∀ c ∈ counts, IsCount c ∧ '\n' ∉ c := by decide
  have hplain : ∀ r ∈ [unused, unfinished], r.IsPlain := by decide +kernel
  have hmessage : ∀ r ∈ [unused, unfinished], r.message ≠ ['^'] := by decide +kernel
  have hread := (read_entryLines p hrs hcounts).1 hplain
  have hback := (read_entryLines p hrs hcounts).2 hmessage hread
  exact ⟨hrs, hcounts, fun r hr => ⟨hback r hr, hmessage r hr⟩, hread.trans (by decide +kernel)⟩

end Output

/-- **Not every report is plain.** A line that is shown with the word `error` in a literal becomes a
second error, and an error whose message quotes the label of a warning becomes a warning. -/
theorem read_entryLines_marked :
    let p := Program.ofSnippet "System.out.println(\"error\")".toList
    let unfinished : Report := ⟨.error, 3, "';' expected".toList, "TempClass".toList,
      "        System.out.println(\"error\")".toList, "                                   ^".toList⟩
    let quoting : Report := ⟨.error, 3, "note: warning: unchecked".toList, "TempClass".toList,
      [], "^".toList⟩
    let count := "1 error".toList
    (IsCount count ∧ '\n' ∉ count) ∧ unfinished.FitsEntry ∧ quoting.FitsEntry ∧
      read p (joined (entryLines [unfinished] [count])) =
        [.error "';' expected" (some 1), .error "System.out.println(\"error\")" none] ∧
      read p (joined (entryLines [quoting] [count])) =
        [.warning "note: warning: unchecked" (some 1)] := by
  intro p unfinished quoting count
  exact ⟨by decide, by decide +kernel, by decide +kernel, by decide +kernel, by decide +kernel⟩

end Messages

end SnippetRunner
