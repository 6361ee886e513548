import Mathlib.Tactic.MkIffOfInductiveProp
import SnippetRunner.Proofs.CompilerOutput

/-!
# Reports in blocks

Some compilers write each report as a block between rules of dashes: a numbered line with the
severity, the file and the line of the program, the line as it is shown, a mark below it, and the
message (`Report.block`). From such output the reports are read back, each as one diagnostic
(`read_blockLines`), if nothing in a block looks like a rule or like the place of another line
(`Report.FitsBlock`).

Lines are trimmed before they are compared with a rule, and the number of a line is the one behind
the first `at line`. So it is not enough that a line which is shown is no rule as it stands, nor
that the name of the file has no `at line` with a space behind it
(`not_read_blockLines_ofUntrimmed`).
-/

namespace SnippetRunner

open Text
open Decimal (digitsOf)

namespace Messages

/-! ## How blocks are written -/

/-- The word for a severity at the head of a block. -/
def headWord : Severity → List Char
  | .error => "ERROR".toList
  | .warning => "WARNING".toList

/-- The head of a block, behind its number: `ERROR in File.java (at line 3)`. -/
def Report.head (r : Report) : List Char :=
  headWord r.severity ++ " in ".toList ++ r.path ++ " (".toList ++ "at line ".toList ++
    digitsOf r.number.toNat ++ [')']

/-- The head of a block with its number. -/
def Report.numberedHead (r : Report) (k : Nat) : List Char := digitsOf k ++ ('.' :: ' ' :: r.head)

/-- The lines of a block. -/
def Report.block (r : Report) (k : Nat) : List (List Char) :=
  [r.numberedHead k, r.echo, r.caret, r.message]

/-- The lines of an output in blocks: each block is followed by a rule, and counts come last. -/
def blockLines (rs : List Report) (counts : List (List Char)) : List (List Char) :=
  rule :: ((rs.zipIdx 1).flatMap (fun x => x.1.block x.2 ++ [rule]) ++ counts)

/-- A report that, as it stands, can be told from rules, counts and places of other lines. -/
@[mk_iff]
structure Report.FitsUntrimmed (r : Report) : Prop where
  path_oneLine : '\n' ∉ r.path
  path_place : contains "at line ".toList r.path = false
  echo_oneLine : '\n' ∉ r.echo
  echo_ne_rule : r.echo ≠ rule
  caret_oneLine : '\n' ∉ r.caret
  caret_ne_rule : r.caret ≠ rule
  message_oneLine : '\n' ∉ r.message
  message_ne_nil : r.message ≠ []
  trim_message : trim r.message = r.message
  message_ne_rule : r.message ≠ rule
  not_isCount : ¬ IsCount r.message

/-- A report that can also be told from them when lines are trimmed and a space follows the name of
the file. -/
@[mk_iff]
structure Report.FitsBlock (r : Report) : Prop extends r.FitsUntrimmed where
  place_space : contains "at line ".toList (r.path ++ [' ']) = false
  trim_echo_ne_rule : trim r.echo ≠ rule
  trim_caret_ne_rule : trim r.caret ≠ rule

instance (r : Report) : Decidable r.FitsUntrimmed :=
  decidable_of_iff _ (Report.fitsUntrimmed_iff r).symm

instance (r : Report) : Decidable r.FitsBlock := decidable_of_iff _ (Report.fitsBlock_iff r).symm

/-! ## Heads -/

section Head

theorem isPrefixOf_headWord (s : Severity) (x : List Char) :
    ("ERROR in ".toList.isPrefixOf (headWord s ++ (" in ".toList ++ x)) ||
      "WARNING in ".toList.isPrefixOf (headWord s ++ (" in ".toList ++ x))) = true := by
  cases s <;> rfl

theorem severity_headWord (s : Severity) (x : List Char) :
    (if "WARNING".toList.isPrefixOf (headWord s ++ x) then Severity.warning else .error) = s := by
  cases s <;> rfl

variable (r : Report)

theorem numberedHead_eq_append (k : Nat) : ∃ x, r.numberedHead k = x ++ [')'] := by
  refine ⟨digitsOf k ++ ('.' :: ' ' :: (headWord r.severity ++ " in ".toList ++ r.path ++
    " (".toList ++ "at line ".toList ++ digitsOf r.number.toNat)), ?_⟩
  rw [Report.numberedHead, Report.head]
  simp

theorem trim_numberedHead (k : Nat) : trim (r.numberedHead k) = r.numberedHead k := by
  refine trim_eq_self (fun c hc => ?_) (fun c hc => ?_)
  · have hnumeral := isNumeral_digitsOf k
    obtain ⟨d, ds, hds⟩ := List.exists_cons_of_ne_nil hnumeral.1
    rw [Report.numberedHead, hds, List.cons_append, List.head?_cons, Option.mem_some_iff] at hc
    subst hc
    rw [hds] at hnumeral
    exact hnumeral.isUnspaced.isSpace_eq d List.mem_cons_self
  · obtain ⟨x, hx⟩ := numberedHead_eq_append r k
    rw [hx, List.getLast?_concat, Option.mem_some_iff] at hc
    subst hc
    decide

theorem dropOrdinal_numberedHead (k : Nat) : dropOrdinal (r.numberedHead k) = r.head := by
  have hdigits : (r.numberedHead k).takeWhile Char.isDigit = digitsOf k :=
    (isNumeral_digitsOf k).takeWhile_append (by rintro _ ⟨⟩; decide)
  have hempty : (digitsOf k).isEmpty = false := by simpa using (isNumeral_digitsOf k).1
  have hlead : afterLead? ". ".toList ('.' :: ' ' :: r.head) = some r.head :=
    afterLead?_append ". ".toList r.head
  simp only [dropOrdinal, hdigits, hempty, Bool.false_eq_true, if_false]
  rw [Report.numberedHead, List.drop_left, hlead, Option.getD_some]

theorem isHeader_head : isHeader r.head = true := by
  have hplace : contains "(at line".toList r.head = true := by
    rw [contains_iff_isInfix]
    refine ⟨headWord r.severity ++ " in ".toList ++ r.path ++ [' '],
      ' ' :: (digitsOf r.number.toNat ++ [')']), ?_⟩
    simp [Report.head]
  rw [isHeader, hplace, Bool.and_true, Report.head]
  simp only [List.append_assoc]
  exact isPrefixOf_headWord _ _

theorem severity_head :
    (if "WARNING".toList.isPrefixOf r.head then Severity.warning else .error) = r.severity := by
  rw [Report.head]
  simp only [List.append_assoc]
  exact severity_headWord _ _

/-- The place in a head is the one behind the name of the file, if that has none. -/
theorem atLine?_head (h : contains "at line ".toList (r.path ++ [' ']) = false) :
    atLine? r.head = some r.number.toNat := by
  have hfront : contains "at line ".toList
      (headWord r.severity ++ " in ".toList ++ (r.path ++ [' '] ++ '(' :: [])) = false := by
    have hlead : 'a' ∉ headWord r.severity ++ " in ".toList := by
      cases r.severity <;> decide
    have hword : '(' ∉ "at line ".toList := by decide
    rw [contains_eq_false_iff] at h ⊢
    intro hin
    have hrest := (isInfix_append_of_not_mem hlead).1 hin
    exact ((isInfix_append_cons_iff hword).1 hrest).elim h (by decide)
  have hsplit : r.head = headWord r.severity ++ " in ".toList ++ (r.path ++ [' '] ++ '(' :: []) ++
      "at line ".toList ++ (digitsOf r.number.toNat ++ [')']) := by
    have hopen : " (".toList = [' '] ++ '(' :: [] := rfl
    rw [Report.head, hopen]
    simp only [List.append_assoc]
  have hbehind : behind? "at line ".toList r.head = some (digitsOf r.number.toNat ++ [')']) :=
    (behind?_eq_some_iff (c := 'a') (by decide)).2 ⟨_, hsplit, hfront⟩
  have hnumber : leadingNumber? (digitsOf r.number.toNat ++ [')']) = some (r.number.toNat, [')']) :=
    leadingNumber?_digitsOf r.number (by rintro _ ⟨⟩; decide)
  rw [atLine?, hbehind]
  simp only [Option.bind_eq_bind, Option.bind_some, hnumber]
  rfl

end Head

/-! ## Blocks -/

theorem opensBlock_numberedHead (r : Report) (k : Nat) : opensBlock (r.numberedHead k) = true := by
  rw [opensBlock, trim_numberedHead, dropOrdinal_numberedHead, isHeader_head]

theorem header?_block (r : Report) (k : Nat) : header? (r.block k) = some r.head := by
  have hopens : isHeader (dropOrdinal (trim (r.numberedHead k))) = true :=
    opensBlock_numberedHead r k
  rw [header?, Report.block, List.map_cons, List.find?_cons_of_pos hopens, trim_numberedHead,
    dropOrdinal_numberedHead]

namespace Report.FitsBlock

variable {r : Report} (hr : r.FitsBlock) (k : Nat)
include hr

/-- The message is the last line of a block that says something. -/
theorem said_block :
    ((r.block k).reverse.map trim).find? (fun line => !line.isEmpty && !isSummary line) =
      some r.message := by
  have hsummary : isSummary r.message = false := by
    rw [← Bool.not_eq_true, isSummary_iff]
    exact hr.not_isCount
  have hempty : r.message.isEmpty = false := by simpa using hr.message_ne_nil
  have hreverse : (r.block k).reverse = [r.message, r.caret, r.echo, r.numberedHead k] := rfl
  rw [hreverse, List.map_cons, hr.trim_message, List.find?_cons_of_pos]
  rw [hempty, hsummary]
  rfl

/-- A block is read as its report. -/
theorem ofBlock?_block (p : Program) : ofBlock? p (r.block k) = some (r.diagnostic p) := by
  rw [ofBlock?, header?_block, Option.map_some]
  simp only [hr.said_block k, Option.getD_some, severity_head, atLine?_head r hr.place_space]
  rfl

/-- No line of a block is a rule. -/
theorem trim_ne_rule_of_mem_block : ∀ l ∈ r.block k, trim l ≠ rule := by
  have hhead : trim (r.numberedHead k) ≠ rule := by
    obtain ⟨x, hx⟩ := numberedHead_eq_append r k
    rw [trim_numberedHead, hx]
    intro hrule
    have hlast := congrArg List.getLast? hrule
    rw [List.getLast?_concat] at hlast
    exact absurd hlast (by decide)
  have hmessage : trim r.message ≠ rule := by
    rw [hr.trim_message]
    exact hr.message_ne_rule
  simp [Report.block, hhead, hr.trim_echo_ne_rule, hr.trim_caret_ne_rule, hmessage]

theorem newline_not_mem_of_mem_block : ∀ l ∈ r.block k, '\n' ∉ l := by
  have hdigits (n : Nat) : '\n' ∉ digitsOf n := not_mem_digitsOf (by decide) n
  have hword : '\n' ∉ headWord r.severity := by cases r.severity <;> decide
  have hhead : '\n' ∉ r.head := by
    rw [Report.head]
    simp only [List.mem_append, not_or]
    exact ⟨⟨⟨⟨⟨⟨hword, by decide⟩, hr.path_oneLine⟩, by decide⟩, by decide⟩, hdigits _⟩, by decide⟩
  have hnumbered : '\n' ∉ r.numberedHead k := by
    rw [Report.numberedHead]
    simp [hdigits, hhead]
  simp [Report.block, hnumbered, hr.echo_oneLine, hr.caret_oneLine, hr.message_oneLine]

end Report.FitsBlock

/-! ## Outputs -/

section Output

variable {rs : List Report} {counts : List (List Char)}

/-- Blocks from any number on, each with a rule behind it. -/
theorem filterMap_blocks (p : Program) (hrs : ∀ r ∈ rs, r.FitsBlock)
    (hcounts : ∀ c ∈ counts, IsCount c) (k : Nat) :
    (blocks ((rs.zipIdx k).flatMap (fun x => x.1.block x.2 ++ [rule]) ++ counts)).filterMap
      (ofBlock? p) = rs.map (Report.diagnostic p) := by
  induction rs generalizing k with
  | nil =>
    have hheader : header? counts = none :=
      header?_eq_none_iff.2 fun c hc => (hcounts c hc).opensBlock_eq
    have hnone : ofBlock? p counts = none := by rw [ofBlock?, hheader, Option.map_none]
    rw [List.zipIdx_nil, List.flatMap_nil, List.nil_append,
      blocks_of_forall fun c hc => (hcounts c hc).trim_ne_rule, List.filterMap_cons_none hnone]
    rfl
  | cons r rs ih =>
    rw [List.forall_mem_cons] at hrs
    have hrule : trim rule = rule := by decide
    rw [List.zipIdx_cons, List.flatMap_cons, List.append_assoc, List.append_assoc,
      List.singleton_append, blocks_append_rule (hrs.1.trim_ne_rule_of_mem_block k) hrule,
      List.filterMap_cons_some (hrs.1.ofBlock?_block k p), ih hrs.2 (k + 1), List.map_cons]

theorem mem_blockLines {l : List Char} (hl : l ∈ blockLines rs counts) :
    l = rule ∨ l ∈ counts ∨ ∃ r ∈ rs, ∃ k, l ∈ r.block k := by
  rw [blockLines, List.mem_cons, List.mem_append, List.mem_flatMap] at hl
  obtain rfl | ⟨⟨r, k⟩, hr, hl⟩ | hl := hl
  · exact .inl rfl
  · obtain hl | hl := List.mem_append.1 hl
    · exact .inr (.inr ⟨r, List.fst_mem_of_mem_zipIdx hr, k, hl⟩)
    · exact .inl (List.mem_singleton.1 hl)
  · exact .inr (.inl hl)

/-- Blocks and counts are read as the reports of the blocks, if there are any; a rule and counts
alone say nothing. -/
theorem readLines_blockLines (p : Program) (hrs : ∀ r ∈ rs, r.FitsBlock)
    (hcounts : ∀ c ∈ counts, IsCount c) :
    readLines p (blockLines rs counts) = rs.map (Report.diagnostic p) := by
  cases rs with
  | nil =>
    have hsilent : ∀ l ∈ blockLines [] counts, opensBlock l = false ∧
        ofLine? p (trim l) = none := by
      intro l hl
      obtain rfl | hl | ⟨r, hr, -⟩ := mem_blockLines hl
      · exact ⟨by decide, rfl⟩
      · exact ⟨(hcounts l hl).opensBlock_eq, (hcounts l hl).ofLine?_eq_none p⟩
      · cases hr
    rw [readLines, header?_eq_none_iff.2 fun l hl => (hsilent l hl).1, List.map_nil,
      List.filterMap_map]
    exact List.filterMap_eq_nil_iff.2 fun l hl => (hsilent l hl).2
  | cons r rs =>
    have hheader : (header? (blockLines (r :: rs) counts)).isSome = true :=
      isSome_header?_iff.2
        ⟨r.numberedHead 1, by simp [blockLines, Report.block], opensBlock_numberedHead r 1⟩
    have hfirst : ofBlock? p [] = none := rfl
    rw [readLines, if_pos hheader, blockLines, blocks, if_pos (by decide),
      List.filterMap_cons_none hfirst, filterMap_blocks p hrs hcounts 1]

/-- **Reports in blocks are read back**, each as one diagnostic on its line of the snippet, whatever
the lines are that the compiler shows. -/
theorem read_blockLines (p : Program) (hrs : ∀ r ∈ rs, r.FitsBlock)
    (hcounts : ∀ c ∈ counts, IsCount c ∧ '\n' ∉ c) :
    read p (joined (blockLines rs counts)) = rs.map (Report.diagnostic p) := by
  have honeLine : ∀ l ∈ blockLines rs counts, '\n' ∉ l := by
    intro l hl
    obtain rfl | hl | ⟨r, hr, k, hl⟩ := mem_blockLines hl
    · decide
    · exact (hcounts l hl).2
    · exact (hrs r hr).newline_not_mem_of_mem_block k l hl
  rw [read_joined p honeLine, readLines_blockLines p hrs fun c hc => (hcounts c hc).1]

/-- Two reports on a snippet of two lines: the first one shows a line that would open a block, above
an empty line, and the message of the second one tells of another line. -/
theorem read_blockLines_oddEchoes :
    let p := Program.ofSnippet "// 1. ERROR in A (at line 9)\nint x = y;".toList
    let unused : Report := ⟨.warning, 3, "unused".toList, "/w/TempClass.java".toList,
      "\t1. ERROR in A (at line 9)".toList, []⟩
    let unknown : Report := ⟨.error, 4, "y, see at line 1".toList, "/w/TempClass.java".toList,
      "\tint x = y;".toList, "\t        ^".toList⟩
    let count := "2 problems (1 error, 1 warning)".toList
    (∀ r ∈ [unused, unknown], r.FitsBlock) ∧ (IsCount count ∧ '\n' ∉ count) ∧
      read p (joined (blockLines [unused, unknown] [count])) =
        [.warning "unused" (some 1), .error "y, see at line 1" (some 2)] := by
  intro p unused unknown count
  have hrs : ∀ r ∈ [unused, unknown], r.FitsBlock := by decide +kernel
  have hcount : IsCount count ∧ '\n' ∉ count := by decide
  refine ⟨hrs, hcount, (read_blockLines p hrs ?_).trans (by decide +kernel)⟩
  simpa using hcount

end Output

/-- **Spaces matter.** A line of dashes that is shown behind spaces ends its block, so that the
report loses its message; and a file whose name ends with `at line` hides the number of the line. -/
theorem not_read_blockLines_ofUntrimmed :
    let p := Program.ofSnippet "x = y\n----------\nz;".toList
    let dashes : Report := ⟨.error, 4, "Syntax error on tokens, delete these tokens".toList,
      "/w/TempClass.java".toList, "\t        ----------".toList, "\t        ^^^^^^^^^^".toList⟩
    let file : Report := ⟨.error, 3, "x cannot be resolved to a variable".toList, "at line".toList,
      "\t        x = y".toList, "\t        ^".toList⟩
    let count := "1 problem (1 error)".toList
    (IsCount count ∧ '\n' ∉ count) ∧
      (dashes.FitsUntrimmed ∧
        read p (joined (blockLines [dashes] [count])) ≠ [dashes.diagnostic p]) ∧
      (file.FitsUntrimmed ∧
        read p (joined (blockLines [file] [count])) ≠ [file.diagnostic p]) := by
  intro p dashes file count
  exact ⟨by decide, ⟨by decide +kernel, by decide +kernel⟩, by decide +kernel, by decide +kernel⟩

end Messages

end SnippetRunner
