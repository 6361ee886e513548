import Mathlib
import SnippetRunner.Proofs.Margins
import SnippetRunner.Proofs.Multiline
import SnippetRunner.Proofs.Pieces

/-!
# Text blocks that are indented

A text block has lines of content and a closing delimiter on a line of its own (`TextBlock`). Its
lines may hold escapes, and these are read before the indentation is taken off. So a line may stand
for several rows, of which only the first has the indentation of the line in front of it
(`rowsOf`), and a row may be blank although its line is not.

* Escapes and delimiters do not go beyond the end of a line, so each line is read by itself
  (`readsLine_of_blockBody`), and a line behind spaces is read as well
  (`readsLine_append_of_isBlank`).
* Indenting a line moves its rows (`map_text_rowsOf_indentLine`).

An indented block therefore is a text block again, and it denotes the same string exactly if its
rows are steady (`TextBlock.denotes_indent_iff`). Blank lines are left as they are, so they stay
behind when the margin moves, and a block that is indented far enough has lost their breaks.
-/

namespace SnippetRunner

open Text Lexer

namespace Lexer

/-! ## Lines as they are read -/

/-- The characters that a line of a text block stands for. -/
def unescape : List Char → List Char
  | [] => []
  | c :: cs =>
    if c = '\\' then
      match escape cs with
      | .ok (value, n) => value :: unescape (cs.drop n)
      | .error _ => unescape cs
    else c :: unescape cs
  termination_by cs => cs.length
  decreasing_by all_goals simp only [List.length_drop, List.length_cons]; omega

/-- A line of a text block is read as the characters it stands for, whatever stands behind it. -/
def ReadsLine (l : List Char) : Prop :=
  ∀ read n rest, blockBody read n (l ++ '\n' :: rest) =
    blockBody ('\n' :: ((unescape l).reverse ++ read)) (n + l.length + 1) rest

variable {l s t : List Char}

theorem unescape_append_of_isBlank (hs : isBlank s = true) (l : List Char) :
    unescape (s ++ l) = s ++ unescape l := by
  induction s with
  | nil => rfl
  | cons c s ih =>
    rw [isBlank_cons, Bool.and_eq_true] at hs
    have hslash : c ≠ '\\' := by
      rintro rfl
      exact absurd hs.1 (by decide)
    rw [List.cons_append, unescape, if_neg hslash, ih hs.2, List.cons_append]

theorem unescape_of_isBlank (hs : isBlank s = true) : unescape s = s := by
  have h := unescape_append_of_isBlank hs []
  rwa [List.append_nil, unescape, List.append_nil] at h

theorem readsLine_append_of_isBlank (hs : isBlank s = true) (h : ReadsLine l) :
    ReadsLine (s ++ l) := by
  intro read n rest
  rw [List.append_assoc, blockBody_append_of_isBlank hs, h, unescape_append_of_isBlank hs,
    List.reverse_append, List.append_assoc, List.length_append, Nat.add_assoc n]

/-- A delimiter does not go beyond the end of its line. -/
theorem take_two_append_newline (l rest : List Char) :
    (l ++ '\n' :: rest).take 2 = ['"', '"'] ↔ l.take 2 = ['"', '"'] := by
  match l with
  | [] => simp
  | [c] => simp
  | c :: d :: l => simp

/-- An escape does not go beyond the end of its line. -/
theorem escape_append_newline {value : Char} {n : Nat} {Y : List Char}
    (h : escape (l ++ '\n' :: Y) = .ok (value, n)) (hn : n ≤ (l ++ '\n' :: Y).length) :
    n ≤ l.length ∧ ∀ rest, escape (l ++ rest) = .ok (value, n) := by
  have hno := newline_not_mem_of_escape (Y := []) (by rwa [List.append_nil]) hn
  have hle : n ≤ l.length := by
    by_contra hlt
    refine hno (List.mem_take_iff_getElem.2 ⟨l.length, ?_, ?_⟩)
    · rw [List.length_append, List.length_cons]
      omega
    · simp
  exact ⟨hle, escape_append h hle⟩

theorem readsLine_nil : ReadsLine [] := by
  intro read n rest
  rw [List.nil_append, blockBody, if_neg (by simp), if_neg (by decide), unescape]
  rfl

theorem readsLine_cons_of_ne {c : Char} (hclose : ¬(c = '"' ∧ l.take 2 = ['"', '"']))
    (hslash : c ≠ '\\') (h : ReadsLine l) : ReadsLine (c :: l) := by
  intro read n rest
  have hcount : n + 1 + l.length + 1 = n + (c :: l).length + 1 := by
    rw [List.length_cons]
    omega
  rw [List.cons_append, blockBody,
    if_neg fun hquote => hclose ⟨hquote.1, (take_two_append_newline l rest).1 hquote.2⟩,
    if_neg hslash, h, unescape, if_neg hslash, List.reverse_cons, List.append_assoc,
    List.singleton_append, hcount]

theorem readsLine_cons_of_escape {value : Char} {m : Nat} (hm : m ≤ l.length)
    (hescape : ∀ rest, escape (l ++ rest) = .ok (value, m)) (h : ReadsLine (l.drop m)) :
    ReadsLine ('\\' :: l) := by
  intro read n rest
  have hself : escape l = .ok (value, m) := by
    have hself := hescape []
    rwa [List.append_nil] at hself
  have hcount : n + 1 + m + (l.drop m).length + 1 = n + ('\\' :: l).length + 1 := by
    rw [List.length_drop, List.length_cons]
    omega
  rw [List.cons_append, blockBody, if_neg (by simp), if_pos rfl, hescape, unescape, if_pos rfl,
    hself]
  dsimp only
  rw [List.drop_append_of_le_length hm, h, List.reverse_cons, List.append_assoc,
    List.singleton_append, hcount]

/-- **A line that the content of a text block goes beyond is read by itself.** -/
theorem readsLine_of_blockBody {read Y : List Char} {n k : Nat} {token : Token}
    (h : blockBody read n (l ++ '\n' :: Y) = .ok (token, k)) (hk : n + l.length < k) :
    ReadsLine l := by
  induction hlen : l.length using Nat.strongRecOn generalizing l read n with
  | _ len ih =>
    cases l with
    | nil => exact readsLine_nil
    | cons c l =>
      rw [List.length_cons] at hk hlen
      rw [List.cons_append, blockBody] at h
      split at h
      · next hclose =>
        obtain ⟨-, rfl⟩ := Prod.mk.inj (Except.ok.inj h)
        have hquotes := congrArg List.length ((take_two_append_newline l Y).1 hclose.2)
        simp only [List.length_take, List.length_cons, List.length_nil] at hquotes
        omega
      · next hclose =>
        have hclose' : ¬(c = '"' ∧ l.take 2 = ['"', '"']) := fun hquote =>
          hclose ⟨hquote.1, (take_two_append_newline l Y).2 hquote.2⟩
        split at h
        · next hslash =>
          subst hslash
          split at h
          · next value m hescape =>
            have hm : m ≤ (l ++ '\n' :: Y).length := by
              by_contra hlt
              rw [List.drop_eq_nil_of_le (by omega), blockBody] at h
              exact absurd h (by simp)
            obtain ⟨hle, hagain⟩ := escape_append_newline hescape hm
            rw [List.drop_append_of_le_length hle] at h
            have hdrop : (l.drop m).length = l.length - m := List.length_drop
            exact readsLine_cons_of_escape hle hagain
              (ih (l.drop m).length (by omega) h (by omega) rfl)
          · simp at h
        · next hslash =>
          exact readsLine_cons_of_ne hclose' hslash (ih l.length (by omega) h (by omega) rfl)

/-! ## Lines and rows -/

section Lines

variable {ls : List (List Char)}

/-- What is read of lines, one behind the other. -/
theorem blockBody_joined (hls : ∀ l ∈ ls, ReadsLine l) (read : List Char) (n : Nat)
    (rest : List Char) :
    blockBody read n (joined ls ++ rest) =
      blockBody ((joined (ls.map unescape)).reverse ++ read) (n + (joined ls).length) rest := by
  induction ls generalizing read n with
  | nil => rfl
  | cons l ls ih =>
    obtain ⟨hl, hls⟩ := List.forall_mem_cons.1 hls
    have hcount : n + l.length + 1 + (joined ls).length = n + (l ++ '\n' :: joined ls).length := by
      rw [List.length_append, List.length_cons]
      omega
    rw [joined_cons, List.append_assoc, List.cons_append, hl, ih hls, hcount, List.map_cons,
      joined_cons, List.reverse_append, List.reverse_cons]
    simp only [List.append_assoc, List.cons_append, List.nil_append]

/-- Lines that the content of a text block goes beyond are read by themselves. -/
theorem readsLine_of_blockBody_joined {read : List Char} {n k : Nat} {token : Token}
    (h : blockBody read n (joined ls ++ t) = .ok (token, k)) (hk : n + (joined ls).length < k) :
    ∀ l ∈ ls, ReadsLine l := by
  induction ls generalizing read n with
  | nil => exact nofun
  | cons l ls ih =>
    rw [joined_cons, List.length_append, List.length_cons] at hk
    rw [joined_cons, List.append_assoc, List.cons_append] at h
    have hl := readsLine_of_blockBody h (by omega)
    rw [hl] at h
    exact List.forall_mem_cons.2 ⟨hl, ih h (by omega)⟩

/-- The rows of a line: its own breaks and those it stands for end a row. Indenting the line moves
the first of them, if the line is not blank. -/
def rowsOf (l : List Char) : List Row :=
  match linesWithBreaks (unescape l ++ ['\n']) with
  | [] => []
  | first :: more => ⟨first, !isBlank l⟩ :: more.map fun r => ⟨r, false⟩

theorem exists_linesWithBreaks_concat (x : List Char) :
    ∃ first more, linesWithBreaks (x ++ ['\n']) = first :: more ∧ IsRow first ∧
      ∀ r ∈ more, IsRow r := by
  induction x with
  | nil => exact ⟨['\n'], [], rfl, ⟨[], rfl, List.not_mem_nil⟩, nofun⟩
  | cons c x ih =>
    obtain ⟨first, more, hlines, hfirst, hmore⟩ := ih
    rw [List.cons_append, linesWithBreaks, hlines]
    split
    · next hc =>
      subst hc
      exact ⟨['\n'], first :: more, rfl, ⟨[], rfl, List.not_mem_nil⟩,
        List.forall_mem_cons.2 ⟨hfirst, hmore⟩⟩
    · next hc =>
      obtain ⟨body, rfl, hno⟩ := hfirst
      refine ⟨c :: (body ++ ['\n']), more, rfl, ⟨c :: body, rfl, ?_⟩, hmore⟩
      exact fun h => (List.mem_cons.1 h).elim (fun h => hc h.symm) hno

/-- The rows of a line, the first of them apart. -/
theorem exists_rowsOf_eq (l : List Char) :
    ∃ first more, linesWithBreaks (unescape l ++ ['\n']) = first :: more ∧
      rowsOf l = ⟨first, !isBlank l⟩ :: more.map (fun r => ⟨r, false⟩) ∧ IsRow first ∧
        ∀ r ∈ more, IsRow r := by
  obtain ⟨first, more, hlines, hfirst, hmore⟩ := exists_linesWithBreaks_concat (unescape l)
  exact ⟨first, more, hlines, by rw [rowsOf, hlines], hfirst, hmore⟩

theorem map_text_rowsOf (l : List Char) :
    (rowsOf l).map Row.text = linesWithBreaks (unescape l ++ ['\n']) := by
  obtain ⟨first, more, hlines, hrows, -⟩ := exists_rowsOf_eq l
  rw [hrows, hlines]
  simp [Function.comp_def]

theorem isRow_of_mem_rowsOf {r : Row} (hr : r ∈ rowsOf l) : IsRow r.text := by
  obtain ⟨first, more, -, hrows, hfirst, hmore⟩ := exists_rowsOf_eq l
  rw [hrows] at hr
  rcases List.mem_cons.1 hr with rfl | hr
  · exact hfirst
  · obtain ⟨x, hx, rfl⟩ := List.mem_map.1 hr
    exact hmore x hx

/-- Where a line has a row with content, its first row moves. -/
theorem exists_moves_of_content {r : Row} (hr : r ∈ rowsOf l) (hcontent : isBlank r.text = false) :
    ∃ r ∈ rowsOf l, r.moves = true := by
  obtain ⟨first, more, hlines, hrows, -⟩ := exists_rowsOf_eq l
  rw [hrows]
  refine ⟨_, List.mem_cons_self, ?_⟩
  -- a blank line stands for itself, and all its rows are blank
  by_contra hblank
  have hl : isBlank l = true := by simpa using hblank
  have hmem : r.text <:+: unescape l ++ ['\n'] := by
    conv_rhs => rw [← flatten_linesWithBreaks (unescape l ++ ['\n']), ← map_text_rowsOf]
    exact List.infix_of_mem_flatten (List.mem_map_of_mem hr)
  rw [unescape_of_isBlank hl] at hmem
  have hall : isBlank (l ++ ['\n']) = true := by rw [isBlank_append, hl]; rfl
  rw [isBlank_of_isInfix hmem hall] at hcontent
  exact absurd hcontent (by decide)

/-- A line behind spaces, unless it is blank. -/
def indentLine (k : Nat) (l : List Char) : List Char :=
  if isBlank l then l else List.replicate k ' ' ++ l

theorem readsLine_indentLine (h : ReadsLine l) (k : Nat) : ReadsLine (indentLine k l) := by
  rw [indentLine]
  split
  · exact h
  · exact readsLine_append_of_isBlank (isBlank_spaces k) h

theorem newline_not_mem_indentLine (h : '\n' ∉ l) (k : Nat) : '\n' ∉ indentLine k l := by
  rw [indentLine]
  split
  · exact h
  · exact List.not_mem_append (newline_not_mem_spaces k) h

/-- What stands in front of a text stands in front of its first line. -/
theorem linesWithBreaks_append_of_eq_cons (hs : '\n' ∉ s) {cs first : List Char}
    {more : List (List Char)} (h : linesWithBreaks cs = first :: more) :
    linesWithBreaks (s ++ cs) = (s ++ first) :: more := by
  induction s with
  | nil => exact h
  | cons c s ih =>
    simp only [List.mem_cons, not_or] at hs
    rw [List.cons_append, linesWithBreaks, if_neg (Ne.symm hs.1), ih hs.2]
    rfl

/-- **Indenting a line moves its rows.** -/
theorem map_text_rowsOf_indentLine (k : Nat) (l : List Char) :
    (rowsOf (indentLine k l)).map Row.text = (rowsOf l).map (Row.shift k) := by
  obtain ⟨first, more, hlines, hrows, -⟩ := exists_rowsOf_eq l
  have hmore : (more.map fun r => (⟨r, false⟩ : Row)).map (Row.shift k) = more := by
    simp [Function.comp_def, Row.shift, Row.lead]
  rw [map_text_rowsOf, hrows, List.map_cons, hmore, indentLine]
  cases hl : isBlank l with
  | true => rw [if_pos rfl, hlines, Row.shift_of_not_moves rfl]
  | false =>
    rw [if_neg Bool.false_ne_true, unescape_append_of_isBlank (isBlank_spaces k), List.append_assoc,
      linesWithBreaks_append_of_eq_cons (newline_not_mem_spaces k) hlines]
    rfl

end Lines

/-! ## A text of one token -/

/-- A token that spans a text is its first one, and takes it to its end. -/
theorem exists_step_of_lex {c : Char} {u : List Char} {t : Token} {stop : Span}
    (h : lex (c :: u) = .ok ⟨[⟨t, Span.ofText .start (c :: u)⟩], stop⟩)
    (hblank : ∀ n, step c u ≠ .blank n) : ∃ n, step c u = .token t n ∧ u.length ≤ n := by
  rw [lex, lexFrom_cons] at h
  cases hstep : step c u with
  | blank n => exact absurd hstep (hblank n)
  | fault why n =>
    rw [hstep] at h
    simp [Except.map] at h
  | token t' n =>
    rw [hstep] at h
    dsimp only at h
    cases hrest : lexFrom (Position.start.after (c :: u.take n)) (u.drop n) with
    | error e =>
      rw [hrest] at h
      simp [Except.map] at h
    | ok parts =>
      obtain ⟨lexemes, stop'⟩ := parts
      rw [hrest] at h
      simp only [Except.map, Except.ok.injEq, Lexemes.mk.injEq, List.cons.injEq,
        Lexeme.mk.injEq] at h
      obtain ⟨⟨⟨rfl, hspan⟩, -⟩, -⟩ := h
      refine ⟨n, rfl, ?_⟩
      have hstop := congrArg Span.stop hspan
      simp only [Span.ofText, byteSize_cons] at hstop
      have hsize : byteSize u = byteSize (u.take n) + byteSize (u.drop n) := by
        rw [← byteSize_append, List.take_append_drop]
      cases hdrop : u.drop n with
      | nil => exact List.drop_eq_nil_iff.1 hdrop
      | cons d v =>
        have hpos := d.utf8Size_pos
        rw [hdrop, byteSize_cons] at hsize
        omega

end Lexer

/-! ## Blocks -/

/-- A text block: lines of content, each with a break behind it, and white space in front of the
closing delimiter. -/
structure TextBlock where
  lines : List (List Char)
  closing : List Char
  newline_not_mem_lines : ∀ l ∈ lines, '\n' ∉ l
  isBlank_closing : isBlank closing = true
  newline_not_mem_closing : '\n' ∉ closing

namespace TextBlock

/-- A text block as it is written. -/
def text (b : TextBlock) : List Char :=
  blockMark ++ '\n' :: (joined b.lines ++ (b.closing ++ blockMark))

/-- The text of the block is one token whose payload is the string. -/
def Denotes (b : TextBlock) (s : String) : Prop :=
  lex b.text = .ok ⟨[⟨.string s, Span.ofText .start b.text⟩],
    Span.ofText (Position.start.after b.text) []⟩

/-- The block with its lines and its closing delimiter behind spaces, blank lines aside. -/
def indent (k : Nat) (b : TextBlock) : TextBlock where
  lines := b.lines.map (indentLine k)
  closing := List.replicate k ' ' ++ b.closing
  newline_not_mem_lines := by
    intro l hl
    obtain ⟨l', hl', rfl⟩ := List.mem_map.1 hl
    exact newline_not_mem_indentLine (b.newline_not_mem_lines l' hl') k
  isBlank_closing := by rw [isBlank_append, isBlank_spaces, b.isBlank_closing]; rfl
  newline_not_mem_closing :=
    List.not_mem_append (newline_not_mem_spaces k) b.newline_not_mem_closing

/-- The rows of the lines. -/
def rows (b : TextBlock) : List Row := b.lines.flatMap rowsOf

/-- What the lexer makes of the content. -/
def value (b : TextBlock) : List Char :=
  stripIndentation (joined (b.lines.map unescape) ++ b.closing)

variable (b : TextBlock)

theorem blockBody_closing (read : List Char) (n : Nat) :
    blockBody read n (b.closing ++ blockMark) =
      .ok (.string (String.ofList (stripIndentation (read.reverse ++ b.closing))),
        n + b.closing.length + 3) := by
  rw [blockBody_append_of_isBlank b.isBlank_closing, blockMark, blockBody, if_pos ⟨rfl, rfl⟩,
    List.reverse_append, List.reverse_reverse]

/-- The text behind the first quote mark. -/
def behind : List Char := '"' :: '"' :: '\n' :: (joined b.lines ++ (b.closing ++ blockMark))

theorem text_eq : b.text = '"' :: b.behind := rfl

theorem step_behind :
    step '"' b.behind =
      .ofReading (blockBody [] 3 (joined b.lines ++ (b.closing ++ blockMark))) := by
  have hquoted := quoted_of_block (x := []) List.not_mem_nil
    (joined b.lines ++ (b.closing ++ blockMark))
  exact congrArg Step.ofReading hquoted

/-- **A block denotes the string that is made of its content if its lines can be read by
themselves**, and no other. -/
theorem denotes_iff {s : String} :
    b.Denotes s ↔ (∀ l ∈ b.lines, ReadsLine l) ∧ String.ofList b.value = s := by
  have hread (hls : ∀ l ∈ b.lines, ReadsLine l) :
      blockBody [] 3 (joined b.lines ++ (b.closing ++ blockMark)) =
        .ok (.string (String.ofList b.value),
          3 + (joined b.lines).length + b.closing.length + 3) := by
    rw [blockBody_joined hls, List.append_nil, blockBody_closing, List.reverse_reverse, value]
  have hlength : b.behind.length = 3 + (joined b.lines).length + b.closing.length + 3 := by
    simp only [behind, blockMark, List.length_cons, List.length_append, List.length_nil]
    omega
  rw [Denotes, text_eq]
  constructor
  · intro h
    obtain ⟨n, hstep, hn⟩ := exists_step_of_lex h fun n => by
      rw [step_behind]
      exact Step.ofReading_ne_blank
    rw [step_behind, Step.ofReading_eq_token] at hstep
    have hls := readsLine_of_blockBody_joined hstep (by omega)
    rw [hread hls] at hstep
    exact ⟨hls, by simpa using congrArg Prod.fst (Except.ok.inj hstep)⟩
  · rintro ⟨hls, rfl⟩
    have hstep : step '"' (b.behind ++ []) =
        .token (.string (String.ofList b.value)) b.behind.length := by
      rw [List.append_nil, step_behind, hread hls, hlength]
      rfl
    have hcuts := Cuts.token hstep (.nil [])
    rw [List.append_nil] at hcuts
    exact lex_of_cuts hcuts

/-! ## Indenting -/

theorem newlines_text : newlines b.text = b.lines.length + 1 := by
  have hmark : '\n' ∉ blockMark := by decide
  have hend : newlines (b.closing ++ blockMark) = 0 :=
    newlines_eq_zero (List.not_mem_append b.newline_not_mem_closing hmark)
  rw [text, newlines_append_newline hmark, newlines_append,
    newlines_joined b.newline_not_mem_lines, hend, Nat.add_zero]

theorem map_text_rows : b.rows.map Row.text = b.lines.flatMap fun l =>
    linesWithBreaks (unescape l ++ ['\n']) := by
  rw [rows, List.map_flatMap]
  exact List.flatMap_congr fun l _ => map_text_rowsOf l

theorem flatten_rows : (b.rows.map Row.text).flatten = joined (b.lines.map unescape) := by
  rw [map_text_rows]
  induction b.lines with
  | nil => rfl
  | cons l ls ih =>
    rw [List.flatMap_cons, List.flatten_append, flatten_linesWithBreaks, ih, List.map_cons,
      joined_cons, List.append_assoc, List.singleton_append]

theorem map_text_rows_indent (k : Nat) :
    (b.indent k).rows.map Row.text = b.rows.map (Row.shift k) := by
  rw [rows, rows, indent, List.flatMap_map, List.map_flatMap, List.map_flatMap]
  exact List.flatMap_congr fun l _ => map_text_rowsOf_indentLine k l

theorem isRow_of_mem_rows : ∀ r ∈ b.rows, IsRow r.text := by
  intro r hr
  obtain ⟨l, -, hr⟩ := List.mem_flatMap.1 hr
  exact isRow_of_mem_rowsOf hr

theorem exists_moves (h : ∃ r ∈ b.rows, isBlank r.text = false) : ∃ r ∈ b.rows, r.moves = true := by
  obtain ⟨r, hr, hcontent⟩ := h
  obtain ⟨l, hl, hr⟩ := List.mem_flatMap.1 hr
  obtain ⟨r', hr', hmove⟩ := exists_moves_of_content hr hcontent
  exact ⟨r', List.mem_flatMap.2 ⟨l, hl, hr'⟩, hmove⟩

/-- **What the lexer makes of an indented block.** -/
theorem value_indent (hne : b.rows ≠ []) (k : Nat) :
    (b.indent k).value = Row.stripped b.rows k := by
  have hrows := Row.isRow_of_mem_shifted b.isRow_of_mem_rows k
  rw [value, ← flatten_rows, map_text_rows_indent,
    stripIndentation_flatten hrows (by simpa using hne) (b.indent k).isBlank_closing
      (b.indent k).newline_not_mem_closing, Row.stripped, List.flatMap_map]

theorem indent_zero : b.indent 0 = b := by
  have hline : indentLine 0 = id := funext fun l => by simp [indentLine]
  simp [indent, hline]

/-- Without lines the value is what stands in front of the closing delimiter. -/
theorem value_of_lines_eq_nil (h : b.lines = []) : b.value = b.closing := by
  rw [value, h]
  exact stripIndentation_of_isBlank b.isBlank_closing b.newline_not_mem_closing

theorem lines_eq_nil (h : b.rows = []) : b.lines = [] := by
  by_contra hne
  obtain ⟨l, hl⟩ := List.exists_mem_of_ne_nil _ hne
  obtain ⟨first, more, -, hrows, -⟩ := exists_rowsOf_eq l
  have hnil := List.flatMap_eq_nil_iff.1 h l hl
  rw [hrows] at hnil
  exact absurd hnil (List.cons_ne_nil _ _)

/-- **An indented text block denotes what it did exactly if its rows are steady.** It is one token
of as many lines in any case. -/
theorem denotes_indent_iff {s : String} (h : b.Denotes s) :
    (∀ k, newlines (b.indent k).text = newlines b.text ∧ ∃ s', (b.indent k).Denotes s') ∧
      ((∀ k, (b.indent k).Denotes s) ↔ Steady b.rows) := by
  obtain ⟨hls, rfl⟩ := b.denotes_iff.1 h
  have hindent (k : Nat) : ∀ l ∈ (b.indent k).lines, ReadsLine l := by
    intro l hl
    obtain ⟨l', hl', rfl⟩ := List.mem_map.1 hl
    exact readsLine_indentLine (hls l' hl') k
  have hsame (k : Nat) : (b.indent k).Denotes (String.ofList b.value) ↔
      (b.indent k).value = b.value := by
    rw [denotes_iff, and_iff_right (hindent k), String.ofList_inj]
  refine ⟨fun k => ⟨?_, _, (denotes_iff _).2 ⟨hindent k, rfl⟩⟩, ?_⟩
  · rw [newlines_text, newlines_text, indent, List.length_map]
  · simp only [hsame]
    by_cases hne : b.rows = []
    · -- the value is the white space in front of the closing delimiter
      have hlines := b.lines_eq_nil hne
      have hvalue (k : Nat) : (b.indent k).value = List.replicate k ' ' ++ b.value := by
        rw [value_of_lines_eq_nil (b.indent k) (List.map_eq_nil_iff.2 hlines),
          value_of_lines_eq_nil b hlines, indent]
      refine iff_of_false (fun h => ?_) (hne ▸ not_steady_nil)
      have hlonger := (hvalue 1).symm.trans (h 1)
      simp at hlonger
    · have hzero := b.value_indent hne 0
      rw [indent_zero] at hzero
      simp only [b.value_indent hne, hzero]
      exact Row.stripped_eq_iff_steady b.isRow_of_mem_rows hne b.exists_moves

/-- A blank line that is shorter than the margin, and an escaped tab. -/
def gapBelowMargin : TextBlock :=
  ⟨["  a\\tb".toList, [], "    c".toList], "  ".toList, by decide, by decide, by decide⟩

/-- A blank line without a margin. -/
def gapAtMargin : TextBlock := ⟨[['a'], [], ['b']], [], by decide, by decide, by decide⟩

/-- A blank line is gone from one block however far it is indented, and is lost from the other when
it is indented. -/
theorem denotes_indent_gap :
    (∀ k, (gapBelowMargin.indent k).Denotes "a\tb\n  c\n") ∧
      gapAtMargin.Denotes "a\n\nb\n" ∧ ¬∀ k, (gapAtMargin.indent k).Denotes "a\n\nb\n" := by
  have hbelow : gapBelowMargin.Denotes "a\tb\n  c\n" := by
    unfold Denotes
    cbv
  have hat : gapAtMargin.Denotes "a\n\nb\n" := by
    unfold Denotes
    cbv
  have hrowsBelow : gapBelowMargin.rows = [⟨"  a\tb\n".toList, true⟩, ⟨['\n'], false⟩,
      ⟨"    c\n".toList, true⟩] := by cbv
  have hrowsAt : gapAtMargin.rows =
      [⟨['a', '\n'], true⟩, ⟨['\n'], false⟩, ⟨['b', '\n'], true⟩] := by
    cbv
  refine ⟨(denotes_indent_iff _ hbelow).2.2 ?_, hat, fun h => ?_⟩
  · rw [hrowsBelow]
    exact .content (by decide) (by decide)
  · have hsteady := (denotes_indent_iff _ hat).2.1 h
    rw [hrowsAt] at hsteady
    rcases hsteady with ⟨-, hstill⟩ | ⟨-, hstill⟩
    · exact absurd hstill (by decide)
    · exact absurd hstill (by decide)

end TextBlock

end SnippetRunner
