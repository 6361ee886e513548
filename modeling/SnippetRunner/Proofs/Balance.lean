import SnippetRunner.Proofs.CodeWords
import SnippetRunner.Proofs.Occurrences
import SnippetRunner.Toolchain.Balance

/-!
# Balance and tokens

For a text with tokens the balance check is a matter of its tokens: the brackets that it counts are
the braces and parentheses among them, and it finds no literal that is left open
(`checkBalance_of_lex`).

This holds for texts without text blocks, and for those whose text blocks go on to the first three
quote marks behind the ones that open them (`ClosesFirst`), because the check takes these for
the end of the block. The lexer does not look for them on the line where a block is opened, nor
where the first of the marks is escaped, so it may find the end of the block further behind
(`checkBalance_escapedMarks`).

* The check goes on from code to code over a literal or a comment (`tallyFrom_enclosed`), over other
  tokens and white space (`tallyFrom_code`), and over a text block (`tallyFrom_block`).
* So a token counts as the sign that it is, and what stands between tokens does not count
  (`exists_tallyFrom_token`, `exists_tallyFrom_blank`).
-/

namespace SnippetRunner

open Text Lexer Scan

theorem newlines_cons (c : Char) (cs : List Char) :
    newlines (c :: cs) = newlines [c] + newlines cs :=
  newlines_append [c] cs

/-! ## Steps of the check -/

section Steps

variable {mode mode' : Mode} {c : Char} {cs Y : List Char} {k : CharClass} (line : Nat)
  (tally : Tally)

theorem tallyFrom_nil : tallyFrom line .code tally [] = .ok tally := by
  rw [tallyFrom]
  rfl

/-- One character that opens no text block. -/
theorem tallyFrom_cons (hblock : mode = .code → ¬ blockMark <+: c :: cs ++ Y)
    (hstep : mode.step c (cs.head?.or Y.head?) = (k, mode'))
    (hopen : c = '\n' → mode.leftOpen? line = none) :
    tallyFrom line mode tally (c :: cs ++ Y) =
      tallyFrom (line + newlines [c]) mode' (if k = .code then tally.count c else tally)
        (cs ++ Y) := by
  rw [← List.head?_append] at hstep
  rw [List.cons_append, tallyFrom, if_neg (by simpa using hblock)]
  split
  · next hc =>
    subst hc
    have hcount : tally.count '\n' = tally := rfl
    rw [hopen rfl, hstep, hcount, ite_self]
    rfl
  · next hc =>
    have hline : newlines [c] = 0 := newlines_eq_zero (by simpa using Ne.symm hc)
    rw [hstep, hline]
    cases k <;> rfl

theorem tallyFrom_block {inside rest : List Char}
    (h : breakOn? blockMark cs = some (inside, rest)) :
    tallyFrom line .code tally (blockMark ++ cs) =
      tallyFrom (line + newlines inside) .code tally (rest.drop 3) := by
  change tallyFrom line .code tally ('"' :: '"' :: '"' :: cs) = _
  rw [tallyFrom, if_pos (by simp [blockMark])]
  split
  · next hnone => cases hnone.symm.trans h
  · next inside' rest' hsome =>
    obtain ⟨rfl, rfl⟩ := Prod.mk.inj (Option.some.inj (hsome.symm.trans h))
    rfl

/-- What is outside code does not count. -/
theorem tallyFrom_within (h : Within k mode cs mode') (hk : k ≠ .code)
    (hbreak : k = .literal → '\n' ∉ cs) (Y : List Char) :
    tallyFrom line mode tally (cs ++ Y) = tallyFrom (line + newlines cs) mode' tally Y := by
  induction h generalizing line with
  | nil => rfl
  | @cons mode m mode' c cs hmode hstep _ ih =>
    have hopen : c = '\n' → mode.leftOpen? line = none := by
      rintro rfl
      have hclass : k = .comment := by
        cases k with
        | code => exact absurd rfl hk
        | literal => exact absurd List.mem_cons_self (hbreak rfl)
        | comment => rfl
      subst hclass
      cases mode with
      | quoted mark escaped => exact absurd (hstep none) (by simp [Mode.step])
      | _ => rfl
    rw [tallyFrom_cons line tally (fun hcode => absurd hcode hmode) (hstep _) hopen, if_neg hk,
      ih _ fun hk hmem => hbreak hk (List.mem_cons_of_mem c hmem), newlines_cons c cs,
      Nat.add_assoc]

/-- A literal or a comment is passed over. -/
theorem tallyFrom_enclosed (h : Enclosed k cs mode) (hk : k ≠ .code)
    (hbreak : k = .literal → '\n' ∉ cs) (hblock : ¬ blockMark <+: cs ++ Y) :
    tallyFrom line .code tally (cs ++ Y) = tallyFrom (line + newlines cs) mode tally Y := by
  obtain ⟨c, u, m, rfl, hstep, hwithin⟩ := h
  have hinside : k = .literal → '\n' ∉ u := fun hk hmem => hbreak hk (List.mem_cons_of_mem c hmem)
  rw [tallyFrom_cons line tally (fun _ => hblock) (hstep _) (fun _ => rfl), if_neg hk,
    tallyFrom_within _ tally hwithin hk hinside Y, newlines_cons c u, Nat.add_assoc]

/-- Comments are passed over. -/
theorem tallyFrom_comment (h : Enclosed .comment cs mode) (hblock : ¬ blockMark <+: cs ++ Y) :
    tallyFrom line .code tally (cs ++ Y) = tallyFrom (line + newlines cs) mode tally Y :=
  tallyFrom_enclosed line tally h (by decide) (fun hk => absurd hk (by decide)) hblock

/-- A line comment ends with its line. -/
theorem tallyFrom_lineComment (Y : List Char) :
    tallyFrom line .lineComment tally ('\n' :: Y) = tallyFrom (line + 1) .code tally Y := by
  rw [tallyFrom, if_neg (by simp), if_pos rfl]
  rfl

/-- Code is counted. -/
theorem tallyFrom_code (h : classifyFrom .code Y.head? cs = cs.map (·, .code)) :
    tallyFrom line .code tally (cs ++ Y) =
      tallyFrom (line + newlines cs) .code (cs.foldl Tally.count tally) Y := by
  induction cs generalizing line tally with
  | nil => rfl
  | cons c cs ih =>
    obtain ⟨hclass, hlater⟩ := List.cons.inj h
    have hcode : (Mode.step .code c (cs.head?.or Y.head?)).1 = .code := (Prod.mk.inj hclass).2
    have hmode := Mode.step_snd_of_code hcode
    rw [hmode] at hlater
    have hblock : ¬ blockMark <+: c :: cs ++ Y := by
      intro hmark
      obtain ⟨rfl, -⟩ := List.cons_prefix_cons.1 hmark
      exact absurd hcode (by simp [Mode.step])
    rw [tallyFrom_cons line tally (fun _ => hblock) (Prod.ext hcode hmode) (fun _ => rfl),
      if_pos rfl, ih _ _ hlater, newlines_cons c cs, Nat.add_assoc, List.foldl_cons]

end Steps

/-! ## Brackets among tokens -/

/-- The sign that a token is. -/
def Token.sign? : Token → Option Sign
  | sign s => some s
  | _ => none

/-- How often a sign stands among tokens. -/
def Lexemes.count (tokens : Lexemes) (s : Sign) : Nat :=
  (tokens.list.filterMap fun t => t.token.sign?).count s

/-- The tally after more signs. -/
def Tally.add (tally : Tally) (signs : List Sign) : Tally where
  openBraces := tally.openBraces + signs.count .lbrace
  closeBraces := tally.closeBraces + signs.count .rbrace
  openParens := tally.openParens + signs.count .lparen
  closeParens := tally.closeParens + signs.count .rparen

theorem Tally.add_nil (tally : Tally) : tally.add [] = tally := rfl

theorem Tally.add_append (tally : Tally) (signs signs' : List Sign) :
    tally.add (signs ++ signs') = (tally.add signs).add signs' := by
  simp [add, Nat.add_assoc]

/-- Whether a character is a brace or a parenthesis. -/
def isBracket (c : Char) : Bool := c = '{' || c = '}' || c = '(' || c = ')'

/-- A class of characters without brackets. -/
theorem isBracket_of_excluded {p : Char → Bool} (hp : ['{', '}', '(', ')'].any p = false)
    {c : Char} (h : p c = true) : isBracket c = false := by
  rw [Bool.eq_false_iff]
  intro hbracket
  have hmem : c ∈ ['{', '}', '(', ')'] := by
    simpa [isBracket, or_assoc] using hbracket
  exact List.any_eq_false.1 hp c hmem h

theorem isBracket_of_isWordChar {c : Char} (h : isWordChar c = true) : isBracket c = false :=
  isBracket_of_excluded (by decide) h

theorem isBracket_of_isSpace {c : Char} (h : isSpace c = true) : isBracket c = false :=
  isBracket_of_excluded (by decide) h

theorem Tally.count_of_not_isBracket {c : Char} (h : isBracket c = false) (tally : Tally) :
    tally.count c = tally := by
  simp only [isBracket, Bool.or_eq_false_iff, decide_eq_false_iff_not] at h
  unfold count
  split <;> simp_all

theorem Tally.foldl_count_of_not_isBracket {cs : List Char} (h : ∀ c ∈ cs, isBracket c = false)
    (tally : Tally) : cs.foldl count tally = tally := by
  induction cs with
  | nil => rfl
  | cons c cs ih =>
    rw [List.foldl_cons, count_of_not_isBracket (h c List.mem_cons_self),
      ih fun d hd => h d (List.mem_cons_of_mem c hd)]

/-- The spelling of a sign counts as that sign. -/
theorem Tally.foldl_count_text (s : Sign) (tally : Tally) :
    s.text.toList.foldl count tally = tally.add [s] := by
  cases s <;> rfl

/-- The characters of a token that is code count as the token. -/
theorem foldl_count_of_step {c : Char} {u Y : List Char} {t : Token}
    (h : step c (u ++ Y) = .token t u.length) (ht : t.isQuoted = false) (tally : Tally) :
    (c :: u).foldl Tally.count tally = tally.add t.sign?.toList := by
  cases hsign : t.sign? with
  | some s =>
    obtain rfl : t = .sign s := by
      cases t <;> simp_all [Token.sign?]
    rw [text_of_step_sign h, Tally.foldl_count_text]
    rfl
  | none =>
    obtain hchars | ⟨s, rfl, -⟩ := spelling_of_not_isQuoted h ht
    · rw [Tally.foldl_count_of_not_isBracket fun d hd => isBracket_of_isWordChar (hchars d hd)]
      rfl
    · exact absurd hsign nofun

/-! ## Text blocks -/

/-- Whether a text block goes on to the first three quote marks behind those that open it. -/
def ClosesFirst (block : List Char) : Prop :=
  (breakOn? blockMark (block.drop 3)).map Prod.snd = some blockMark

instance (block : List Char) : Decidable (ClosesFirst block) :=
  inferInstanceAs (Decidable (_ = _))

namespace Lexer

/-- A token that three quote marks open is a text block. -/
theorem newline_mem_of_blockMark {c : Char} {u Y : List Char} {t : Token}
    (h : step c (u ++ Y) = .token t u.length) (hmark : blockMark <+: c :: u ++ Y) : '\n' ∈ u := by
  obtain ⟨rfl, hlater⟩ := List.cons_prefix_cons.1 hmark
  have hblock : (u ++ Y).take 2 = ['"', '"'] := (List.prefix_iff_eq_take.1 hlater).symm
  rw [step_quote, Step.ofReading_eq_token] at h
  obtain ⟨x, w, -, rfl, -⟩ := exists_of_quoted hblock h
  simp

section Pieces

variable {c : Char} {u cs : List Char} {t : Token} (line : Nat) (tally : Tally)

/-- White space and comments are passed over. -/
theorem exists_tallyFrom_blank (h : step c (u ++ cs) = .blank u.length) :
    ∃ line', tallyFrom line .code tally (c :: u ++ cs) = tallyFrom line' .code tally cs := by
  have hslash (v : List Char) : ¬ blockMark <+: '/' :: v := by
    intro hmark
    exact absurd (List.cons_prefix_cons.1 hmark).1 (by decide)
  obtain ⟨hspace, rfl⟩ | ⟨rfl, y, hy, rfl | ⟨rfl, rfl⟩⟩ | ⟨rfl, w, rfl, hcount⟩ := blank_of_step h
  · have hclass : classifyFrom .code cs.head? [c] = [c].map (·, .code) := by
      rw [classifyFrom, Mode.step_of_isSpace hspace]
      rfl
    rw [tallyFrom_code line tally hclass, List.foldl_cons, List.foldl_nil,
      Tally.count_of_not_isBracket (isBracket_of_isSpace hspace)]
    exact ⟨_, rfl⟩
  · have hsplit : '/' :: '/' :: (y ++ ['\n']) ++ cs = '/' :: '/' :: y ++ '\n' :: cs := by simp
    rw [hsplit, tallyFrom_comment line tally (enclosed_lineComment hy) (hslash _),
      tallyFrom_lineComment]
    exact ⟨_, rfl⟩
  · -- The comment ends with the text, where it leaves nothing open.
    rw [tallyFrom_comment line tally (enclosed_lineComment hy) (hslash _), tallyFrom]
    exact ⟨line, (tallyFrom_nil line tally).symm⟩
  · rw [tallyFrom_comment line tally (enclosed_blockComment hcount) (hslash _)]
    exact ⟨_, rfl⟩

/-- A string, a character or a text block is passed over. -/
theorem exists_tallyFrom_quoted (h : step c (u ++ cs) = .token t u.length) (ht : t.isQuoted = true)
    (hcloses : blockMark <+: c :: u → ClosesFirst (c :: u)) :
    ∃ line', tallyFrom line .code tally (c :: u ++ cs) = tallyFrom line' .code tally cs := by
  by_cases hbreak : '\n' ∈ u
  · obtain ⟨rfl, hblock, hread⟩ := block_of_step h hbreak
    obtain ⟨x, w, -, rfl, -⟩ := exists_of_quoted hblock hread
    obtain ⟨⟨inside, after⟩, hfirst, hafter⟩ :=
      Option.map_eq_some_iff.1 (hcloses (List.prefix_append blockMark (x ++ '\n' :: w)))
    obtain rfl : after = blockMark := hafter
    exact ⟨_, tallyFrom_block line tally (breakOn?_append hfirst cs)⟩
  · have hfirst : '\n' ≠ c := by
      rintro rfl
      exact absurd (step_eq_token h).1 (by decide)
    rw [tallyFrom_enclosed line tally (enclosed_of_isQuoted h hbreak ht) (by decide)
      (fun _ => by simpa [hfirst] using hbreak)
      (fun hmark => hbreak (newline_mem_of_blockMark h hmark))]
    exact ⟨_, rfl⟩

/-- A token counts as the sign that it is. -/
theorem exists_tallyFrom_token (h : step c (u ++ cs) = .token t u.length)
    (hcloses : blockMark <+: c :: u → ClosesFirst (c :: u)) :
    ∃ line', tallyFrom line .code tally (c :: u ++ cs) =
      tallyFrom line' .code (tally.add t.sign?.toList) cs := by
  cases ht : t.isQuoted with
  | false =>
    rw [tallyFrom_code line tally (labels_of_not_isQuoted h ht).1, foldl_count_of_step h ht]
    exact ⟨_, rfl⟩
  | true =>
    have hnone : t.sign? = none := by
      cases t <;> first | rfl | cases ht
    rw [hnone, Option.toList_none, Tally.add_nil]
    exact exists_tallyFrom_quoted line tally h ht hcloses

end Pieces

/-- **The brackets that are counted are the tokens**, from code on. -/
theorem Cuts.tallyFrom_eq {cs : List Char} {ps : List Piece} (h : Cuts cs ps [])
    (hblocks : ∀ q ∈ ps, q.token ≠ none → blockMark <+: q.text → ClosesFirst q.text) (line : Nat)
    (tally : Tally) :
    tallyFrom line .code tally cs = .ok (tally.add ((tokensOf ps).filterMap Token.sign?)) := by
  generalize hrest : ([] : List Char) = rest at h
  induction h generalizing line tally with
  | nil =>
    subst hrest
    exact tallyFrom_nil line tally
  | @blank c u cs rest ps hstep hcuts ih =>
    obtain ⟨line', hpassed⟩ := exists_tallyFrom_blank line tally hstep
    rw [hpassed, ih (fun q hq => hblocks q (List.mem_cons_of_mem _ hq)) line' tally hrest]
    rfl
  | @token c u cs rest t ps hstep hcuts ih =>
    have hcloses := hblocks _ List.mem_cons_self (Option.some_ne_none _)
    obtain ⟨line', hpassed⟩ := exists_tallyFrom_token line tally hstep hcloses
    have hsigns : (tokensOf (⟨c :: u, some t⟩ :: ps)).filterMap Token.sign? =
        t.sign?.toList ++ (tokensOf ps).filterMap Token.sign? := by
      rw [tokensOf, List.filterMap_cons, ← tokensOf]
      dsimp only
      rw [List.filterMap_cons]
      cases t.sign? <;> rfl
    rw [hpassed, ih (fun q hq => hblocks q (List.mem_cons_of_mem _ hq)) line' _ hrest, hsigns,
      Tally.add_append]

end Lexer

/-! ## The result of the check -/

theorem Tally.imbalance?_eq_none_iff (tally : Tally) :
    tally.imbalance? = none ↔
      tally.openBraces = tally.closeBraces ∧ tally.openParens = tally.closeParens := by
  unfold imbalance?
  split_ifs <;> simp_all

theorem Tally.line?_of_imbalance? {tally : Tally} {i : Imbalance} (h : tally.imbalance? = some i) :
    i.line? = none := by
  unfold imbalance? at h
  split_ifs at h
  · obtain rfl := Option.some.inj h
    rfl
  · obtain rfl := Option.some.inj h
    rfl

/-- What is out of balance in a text with tokens is told by their number. -/
theorem checkBalance_eq {cs : List Char} {tokens : Lexemes} (hlex : lex cs = .ok tokens)
    (hblocks : ∀ t ∈ tokens.list, t.IsTextBlock cs → ClosesFirst (t.span.text cs)) :
    checkBalance cs =
      (Tally.zero.add (tokens.list.filterMap fun t => t.token.sign?)).imbalance? := by
  obtain ⟨ps, hcuts, rfl⟩ := exists_cuts_of_lex hlex
  have hpieces : ∀ q ∈ ps, q.token ≠ none → blockMark <+: q.text → ClosesFirst q.text := by
    intro q hq htoken hmark
    obtain ⟨token, htoken'⟩ := Option.ne_none_iff_exists'.1 htoken
    obtain ⟨t, ht, -, htext⟩ := exists_mem_place hq htoken' [] []
    have hspell : [] ++ (spell ps ++ []) = cs := hcuts.spell.symm
    rw [hspell] at htext
    rw [← htext] at hmark ⊢
    exact hblocks t ht hmark
  have hsigns : (place .start ps).filterMap (fun t => t.token.sign?) =
      (tokensOf ps).filterMap Token.sign? := by
    rw [← map_token_place .start ps, List.filterMap_map]
    rfl
  rw [checkBalance, hcuts.tallyFrom_eq hpieces, hsigns]

/-- **Among the texts with tokens the balance check rejects those whose brackets do not add up**, if
every text block goes on to the first three quote marks behind those that open it. It finds no
literal that is left open. -/
theorem checkBalance_of_lex {cs : List Char} {tokens : Lexemes} (hlex : lex cs = .ok tokens)
    (hblocks : ∀ t ∈ tokens.list, t.IsTextBlock cs → ClosesFirst (t.span.text cs)) :
    (checkBalance cs = none ↔ tokens.count .lbrace = tokens.count .rbrace ∧
      tokens.count .lparen = tokens.count .rparen) ∧
      ∀ line, checkBalance cs ≠ some (.unclosedString line) ∧
        checkBalance cs ≠ some (.unclosedChar line) := by
  have hcheck := checkBalance_eq hlex hblocks
  constructor
  · rw [hcheck, Tally.imbalance?_eq_none_iff]
    simp [Tally.add, Tally.zero, Lexemes.count]
  · intro line
    rw [hcheck]
    constructor
    · intro h
      exact absurd (Tally.line?_of_imbalance? h) nofun
    · intro h
      exact absurd (Tally.line?_of_imbalance? h) nofun

/-- Brackets in a text block, in a character and in a comment. -/
def hiddenBrackets : List Char := "f(\"\"\"\n \x7b(\"\\t\n\"\"\", \'\x7d\'); // (".toList

/-- They do not count. -/
theorem checkBalance_hiddenBrackets :
    ∃ tokens, lex hiddenBrackets = .ok tokens ∧ tokens.count .lparen = 1 ∧
      checkBalance hiddenBrackets = none := by
  have hsome : (lex hiddenBrackets).toOption.any (fun tokens => decide
      ((∀ t ∈ tokens.list, t.IsTextBlock hiddenBrackets →
          ClosesFirst (t.span.text hiddenBrackets)) ∧
        tokens.count .lparen = 1 ∧ tokens.count .lbrace = tokens.count .rbrace ∧
        tokens.count .lparen = tokens.count .rparen)) = true := by decide +kernel
  obtain ⟨tokens, hlex, hchecked⟩ := exists_ok_of_any hsome
  obtain ⟨hblocks, hone, hcounts⟩ := of_decide_eq_true hchecked
  exact ⟨tokens, hlex, hone, (checkBalance_of_lex hlex hblocks).1.2 hcounts⟩

/-- A text block with three quote marks in it, the first of them escaped. -/
def escapedMarks : List Char := "s = \"\"\"\n \\\"\"\"\n\"\"\";".toList

/-- The lexer reads a string, and the check finds one that is left open. -/
theorem checkBalance_escapedMarks :
    (lex escapedMarks).isOk = true ∧ checkBalance escapedMarks = some (.unclosedString 3) := by
  decide +kernel

end SnippetRunner
