import SnippetRunner.Proofs.Provenance
import SnippetRunner.Statement.Reading

/-!
# Statements inside statements

* `Statement.parts` are the statements that a statement holds, as texts, and `Statement.shape` puts
  their meanings together. Reading with one level more is reading the parts with one level less
  (`readTo_succ`).
* The parts of a statement are shorter than it is (`length_text_lt_of_mem_parts`), unless it is a
  block that does not close: the only part of such a block is the block (`parts_of_isOpenBlock`).
* The parts of a statement stand one behind another in the text that the statement is cut from, each
  on the line it is reported on (`laid_parts`).
* What a statement does with the meanings of its parts is one of a few things (`Frame`).
-/

namespace SnippetRunner

open Text Scan

namespace Statement

/-! ## Parts and their shape -/

/-- Whether a text is a block by its first and last characters. -/
def isBlock (text : List Char) : Bool := text.head? = some '{' && text.getLast? = some '}'

/-- The statements that a statement holds. -/
def parts (f : Fragment) : List Fragment :=
  if (printCall? f.text).isSome then []
  else
    let keyword := String.ofList f.keyword
    if keyword = "for" ∨ keyword = "while" then ((loopParts? f).map Prod.snd).getD []
    else if unsupportedWords.contains keyword then []
    else if isBlock f.text then Fragment.splitBody f.text f.line
    else []

/-- What a statement means whose parts have the given meanings. -/
def shape (f : Fragment) (bodies : List Statement) : Statement :=
  match printCall? f.text with
  | some (formats, argument) => if formats then .skip else .print (operand? argument)
  | none =>
    let keyword := String.ofList f.keyword
    if keyword = "for" then
      match loopParts? f with
      | some (header, _) => forLoop f.line header bodies
      | none => .skip
    else if keyword = "while" then
      match loopParts? f with
      | some (header, _) => whileLoop f.line header bodies
      | none => .skip
    else if unsupportedWords.contains keyword then .skip
    else if isBlock f.text then .block bodies
    else readSimple f.text

/-- **Reading with one level more reads the parts with one level less.** -/
theorem readTo_succ (depth : Nat) (f : Fragment) :
    readTo (depth + 1) f = shape f ((parts f).map (readTo depth)) := by
  cases hprint : printCall? f.text with
  | some call => simp [readTo, shape, hprint]
  | none =>
    simp only [readTo, shape, parts, hprint, isBlock, Bool.and_eq_true, decide_eq_true_eq]
    cases hloop : loopParts? f with
    | some loop | none => split_ifs <;> simp_all

/-! ## Parts are shorter -/

/-- The body of a loop is cut from what follows its header. -/
theorem loopParts?_eq_some {f : Fragment} {header : List Char} {body : List Fragment}
    (h : loopParts? f = some (header, body)) :
    ∃ before rest, f.text = before ++ ('(' :: header ++ ')' :: rest) ∧
      body = Fragment.splitBody rest (f.line + newlines before + newlines header) ∧
      (Uncommented .code f.text → Uncommented .code rest) := by
  have hstep (next : Option Char) : Mode.step .code '(' next = (.code, .code) := by simp [Mode.step]
  simp only [loopParts?, Option.bind_eq_bind, Option.bind_eq_some_iff] at h
  obtain ⟨position, hfind, ⟨before, tail⟩, hcut, ⟨inner, rest⟩, hclose, hparts⟩ := h
  obtain ⟨rfl, rfl⟩ := Prod.mk.inj (Option.some.inj hparts)
  obtain ⟨before', tail', htext, rfl, hno⟩ := exists_of_findChar? (by decide) (by decide) hfind
  rw [htext, cut?_byteSize_append] at hcut
  obtain ⟨rfl, rfl⟩ := Prod.mk.inj (Option.some.inj hcut)
  refine ⟨before', rest, ?_, rfl, fun hf => ?_⟩
  · rw [htext]
    exact congrArg (before' ++ ·) (eq_of_closing? (by decide) hclose)
  · refine (Uncommented.of_closing? (by decide) hstep hclose ?_).2
    rw [uncommented_cons, hstep]
    exact ⟨by decide, hno hf⟩

/-- A loop is longer than the statements of its body. -/
theorem length_text_lt_of_loopParts? {f g : Fragment} {header : List Char} {body : List Fragment}
    (h : loopParts? f = some (header, body)) (hg : g ∈ body) : g.text.length < f.text.length := by
  obtain ⟨before, rest, htext, rfl, -⟩ := loopParts?_eq_some h
  have hle := Fragment.length_text_le_of_mem_splitBody hg
  rw [htext]
  simp only [List.length_append, List.length_cons]
  omega

theorem uncommented_of_loopParts? {f g : Fragment} {header : List Char} {body : List Fragment}
    (h : loopParts? f = some (header, body)) (hg : g ∈ body) : Uncommented .code g.text := by
  obtain ⟨before, rest, -, rfl, -⟩ := loopParts?_eq_some h
  exact Fragment.uncommented_of_mem_splitBody hg

/-- Where the parts of a statement come from. -/
theorem mem_parts {f g : Fragment} (h : g ∈ parts f) :
    (∃ header body, loopParts? f = some (header, body) ∧ g ∈ body) ∨
      (isBlock f.text = true ∧ g ∈ Fragment.splitBody f.text f.line) := by
  unfold parts at h
  dsimp only at h
  split_ifs at h with _ _ _ hblock
  · simp at h
  · cases hloop : loopParts? f with
    | none => simp [hloop] at h
    | some loop => exact .inl ⟨loop.1, loop.2, rfl, by simpa [hloop] using h⟩
  · simp at h
  · exact .inr ⟨hblock, h⟩
  · simp at h

theorem uncommented_of_mem_parts {f g : Fragment} (h : g ∈ parts f) :
    Uncommented .code g.text := by
  rcases mem_parts h with ⟨header, body, hloop, hg⟩ | ⟨-, hg⟩
  · exact uncommented_of_loopParts? hloop hg
  · exact Fragment.uncommented_of_mem_splitBody hg

/-- **The parts of a statement are shorter than it is, unless it is a block that does not
close.** -/
theorem length_text_lt_of_mem_parts {f g : Fragment} (hf : ¬ f.IsOpenBlock) (h : g ∈ parts f) :
    g.text.length < f.text.length := by
  rcases mem_parts h with ⟨header, body, hloop, hg⟩ | ⟨hblock, hg⟩
  · exact length_text_lt_of_loopParts? hloop hg
  · simp only [isBlock, Bool.and_eq_true, decide_eq_true_eq] at hblock
    have htrim : trimStart f.text = f.text :=
      trimStart_eq_self (by rw [hblock.1]; simp [isSpace])
    refine Fragment.length_text_lt_of_mem_splitBody ?_ hg
    rw [htrim, Option.isSome_iff_ne_none]
    exact fun hclose => hf ⟨hblock.1, hblock.2, hclose⟩

/-! ## Blocks that do not close -/

/-- A block is read as the block of its parts. -/
theorem shape_of_isBlock {f : Fragment} (h : isBlock f.text = true) :
    parts f = Fragment.splitBody f.text f.line ∧ shape f = .block := by
  simp only [isBlock, Bool.and_eq_true, decide_eq_true_eq] at h
  obtain ⟨rest, htext⟩ := List.head?_eq_some_iff.1 h.1
  have hprint : printCall? f.text = none := by simp [htext, printCall?, afterLead?]
  have hkeyword : f.keyword = [] := by
    have hbrace : isIdentPart '{' = false := by decide
    simp [Fragment.keyword, htext, hbrace]
  have hblock : isBlock f.text = true := by simp [isBlock, h]
  refine ⟨?_, ?_⟩
  · simp [parts, hprint, hkeyword, hblock, unsupportedWords]
  · funext bodies
    simp [shape, hprint, hkeyword, hblock, unsupportedWords]

theorem isBlock_of_isOpenBlock {f : Fragment} (h : f.IsOpenBlock) : isBlock f.text = true := by
  simp [isBlock, h.1, h.2.1]

/-- **The only part of a block that does not close is the block.** -/
theorem parts_of_isOpenBlock {f : Fragment} (h : f.IsOpenBlock)
    (hno : Uncommented .code f.text) : parts f = [f] := by
  rw [(shape_of_isBlock (isBlock_of_isOpenBlock h)).1, Fragment.splitBody_of_isOpenBlock h hno]

/-! ## Where parts stand -/

section Places

open Fragment

/-- The parts of a statement are the statements of a part of its text. -/
theorem exists_parts_eq {f : Fragment} (hno : Uncommented .code f.text) :
    parts f = [] ∨ ∃ a inner b, f.text = a ++ (inner ++ b) ∧ Uncommented .code inner ∧
      parts f = split inner (f.line + newlines a) := by
  unfold parts
  dsimp only
  split_ifs
  · exact .inl rfl
  · cases hloop : loopParts? f with
    | none => exact .inl rfl
    | some loop =>
      obtain ⟨before, rest, htext, hbody, hrest⟩ := loopParts?_eq_some hloop
      obtain ⟨a, inner, b, rfl, hinner, hsplit⟩ :=
        exists_splitBody_eq (hrest hno) (f.line + newlines before + newlines loop.1)
      refine .inr ⟨before ++ ('(' :: loop.1 ++ ')' :: a), inner, b, by simp [htext], hinner, ?_⟩
      have hbreaks : newlines (before ++ ('(' :: loop.1 ++ ')' :: a)) =
          newlines before + newlines loop.1 + newlines a := by
        simp [newlines, Nat.add_assoc]
      rw [Option.map_some, Option.getD_some, hbody, hsplit, hbreaks]
      simp only [Nat.add_assoc]
  · exact .inl rfl
  · exact .inr (exists_splitBody_eq hno f.line)
  · exact .inl rfl

/-- **The parts of a statement stand one behind another in the text that the statement is cut
from.** -/
theorem laid_parts {f : Fragment} {own : List (Char × CharClass)} (hcut : f.IsCutFrom own)
    (hno : Uncommented .code f.text) : Laid f.line own (parts f) := by
  obtain hnone | ⟨a, inner, b, htext, hinner, hparts⟩ := exists_parts_eq hno
  · rw [hnone]
    exact .nil _ _
  · obtain ⟨front, rest, rfl, hfront, hrest⟩ := exists_of_keptOf_eq_append (hcut.text_eq ▸ htext)
    obtain ⟨piece, back, rfl, hpiece, -⟩ := exists_of_keptOf_eq_append hrest
    rw [hparts, ← hfront, newlines_keptOf]
    refine .append_left (.append_right ((laid_split inner _).of_keptOf hinner ?_) back)
    rw [hpiece, map_fst_classify]

end Places

/-! ## What becomes of the parts -/

/-- What a statement does with the meanings of its parts. -/
inductive Frame : (List Statement → Statement) → Prop
  /-- There are no parts. -/
  | print (value : Option Operand) : Frame fun _ => .print value
  | action (a : Action) : Frame fun _ => .action a
  | mutate (target : String) (source : List Char) (m : Mutation) :
      Frame fun _ => .mutate target source m
  | skip : Frame fun _ => .skip
  | block : Frame .block
  | counted (line : Nat) (init : Option Action) (condition : Option Operand)
      (updates : List Action) : Frame (.counted line init condition updates)
  | forEach (line : Nat) (name : String) (items : Operand) : Frame (.forEach line name items)
  | whileLoop (line : Nat) (header : List Char) : Frame (Statement.whileLoop line header)

theorem frame_readSimple (text : List Char) : Frame fun _ => readSimple text := by
  unfold readSimple
  split
  · exact .action _
  · split
    · exact .mutate _ _ _
    · exact .skip

theorem frame_forLoop (line : Nat) (header : List Char) : Frame (forLoop line header) := by
  unfold forLoop
  split
  · exact .counted _ _ _ _
  · split
    · exact .forEach _ _ _
    · exact .skip

theorem frame_shape (f : Fragment) : Frame (shape f) := by
  unfold shape
  split
  · next formats argument _ =>
    cases formats with
    | true => exact .skip
    | false => exact .print _
  · dsimp only
    split_ifs
    · split
      · exact frame_forLoop _ _
      · exact .skip
    · split
      · exact .whileLoop _ _
      · exact .skip
    · exact .skip
    · exact .block
    · exact frame_readSimple _

end Statement

end SnippetRunner
