import SnippetRunner.Proofs.Ending

/-!
# Runs under smaller and larger limits

A run under smaller limits is the front part of the run under larger ones. The two go in step
(`InStep`) until one stops, and from there the other can only print more.

* Whatever is run, nothing printed is taken back (`Grows`), and the output keeps its limit.
* `CutShort r₁ r₂`: where `r₁` goes on, `r₂` goes on in step with it, and where `r₁` stops, `r₂` has
  printed what `r₁` has, and perhaps more.
* Every statement cuts itself short (`cutShort_exec`), and so does a whole program
  (`Program.printed_isPrefix_of_limits_le`).
-/

namespace SnippetRunner

open Text

/-! ## The output -/

namespace Console

theorem utf8ByteSize_ofList (cs : List Char) : (String.ofList cs).utf8ByteSize = byteSize cs := by
  induction cs with
  | nil => rfl
  | cons c cs ih =>
    have hcons : String.ofList (c :: cs) = String.ofList [c] ++ String.ofList cs := by
      rw [← String.ofList_append]
      rfl
    have hone : (String.ofList [c]).utf8ByteSize = c.utf8Size := by
      rw [← String.singleton_eq_ofList, String.utf8ByteSize_singleton]
    rw [hcons, String.utf8ByteSize_append, hone, ih, byteSize_cons]

/-- More room fits more. -/
theorem fitting_isPrefix_of_le {room room' : Nat} (h : room ≤ room') (cs : List Char) :
    fitting room cs <+: fitting room' cs := by
  induction cs generalizing room room' with
  | nil => exact List.prefix_rfl
  | cons c cs ih =>
    simp only [fitting]
    by_cases hfits : c.utf8Size ≤ room
    · rw [if_pos hfits, if_pos (Nat.le_trans hfits h)]
      exact (List.prefix_cons_inj c).2 (ih (by omega))
    · rw [if_neg hfits]
      exact List.nil_prefix

/-- Whether the output keeps its limit. -/
def Fits (console : Console) : Prop := console.text.utf8ByteSize ≤ console.limit

variable {console console' : Console} {line : String}

theorem print_of_le (h : console.text.utf8ByteSize + line.utf8ByteSize + 1 ≤ console.limit) :
    console.print line = ({ console with text := (console.text ++ line).push '\n' }, none) := by
  simp only [print, if_neg (Nat.not_lt.2 h)]

theorem print_of_gt (h : console.limit < console.text.utf8ByteSize + line.utf8ByteSize + 1) :
    console.print line =
      ({ console with
          text := console.text ++
            String.ofList (fitting (console.limit - console.text.utf8ByteSize) line.toList) },
        some (.outputLimit console.limit)) := by
  simp only [print, if_pos h]

theorem limit_print (console : Console) (line : String) :
    (console.print line).1.limit = console.limit := by
  unfold print
  dsimp only
  split <;> rfl

/-- Printing takes nothing back. -/
theorem isPrefix_print (console : Console) (line : String) :
    console.text.toList <+: (console.print line).1.text.toList := by
  unfold print
  dsimp only
  split <;> simp

/-- **The output never exceeds its limit.** -/
theorem Fits.print (h : console.Fits) (line : String) : (console.print line).1.Fits := by
  rw [Fits, limit_print]
  rw [Fits] at h
  rcases Nat.lt_or_ge console.limit (console.text.utf8ByteSize + line.utf8ByteSize + 1) with
    hlong | hshort
  · have hle := byteSize_fitting_le (console.limit - console.text.utf8ByteSize) line.toList
    rw [print_of_gt hlong, String.utf8ByteSize_append, utf8ByteSize_ofList]
    omega
  · rw [print_of_le hshort, String.utf8ByteSize_push, String.utf8ByteSize_append,
      show Char.utf8Size '\n' = 1 from rfl]
    omega

/-- What is kept of a line that does not fit is kept as well where there is more room. -/
theorem print_isPrefix_print (htext : console.text = console'.text)
    (hlimit : console.limit ≤ console'.limit)
    (hlong : console.limit < console.text.utf8ByteSize + line.utf8ByteSize + 1) :
    (console.print line).1.text.toList <+: (console'.print line).1.text.toList := by
  rw [print_of_gt hlong, htext]
  dsimp only
  rw [String.toList_append, String.toList_ofList]
  rcases Nat.lt_or_ge console'.limit (console'.text.utf8ByteSize + line.utf8ByteSize + 1) with
    hlong' | hshort'
  · rw [print_of_gt hlong']
    dsimp only
    rw [String.toList_append, String.toList_ofList, List.prefix_append_right_inj]
    exact fitting_isPrefix_of_le (by omega) line.toList
  · rw [print_of_le hshort']
    dsimp only
    rw [String.toList_push, String.toList_append, List.append_assoc,
      List.prefix_append_right_inj]
    exact (fitting_isPrefix _ line.toList).trans (List.prefix_append _ _)

end Console

namespace Run

variable {α β : Type} {m m₁ m₂ : Machine}

/-! ## Nothing is taken back -/

/-- The second machine has printed what the first one has, and perhaps more, under the same
limits. -/
structure Continues (m m' : Machine) : Prop where
  isPrefix : m.console.text.toList <+: m'.console.text.toList
  limits_eq : m'.limits = m.limits
  limit_eq : m'.console.limit = m.console.limit
  fits : m.console.Fits → m'.console.Fits

theorem Continues.refl (m : Machine) : Continues m m := ⟨List.prefix_rfl, rfl, rfl, id⟩

theorem Continues.trans (h : Continues m m₁) (h' : Continues m₁ m₂) : Continues m m₂ :=
  ⟨h.isPrefix.trans h'.isPrefix, h'.limits_eq.trans h.limits_eq, h'.limit_eq.trans h.limit_eq,
    fun hm => h'.fits (h.fits hm)⟩

/-- The machine that a step leaves behind. -/
def after (result : EStateM.Result Stop Machine α) : Machine :=
  match result with
  | .ok _ m | .error _ m => m

/-- Whether a run takes nothing back that was printed. -/
def Grows (r : Run α) : Prop := ∀ m, Continues m (after (r m))

theorem grows_pure (a : α) : Grows (pure a : Run α) := fun m => .refl m

theorem grows_throw (stop : Stop) : Grows (throw stop : Run α) := fun m => .refl m

theorem grows_get : Grows (get : Run Machine) := fun m => .refl m

theorem grows_modifyEnv (f : Environment → Environment) : Grows (modifyEnv f) := fun _ =>
  ⟨List.prefix_rfl, rfl, rfl, id⟩

theorem Grows.bind {r : Run α} {k : α → Run β} (hr : Grows r) (hk : ∀ a, Grows (k a)) :
    Grows (r >>= k) := by
  intro m
  have hm := hr m
  rw [bind_apply]
  cases h : r m with
  | ok a m₁ =>
    rw [h] at hm
    exact hm.trans (hk a m₁)
  | error stop m₁ =>
    rw [h] at hm
    exact hm

theorem grows_checkDeadline : Grows checkDeadline := by
  refine grows_get.bind fun m => ?_
  split
  · exact grows_throw _
  · exact grows_pure _

theorem grows_printLine (line : String) : Grows (printLine line) := by
  intro m
  have hshorter := m.console.isPrefix_print line
  have hlimit := m.console.limit_print line
  have hfits (h : m.console.Fits) := h.print line
  simp only [printLine, bind_apply, modifyGet, MonadStateOf.modifyGet, EStateM.modifyGet]
  cases (m.console.print line).2 with
  | none => exact ⟨hshorter, rfl, hlimit, hfits⟩
  | some stop => exact ⟨hshorter, rfl, hlimit, hfits⟩

theorem Grows.repeatWhile {r : Run Unit} (h : Grows r) (condition : Option Operand)
    (tooMany : Stop) (rounds : Nat) : Grows (repeatWhile condition r tooMany rounds) := by
  induction rounds with
  | zero =>
    refine grows_get.bind fun m => ?_
    split
    · exact grows_throw _
    · exact grows_pure _
  | succ rounds ih =>
    refine grows_get.bind fun m => ?_
    split
    · exact h.bind fun _ => ih
    · exact grows_pure _

theorem Grows.forItems {r : Run Unit} (h : Grows r) (name : String) (tooMany : Stop)
    (rounds : Nat) (items : List Value) : Grows (forItems name r tooMany rounds items) := by
  induction rounds generalizing items with
  | zero =>
    cases items with
    | nil => exact grows_pure _
    | cons item items => exact grows_throw _
  | succ rounds ih =>
    cases items with
    | nil => exact grows_pure _
    | cons item items => exact (grows_modifyEnv _).bind fun _ => h.bind fun _ => ih items

/-- What a counted loop does behind its first clause. -/
def countedRounds (line : Nat) (init : Option Action) (condition : Option Operand)
    (updates : List Action) (body : List Statement) : Run Unit := do
  let limit := (← get).limits.iterations
  repeatWhile condition (do execAll body; modifyEnv (updates.foldl act ·))
    (.loopLimit limit line) limit
  if let some name := init.bind Action.declares? then modifyEnv (·.remove name)

theorem exec_counted (line : Nat) (init : Option Action) (condition : Option Operand)
    (updates : List Action) (body : List Statement) :
    exec (.counted line init condition updates body) = (do
      checkDeadline
      match init with
      | none => countedRounds line init condition updates body
      | some a => do
        modifyEnv (act · a)
        countedRounds line init condition updates body) := by
  cases init <;> rw [exec] <;> rfl

theorem grows_unbind (name? : Option String) :
    Grows (if let some name := name? then modifyEnv (·.remove name) else pure ()) := by
  split
  · exact grows_modifyEnv _
  · exact grows_pure _

theorem grows_countedRounds {body : List Statement} (h : Grows (execAll body)) (line : Nat)
    (init : Option Action) (condition : Option Operand) (updates : List Action) :
    Grows (countedRounds line init condition updates body) := by
  have hround := h.bind fun _ => grows_modifyEnv (updates.foldl act ·)
  exact grows_get.bind fun m => (hround.repeatWhile condition _ _).bind fun _ => grows_unbind _

mutual

/-- **No statement takes back what was printed.** -/
theorem grows_exec : (s : Statement) → Grows (exec s)
  | .print none => by
    rw [exec]
    exact grows_checkDeadline.bind fun _ => grows_printLine _
  | .print (some operand) => by
    rw [exec]
    exact grows_checkDeadline.bind fun _ => grows_get.bind fun m => grows_printLine _
  | .action a => by
    rw [exec]
    exact grows_checkDeadline.bind fun _ => grows_modifyEnv _
  | .mutate target source m => by
    rw [exec]
    exact grows_checkDeadline.bind fun _ => grows_modifyEnv _
  | .block body => by
    rw [exec]
    exact grows_checkDeadline.bind fun _ => grows_execAll body
  | .counted line init condition updates body => by
    have hrounds := grows_countedRounds (grows_execAll body) line init condition updates
    rw [exec_counted]
    refine grows_checkDeadline.bind fun _ => ?_
    cases init with
    | none => exact hrounds
    | some a => exact (grows_modifyEnv _).bind fun _ => hrounds
  | .forEach line name items body => by
    rw [exec]
    refine grows_checkDeadline.bind fun _ => grows_get.bind fun m => ?_
    split
    · exact ((grows_execAll body).forItems name _ _ _).bind fun _ => grows_modifyEnv _
    · exact grows_pure _
  | .while_ line condition body => by
    rw [exec]
    exact grows_checkDeadline.bind fun _ => grows_get.bind fun m =>
      (grows_execAll body).repeatWhile condition _ _
  | .skip => by
    rw [exec]
    exact grows_checkDeadline
  | .endless => by
    rw [exec]
    exact grows_throw _

theorem grows_execAll : (ss : List Statement) → Grows (execAll ss)
  | [] => by
    rw [execAll]
    exact grows_pure _
  | s :: ss => by
    rw [execAll]
    exact (grows_exec s).bind fun _ => grows_execAll ss

end

/-! ## Two runs in step -/

/-- Two machines with the same variables and the same output, the first one under smaller
limits. Its output keeps its limit, and the second one has time. -/
structure InStep (m₁ m₂ : Machine) : Prop where
  env_eq : m₁.env = m₂.env
  text_eq : m₁.console.text = m₂.console.text
  iterations_le : m₁.limits.iterations ≤ m₂.limits.iterations
  limit_le : m₁.console.limit ≤ m₂.console.limit
  timeout_ne_zero : m₂.limits.timeout ≠ 0

/-- `CutShort r₁ r₂`: from machines in step, `r₂` goes on where `r₁` does, to machines in step; and
where `r₁` stops, `r₂` has printed what `r₁` has, or comes to print it. -/
def CutShort (r₁ r₂ : Run α) : Prop :=
  ∀ m₁ m₂, InStep m₁ m₂ →
    match r₁ m₁ with
    | .ok a m₁' => ∃ m₂', r₂ m₂ = .ok a m₂' ∧ InStep m₁' m₂'
    | .error _ m₁' => m₁'.console.text.toList <+: (after (r₂ m₂)).console.text.toList

theorem cutShort_pure (a : α) : CutShort (pure a : Run α) (pure a) := fun _ m₂ h =>
  ⟨m₂, rfl, h⟩

theorem cutShort_modifyEnv (f : Environment → Environment) :
    CutShort (modifyEnv f) (modifyEnv f) := fun _ m₂ h =>
  ⟨{ m₂ with env := f m₂.env }, rfl, { h with env_eq := congrArg f h.env_eq }⟩

/-- A run that stops at once cuts every run short. -/
theorem cutShort_throw (stop : Stop) {r : Run α} (hr : Grows r) :
    CutShort (throw stop) r := by
  intro m₁ m₂ h
  have hshorter := (hr m₂).isPrefix
  rw [← h.text_eq] at hshorter
  exact hshorter

theorem CutShort.bind {r₁ r₂ : Run α} {k₁ k₂ : α → Run β} (hr : CutShort r₁ r₂)
    (hk : ∀ a, CutShort (k₁ a) (k₂ a)) (hgrows : ∀ a, Grows (k₂ a)) :
    CutShort (r₁ >>= k₁) (r₂ >>= k₂) := by
  intro m₁ m₂ h
  have hfirst := hr m₁ m₂ h
  rw [bind_apply, bind_apply]
  cases hr₁ : r₁ m₁ with
  | ok a m₁' =>
    rw [hr₁] at hfirst
    obtain ⟨m₂', hr₂, h'⟩ := hfirst
    rw [hr₂]
    exact hk a m₁' m₂' h'
  | error stop m₁' =>
    rw [hr₁] at hfirst
    -- the second run may go on, and then prints more
    cases hr₂ : r₂ m₂ with
    | ok a m₂' =>
      rw [hr₂] at hfirst
      exact hfirst.trans (hgrows a m₂').isPrefix
    | error stop' m₂' =>
      rw [hr₂] at hfirst
      exact hfirst

/-- What two runs do may depend on machines that are in step. -/
theorem cutShort_get_bind {k₁ k₂ : Machine → Run α}
    (h : ∀ m₁ m₂, InStep m₁ m₂ → CutShort (k₁ m₁) (k₂ m₂)) :
    CutShort (get >>= k₁) (get >>= k₂) := fun m₁ m₂ hm => h m₁ m₂ hm m₁ m₂ hm

theorem cutShort_checkDeadline : CutShort checkDeadline checkDeadline := by
  intro m₁ m₂ h
  rw [checkDeadline_of_timeout_ne_zero h.timeout_ne_zero]
  by_cases htime : m₁.limits.timeout = 0
  · rw [checkDeadline_of_timeout_eq_zero htime]
    exact h.text_eq ▸ List.prefix_rfl
  · rw [checkDeadline_of_timeout_ne_zero htime]
    exact ⟨m₂, rfl, h⟩

theorem cutShort_printLine (line : String) : CutShort (printLine line) (printLine line) := by
  intro m₁ m₂ h
  simp only [printLine, bind_apply, modifyGet, MonadStateOf.modifyGet, EStateM.modifyGet]
  rcases Nat.lt_or_ge m₁.console.limit
      (m₁.console.text.utf8ByteSize + line.utf8ByteSize + 1) with hlong | hshort
  · have hshorter := Console.print_isPrefix_print h.text_eq h.limit_le hlong
    have hstop : (m₁.console.print line).2 = some (.outputLimit m₁.console.limit) := by
      rw [Console.print_of_gt hlong]
    rw [hstop]
    cases (m₂.console.print line).2 with
    | none => exact hshorter
    | some stop => exact hshorter
  · have hshort' : m₂.console.text.utf8ByteSize + line.utf8ByteSize + 1 ≤ m₂.console.limit := by
      rw [← h.text_eq]
      exact Nat.le_trans hshort h.limit_le
    rw [Console.print_of_le hshort, Console.print_of_le hshort']
    exact ⟨_, rfl, { h with text_eq := by rw [h.text_eq] }⟩

/-! ## Loops in step -/

theorem CutShort.repeatWhile {r₁ r₂ : Run Unit} (h : CutShort r₁ r₂) (hgrows : Grows r₂)
    (condition : Option Operand) (tooMany₁ tooMany₂ : Stop) {rounds₁ rounds₂ : Nat}
    (hrounds : rounds₁ ≤ rounds₂) :
    CutShort (Run.repeatWhile condition r₁ tooMany₁ rounds₁)
      (Run.repeatWhile condition r₂ tooMany₂ rounds₂) := by
  induction rounds₁ generalizing rounds₂ with
  | zero =>
    -- the first loop stops, or both are done
    intro m₁ m₂ hm
    have hsame : holds condition m₁.env = holds condition m₂.env := by rw [hm.env_eq]
    have hshorter := (hgrows.repeatWhile condition tooMany₂ rounds₂ m₂).isPrefix
    by_cases hholds : holds condition m₁.env = true
    · have hstop : Run.repeatWhile condition r₁ tooMany₁ 0 m₁ = .error tooMany₁ m₁ := by
        rw [Run.repeatWhile, get_bind_apply, if_pos hholds]
        rfl
      rw [← hm.text_eq] at hshorter
      rw [hstop]
      exact hshorter
    · have hdone₁ : Run.repeatWhile condition r₁ tooMany₁ 0 m₁ = .ok () m₁ := by
        rw [Run.repeatWhile, get_bind_apply, if_neg hholds]
        rfl
      have hdone₂ : Run.repeatWhile condition r₂ tooMany₂ rounds₂ m₂ = .ok () m₂ := by
        rw [hsame] at hholds
        cases rounds₂ with
        | zero => rw [Run.repeatWhile, get_bind_apply, if_neg hholds]; rfl
        | succ rounds₂ => rw [Run.repeatWhile, get_bind_apply, if_neg hholds]; rfl
      rw [hdone₁]
      exact ⟨m₂, hdone₂, hm⟩
  | succ rounds₁ ih =>
    obtain ⟨rounds₂, rfl⟩ : ∃ n, rounds₂ = n + 1 := ⟨rounds₂ - 1, by omega⟩
    refine cutShort_get_bind fun m₁ m₂ hm => ?_
    rw [hm.env_eq]
    split
    · exact h.bind (fun _ => ih (by omega)) fun _ => hgrows.repeatWhile condition tooMany₂ rounds₂
    · exact cutShort_pure _

theorem CutShort.forItems {r₁ r₂ : Run Unit} (h : CutShort r₁ r₂) (hgrows : Grows r₂)
    (name : String) (tooMany₁ tooMany₂ : Stop) {rounds₁ rounds₂ : Nat}
    (hrounds : rounds₁ ≤ rounds₂) (items : List Value) :
    CutShort (Run.forItems name r₁ tooMany₁ rounds₁ items)
      (Run.forItems name r₂ tooMany₂ rounds₂ items) := by
  induction rounds₁ generalizing rounds₂ items with
  | zero =>
    cases items with
    | nil => cases rounds₂ <;> exact cutShort_pure _
    | cons item items => exact cutShort_throw _ (hgrows.forItems name tooMany₂ rounds₂ _)
  | succ rounds₁ ih =>
    obtain ⟨rounds₂, rfl⟩ : ∃ n, rounds₂ = n + 1 := ⟨rounds₂ - 1, by omega⟩
    cases items with
    | nil => exact cutShort_pure _
    | cons item items =>
      have hrest := hgrows.forItems name tooMany₂ rounds₂ items
      exact (cutShort_modifyEnv _).bind
        (fun _ => h.bind (fun _ => ih (by omega) items) fun _ => hrest)
        fun _ => hgrows.bind fun _ => hrest

/-! ## Statements in step -/

theorem cutShort_countedRounds {body : List Statement}
    (h : CutShort (execAll body) (execAll body)) (line : Nat) (init : Option Action)
    (condition : Option Operand) (updates : List Action) :
    CutShort (countedRounds line init condition updates body)
      (countedRounds line init condition updates body) := by
  have hgrows := (grows_execAll body).bind fun _ => grows_modifyEnv (updates.foldl act ·)
  have hround := h.bind (fun _ => cutShort_modifyEnv (updates.foldl act ·))
    fun _ => grows_modifyEnv _
  refine cutShort_get_bind fun m₁ m₂ hm => ?_
  refine (hround.repeatWhile hgrows condition _ _ hm.iterations_le).bind (fun _ => ?_)
    fun _ => grows_unbind _
  split
  · exact cutShort_modifyEnv _
  · exact cutShort_pure _

mutual

/-- **Smaller limits only cut a statement short.** -/
theorem cutShort_exec : (s : Statement) → CutShort (exec s) (exec s)
  | .print none => by
    rw [exec]
    exact cutShort_checkDeadline.bind (fun _ => cutShort_printLine _) fun _ => grows_printLine _
  | .print (some operand) => by
    rw [exec]
    refine cutShort_checkDeadline.bind (fun _ => cutShort_get_bind fun m₁ m₂ hm => ?_)
      fun _ => grows_get.bind fun m => grows_printLine _
    rw [hm.env_eq]
    exact cutShort_printLine _
  | .action a => by
    rw [exec]
    exact cutShort_checkDeadline.bind (fun _ => cutShort_modifyEnv _) fun _ => grows_modifyEnv _
  | .mutate target source m => by
    rw [exec]
    exact cutShort_checkDeadline.bind (fun _ => cutShort_modifyEnv _) fun _ => grows_modifyEnv _
  | .block body => by
    rw [exec]
    exact cutShort_checkDeadline.bind (fun _ => cutShort_execAll body) fun _ => grows_execAll body
  | .counted line init condition updates body => by
    have hgrows := grows_countedRounds (grows_execAll body) line init condition updates
    have hrounds := cutShort_countedRounds (cutShort_execAll body) line init condition updates
    rw [exec_counted]
    cases init with
    | none => exact cutShort_checkDeadline.bind (fun _ => hrounds) fun _ => hgrows
    | some a =>
      exact cutShort_checkDeadline.bind
        (fun _ => (cutShort_modifyEnv _).bind (fun _ => hrounds) fun _ => hgrows)
        fun _ => (grows_modifyEnv _).bind fun _ => hgrows
  | .forEach line name items body => by
    have hgrows (m : Machine) : Grows (match items.value m.env with
        | .list values => do
          forItems name (execAll body) (.loopLimit m.limits.iterations line) m.limits.iterations
            values.toList
          modifyEnv (·.remove name)
        | _ => pure ()) := by
      split
      · exact ((grows_execAll body).forItems name _ _ _).bind fun _ => grows_modifyEnv _
      · exact grows_pure _
    rw [exec]
    refine cutShort_checkDeadline.bind (fun _ => cutShort_get_bind fun m₁ m₂ hm => ?_)
      fun _ => grows_get.bind hgrows
    rw [hm.env_eq]
    split
    · exact ((cutShort_execAll body).forItems (grows_execAll body) name _ _ hm.iterations_le _).bind
        (fun _ => cutShort_modifyEnv _) fun _ => grows_modifyEnv _
    · exact cutShort_pure _
  | .while_ line condition body => by
    rw [exec]
    refine cutShort_checkDeadline.bind (fun _ => cutShort_get_bind fun m₁ m₂ hm => ?_)
      fun _ => grows_get.bind fun m => (grows_execAll body).repeatWhile condition _ _
    exact (cutShort_execAll body).repeatWhile (grows_execAll body) condition _ _ hm.iterations_le
  | .skip => by
    rw [exec]
    exact cutShort_checkDeadline
  | .endless => by
    rw [exec]
    exact cutShort_throw _ (grows_throw _)

theorem cutShort_execAll : (ss : List Statement) → CutShort (execAll ss) (execAll ss)
  | [] => by
    rw [execAll]
    exact cutShort_pure _
  | s :: ss => by
    rw [execAll]
    exact (cutShort_exec s).bind (fun _ => cutShort_execAll ss) fun _ => grows_execAll ss

end

end Run

/-! ## Programs -/

namespace Program

open Run

/-- What a run of the program prints. -/
def printed (p : Program) (limits : Limits) : List Char :=
  (machineAfter (p.execute limits)).console.text.toList

theorem machineAfter_eq_after (result : EStateM.Result Stop Machine Unit) :
    machineAfter result = after result := by
  cases result <;> rfl

/-- The output of a program keeps its limit. -/
theorem byteSize_printed_le (p : Program) (limits : Limits) :
    byteSize (p.printed limits) ≤ limits.outputBytes := by
  have hgrows := grows_execAll p.statements (.start limits)
  have hfits := hgrows.fits (Nat.zero_le _)
  rw [Console.Fits, hgrows.limit_eq] at hfits
  rw [printed, machineAfter_eq_after, ← Console.utf8ByteSize_ofList, String.ofList_toList]
  exact hfits

/-- Two runs of a program from the start are in step. -/
theorem inStep_start {small large : Limits} (hiterations : small.iterations ≤ large.iterations)
    (hbytes : small.outputBytes ≤ large.outputBytes) (htime : large.timeout ≠ 0) :
    InStep (.start small) (.start large) :=
  ⟨rfl, rfl, hiterations, hbytes, htime⟩

/-- A run is reported as a success iff nothing stopped it. -/
theorem success_interpret_iff (p : Program) (limits : Limits) :
    (p.interpret limits).success = true ↔ ∃ m, p.execute limits = .ok () m := by
  rw [interpret]
  cases p.execute limits with
  | ok u m => exact iff_of_true rfl ⟨m, rfl⟩
  | error stop m =>
    refine iff_of_false (fun h => ?_) (fun ⟨_, h⟩ => nomatch h)
    simp [outcomeOf, Outcome.failed, Outcome.withOutput] at h

/-- **Smaller limits only cut a run short.** Whatever the source is, and whether its runs end or
not: with no deadline hit, the output under smaller limits is the front of the output under larger
ones up to a place between two characters, and it keeps its limit. If the run under the smaller
limits succeeds, so does the other, with the same output and the same variables. -/
theorem printed_isPrefix_of_limits_le {small large : Limits}
    (hiterations : small.iterations ≤ large.iterations)
    (hbytes : small.outputBytes ≤ large.outputBytes) (htime : large.timeout ≠ 0)
    (source : List Char) :
    (ofSnippet source).printed small <+: (ofSnippet source).printed large ∧
      (∃ rest, cut? (byteSize ((ofSnippet source).printed small))
        ((ofSnippet source).printed large) = some ((ofSnippet source).printed small, rest)) ∧
      byteSize ((ofSnippet source).printed small) ≤ small.outputBytes ∧
      (((ofSnippet source).interpret small).success = true →
        ((ofSnippet source).interpret large).success = true ∧
        (ofSnippet source).printed large = (ofSnippet source).printed small ∧
        (machineAfter ((ofSnippet source).execute large)).env =
          (machineAfter ((ofSnippet source).execute small)).env) := by
  generalize ofSnippet source = p
  have hcut := cutShort_execAll p.statements _ _ (inStep_start hiterations hbytes htime)
  have hrun (limits : Limits) : execAll p.statements (.start limits) = p.execute limits := rfl
  rw [hrun, hrun] at hcut
  have hsame {m₁ : Machine} (hsmall : p.execute small = .ok () m₁) :
      ∃ m₂, p.execute large = .ok () m₂ ∧ InStep m₁ m₂ := by
    rw [hsmall] at hcut
    exact hcut
  have hshorter : p.printed small <+: p.printed large := by
    cases hsmall : p.execute small with
    | ok _ m₁ =>
      obtain ⟨m₂, hlarge, hstep⟩ := hsame hsmall
      rw [printed, printed, hsmall, hlarge]
      exact hstep.text_eq ▸ List.prefix_rfl
    | error stop m₁ =>
      rw [hsmall] at hcut
      rw [printed, printed, hsmall, machineAfter_eq_after (p.execute large)]
      exact hcut
  refine ⟨hshorter, ?_, p.byteSize_printed_le small, fun hsuccess => ?_⟩
  · obtain ⟨rest, hrest⟩ := hshorter
    exact ⟨rest, by rw [← hrest, cut?_byteSize_append]⟩
  · obtain ⟨m₁, hsmall⟩ := (p.success_interpret_iff small).1 hsuccess
    obtain ⟨m₂, hlarge, hstep⟩ := hsame hsmall
    refine ⟨(p.success_interpret_iff large).2 ⟨m₂, hlarge⟩, ?_, ?_⟩
    · rw [printed, printed, hsmall, hlarge]
      exact congrArg String.toList hstep.text_eq.symm
    · rw [hsmall, hlarge]
      exact hstep.env_eq.symm

/-- An endless loop under two limits: it stops in front of a character that does not fit, and later
behind one that leaves no room for its line break. -/
theorem printed_isPrefix_of_endless_loop :
    let p := ofSnippet "while (true) System.out.println(\"é\");".toList
    p.printed ⟨2, 4, 9⟩ = "é\n".toList ∧ p.printed ⟨3, 8, 9⟩ = "é\né\né".toList ∧
      p.printed ⟨2, 4, 9⟩ <+: p.printed ⟨3, 8, 9⟩ ∧ byteSize (p.printed ⟨2, 4, 9⟩) ≤ 4 := by
  have hlimits := @printed_isPrefix_of_limits_le ⟨2, 4, 9⟩ ⟨3, 8, 9⟩ (by decide) (by decide)
    (by decide) "while (true) System.out.println(\"é\");".toList
  exact ⟨by decide +kernel, by decide +kernel, hlimits.1, hlimits.2.2.1⟩

end Program

end SnippetRunner
