import Mathlib
import SnippetRunner.Proofs.Nesting
import SnippetRunner.Program.Interpret

/-!
# Runs that end

The interpreter reads the parts of a statement when it runs the statement, and their parts in turn.
Here that is a run for every depth of nesting (`Program.executeTo`), and a run that needs more depth
than it is given does not end (`Run.Ends`).

* A run that ends within some depth ends in the same way within every larger one (`Below`).
* Where a statement is no block that fails to close, its parts are shorter, so the length of its
  text is depth enough (`exec_readTo_eq`), and it runs as its parts say (`exec_read`).
* `ComesTo` is the run as a walk over the texts of statements. A run that a statement stops has come
  to it (`exists_comesTo_of_execAll_eq_error`): to a block that does not close, or to a loop that
  is not done in time (`Exceeds`). So a run ends exactly if it comes to no block that does not close
  (`Program.ends_execute_iff`).
-/

namespace SnippetRunner

open Text Scan Statement

/-- Whether a stop belongs to a loop or a block, and neither to the time nor to the output. -/
def Stop.IsStructural : Stop → Prop
  | .loopLimit _ _ | .endlessBlock => True
  | .deadline _ | .outputLimit _ => False

namespace Run

variable {α β : Type} {m m₁ m' : Machine}

/-- Whether a run ended: with success, or at one of its limits. -/
def Ends (result : EStateM.Result Stop Machine α) : Prop :=
  ∀ m, result ≠ .error .endlessBlock m

theorem bind_apply (r : Run α) (k : α → Run β) (m : Machine) :
    (r >>= k) m = match r m with
      | .ok a m₁ => k a m₁
      | .error stop m₁ => .error stop m₁ := by
  simp only [bind, EStateM.bind]
  cases r m <;> rfl

theorem checkDeadline_of_timeout_eq_zero (h : m.limits.timeout = 0) :
    checkDeadline m = .error (.deadline 0) m := by
  simp [checkDeadline, bind_apply, get, getThe, MonadStateOf.get, EStateM.get, h, throw,
    throwThe, MonadExceptOf.throw, EStateM.throw]

theorem checkDeadline_of_timeout_ne_zero (h : m.limits.timeout ≠ 0) :
    checkDeadline m = .ok () m := by
  simp [checkDeadline, bind_apply, get, getThe, MonadStateOf.get, EStateM.get, h, pure,
    EStateM.pure]

/-! ## Runs with less depth -/

/-- Whether a run does what another does, as far as it is not out of depth. -/
def Below (r r' : Run α) : Prop := ∀ m, (∃ m', r m = .error .endlessBlock m') ∨ r m = r' m

theorem Below.refl (r : Run α) : Below r r := fun _ => .inr rfl

theorem Below.bind {r r' : Run α} {k k' : α → Run β} (hr : Below r r')
    (hk : ∀ a, Below (k a) (k' a)) : Below (r >>= k) (r' >>= k') := by
  intro m
  rw [bind_apply, bind_apply]
  rcases hr m with ⟨m', hm⟩ | hm
  · rw [hm]
    exact .inl ⟨m', rfl⟩
  · rw [hm]
    cases r' m with
    | ok a m₁ => exact hk a m₁
    | error stop m₁ => exact .inr rfl

theorem Below.repeatWhile {r r' : Run Unit} (h : Below r r') (condition : Option Operand)
    (tooMany : Stop) (rounds : Nat) :
    Below (Run.repeatWhile condition r tooMany rounds)
      (Run.repeatWhile condition r' tooMany rounds) := by
  induction rounds with
  | zero => exact .refl _
  | succ rounds ih =>
    refine .bind (.refl _) fun m => ?_
    split
    · exact .bind h fun _ => ih
    · exact .refl _

theorem Below.forItems {r r' : Run Unit} (h : Below r r') (name : String) (tooMany : Stop)
    (rounds : Nat) (items : List Value) :
    Below (Run.forItems name r tooMany rounds items)
      (Run.forItems name r' tooMany rounds items) := by
  induction rounds generalizing items with
  | zero => cases items <;> exact .refl _
  | succ rounds ih =>
    cases items with
    | nil => exact .refl _
    | cons item items => exact .bind (.refl _) fun _ => .bind h fun _ => ih items

theorem below_execAll_map {a b : Fragment → Statement} {fs : List Fragment}
    (h : ∀ f, Below (exec (a f)) (exec (b f))) :
    Below (execAll (fs.map a)) (execAll (fs.map b)) := by
  induction fs with
  | nil => exact .refl _
  | cons f fs ih =>
    simp only [List.map_cons, execAll]
    exact .bind (h f) fun _ => ih

theorem below_exec_frame {k : List Statement → Statement} (hk : Frame k)
    {bodies bodies' : List Statement} (hempty : bodies.isEmpty = bodies'.isEmpty)
    (h : Below (execAll bodies) (execAll bodies')) :
    Below (exec (k bodies)) (exec (k bodies')) := by
  cases hk with
  | print | action | mutate | skip => exact .refl _
  | block =>
    simp only [exec]
    exact .bind (.refl _) fun _ => h
  | counted line init condition updates =>
    have hround := h.bind fun _ => Below.refl (modifyEnv (updates.foldl act ·))
    have hloop (tooMany : Stop) (rounds : Nat) := hround.repeatWhile condition tooMany rounds
    cases init with
    | none =>
      simp only [exec]
      refine .bind (.refl _) fun _ => .bind (.refl _) fun m => ?_
      exact .bind (hloop _ _) fun _ => .refl _
    | some a =>
      simp only [exec]
      refine .bind (.refl _) fun _ => .bind (.refl _) fun _ => .bind (.refl _) fun m => ?_
      exact .bind (hloop _ _) fun _ => .refl _
  | forEach line name items =>
    simp only [exec]
    refine .bind (.refl _) fun _ => .bind (.refl _) fun m => ?_
    split
    · exact .bind (h.forItems name _ _ _) fun _ => .refl _
    · exact .refl _
  | whileLoop line header =>
    unfold whileLoop
    rw [← hempty]
    split
    · exact .refl _
    · simp only [exec]
      exact .bind (.refl _) fun _ => .bind (.refl _) fun m => h.repeatWhile _ _ _

/-- **A run that is not out of depth is the same with more depth.** -/
theorem below_exec_readTo {depth depth' : Nat} (h : depth ≤ depth') (f : Fragment) :
    Below (exec (readTo depth f)) (exec (readTo depth' f)) := by
  induction depth generalizing depth' f with
  | zero =>
    intro m
    exact .inl ⟨m, by simp only [readTo, exec]; rfl⟩
  | succ depth ih =>
    obtain ⟨depth', rfl⟩ : ∃ n, depth' = n + 1 := ⟨depth' - 1, by omega⟩
    rw [readTo_succ, readTo_succ]
    refine below_exec_frame (frame_shape f) (by simp) ?_
    exact below_execAll_map fun g => ih (by omega) g

/-! ## Depth enough -/

theorem execAll_map_congr {a b : Fragment → Statement} {fs : List Fragment}
    (h : ∀ f ∈ fs, exec (a f) = exec (b f)) : execAll (fs.map a) = execAll (fs.map b) := by
  induction fs with
  | nil => rfl
  | cons f fs ih =>
    simp only [List.map_cons, execAll]
    rw [h f List.mem_cons_self, ih fun g hg => h g (List.mem_cons_of_mem f hg)]

theorem exec_frame_congr {k : List Statement → Statement} (hk : Frame k)
    {bodies bodies' : List Statement} (hempty : bodies.isEmpty = bodies'.isEmpty)
    (h : execAll bodies = execAll bodies') : exec (k bodies) = exec (k bodies') := by
  cases hk with
  | print | action | mutate | skip => rfl
  | block | counted | forEach => simp only [exec, h]
  | whileLoop line header =>
    unfold whileLoop
    rw [← hempty]
    split
    · rfl
    · simp only [exec, h]

theorem exec_shape_congr {a b : Fragment → Statement} {f : Fragment}
    (h : ∀ g ∈ parts f, exec (a g) = exec (b g)) :
    exec (shape f ((parts f).map a)) = exec (shape f ((parts f).map b)) :=
  exec_frame_congr (frame_shape f) (by simp) (execAll_map_congr h)

/-- A block that does not close is out of depth at every depth, if there is time to run it. -/
theorem exec_readTo_of_isOpenBlock {f : Fragment} (h : f.IsOpenBlock)
    (hno : Uncommented .code f.text) (depth : Nat) :
    exec (readTo (depth + 1) f) = (do checkDeadline; throw .endlessBlock) := by
  induction depth with
  | zero =>
    rw [readTo_succ, parts_of_isOpenBlock h hno, (shape_of_isBlock (isBlock_of_isOpenBlock h)).2]
    simp only [List.map_cons, List.map_nil, readTo, exec, execAll]
    rfl
  | succ depth ih =>
    rw [readTo_succ, parts_of_isOpenBlock h hno, (shape_of_isBlock (isBlock_of_isOpenBlock h)).2]
    simp only [List.map_cons, List.map_nil, exec, execAll, ih]
    funext m
    by_cases htime : m.limits.timeout = 0
    · simp only [bind_apply, checkDeadline_of_timeout_eq_zero htime]
    · simp only [bind_apply, checkDeadline_of_timeout_ne_zero htime]
      rfl

/-- **The length of its text is depth enough for a statement.** -/
theorem exec_readTo_eq {depth depth' : Nat} {f : Fragment} (hno : Uncommented .code f.text)
    (h : f.text.length < depth) (h' : f.text.length < depth') :
    exec (readTo depth f) = exec (readTo depth' f) := by
  induction depth generalizing depth' f with
  | zero => exact absurd h (Nat.not_lt_zero _)
  | succ depth ih =>
    obtain ⟨depth', rfl⟩ : ∃ n, depth' = n + 1 := ⟨depth' - 1, by omega⟩
    by_cases hopen : f.IsOpenBlock
    · rw [exec_readTo_of_isOpenBlock hopen hno, exec_readTo_of_isOpenBlock hopen hno]
    · rw [readTo_succ, readTo_succ]
      refine exec_shape_congr fun g hg => ?_
      have hlt := length_text_lt_of_mem_parts hopen hg
      exact ih (uncommented_of_mem_parts hg) (by omega) (by omega)

theorem exec_read_of_isOpenBlock {f : Fragment} (h : f.IsOpenBlock)
    (hno : Uncommented .code f.text) :
    exec (Statement.read f) = (do checkDeadline; throw .endlessBlock) :=
  exec_readTo_of_isOpenBlock h hno _

/-- **A statement runs as its parts say.** -/
theorem exec_read {f : Fragment} (hno : Uncommented .code f.text) :
    exec (Statement.read f) = exec (shape f ((parts f).map Statement.read)) := by
  rw [Statement.read, readTo_succ]
  refine exec_shape_congr fun g hg => ?_
  by_cases hopen : f.IsOpenBlock
  · obtain ⟨rest, htext⟩ := List.head?_eq_some_iff.1 hopen.1
    have hlen : f.text.length = rest.length + 1 := by rw [htext, List.length_cons]
    obtain rfl : g = f := by
      rw [parts_of_isOpenBlock hopen hno] at hg
      exact List.mem_singleton.1 hg
    rw [hlen, exec_readTo_of_isOpenBlock hopen hno, exec_read_of_isOpenBlock hopen hno]
  · have hlt := length_text_lt_of_mem_parts hopen hg
    exact exec_readTo_eq (uncommented_of_mem_parts hg) hlt (by omega)

/-! ## What a run comes to -/

/-- `Rounds condition round n m m'`: a loop with `n` rounds left, at `m`, comes to start a round
at `m'`. -/
inductive Rounds (condition : Option Operand) (round : Run Unit) : Nat → Machine → Machine → Prop
  | first {n : Nat} {m : Machine} : holds condition m.env = true →
      Rounds condition round (n + 1) m m
  | next {n : Nat} {m m₁ m' : Machine} : holds condition m.env = true → round m = .ok () m₁ →
      Rounds condition round n m₁ m' → Rounds condition round (n + 1) m m'

/-- `Items name body n items m m'`: a loop over items with `n` rounds left, at `m`, comes to run its
body at `m'`. -/
inductive Items (name : String) (body : Run Unit) :
    Nat → List Value → Machine → Machine → Prop
  | first {n : Nat} {item : Value} {items : List Value} {m : Machine} :
      Items name body (n + 1) (item :: items) m { m with env := m.env.set name item }
  | next {n : Nat} {item : Value} {items : List Value} {m m₁ m' : Machine} :
      body { m with env := m.env.set name item } = .ok () m₁ → Items name body n items m₁ m' →
        Items name body (n + 1) (item :: items) m m'

/-- The machine behind the first clause of a counted loop. -/
def initialized (init : Option Action) (m : Machine) : Machine :=
  match init with
  | some a => { m with env := act m.env a }
  | none => m

/-- `Enters s m m'`: running `s` from `m` comes to run the statements of its body at `m'`. -/
inductive Enters : Statement → Machine → Machine → Prop
  | block {body : List Statement} {m : Machine} : m.limits.timeout ≠ 0 → Enters (.block body) m m
  | counted {line : Nat} {init : Option Action} {condition : Option Operand}
      {updates : List Action} {body : List Statement} {m m' : Machine} :
      m.limits.timeout ≠ 0 →
        Rounds condition (do execAll body; modifyEnv (updates.foldl act ·)) m.limits.iterations
          (initialized init m) m' →
        Enters (.counted line init condition updates body) m m'
  | forEach {line : Nat} {name : String} {items : Operand} {body : List Statement}
      {values : Array Value} {m m' : Machine} :
      m.limits.timeout ≠ 0 → items.value m.env = .list values →
        Items name (execAll body) m.limits.iterations values.toList m m' →
        Enters (.forEach line name items body) m m'
  | while_ {line : Nat} {condition : Option Operand} {body : List Statement} {m m' : Machine} :
      m.limits.timeout ≠ 0 → Rounds condition (execAll body) m.limits.iterations m m' →
        Enters (.while_ line condition body) m m'

/-- `ComesTo fs m g m'`: a run of the statements `fs` from `m` comes to the statement `g` at `m'`,
while there is time to run it. -/
inductive ComesTo : List Fragment → Machine → Fragment → Machine → Prop
  | here {f : Fragment} {fs : List Fragment} {m : Machine} : m.limits.timeout ≠ 0 →
      ComesTo (f :: fs) m f m
  | later {f g : Fragment} {fs : List Fragment} {m m₁ m' : Machine} :
      exec (Statement.read f) m = .ok () m₁ → ComesTo fs m₁ g m' → ComesTo (f :: fs) m g m'
  | inside {f g : Fragment} {fs : List Fragment} {m m₁ m' : Machine} :
      Enters (shape f ((parts f).map Statement.read)) m m₁ → ComesTo (parts f) m₁ g m' →
        ComesTo (f :: fs) m g m'

/-! ## Where a run is stopped by a statement -/

/-- `Exhausts condition round n m m'`: a loop with `n` rounds left, at `m`, goes through them all,
and its condition still holds behind them, at `m'`. -/
inductive Exhausts (condition : Option Operand) (round : Run Unit) :
    Nat → Machine → Machine → Prop
  | last {m : Machine} : holds condition m.env = true → Exhausts condition round 0 m m
  | next {n : Nat} {m m₁ m' : Machine} : holds condition m.env = true → round m = .ok () m₁ →
      Exhausts condition round n m₁ m' → Exhausts condition round (n + 1) m m'

/-- `ExhaustsItems name body n items m m'`: a loop over items with `n` rounds left, at `m`, goes
through them all, and there are items left behind them, at `m'`. -/
inductive ExhaustsItems (name : String) (body : Run Unit) :
    Nat → List Value → Machine → Machine → Prop
  | last {item : Value} {items : List Value} {m : Machine} :
      ExhaustsItems name body 0 (item :: items) m m
  | next {n : Nat} {item : Value} {items : List Value} {m m₁ m' : Machine} :
      body { m with env := m.env.set name item } = .ok () m₁ →
        ExhaustsItems name body n items m₁ m' →
        ExhaustsItems name body (n + 1) (item :: items) m m'

/-- `Exceeds s stop m m'`: running the loop `s` from `m` takes it through all its rounds, and it
stops the run at `m'` because it is not done. -/
inductive Exceeds : Statement → Stop → Machine → Machine → Prop
  | counted {line : Nat} {init : Option Action} {condition : Option Operand}
      {updates : List Action} {body : List Statement} {m m' : Machine} :
      m.limits.timeout ≠ 0 →
        Exhausts condition (do execAll body; modifyEnv (updates.foldl act ·)) m.limits.iterations
          (initialized init m) m' →
        Exceeds (.counted line init condition updates body) (.loopLimit m.limits.iterations line)
          m m'
  | forEach {line : Nat} {name : String} {items : Operand} {body : List Statement}
      {values : Array Value} {m m' : Machine} :
      m.limits.timeout ≠ 0 → items.value m.env = .list values →
        ExhaustsItems name (execAll body) m.limits.iterations values.toList m m' →
        Exceeds (.forEach line name items body) (.loopLimit m.limits.iterations line) m m'
  | while_ {line : Nat} {condition : Option Operand} {body : List Statement} {m m' : Machine} :
      m.limits.timeout ≠ 0 → Exhausts condition (execAll body) m.limits.iterations m m' →
        Exceeds (.while_ line condition body) (.loopLimit m.limits.iterations line) m m'

theorem Exceeds.timeout_ne_zero {t : Statement} {stop : Stop} (h : Exceeds t stop m m') :
    m.limits.timeout ≠ 0 := by
  cases h <;> assumption

/-- Only loops go beyond their rounds. -/
theorem Exceeds.exists_line {t : Statement} {stop : Stop} (h : Exceeds t stop m m') :
    ∃ line, stop = .loopLimit m.limits.iterations line := by
  cases h <;> exact ⟨_, rfl⟩

theorem get_bind_apply (k : Machine → Run α) (m : Machine) : (get >>= k) m = k m m := rfl

theorem modifyEnv_apply (f : Environment → Environment) (m : Machine) :
    modifyEnv f m = .ok () { m with env := f m.env } := rfl

section Stopping

variable {s tooMany : Stop}

/-- The steps before a statement does its work are only a check of the time. -/
theorem checkDeadline_bind_eq_error_iff (hs : s.IsStructural) {r : Run Unit} :
    (checkDeadline >>= fun _ => r) m = .error s m' ↔
      m.limits.timeout ≠ 0 ∧ r m = .error s m' := by
  by_cases htime : m.limits.timeout = 0
  · have hne : Stop.deadline 0 ≠ s := by
      rintro rfl
      exact hs
    simp [bind_apply, checkDeadline_of_timeout_eq_zero htime, htime, hne]
  · simp [bind_apply, checkDeadline_of_timeout_ne_zero htime, htime]

theorem checkDeadline_ne_error (hs : s.IsStructural) : checkDeadline m ≠ .error s m' := by
  by_cases htime : m.limits.timeout = 0
  · rw [checkDeadline_of_timeout_eq_zero htime]
    rintro ⟨⟩
    exact hs
  · simp [checkDeadline_of_timeout_ne_zero htime]

/-- What follows a run and never stops in this way does not matter for where the run stops. -/
theorem bind_eq_error_iff {r : Run α} {k : α → Run β} (hk : ∀ a m, k a m ≠ .error s m') :
    (r >>= k) m = .error s m' ↔ r m = .error s m' := by
  rw [bind_apply]
  cases r m with
  | ok a m₁ => simpa using hk a m₁
  | error stop m₁ => simp

theorem printLine_ne_error (hs : s.IsStructural) (line : String) :
    printLine line m ≠ .error s m' := by
  have hstop : (m.console.print line).2 ≠ some s := by
    unfold Console.print
    dsimp only
    split
    · rintro ⟨⟩
      exact hs
    · nofun
  simp only [printLine, bind_apply, modifyGet, MonadStateOf.modifyGet, EStateM.modifyGet]
  cases hprint : (m.console.print line).2 with
  | none => simp [pure, EStateM.pure]
  | some stop =>
    rw [hprint] at hstop
    simp only [throw, throwThe, MonadExceptOf.throw, EStateM.throw, ne_eq,
      EStateM.Result.error.injEq, not_and]
    rintro rfl
    exact absurd rfl hstop

/-- A loop stops a run if it is not done in time, or where a round does. -/
theorem repeatWhile_eq_error_iff {condition : Option Operand} {round : Run Unit} {rounds : Nat} :
    repeatWhile condition round tooMany rounds m = .error s m' ↔
      (s = tooMany ∧ Exhausts condition round rounds m m') ∨
        ∃ m₁, Rounds condition round rounds m m₁ ∧ round m₁ = .error s m' := by
  induction rounds generalizing m with
  | zero =>
    simp only [repeatWhile, get_bind_apply]
    constructor
    · intro h
      split at h
      · next hholds =>
        injection h with hs hm
        subst hs hm
        exact .inl ⟨rfl, .last hholds⟩
      · cases h
    · rintro (⟨rfl, hexhausts⟩ | ⟨m₁, hrounds, -⟩)
      · cases hexhausts with
        | last hholds =>
          rw [if_pos hholds]
          rfl
      · cases hrounds
  | succ rounds ih =>
    simp only [repeatWhile, get_bind_apply]
    by_cases hholds : holds condition m.env = true
    · rw [if_pos hholds, bind_apply]
      constructor
      · intro h
        cases hround : round m with
        | ok _ m₁ =>
          rw [hround] at h
          obtain ⟨hs, hexhausts⟩ | ⟨m₂, hrounds, hm₂⟩ := ih.1 h
          · exact .inl ⟨hs, .next hholds hround hexhausts⟩
          · exact .inr ⟨m₂, .next hholds hround hrounds, hm₂⟩
        | error stop m₁ =>
          rw [hround] at h
          exact .inr ⟨m, .first hholds, hround.trans h⟩
      · rintro (⟨hs, hexhausts⟩ | ⟨m₁, hrounds, hm₁⟩)
        · cases hexhausts with
          | next _ hround hexhausts =>
            rw [hround]
            exact ih.2 (.inl ⟨hs, hexhausts⟩)
        · cases hrounds with
          | first _ => rw [hm₁]
          | next _ hround hrounds =>
            rw [hround]
            exact ih.2 (.inr ⟨m₁, hrounds, hm₁⟩)
    · rw [if_neg hholds]
      refine ⟨fun h => (by cases h), ?_⟩
      rintro (⟨-, hexhausts⟩ | ⟨m₁, hrounds, -⟩)
      · cases hexhausts with
        | next h => exact absurd h hholds
      · cases hrounds with
        | first h => exact absurd h hholds
        | next h => exact absurd h hholds

theorem forItems_eq_error_iff {name : String} {body : Run Unit} {rounds : Nat}
    {items : List Value} :
    forItems name body tooMany rounds items m = .error s m' ↔
      (s = tooMany ∧ ExhaustsItems name body rounds items m m') ∨
        ∃ m₁, Items name body rounds items m m₁ ∧ body m₁ = .error s m' := by
  induction rounds generalizing m items with
  | zero =>
    cases items with
    | nil =>
      refine ⟨fun h => (by cases h), ?_⟩
      rintro (⟨-, hexhausts⟩ | ⟨m₁, hitems, -⟩)
      · cases hexhausts
      · cases hitems
    | cons item items =>
      constructor
      · intro h
        injection h with hs hm
        subst hs hm
        exact .inl ⟨rfl, .last⟩
      · rintro (⟨rfl, hexhausts⟩ | ⟨m₁, hitems, -⟩)
        · cases hexhausts with
          | last => rfl
        · cases hitems
  | succ rounds ih =>
    cases items with
    | nil =>
      refine ⟨fun h => (by cases h), ?_⟩
      rintro (⟨-, hexhausts⟩ | ⟨m₁, hitems, -⟩)
      · cases hexhausts
      · cases hitems
    | cons item items =>
      simp only [forItems, bind_apply, modifyEnv_apply]
      constructor
      · intro h
        cases hbody : body { m with env := m.env.set name item } with
        | ok _ m₁ =>
          rw [hbody] at h
          obtain ⟨hs, hexhausts⟩ | ⟨m₂, hitems, hm₂⟩ := ih.1 h
          · exact .inl ⟨hs, .next hbody hexhausts⟩
          · exact .inr ⟨m₂, .next hbody hitems, hm₂⟩
        | error stop m₁ =>
          rw [hbody] at h
          exact .inr ⟨_, .first, hbody.trans h⟩
      · rintro (⟨hs, hexhausts⟩ | ⟨m₁, hitems, hm₁⟩)
        · cases hexhausts with
          | next hbody hexhausts =>
            rw [hbody]
            exact ih.2 (.inl ⟨hs, hexhausts⟩)
        · cases hitems with
          | first => rw [hm₁]
          | next hbody hitems =>
            rw [hbody]
            exact ih.2 (.inr ⟨m₁, hitems, hm₁⟩)

/-- `Stops t bodies s m m'`: running the statement `t` from `m` stops the run at `m'`, as `t` is a
loop that is not done in time, or comes to run its parts `bodies`, and they do. -/
def Stops (t : Statement) (bodies : List Statement) (s : Stop) (m m' : Machine) : Prop :=
  Exceeds t s m m' ∨ ∃ m₁, Enters t m m₁ ∧ execAll bodies m₁ = .error s m'

variable {bodies : List Statement} {line : Nat}

/-- A statement that neither is a loop nor has parts. -/
theorem eq_error_iff_stops_of_ne {t : Statement} (h : exec t m ≠ .error s m')
    (hexceeds : ¬ Exceeds t s m m') (henters : ∀ m₁, ¬ Enters t m m₁) :
    exec t m = .error s m' ↔ Stops t bodies s m m' := by
  refine iff_of_false h ?_
  rintro (hstops | ⟨m₁, hstops, -⟩)
  · exact hexceeds hstops
  · exact henters m₁ hstops

theorem exec_print_ne_error (hs : s.IsStructural) (value : Option Operand) :
    exec (.print value) m ≠ .error s m' := by
  intro h
  simp only [exec, checkDeadline_bind_eq_error_iff hs] at h
  cases value with
  | none => exact printLine_ne_error hs _ h.2
  | some operand => exact printLine_ne_error hs _ h.2

theorem exec_block_iff_stops (hs : s.IsStructural) :
    exec (.block bodies) m = .error s m' ↔ Stops (.block bodies) bodies s m m' := by
  simp only [exec, checkDeadline_bind_eq_error_iff hs]
  constructor
  · rintro ⟨htime, h⟩
    exact .inr ⟨m, .block htime, h⟩
  · rintro (h | ⟨m₁, henters, h⟩)
    · cases h
    · cases henters with
      | block htime => exact ⟨htime, h⟩

/-- A counted loop goes through its rounds behind its first clause. -/
theorem exec_counted_eq_error_iff (hs : s.IsStructural) {init : Option Action}
    {condition : Option Operand} {updates : List Action} {body : List Statement} :
    exec (.counted line init condition updates body) m = .error s m' ↔
      m.limits.timeout ≠ 0 ∧
        repeatWhile condition (do execAll body; modifyEnv (updates.foldl act ·))
          (.loopLimit m.limits.iterations line) m.limits.iterations (initialized init m) =
            .error s m' := by
  cases init with
  | none =>
    simp only [exec, checkDeadline_bind_eq_error_iff hs]
    refine and_congr_right fun _ => ?_
    rw [get_bind_apply]
    exact bind_eq_error_iff fun _ _ => (by simp [pure, EStateM.pure])
  | some a =>
    simp only [exec, checkDeadline_bind_eq_error_iff hs]
    refine and_congr_right fun _ => ?_
    rw [bind_apply, modifyEnv_apply]
    dsimp only
    rw [get_bind_apply]
    refine bind_eq_error_iff fun _ m₁ => ?_
    cases (some a).bind Action.declares? with
    | none => simp [pure, EStateM.pure]
    | some name => simp [modifyEnv_apply]

theorem exec_counted_iff_stops (hs : s.IsStructural) {init : Option Action}
    {condition : Option Operand} {updates : List Action} :
    exec (.counted line init condition updates bodies) m = .error s m' ↔
      Stops (.counted line init condition updates bodies) bodies s m m' := by
  have hround (m₁ : Machine) :
      (do execAll bodies; modifyEnv (updates.foldl act ·) : Run Unit) m₁ = .error s m' ↔
        execAll bodies m₁ = .error s m' :=
    bind_eq_error_iff fun _ _ => (by simp [modifyEnv_apply])
  rw [exec_counted_eq_error_iff hs, repeatWhile_eq_error_iff]
  constructor
  · rintro ⟨htime, ⟨rfl, hexhausts⟩ | ⟨m₁, hrounds, h⟩⟩
    · exact .inl (.counted htime hexhausts)
    · exact .inr ⟨m₁, .counted htime hrounds, (hround m₁).1 h⟩
  · rintro (hexceeds | ⟨m₁, henters, h⟩)
    · cases hexceeds with
      | counted htime hexhausts => exact ⟨htime, .inl ⟨rfl, hexhausts⟩⟩
    · cases henters with
      | counted htime hrounds => exact ⟨htime, .inr ⟨m₁, hrounds, (hround m₁).2 h⟩⟩

/-- A loop over items goes through those of a list, and over nothing else. -/
theorem exec_forEach_eq_error_iff (hs : s.IsStructural) {name : String} {items : Operand} :
    exec (.forEach line name items bodies) m = .error s m' ↔
      m.limits.timeout ≠ 0 ∧ ∃ values, items.value m.env = .list values ∧
        forItems name (execAll bodies) (.loopLimit m.limits.iterations line) m.limits.iterations
          values.toList m = .error s m' := by
  simp only [exec, checkDeadline_bind_eq_error_iff hs, get_bind_apply]
  refine and_congr_right fun _ => ?_
  cases hvalues : items.value m.env with
  | list values =>
    simp only [Value.list.injEq, exists_eq_left']
    exact bind_eq_error_iff fun _ _ => (by simp [modifyEnv_apply])
  | _ => simp [pure, EStateM.pure]

theorem exec_forEach_iff_stops (hs : s.IsStructural) {name : String} {items : Operand} :
    exec (.forEach line name items bodies) m = .error s m' ↔
      Stops (.forEach line name items bodies) bodies s m m' := by
  rw [exec_forEach_eq_error_iff hs]
  constructor
  · rintro ⟨htime, values, hvalues, h⟩
    obtain ⟨rfl, hexhausts⟩ | ⟨m₁, hitems, hm₁⟩ := forItems_eq_error_iff.1 h
    · exact .inl (.forEach htime hvalues hexhausts)
    · exact .inr ⟨m₁, .forEach htime hvalues hitems, hm₁⟩
  · rintro (hexceeds | ⟨m₁, henters, h⟩)
    · cases hexceeds with
      | forEach htime hvalues hexhausts =>
        exact ⟨htime, _, hvalues, forItems_eq_error_iff.2 (.inl ⟨rfl, hexhausts⟩)⟩
    · cases henters with
      | forEach htime hvalues hitems =>
        exact ⟨htime, _, hvalues, forItems_eq_error_iff.2 (.inr ⟨m₁, hitems, h⟩)⟩

theorem exec_while_iff_stops (hs : s.IsStructural) {condition : Option Operand} :
    exec (.while_ line condition bodies) m = .error s m' ↔
      Stops (.while_ line condition bodies) bodies s m m' := by
  simp only [exec, checkDeadline_bind_eq_error_iff hs, get_bind_apply]
  rw [repeatWhile_eq_error_iff]
  constructor
  · rintro ⟨htime, ⟨rfl, hexhausts⟩ | ⟨m₁, hrounds, h⟩⟩
    · exact .inl (.while_ htime hexhausts)
    · exact .inr ⟨m₁, .while_ htime hrounds, h⟩
  · rintro (hexceeds | ⟨m₁, henters, h⟩)
    · cases hexceeds with
      | while_ htime hexhausts => exact ⟨htime, .inl ⟨rfl, hexhausts⟩⟩
    · cases henters with
      | while_ htime hrounds => exact ⟨htime, .inr ⟨m₁, hrounds, h⟩⟩

/-- **A statement stops a run exactly if it is a loop that is not done in time, or where it runs its
parts and they do.** -/
theorem exec_frame_eq_error_iff (hs : s.IsStructural) {k : List Statement → Statement}
    (hk : Frame k) : exec (k bodies) m = .error s m' ↔ Stops (k bodies) bodies s m m' := by
  cases hk with
  | print value => exact eq_error_iff_stops_of_ne (exec_print_ne_error hs value) nofun nofun
  | action | mutate =>
    refine eq_error_iff_stops_of_ne (fun h => ?_) nofun nofun
    simp only [exec, checkDeadline_bind_eq_error_iff hs, modifyEnv_apply] at h
    exact nomatch h.2
  | skip => exact eq_error_iff_stops_of_ne (checkDeadline_ne_error hs) nofun nofun
  | block => exact exec_block_iff_stops hs
  | counted => exact exec_counted_iff_stops hs
  | forEach => exact exec_forEach_iff_stops hs
  | whileLoop line header =>
    unfold whileLoop
    split
    · exact eq_error_iff_stops_of_ne (checkDeadline_ne_error hs) nofun nofun
    · exact exec_while_iff_stops hs

theorem exec_read_eq_error_iff_of_isOpenBlock (hs : s.IsStructural) {f : Fragment}
    (h : f.IsOpenBlock) (hno : Uncommented .code f.text) :
    exec (Statement.read f) m = .error s m' ↔
      m.limits.timeout ≠ 0 ∧ s = .endlessBlock ∧ m = m' := by
  rw [exec_read_of_isOpenBlock h hno, checkDeadline_bind_eq_error_iff hs]
  refine and_congr_right fun _ => ⟨fun h => ?_, fun h => by rw [h.1, h.2]; rfl⟩
  injection h with hs hm
  exact ⟨hs.symm, hm⟩

/-- **A run that a statement stops has come to it**: to a block without an end, or to a loop that is
not done in time. The induction is on the length of the statements, which their parts lower, and for
each length on their number. -/
theorem exists_comesTo_of_execAll_eq_error (hs : s.IsStructural) {n : Nat} {fs : List Fragment}
    (hlen : ∀ f ∈ fs, f.text.length < n) (hno : ∀ f ∈ fs, Uncommented .code f.text)
    (h : execAll (fs.map Statement.read) m = .error s m') :
    ∃ g m₁, ComesTo fs m g m₁ ∧
      ((s = .endlessBlock ∧ g.IsOpenBlock ∧ m₁ = m') ∨
        Exceeds (shape g ((parts g).map Statement.read)) s m₁ m') := by
  induction n generalizing fs m with
  | zero =>
    cases fs with
    | nil => cases h
    | cons f fs => exact absurd (hlen f List.mem_cons_self) (Nat.not_lt_zero _)
  | succ n ihn =>
    induction fs generalizing m with
    | nil => cases h
    | cons f fs ihfs =>
      simp only [List.map_cons, execAll, bind_apply] at h
      cases hf : exec (Statement.read f) m with
      | ok _ m₁ =>
        rw [hf] at h
        obtain ⟨g, m₂, hcomes, hg⟩ := ihfs (fun g hg => hlen g (List.mem_cons_of_mem f hg))
          (fun g hg => hno g (List.mem_cons_of_mem f hg)) h
        exact ⟨g, m₂, .later hf hcomes, hg⟩
      | error stop m₁ =>
        rw [hf] at h
        have hend : exec (Statement.read f) m = .error s m' := hf.trans h
        by_cases hopen : f.IsOpenBlock
        · obtain ⟨htime, hblock, rfl⟩ := (exec_read_eq_error_iff_of_isOpenBlock hs hopen
            (hno f List.mem_cons_self)).1 hend
          exact ⟨f, m, .here htime, .inl ⟨hblock, hopen, rfl⟩⟩
        · rw [exec_read (hno f List.mem_cons_self)] at hend
          obtain hexceeds | ⟨m₂, henters, hparts⟩ :=
            (exec_frame_eq_error_iff hs (frame_shape f)).1 hend
          · exact ⟨f, m, .here hexceeds.timeout_ne_zero, .inr hexceeds⟩
          · have hshorter : ∀ g ∈ parts f, g.text.length < n := fun g hg => by
              have hg := length_text_lt_of_mem_parts hopen hg
              have hf := hlen f List.mem_cons_self
              omega
            obtain ⟨g, m₃, hcomes, hg⟩ :=
              ihn hshorter (fun g hg => uncommented_of_mem_parts hg) hparts
            exact ⟨g, m₃, .inside henters hcomes, hg⟩

end Stopping

/-! ## Runs that come to no block without an end -/

/-- A run that comes to a block without an end is out of depth there. -/
theorem ComesTo.execAll_eq_endless {fs : List Fragment} {g : Fragment} (h : ComesTo fs m g m')
    (hno : ∀ f ∈ fs, Uncommented .code f.text) (hg : g.IsOpenBlock) :
    execAll (fs.map Statement.read) m = .error .endlessBlock m' := by
  induction h with
  | @here f fs m htime =>
    have hopen : exec (Statement.read f) m = .error .endlessBlock m :=
      (exec_read_eq_error_iff_of_isOpenBlock (s := .endlessBlock) trivial hg
        (hno f List.mem_cons_self)).2 ⟨htime, rfl, rfl⟩
    simp only [List.map_cons, execAll, bind_apply, hopen]
  | @later f g fs m m₁ m' hok _ ih =>
    simp only [List.map_cons, execAll, bind_apply, hok]
    exact ih (fun f hf => hno f (List.mem_cons_of_mem _ hf)) hg
  | @inside f g fs m m₁ m' henters _ ih =>
    have hparts := ih (fun f hf => uncommented_of_mem_parts hf) hg
    have hshape := (exec_frame_eq_error_iff (s := .endlessBlock) trivial (frame_shape f)).2
      (.inr ⟨m₁, henters, hparts⟩)
    rw [← exec_read (hno f List.mem_cons_self)] at hshape
    simp only [List.map_cons, execAll, bind_apply, hshape]

end Run

/-! ## Programs -/

namespace Program

open Run

/-- Runs the statements of a program, for statements nested no deeper than `depth`. -/
def executeTo (depth : Nat) (limits : Limits) (p : Program) : EStateM.Result Stop Machine Unit :=
  (execAll (p.fragments.map (readTo depth))).run (.start limits)

theorem uncommented_of_mem_fragments {p : Program} {f : Fragment} (h : f ∈ p.fragments) :
    Uncommented .code f.text := by
  unfold fragments at h
  dsimp only at h
  split at h
  · exact Fragment.uncommented_of_mem_split h
  · split at h
    · exact Fragment.uncommented_of_mem_split h
    · exact Fragment.uncommented_of_mem_split h

/-- Some depth is enough for all of finitely many statements. -/
theorem exists_depth (fs : List Fragment) : ∃ depth, ∀ f ∈ fs, f.text.length < depth := by
  induction fs with
  | nil => exact ⟨0, by simp⟩
  | cons f fs ih =>
    obtain ⟨depth, hdepth⟩ := ih
    refine ⟨max (f.text.length + 1) depth, fun g hg => ?_⟩
    rcases List.mem_cons.1 hg with rfl | hg
    · omega
    · have := hdepth g hg
      omega

/-- The interpreter's own run is the run at every depth that is large enough. -/
theorem exists_executeTo_eq_execute (p : Program) (limits : Limits) :
    ∃ depth₀, ∀ depth, depth₀ ≤ depth → p.executeTo depth limits = p.execute limits := by
  obtain ⟨depth₀, hdepth₀⟩ := exists_depth p.fragments
  refine ⟨depth₀, fun depth hdepth => ?_⟩
  have hall : execAll (p.fragments.map (readTo depth)) =
      execAll (p.fragments.map Statement.read) := by
    refine execAll_map_congr fun f hf => ?_
    have hlt := hdepth₀ f hf
    exact exec_readTo_eq (uncommented_of_mem_fragments hf) (by omega) (by omega)
  rw [executeTo, hall, execute, statements]

/-- A run that ends within some depth is the interpreter's own run. -/
theorem executeTo_eq_execute {p : Program} {limits : Limits} {depth : Nat}
    (h : Ends (p.executeTo depth limits)) : p.executeTo depth limits = p.execute limits := by
  obtain ⟨depth₀, hdepth₀⟩ := exists_executeTo_eq_execute p limits
  have hbelow : Below (execAll (p.fragments.map (readTo depth)))
      (execAll (p.fragments.map (readTo (max depth₀ depth)))) :=
    below_execAll_map fun f => below_exec_readTo (Nat.le_max_right depth₀ depth) f
  rcases hbelow (.start limits) with ⟨m', hend⟩ | heq
  · exact absurd hend (h m')
  · exact Eq.trans heq (hdepth₀ _ (Nat.le_max_left depth₀ depth))

theorem ends_execute_iff (p : Program) (limits : Limits) :
    Ends (p.execute limits) ↔
      ∀ g m, ComesTo p.fragments (.start limits) g m → ¬ g.IsOpenBlock := by
  have hno : ∀ f ∈ p.fragments, Uncommented .code f.text := fun _ => uncommented_of_mem_fragments
  constructor
  · intro h g m hcomes hg
    exact h m (hcomes.execAll_eq_endless hno hg)
  · intro h m hend
    obtain ⟨depth, hdepth⟩ := exists_depth p.fragments
    obtain ⟨g, m₁, hcomes, ⟨-, hg, rfl⟩ | hexceeds⟩ :=
      exists_comesTo_of_execAll_eq_error (s := .endlessBlock) trivial hdepth hno hend
    · exact h g m₁ hcomes hg
    · exact nomatch hexceeds.exists_line

/-- **A run ends exactly if it comes to no block that does not close.** Then it ends in the same
way within every depth that lets it end, and this is what the interpreter does: it succeeds, or
stops at a limit. What goes down with each level is the length of the text: every statement of a
block is shorter than the block unless the block does not close, and then the block is its own and
only statement; and every statement of a loop is shorter than the loop. -/
theorem ends_iff_not_comesTo_isOpenBlock (p : Program) (limits : Limits) :
    ((∃ depth, Ends (p.executeTo depth limits)) ↔
        ∀ g m, ComesTo p.fragments (.start limits) g m → ¬ g.IsOpenBlock) ∧
      (∀ depth, Ends (p.executeTo depth limits) →
        p.executeTo depth limits = p.execute limits) ∧
      (∀ body line, ∀ f ∈ Fragment.split body line,
        f.text.head? = some '{' → f.text.getLast? = some '}' →
          ((∀ g ∈ Fragment.splitBody f.text f.line, g.text.length < f.text.length) ↔
            ¬ f.IsOpenBlock) ∧
          (f.IsOpenBlock → Fragment.splitBody f.text f.line = [f])) ∧
      (∀ f header body, loopParts? f = some (header, body) →
        ∀ g ∈ body, g.text.length < f.text.length) := by
  refine ⟨?_, fun depth => executeTo_eq_execute, ?_, fun f header body h g hg =>
    length_text_lt_of_loopParts? h hg⟩
  · rw [← ends_execute_iff]
    constructor
    · rintro ⟨depth, hends⟩
      rw [← executeTo_eq_execute hends]
      exact hends
    · intro hends
      obtain ⟨depth₀, hdepth₀⟩ := exists_executeTo_eq_execute p limits
      exact ⟨depth₀, by rw [hdepth₀ depth₀ (Nat.le_refl _)]; exact hends⟩
  · intro body line f hf hhead hlast
    have hno := Fragment.uncommented_of_mem_split hf
    have hself (hopen : f.IsOpenBlock) : Fragment.splitBody f.text f.line = [f] :=
      Fragment.splitBody_of_isOpenBlock hopen hno
    refine ⟨⟨fun hshort hopen => ?_, fun hopen g hg => ?_⟩, hself⟩
    · have hlt := hshort f (by rw [hself hopen]; exact List.mem_singleton_self f)
      exact absurd hlt (Nat.lt_irrefl _)
    · have hblock : isBlock f.text = true := by simp [isBlock, hhead, hlast]
      refine length_text_lt_of_mem_parts hopen ?_
      rwa [(shape_of_isBlock hblock).1]

end Program

end SnippetRunner
