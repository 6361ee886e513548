import SnippetRunner.Value

/-!
# Variables

The variables of a run and their values, in one flat scope. Two laws say all there is to know about
`set`: the name it sets reads as the new value (`get?_set_self`), and every other name as before
(`get?_set_of_ne`); `remove` and `modify` have the like.
-/

namespace SnippetRunner

/-- Names bound to values. A name is looked up from the front. -/
structure Environment where
  bindings : List (String × Value)

namespace Environment

/-- No variables. -/
def empty : Environment := ⟨[]⟩

/-- The value of a variable. -/
def get? (env : Environment) (name : String) : Option Value := env.bindings.lookup name

/-- Replaces the value of a name in a list of bindings, or binds it behind all others. -/
def setIn (name : String) (value : Value) : List (String × Value) → List (String × Value)
  | [] => [(name, value)]
  | (n, v) :: rest => if n = name then (n, value) :: rest else (n, v) :: setIn name value rest

/-- Binds a name to a value, whether it was bound before or not. -/
def set (env : Environment) (name : String) (value : Value) : Environment :=
  ⟨setIn name value env.bindings⟩

/-- Unbinds a name. -/
def remove (env : Environment) (name : String) : Environment :=
  ⟨env.bindings.filter fun (n, _) => n != name⟩

/-- Applies a function to the value of a name in a list of bindings. -/
def modifyIn (name : String) (f : Value → Value) : List (String × Value) → List (String × Value)
  | [] => []
  | (n, v) :: rest => if n = name then (n, f v) :: rest else (n, v) :: modifyIn name f rest

/-- Applies a function to the value of a name, if it is bound. -/
def modify (env : Environment) (name : String) (f : Value → Value) : Environment :=
  ⟨modifyIn name f env.bindings⟩

@[simp] theorem get?_empty (name : String) : empty.get? name = none := rfl

@[simp] theorem get?_set_self (env : Environment) (name : String) (value : Value) :
    (env.set name value).get? name = some value := by
  obtain ⟨bindings⟩ := env
  simp only [get?, set]
  induction bindings with
  | nil => simp [setIn]
  | cons b rest ih =>
    obtain ⟨bound, old⟩ := b
    by_cases h : bound = name
    · simp [setIn, h]
    · have h' : (name == bound) = false := by simpa using fun e => h e.symm
      simp [setIn, List.lookup_cons, h, h', ih]

theorem get?_set_of_ne (env : Environment) {name other : String} (value : Value)
    (h : other ≠ name) : (env.set name value).get? other = env.get? other := by
  have hne : (other == name) = false := by simpa using h
  obtain ⟨bindings⟩ := env
  simp only [get?, set]
  induction bindings with
  | nil => simp [setIn, List.lookup_cons, hne]
  | cons b rest ih =>
    obtain ⟨bound, old⟩ := b
    by_cases hb : bound = name
    · simp [setIn, List.lookup_cons, hb, hne]
    · simp [setIn, List.lookup_cons, hb, ih]

@[simp] theorem get?_remove_self (env : Environment) (name : String) :
    (env.remove name).get? name = none := by
  obtain ⟨bindings⟩ := env
  simp only [get?, remove]
  induction bindings with
  | nil => rfl
  | cons b rest ih =>
    obtain ⟨bound, old⟩ := b
    by_cases h : bound = name
    · rw [List.filter_cons_of_neg (by simp [h]), ih]
    · have h' : (name == bound) = false := by simpa using fun e => h e.symm
      rw [List.filter_cons_of_pos (by simpa using h), List.lookup_cons, h', ih]

theorem get?_remove_of_ne (env : Environment) {name other : String} (h : other ≠ name) :
    (env.remove name).get? other = env.get? other := by
  obtain ⟨bindings⟩ := env
  simp only [get?, remove]
  induction bindings with
  | nil => rfl
  | cons b rest ih =>
    obtain ⟨bound, old⟩ := b
    by_cases hb : bound = name
    · have hne : (other == bound) = false := by simpa [hb] using h
      rw [List.filter_cons_of_neg (by simp [hb]), ih, List.lookup_cons, hne]
    · rw [List.filter_cons_of_pos (by simpa using hb), List.lookup_cons, List.lookup_cons, ih]

/-- What a name was set to is gone when it is unbound. -/
theorem remove_set (env : Environment) (name : String) (value : Value) :
    (env.set name value).remove name = env.remove name := by
  obtain ⟨bindings⟩ := env
  simp only [set, remove, mk.injEq]
  induction bindings with
  | nil => simp [setIn]
  | cons b rest ih =>
    obtain ⟨bound, old⟩ := b
    by_cases h : bound = name
    · simp [setIn, h]
    · simp [setIn, h, ih]

@[simp] theorem get?_modify_self (env : Environment) (name : String) (f : Value → Value) :
    (env.modify name f).get? name = (env.get? name).map f := by
  obtain ⟨bindings⟩ := env
  simp only [get?, modify]
  induction bindings with
  | nil => rfl
  | cons b rest ih =>
    obtain ⟨bound, old⟩ := b
    by_cases h : bound = name
    · simp [modifyIn, h]
    · have h' : (name == bound) = false := by simpa using fun e => h e.symm
      simp [modifyIn, List.lookup_cons, h, h', ih]

theorem get?_modify_of_ne (env : Environment) {name other : String} (f : Value → Value)
    (h : other ≠ name) : (env.modify name f).get? other = env.get? other := by
  have hne : (other == name) = false := by simpa using h
  obtain ⟨bindings⟩ := env
  simp only [get?, modify]
  induction bindings with
  | nil => rfl
  | cons b rest ih =>
    obtain ⟨bound, old⟩ := b
    by_cases hb : bound = name
    · simp [modifyIn, List.lookup_cons, hb, hne]
    · simp [modifyIn, List.lookup_cons, hb, ih]

end Environment

end SnippetRunner
