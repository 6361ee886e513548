import SnippetRunner.Run.Console
import SnippetRunner.Statement

/-!
# Running statements

Running a statement changes the variables and the output, and may stop the run (`Stop`). What was
changed before a stop stays. Every loop counts its own rounds against the limit, so each statement
is run in finitely many steps, and `exec` is defined by recursion on the statement.

A run has no clock of its own: a timeout of zero has passed before the first statement, and any
longer one never passes.
-/

namespace SnippetRunner

/-- What a run changes: the variables and the output; and the limits it runs under. -/
structure Machine where
  env : Environment
  console : Console
  limits : Limits

/-- A step of a run. It leaves a machine behind even if it stops the run. -/
abbrev Run (α : Type) := EStateM Stop Machine α

namespace Machine

/-- The machine before a run. -/
def start (limits : Limits) : Machine := ⟨.empty, .empty limits.outputBytes, limits⟩

end Machine

namespace Run

/-- Stops a run whose time has passed. -/
def checkDeadline : Run Unit := do
  let m ← get
  if m.limits.timeout = 0 then throw (.deadline m.limits.timeout)

/-- Changes the variables. -/
def modifyEnv (f : Environment → Environment) : Run Unit :=
  modify fun m => { m with env := f m.env }

/-- Prints a line. -/
def printLine (line : String) : Run Unit := do
  let stop? ← modifyGet fun m =>
    let (console, stop?) := m.console.print line
    (stop?, { m with console := console })
  match stop? with
  | some stop => throw stop
  | none => return ()

/-! ## Actions -/

/-- The variables after `name op= value`. A name that is not bound stays so, and where the operator
is not defined nothing changes. -/
def updated (env : Environment) (name : String) (op : BinaryOp) (value : Value) : Environment :=
  match env.get? name with
  | none => env
  | some current =>
    match Value.binary op current value with
    | some result => env.set name (Value.assigned current result true)
    | none => env

/-- The variables after an action. -/
def act (env : Environment) : Action → Environment
  | .declareEmpty name kind => env.set name kind.empty
  | .declare _ _ none => env
  | .declare name typeName (some init) => env.set name (Value.declared typeName (init.value env))
  | .assign name value =>
    match env.get? name with
    | some current => env.set name (Value.assigned current (value.value env) false)
    | none => env.set name (value.value env)
  | .update name op value => updated env name op (value.value env)
  | .step name delta => updated env name .add (.int delta)

/-- The variables after a change to the collection that `target` holds. -/
def mutate (env : Environment) (target : String) (source : List Char) : Mutation → Environment
  | .add value =>
    let item := value.value source env
    env.modify target (Value.push item)
  | .insert index value =>
    match index.value source env with
    | .int i =>
      let item := value.value source env
      if 0 ≤ i.toInt then env.modify target (Value.insertAt i.toInt.toNat item) else env
    | _ => env
  | .put key value =>
    let k := key.value source env
    let v := value.value source env
    env.modify target (Value.put k v)

/-! ## Loops -/

/-- Whether the condition of a loop holds. One that is left out does, and one that is no truth value
does not. -/
def holds (condition : Option Operand) (env : Environment) : Bool :=
  match condition with
  | none => true
  | some c =>
    match c.value env with
    | .bool b => b
    | _ => false

/-- Repeats a body while the condition holds, but no more often than `rounds` times. -/
def repeatWhile (condition : Option Operand) (body : Run Unit) (tooMany : Stop) : Nat → Run Unit
  | 0 => do if holds condition (← get).env then throw tooMany
  | rounds + 1 => do
    if holds condition (← get).env then
      body
      repeatWhile condition body tooMany rounds

/-- Runs a body for each item, but no more often than `rounds` times. -/
def forItems (name : String) (body : Run Unit) (tooMany : Stop) : Nat → List Value → Run Unit
  | _, [] => return ()
  | 0, _ :: _ => throw tooMany
  | rounds + 1, item :: items => do
    modifyEnv (·.set name item)
    body
    forItems name body tooMany rounds items

/-! ## Statements -/

mutual

/-- Runs a statement. -/
def exec : Statement → Run Unit
  | .print value => do
    checkDeadline
    match value with
    | none => printLine ""
    | some operand => printLine (operand.value (← get).env).render
  | .action a => do
    checkDeadline
    modifyEnv (act · a)
  | .mutate target source m => do
    checkDeadline
    modifyEnv (mutate · target source m)
  | .block body => do
    checkDeadline
    execAll body
  | .counted line init condition updates body => do
    checkDeadline
    if let some a := init then modifyEnv (act · a)
    let limit := (← get).limits.iterations
    let round : Run Unit := do
      execAll body
      modifyEnv (updates.foldl act ·)
    repeatWhile condition round (.loopLimit limit line) limit
    if let some name := init.bind Action.declares? then modifyEnv (·.remove name)
  | .forEach line name items body => do
    checkDeadline
    let m ← get
    match items.value m.env with
    | .list values =>
      let limit := m.limits.iterations
      forItems name (execAll body) (.loopLimit limit line) limit values.toList
      modifyEnv (·.remove name)
    | _ => return ()
  | .while_ line condition body => do
    checkDeadline
    let limit := (← get).limits.iterations
    repeatWhile condition (execAll body) (.loopLimit limit line) limit
  | .skip => checkDeadline
  | .endless => throw .endlessBlock

/-- Runs statements one after another. -/
def execAll : List Statement → Run Unit
  | [] => return ()
  | s :: ss => do
    exec s
    execAll ss

end

end Run

end SnippetRunner
