import SnippetRunner.Outcome

/-!
# Outcomes as JSON

The JSON text of an outcome (`Outcome.json`): an object over several lines, each level indented by
two spaces. Parts that an outcome does not have are left out.
-/

namespace SnippetRunner

/-- A JSON value, as far as outcomes need it. -/
inductive JsonValue
  | bool (b : Bool)
  | number (n : Nat)
  | text (s : String)
  | array (items : List JsonValue)
  | object (fields : List (String × JsonValue))

namespace JsonValue

/-- A character inside a JSON string. Quote marks, backslashes and control characters are
escaped. -/
def escaped (c : Char) : List Char :=
  match c with
  | '"' => ['\\', '"']
  | '\\' => ['\\', '\\']
  | '\x08' => ['\\', 'b']
  | '\x0c' => ['\\', 'f']
  | '\n' => ['\\', 'n']
  | '\r' => ['\\', 'r']
  | '\t' => ['\\', 't']
  | c =>
    if c.toNat < 0x20 then
      ['\\', 'u', '0', '0', Nat.digitChar (c.toNat / 16), Nat.digitChar (c.toNat % 16)]
    else [c]

/-- A JSON string. -/
def quoted (s : String) : String := String.ofList ('"' :: s.toList.flatMap escaped ++ ['"'])

/-- Items over several lines between two brackets, with what is around them indented by `depth`
levels. -/
def enclose (opening closing : Char) (depth : Nat) (items : List String) : String :=
  let margin (n : Nat) := String.ofList ('\n' :: List.replicate (2 * n) ' ')
  if items.isEmpty then String.ofList [opening, closing]
  else
    (String.ofList [opening] ++
      ",".intercalate (items.map fun item => margin (depth + 1) ++ item) ++ margin depth).push
      closing

mutual

/-- The text of a value that starts on a line indented by `depth` levels. -/
def render (depth : Nat) : JsonValue → String
  | bool b => if b then "true" else "false"
  | number n => s!"{n}"
  | text s => quoted s
  | array items => enclose '[' ']' depth (renderItems (depth + 1) items)
  | object fields => enclose '{' '}' depth (renderFields (depth + 1) fields)

/-- The texts of the items of an array. -/
def renderItems (depth : Nat) : List JsonValue → List String
  | [] => []
  | item :: rest => render depth item :: renderItems depth rest

/-- The texts of the fields of an object. -/
def renderFields (depth : Nat) : List (String × JsonValue) → List String
  | [] => []
  | (name, value) :: rest =>
    (quoted name ++ ": " ++ render depth value) :: renderFields depth rest

end

/-- A field that is left out if there is no value. -/
def optional {α : Type} (name : String) (value : Option α) (json : α → JsonValue) :
    List (String × JsonValue) :=
  (value.map fun a => (name, json a)).toList

end JsonValue

open JsonValue

/-- A diagnostic as a JSON value. -/
def Diagnostic.toJson (d : Diagnostic) : JsonValue :=
  object ([("severity", text d.severity.label), ("message", text d.message)] ++
    optional "source_line" d.line number)

/-- An outcome as a JSON value. -/
def Outcome.toJson (o : Outcome) : JsonValue :=
  object ([("success", bool o.success), ("output", text o.output)] ++
    optional "error_message" o.errorMessage text ++
    [("diagnostics", array (o.diagnostics.map Diagnostic.toJson)),
      ("duration_ms", number o.duration), ("tier", text o.tier.label),
      ("used_fallback", bool o.usedFallback)])

/-- The JSON text of an outcome. -/
def Outcome.json (o : Outcome) : String := o.toJson.render 0

end SnippetRunner
