import Pipewright.Text.Decimal

set_option autoImplicit false

namespace Pipewright

inductive Json where
  | number (value : Nat)
  | bool (value : Bool)
  | string (text : String)
  | array (items : List Json)
  | object (fields : List (String × Json))

namespace Json

def escape (c : Char) : List Char :=
  match c with
  | '"' => ['\\', '"']
  | '\\' => ['\\', '\\']
  | '\x08' => ['\\', 'b']
  | '\t' => ['\\', 't']
  | '\n' => ['\\', 'n']
  | '\x0c' => ['\\', 'f']
  | '\r' => ['\\', 'r']
  | c =>
      if c.toNat < 0x20 then
        ['\\', 'u', '0', '0', Nat.digitChar (c.toNat / 16), Nat.digitChar (c.toNat % 16)]
      else [c]

def quote (text : String) : List Char :=
  '"' :: text.toList.flatMap escape ++ ['"']

def boolean (value : Bool) : List Char :=
  (if value then "true" else "false").toList

/-- The white space of a written form: what starts a line within `level` brackets, and what
follows the colon after a key. -/
structure Layout where
  newline : Nat → List Char
  gap : List Char

def Layout.compact : Layout :=
  ⟨fun _ => [], []⟩

def Layout.pretty : Layout :=
  ⟨fun level => '\n' :: List.replicate (2 * level) ' ', [' ']⟩

def Layout.key (layout : Layout) (name : String) (rest : List Char) : List Char :=
  quote name ++ ':' :: layout.gap ++ rest

mutual

def write (layout : Layout) (level : Nat) : Json → List Char → List Char
  | .number value, rest => Text.decimal value ++ rest
  | .bool value, rest => boolean value ++ rest
  | .string text, rest => quote text ++ rest
  | .array [], rest => '[' :: ']' :: rest
  | .array (item :: items), rest =>
      '[' :: layout.newline (level + 1) ++ item.write layout (level + 1)
        (writeItems layout (level + 1) items (layout.newline level ++ ']' :: rest))
  | .object [], rest => '\x7b' :: '\x7d' :: rest
  | .object ((name, value) :: fields), rest =>
      '\x7b' :: layout.newline (level + 1) ++ layout.key name (value.write layout (level + 1)
        (writeFields layout (level + 1) fields (layout.newline level ++ '\x7d' :: rest)))

def writeItems (layout : Layout) (level : Nat) : List Json → List Char → List Char
  | [], rest => rest
  | item :: items, rest =>
      ',' :: layout.newline level ++ item.write layout level (writeItems layout level items rest)

def writeFields (layout : Layout) (level : Nat) : List (String × Json) → List Char → List Char
  | [], rest => rest
  | (name, value) :: fields, rest =>
      ',' :: layout.newline level ++ layout.key name (value.write layout level
        (writeFields layout level fields rest))

end

def render (layout : Layout) (json : Json) : String :=
  String.ofList (json.write layout 0 [])

def compact (json : Json) : String :=
  json.render .compact

def pretty (json : Json) : String :=
  json.render .pretty

end Json

end Pipewright
