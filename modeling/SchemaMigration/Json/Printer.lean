import SchemaMigration.Json.Basic

set_option autoImplicit false

namespace SchemaMigration.Json

def hexChar (n : Nat) : Char :=
  if n < 10 then Char.ofNat (48 + n) else Char.ofNat (87 + n)

def escapeChar (c : Char) : List Char :=
  if c == '"' then ['\\', '"']
  else if c == '\\' then ['\\', '\\']
  else if c == '\n' then ['\\', 'n']
  else if c == '\r' then ['\\', 'r']
  else if c == '\t' then ['\\', 't']
  else if c == '\x08' then ['\\', 'b']
  else if c == '\x0c' then ['\\', 'f']
  else if c < ' ' then ['\\', 'u', '0', '0', hexChar (c.toNat / 16), hexChar (c.toNat % 16)]
  else [c]

def quoted (contents : String) : String :=
  String.ofList ('"' :: (contents.toList.flatMap escapeChar ++ ['"']))

mutual

def compact : Json → String
  | .null => "null"
  | .bool value => if value then "true" else "false"
  | .number text => text
  | .string contents => quoted contents
  | .illegible => "null"
  | .array items => "[" ++ ",".intercalate (compactItems items) ++ "]"
  | .object entries => "\x7b" ++ ",".intercalate (compactEntries entries) ++ "\x7d"

def compactItems : List Json → List String
  | [] => []
  | item :: rest => item.compact :: compactItems rest

def compactEntries : List (String × Json) → List String
  | [] => []
  | (key, value) :: rest => (quoted key ++ ":" ++ value.compact) :: compactEntries rest

end

def block (opening closing : String) (depth : Nat) (entries : List String) : String :=
  let margin n := String.join (List.replicate n "  ")
  if entries.isEmpty then opening ++ closing
  else
    opening ++ "\n" ++ ",\n".intercalate (entries.map (margin (depth + 1) ++ ·)) ++ "\n"
      ++ margin depth ++ closing

mutual

def prettyAt : Json → Nat → String
  | .null, _ => "null"
  | .bool value, _ => if value then "true" else "false"
  | .number text, _ => text
  | .string contents, _ => quoted contents
  | .illegible, _ => "null"
  | .array items, depth => block "[" "]" depth (prettyItems items (depth + 1))
  | .object entries, depth => block "\x7b" "\x7d" depth (prettyEntries entries (depth + 1))

def prettyItems : List Json → Nat → List String
  | [], _ => []
  | item :: rest, depth => item.prettyAt depth :: prettyItems rest depth

def prettyEntries : List (String × Json) → Nat → List String
  | [], _ => []
  | (key, value) :: rest, depth =>
    (quoted key ++ ": " ++ value.prettyAt depth) :: prettyEntries rest depth

end

def pretty (json : Json) : String :=
  json.prettyAt 0

end SchemaMigration.Json
