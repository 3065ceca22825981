import TypeAtlas.Text.Cut
import TypeAtlas.Text.Hex

/-!
JSON texts, spread over lines with two blanks per level. Fields keep the order they are
given in.
-/

namespace TypeAtlas

inductive Json where
  | flag (value : Bool)
  | number (value : Nat)
  | text (value : String)
  | list (items : List Json)
  | object (fields : List (String × Json))

namespace Json

/-- A character inside quotes. Quotes, backslashes and control characters are escaped, all
else stands for itself. -/
def escaped (c : Char) : String :=
  if c = '"' then "\\\""
  else if c = '\\' then "\\\\"
  else if c = '\n' then "\\n"
  else if c = '\r' then "\\r"
  else if c = '\t' then "\\t"
  else if c.toNat = 8 then "\\b"
  else if c.toNat = 12 then "\\f"
  else if c.toNat < 32 then "\\u" ++ Text.hexDigits 4 c.toNat
  else c.toString

def quoted (s : String) : String := "\"" ++ String.join (s.toList.map escaped) ++ "\""

def indent (level : Nat) : String := Text.repeated ' ' (2 * level)

/-- Entries on lines of their own between two brackets, which stand together where there is
no entry. -/
def block (opening closing : String) (level : Nat) (entries : List String) : String :=
  if entries.isEmpty then opening ++ closing
  else
    opening ++ "\n" ++ Text.joinWith ",\n" (entries.map (indent (level + 1) ++ ·)) ++ "\n" ++
      indent level ++ closing

mutual

def renderAt (level : Nat) : Json → String
  | .flag value => if value then "true" else "false"
  | .number value => toString value
  | .text value => quoted value
  | .list items => block "[" "]" level (renderItems (level + 1) items)
  | .object fields => block "\x7b" "\x7d" level (renderFields (level + 1) fields)

def renderItems (level : Nat) : List Json → List String
  | [] => []
  | item :: items => item.renderAt level :: renderItems level items

def renderFields (level : Nat) : List (String × Json) → List String
  | [] => []
  | (name, value) :: fields =>
    (quoted name ++ ": " ++ value.renderAt level) :: renderFields level fields

end

def render (value : Json) : String := value.renderAt 0

def texts (values : List String) : Json := .list (values.map .text)

end Json

end TypeAtlas
