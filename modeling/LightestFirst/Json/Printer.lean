import LightestFirst.Json.Basic
-- The two written forms of a JSON value: on one line without spaces, and spread out with two
-- spaces for every level. A form is added to what is written already, so that long ones grow in
-- place.
namespace LightestFirst
namespace Json

def hexDigit (value : Nat) : Char :=
  if value < 10 then Char.ofNat ('0'.toNat + value) else Char.ofNat ('a'.toNat + (value - 10))

-- Only the quote, the backslash and the characters below the space are escaped.
def escape (c : Char) : String :=
  if c = '"' then "\\\""
  else if c = '\\' then "\\\\"
  else if c = '\n' then "\\n"
  else if c = '\r' then "\\r"
  else if c = '\t' then "\\t"
  else if c.toNat = 8 then "\\b"
  else if c.toNat = 12 then "\\f"
  else if c.toNat < 32 then
    "\\u00" ++ String.ofList [hexDigit (c.toNat / 16), hexDigit (c.toNat % 16)]
  else String.singleton c

def quoteOnto (written text : String) : String :=
  text.toList.foldl (fun written c => written ++ escape c) (written ++ "\"") ++ "\""

mutual

def compactOnto (written : String) : Json → String
  | .null => written ++ "null"
  | .bool value => written ++ if value then "true" else "false"
  | .integer value => written ++ toString value
  | .real lexeme => written ++ lexeme
  | .string value => quoteOnto written value
  | .array elements => compactElements (written ++ "[") "" elements ++ "]"
  | .object members => compactMembers (written ++ "\x7b") "" members ++ "\x7d"

def compactElements (written separator : String) : List Json → String
  | [] => written
  | element :: rest => compactElements (element.compactOnto (written ++ separator)) "," rest

def compactMembers (written separator : String) : List (String × Json) → String
  | [] => written
  | (key, value) :: rest =>
    compactMembers (value.compactOnto (quoteOnto (written ++ separator) key ++ ":")) "," rest

end

def compact (value : Json) : String := value.compactOnto ""

def newline (level : Nat) : String := "\n" ++ String.ofList (List.replicate (2 * level) ' ')

mutual

-- The value written inside `level` levels. Arrays and objects without content stay on their line.
def spreadOnto (level : Nat) (written : String) : Json → String
  | .null => written ++ "null"
  | .bool value => written ++ if value then "true" else "false"
  | .integer value => written ++ toString value
  | .real lexeme => written ++ lexeme
  | .string value => quoteOnto written value
  | .array [] => written ++ "[]"
  | .array (element :: rest) =>
    spreadElements (level + 1) (written ++ "[") "" (element :: rest) ++ newline level ++ "]"
  | .object [] => written ++ "\x7b\x7d"
  | .object (member :: rest) =>
    spreadMembers (level + 1) (written ++ "\x7b") "" (member :: rest) ++ newline level ++ "\x7d"

def spreadElements (level : Nat) (written separator : String) : List Json → String
  | [] => written
  | element :: rest =>
    spreadElements level (element.spreadOnto level (written ++ separator ++ newline level)) "," rest

def spreadMembers (level : Nat) (written separator : String) : List (String × Json) → String
  | [] => written
  | (key, value) :: rest =>
    spreadMembers level
      (value.spreadOnto level (quoteOnto (written ++ separator ++ newline level) key ++ ": ")) "," rest

end

def pretty (value : Json) : String := value.spreadOnto 0 ""

end Json
end LightestFirst
