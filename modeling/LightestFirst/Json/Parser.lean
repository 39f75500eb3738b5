import LightestFirst.Json.Basic
import LightestFirst.Text.Scan
-- Reading a JSON text. Each reader is given the characters still to come and hands back those it
-- has left; every level of nesting and every element uses up at least one character, so as much
-- fuel as there are characters is never short.
namespace LightestFirst
namespace Json
open Text

def blank (c : Char) : Bool := c = ' ' || c = '\n' || c = '\t' || c = '\r'

def unit? (a b c d : Char) : Option Nat :=
  if [a, b, c, d].all (isDigit 16) then some (number 16 [a, b, c, d]) else none

def plainEscape? (c : Char) : Option Char :=
  if c = '"' then some '"'
  else if c = '\\' then some '\\'
  else if c = '/' then some '/'
  else if c = 'b' then some (Char.ofNat 8)
  else if c = 'f' then some (Char.ofNat 12)
  else if c = 'n' then some '\n'
  else if c = 'r' then some '\r'
  else if c = 't' then some '\t'
  else none

-- The rest of a string behind its opening quote. A character outside the first plane is written as
-- two units, and a unit of such a pair does not stand alone.
def readString (front : List Char) : List Char → Option (String × List Char)
  | [] => none
  | '"' :: rest => some (String.ofList front.reverse, rest)
  | '\\' :: 'u' :: a :: b :: c :: d :: '\\' :: 'u' :: e :: f :: g :: h :: rest =>
    match unit? a b c d with
    | none => none
    | some high =>
      if 0xD800 ≤ high ∧ high < 0xDC00 then
        match unit? e f g h with
        | none => none
        | some low =>
          if 0xDC00 ≤ low ∧ low < 0xE000 then
            readString (Char.ofNat (0x10000 + (high - 0xD800) * 0x400 + (low - 0xDC00)) :: front) rest
          else none
      else match character? high with
        | none => none
        | some character => readString (character :: front) ('\\' :: 'u' :: e :: f :: g :: h :: rest)
  | '\\' :: 'u' :: a :: b :: c :: d :: rest =>
    match (unit? a b c d).bind character? with
    | none => none
    | some character => readString (character :: front) rest
  | '\\' :: c :: rest =>
    match plainEscape? c with
    | none => none
    | some character => readString (character :: front) rest
  | c :: rest => if c.toNat < 32 || c = '\\' then none else readString (c :: front) rest

def isNumeral (c : Char) : Bool := isDigit 10 c || ['-', '+', '.', 'e', 'E'].contains c

def afterDigits? (text : List Char) : Option (List Char) :=
  match span (isDigit 10) text with
  | ([], _) => none
  | (_, rest) => some rest

def afterFraction? : List Char → Option (List Char)
  | '.' :: rest => afterDigits? rest
  | rest => some rest

def isExponent : List Char → Bool
  | [] => true
  | mark :: '+' :: rest => (mark = 'e' || mark = 'E') && afterDigits? rest = some []
  | mark :: '-' :: rest => (mark = 'e' || mark = 'E') && afterDigits? rest = some []
  | mark :: rest => (mark = 'e' || mark = 'E') && afterDigits? rest = some []

-- A number, its sign taken off: digits without a leading zero, then an optional fraction and
-- exponent. An integer of one machine word is its value, any other number is `lexeme`.
def unsigned? (lexeme : List Char) (negative : Bool) (text : List Char) : Option Json :=
  match span (isDigit 10) text with
  | (whole, rest) =>
    if whole.isEmpty || (whole.head? = some '0' && 1 < whole.length) then none
    else if rest.isEmpty && !(negative && whole = ['0']) then
      match numberBelow? UInt64.size 10 whole with
      | none => some (.real (String.ofList lexeme))
      | some value => some (.integer (if negative then -(value : Int) else value))
    else if (afterFraction? rest).any isExponent then some (.real (String.ofList lexeme))
    else none

def readNumber (text : List Char) : Option (Json × List Char) :=
  match span isNumeral text with
  | ('-' :: lexeme, rest) => (unsigned? ('-' :: lexeme) true lexeme).map (·, rest)
  | (lexeme, rest) => (unsigned? lexeme false lexeme).map (·, rest)

mutual

def readValue (fuel : Nat) (text : List Char) : Option (Json × List Char) :=
  match fuel with
  | 0 => none
  | fuel + 1 =>
    match skip blank text with
    | '"' :: rest => (readString [] rest).map (fun (value, rest) => (.string value, rest))
    | '[' :: rest =>
      match skip blank rest with
      | ']' :: rest => some (.array [], rest)
      | rest => readElements fuel [] rest
    | '\x7b' :: rest =>
      match skip blank rest with
      | '\x7d' :: rest => some (.object [], rest)
      | rest => readMembers fuel [] rest
    | 'n' :: rest => (after? ['u', 'l', 'l'] rest).map (.null, ·)
    | 't' :: rest => (after? ['r', 'u', 'e'] rest).map (.bool true, ·)
    | 'f' :: rest => (after? ['a', 'l', 's', 'e'] rest).map (.bool false, ·)
    | text => readNumber text

def readElements (fuel : Nat) (front : List Json) (text : List Char) : Option (Json × List Char) :=
  match fuel with
  | 0 => none
  | fuel + 1 =>
    match readValue fuel text with
    | none => none
    | some (value, rest) =>
      match skip blank rest with
      | ',' :: rest => readElements fuel (value :: front) rest
      | ']' :: rest => some (.array (value :: front).reverse, rest)
      | _ => none

def readMembers (fuel : Nat) (front : List (String × Json)) (text : List Char) :
    Option (Json × List Char) :=
  match fuel with
  | 0 => none
  | fuel + 1 =>
    match skip blank text with
    | '"' :: rest =>
      match readString [] rest with
      | none => none
      | some (key, rest) =>
        match skip blank rest with
        | ':' :: rest =>
          match readValue fuel rest with
          | none => none
          | some (value, rest) =>
            match skip blank rest with
            | ',' :: rest => readMembers fuel ((key, value) :: front) rest
            | '\x7d' :: rest => some (.object ((key, value) :: front).reverse, rest)
            | _ => none
        | _ => none
    | _ => none

end

def parse? (text : String) : Option Json :=
  let characters := text.toList
  match readValue (2 * characters.length + 2) characters with
  | some (value, rest) => if (skip blank rest).isEmpty then some value else none
  | none => none

end Json
end LightestFirst
