import LightestFirst.Toml.Layout
import LightestFirst.Text.Scan
-- Quoted strings of a TOML text, and the keys that are made of them and of bare words. Every reader
-- hands back the characters it has left, or `none` where the text is no TOML.
namespace LightestFirst
namespace Toml
open Text

def plainEscape? (c : Char) : Option Char :=
  if c = 'b' then some (Char.ofNat 8)
  else if c = 't' then some '\t'
  else if c = 'n' then some '\n'
  else if c = 'f' then some (Char.ofNat 12)
  else if c = 'r' then some '\r'
  else if c = 'e' then some (Char.ofNat 27)
  else if c = '"' then some '"'
  else if c = '\\' then some '\\'
  else none

def coded? (digits : List Char) : Option Char :=
  if digits.all (isDigit 16) then character? (number 16 digits) else none

def basic (front : List Char) : List Char → Option (String × List Char)
  | [] => none
  | '"' :: rest => some (String.ofList front.reverse, rest)
  | '\\' :: 'x' :: a :: b :: rest =>
    match coded? [a, b] with
    | none => none
    | some c => basic (c :: front) rest
  | '\\' :: 'u' :: a :: b :: c :: d :: rest =>
    match coded? [a, b, c, d] with
    | none => none
    | some c => basic (c :: front) rest
  | '\\' :: 'U' :: a :: b :: c :: d :: e :: f :: g :: h :: rest =>
    match coded? [a, b, c, d, e, f, g, h] with
    | none => none
    | some c => basic (c :: front) rest
  | '\\' :: c :: rest =>
    match plainEscape? c with
    | none => none
    | some c => basic (c :: front) rest
  | c :: rest => if isPrintable c && c ≠ '\\' then basic (c :: front) rest else none

def literal (front : List Char) : List Char → Option (String × List Char)
  | [] => none
  | '\'' :: rest => some (String.ofList front.reverse, rest)
  | c :: rest => if isPrintable c then literal (c :: front) rest else none

-- The line end right behind the opening quotes is no part of the string.
def dropFirstLineEnd : List Char → List Char
  | '\n' :: rest => rest
  | '\r' :: '\n' :: rest => rest
  | text => text

-- Where in a long string the reader stands: in its text, behind a backslash that ends a line, or
-- in the blank lines that such a backslash takes away.
inductive Place where
  | inText
  | beforeLineEnd
  | inGap
deriving DecidableEq

-- A string in three double quotes. Up to two quotes more than the closing three belong to it.
def longBasic (place : Place) (front : List Char) : List Char → Option (String × List Char)
  | [] => none
  | '\n' :: rest =>
    match place with
    | .inText => longBasic .inText ('\n' :: front) rest
    | _ => longBasic .inGap front rest
  | '\r' :: '\n' :: rest =>
    match place with
    | .inText => longBasic .inText ('\n' :: '\r' :: front) rest
    | _ => longBasic .inGap front rest
  | c :: rest =>
    if isSpace c && place ≠ .inText then longBasic place front rest
    else if place = .beforeLineEnd then none
    else match c, rest with
      | '"', '"' :: '"' :: '"' :: '"' :: rest =>
        some (String.ofList (('"' :: '"' :: front).reverse), rest)
      | '"', '"' :: '"' :: '"' :: rest => some (String.ofList (('"' :: front).reverse), rest)
      | '"', '"' :: '"' :: rest => some (String.ofList front.reverse, rest)
      | '\\', 'x' :: a :: b :: rest =>
        match coded? [a, b] with
        | none => none
        | some c => longBasic .inText (c :: front) rest
      | '\\', 'u' :: a :: b :: c :: d :: rest =>
        match coded? [a, b, c, d] with
        | none => none
        | some c => longBasic .inText (c :: front) rest
      | '\\', 'U' :: a :: b :: c :: d :: e :: f :: g :: h :: rest =>
        match coded? [a, b, c, d, e, f, g, h] with
        | none => none
        | some c => longBasic .inText (c :: front) rest
      | '\\', next :: rest =>
        if isSpace next || next = '\n' then longBasic .beforeLineEnd front (next :: rest)
        else if next = '\r' then longBasic .beforeLineEnd front ('\r' :: rest)
        else match plainEscape? next with
          | none => none
          | some c => longBasic .inText (c :: front) rest
      | c, rest => if isPrintable c && c ≠ '\\' then longBasic .inText (c :: front) rest else none

-- A string in three single quotes, with the same room for two more at its end.
def longLiteral (front : List Char) : List Char → Option (String × List Char)
  | [] => none
  | '\'' :: '\'' :: '\'' :: '\'' :: '\'' :: rest =>
    some (String.ofList (('\'' :: '\'' :: front).reverse), rest)
  | '\'' :: '\'' :: '\'' :: '\'' :: rest => some (String.ofList (('\'' :: front).reverse), rest)
  | '\'' :: '\'' :: '\'' :: rest => some (String.ofList front.reverse, rest)
  | '\n' :: rest => longLiteral ('\n' :: front) rest
  | '\r' :: '\n' :: rest => longLiteral ('\n' :: '\r' :: front) rest
  | c :: rest => if isPrintable c then longLiteral (c :: front) rest else none

def isBare (c : Char) : Bool := c.isAlphanum || c = '_' || c = '-'

def keyPart : List Char → Option (String × List Char)
  | '"' :: rest => basic [] rest
  | '\'' :: rest => literal [] rest
  | text =>
    match span isBare text with
    | ([], _) => none
    | (name, rest) => some (String.ofList name, rest)

def mostParts : Nat := 80

def key (fuel : Nat) (front : List String) (text : List Char) : Option (List String × List Char) :=
  match fuel with
  | 0 => none
  | fuel + 1 =>
    match keyPart text with
    | none => none
    | some (name, rest) =>
      if mostParts ≤ front.length then none
      else
        match skip isSpace rest with
        | '.' :: rest => key fuel (name :: front) (skip isSpace rest)
        | rest => some ((name :: front).reverse, rest)

end Toml
end LightestFirst
