import LightestFirst.Datum
import LightestFirst.Toml.Layout
import LightestFirst.Text.Scan
-- TOML values written without quotes: numbers, truth values and points in time. A number is read
-- in two steps. Here only its form is looked at, and loosely: a form that an integer may have but
-- that stands for none, such as a base without digits, is a value, of no use to anybody.
namespace LightestFirst
namespace Toml
open Text

-- Takes the underscores out. Each stands in front of a digit and behind one; `behind` tells whether
-- a digit comes before the text.
def ungrouped? (isDigit : Char → Bool) (behind : Bool) : List Char → Option (List Char)
  | [] => some []
  | c :: rest =>
    if c = '_' then
      if behind && rest.head?.any isDigit then ungrouped? isDigit false rest else none
    else (ungrouped? isDigit (isDigit c) rest).map (c :: ·)

def integer (negative : Bool) (base : Nat) (digits : List Char) : Datum :=
  if digits.isEmpty || !digits.all (isDigit base) then .other
  else match numberBelow? UInt64.size base digits with
    | none => .other
    | some value => .integer (if negative then -(value : Int) else value)

def based? (base : Nat) (digits : List Char) : Option Datum :=
  if digits.all (fun c => isDigit base c || c = '_') then
    (ungrouped? (isDigit base) false digits).map (integer false base)
  else none

def digitRun (text : List Char) : List Char × List Char := span (fun c => isDigit 10 c || c = '_') text

-- A run with digits in it. In front of the point there is no zero before another digit.
def isRun (wholes : Bool) (run : List Char) : Bool :=
  run.any (isDigit 10) && !(wholes && run.head? = some '0' && 1 < (run.filter (isDigit 10)).length)

def unsigned : List Char → List Char
  | '-' :: rest => rest
  | '+' :: rest => rest
  | text => text

def isExponent : List Char → Bool
  | [] => true
  | c :: rest =>
    match digitRun (unsigned rest) with
    | (run, rest) => (c = 'e' || c = 'E') && isRun false run && rest.isEmpty

-- Digits, a fraction and an exponent, underscores not looked at.
def isFloat (text : List Char) : Bool :=
  match digitRun text with
  | (whole, '.' :: rest) =>
    match digitRun rest with
    | (fraction, rest) => isRun true whole && isRun false fraction && isExponent rest
  | (whole, rest) => isRun true whole && isExponent rest

def twoDigits (low high : Nat) (tens units : Char) : Bool :=
  [tens, units].all (isDigit 10) && low ≤ number 10 [tens, units] && number 10 [tens, units] ≤ high

def daysIn (year month : Nat) : Nat :=
  if month = 2 then
    if year % 4 = 0 ∧ (year % 100 ≠ 0 ∨ year % 400 = 0) then 29 else 28
  else if month = 4 ∨ month = 6 ∨ month = 9 ∨ month = 11 then 30
  else 31

def afterDate? : List Char → Option (List Char)
  | a :: b :: c :: d :: '-' :: e :: f :: '-' :: g :: h :: rest =>
    if [a, b, c, d].all (isDigit 10) && twoDigits 1 12 e f &&
        twoDigits 1 (daysIn (number 10 [a, b, c, d]) (number 10 [e, f])) g h then some rest
    else none
  | _ => none

-- What follows a time of day in front. The seconds may be left out, and may have a fraction.
def afterTime? : List Char → Option (List Char)
  | a :: b :: ':' :: c :: d :: rest =>
    if twoDigits 0 23 a b && twoDigits 0 59 c d then
      match rest with
      | ':' :: e :: f :: rest =>
        if twoDigits 0 60 e f then
          match rest with
          | '.' :: rest =>
            match span (isDigit 10) rest with
            | ([], _) => none
            | (_, rest) => some rest
          | rest => some rest
        else none
      | rest => some rest
    else none
  | _ => none

def isOffset : List Char → Bool
  | [] => true
  | ['Z'] => true
  | ['z'] => true
  | [sign, a, b, ':', c, d] => (sign = '+' || sign = '-') && twoDigits 0 23 a b && twoDigits 0 59 c d
  | _ => false

def isMoment (text : List Char) : Bool :=
  match afterDate? text with
  | some [] => true
  | some (mark :: rest) =>
    (mark = 'T' || mark = 't' || mark = ' ') && (afterTime? rest).any isOffset
  | none => afterTime? text = some []

-- A value that starts with a digit, its sign taken off. Behind the first underscore of an integer
-- any digit of any base passes for one.
def numeral? (signed negative : Bool) (text : List Char) : Option Datum :=
  match span (isDigit 10) text with
  | ([], _) => none
  | (digits, []) =>
    if digits.head? = some '0' && 1 < digits.length then none
    else some (integer negative 10 digits)
  | (_, mark :: rest) =>
    if mark = '-' || mark = ':' then if !signed && isMoment text then some .other else none
    else if (mark :: rest).contains ' ' then none
    else if (mark :: rest).any (fun c => c = '.' || c = 'e' || c = 'E') then
      if isFloat text then (ungrouped? (isDigit 10) false text).map (fun _ => .other) else none
    else if mark = '_' && text.head? ≠ some '0' then
      (ungrouped? (isDigit 16) false text).map (integer negative 10)
    else none

def plain? : List Char → Option Datum
  | ['t', 'r', 'u', 'e'] => some .other
  | ['f', 'a', 'l', 's', 'e'] => some .other
  | '0' :: 'x' :: digits => based? 16 digits
  | '0' :: 'o' :: digits => based? 8 digits
  | '0' :: 'b' :: digits => based? 2 digits
  | text =>
    if unsigned text = ['i', 'n', 'f'] || unsigned text = ['n', 'a', 'n'] then some .other
    else match text with
      | '-' :: rest => numeral? true true rest
      | '+' :: rest => numeral? true false rest
      | text => numeral? false false text

-- Whether a character ends a word wherever it stands. A quote does so only in front of one.
def isDelimiter (c : Char) : Bool := ['=', ',', '[', ']', '\x7b', '\x7d', '#', '\r', '\n'].contains c

def isQuote (c : Char) : Bool := c = '"' || c = '\''

def startsWord : List Char → Bool
  | [] => false
  | c :: _ => !(isDelimiter c || isQuote c || isSpace c || c = '.')

-- Where in a value the reader stands: in front of a word, in one, or in blanks with a word behind.
inductive Spot where
  | edge
  | word
  | gap
deriving DecidableEq

-- The words in front, with the dots and the blanks between them; blanks that no word follows are
-- left.
def valueOnto (spot : Spot) (front : List Char) : List Char → List Char × List Char
  | [] => (front.reverse, [])
  | c :: rest =>
    if isSpace c then
      if spot = .gap || startsWord (skip isSpace rest) then valueOnto .gap (c :: front) rest
      else (front.reverse, c :: rest)
    else if c = '.' then valueOnto .edge (c :: front) rest
    else if isDelimiter c || (isQuote c && spot ≠ .word) then (front.reverse, c :: rest)
    else valueOnto .word (c :: front) rest

def plain (text : List Char) : Option (Datum × List Char) :=
  match valueOnto .edge [] text with
  | (word, rest) => (plain? word).map (·, rest)

end Toml
end LightestFirst
