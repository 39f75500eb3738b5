import LightestFirst.Toml.Quoted
import LightestFirst.Toml.Plain
import LightestFirst.Toml.Tree
-- Reading a TOML document. Fuel is counted in characters: every value, element and statement uses
-- up at least one. Arrays and inline tables may be nested so many levels deep and no deeper.
namespace LightestFirst
namespace Toml
open Text

def deepest : Nat := 80

-- The key of a pair in an inline table and what follows its equals sign, with lines between them.
def pairStart (fuel : Nat) (text : List Char) : Option (List String × List Char) :=
  match key fuel [] text with
  | none => none
  | some (path, rest) =>
    match filler false rest with
    | some ('=' :: rest) => (filler false rest).map (path, ·)
    | _ => none

mutual

def value (fuel depth : Nat) (text : List Char) : Option (Datum × List Char) :=
  match fuel with
  | 0 => none
  | fuel + 1 =>
    match text with
    | '"' :: '"' :: '"' :: rest =>
      (longBasic .inText [] (dropFirstLineEnd rest)).map (fun (text, rest) => (.text text, rest))
    | '"' :: rest => (basic [] rest).map (fun (text, rest) => (.text text, rest))
    | '\'' :: '\'' :: '\'' :: rest =>
      (longLiteral [] (dropFirstLineEnd rest)).map (fun (text, rest) => (.text text, rest))
    | '\'' :: rest => (literal [] rest).map (fun (text, rest) => (.text text, rest))
    | '[' :: rest => if depth = 0 then none else elements fuel (depth - 1) [] rest
    | '\x7b' :: rest => if depth = 0 then none else pairs fuel (depth - 1) [] rest
    | text => plain text

def elements (fuel depth : Nat) (front : List Datum) (text : List Char) :
    Option (Datum × List Char) :=
  match fuel with
  | 0 => none
  | fuel + 1 =>
    match filler false text with
    | none => none
    | some (']' :: rest) => some (.list front.reverse, rest)
    | some text =>
      match value fuel depth text with
      | none => none
      | some (element, rest) =>
        match filler false rest with
        | some (',' :: rest) => elements fuel depth (element :: front) rest
        | some (']' :: rest) => some (.list (element :: front).reverse, rest)
        | _ => none

def pairs (fuel depth : Nat) (front : Entries) (text : List Char) : Option (Datum × List Char) :=
  match fuel with
  | 0 => none
  | fuel + 1 =>
    match filler false text with
    | none => none
    | some ('\x7d' :: rest) => some (.record (closeAll front), rest)
    | some text =>
      match pairStart fuel text with
      | none => none
      | some (path, rest) =>
        match value fuel depth rest with
        | none => none
        | some (held, rest) =>
          match insert held path front, filler false rest with
          | some front, some (',' :: rest) => pairs fuel depth front rest
          | some front, some ('\x7d' :: rest) => some (.record (closeAll front), rest)
          | _, _ => none

end

-- The document under way: its table, and the header that statements are under now.
structure Draft where
  root : Entries
  header : List String

def statement (fuel : Nat) (draft : Draft) (text : List Char) : Option (Draft × List Char) :=
  match text with
  | '[' :: '[' :: rest =>
    match key fuel [] (skip isSpace rest) with
    | some (path, ']' :: ']' :: rest) => (openElement path draft.root).map (⟨·, path⟩, rest)
    | _ => none
  | '[' :: rest =>
    match key fuel [] (skip isSpace rest) with
    | some (path, ']' :: rest) => (openTable path draft.root).map (⟨·, path⟩, rest)
    | _ => none
  | text =>
    match key fuel [] text with
    | some (path, '=' :: rest) =>
      match value fuel deepest (skip isSpace rest) with
      | none => none
      | some (held, rest) =>
        (change (insert held path) draft.header draft.root).map (⟨·, draft.header⟩, rest)
    | _ => none

def statements (fuel : Nat) (draft : Draft) (text : List Char) : Option Entries :=
  match fuel with
  | 0 => none
  | fuel + 1 =>
    match filler false text with
    | none => none
    | some [] => some draft.root
    | some text =>
      match statement fuel draft text with
      | none => none
      | some (draft, rest) =>
        let rest := skip isSpace rest
        if atLineEnd rest then statements fuel draft rest else none

def byteOrderMark : Char := Char.ofNat 0xFEFF

def parse? (text : String) : Option (List (String × Datum)) :=
  let characters := match text.toList with
    | [] => []
    | c :: rest => if c = byteOrderMark then rest else c :: rest
  (statements (2 * characters.length + 2) ⟨[], []⟩ characters).map closeAll

end Toml
end LightestFirst
