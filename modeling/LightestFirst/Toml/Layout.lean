-- What stands between the parts of a TOML text: blanks, line ends and comments.
namespace LightestFirst
namespace Toml

def isSpace (c : Char) : Bool := c = ' ' || c = '\t'

-- Anything but the control characters; of those only the tab.
def isPrintable (c : Char) : Bool := c = '\t' || (32 ≤ c.toNat && c.toNat ≠ 127)

-- Skips blanks, line ends and comments. A carriage return belongs to a line end or to nothing.
def filler (inComment : Bool) : List Char → Option (List Char)
  | [] => some []
  | '\n' :: rest => filler false rest
  | '\r' :: '\n' :: rest => filler false rest
  | c :: rest =>
    if inComment then if isPrintable c then filler true rest else none
    else if isSpace c then filler false rest
    else if c = '#' then filler true rest
    else some (c :: rest)

def atLineEnd : List Char → Bool
  | [] => true
  | '\n' :: _ => true
  | '\r' :: '\n' :: _ => true
  | '#' :: _ => true
  | _ => false

end Toml
end LightestFirst
