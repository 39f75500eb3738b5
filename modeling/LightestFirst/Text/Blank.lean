-- The blank characters: those that count as white space in every script.
namespace LightestFirst
namespace Text

def blankRanges : List (Nat × Nat) :=
  [(0x0009, 0x000D), (0x0020, 0x0020), (0x0085, 0x0085), (0x00A0, 0x00A0), (0x1680, 0x1680),
    (0x2000, 0x200A), (0x2028, 0x2029), (0x202F, 0x202F), (0x205F, 0x205F), (0x3000, 0x3000)]

def isBlank (c : Char) : Bool :=
  blankRanges.any (fun (first, last) => first ≤ c.toNat && c.toNat ≤ last)

def allBlank (text : String) : Bool := text.toList.all isBlank

-- Cuts a text at its blanks; `front` holds the piece under way, reversed.
def piecesFrom (front : List Char) : List Char → List (List Char)
  | [] => [front.reverse]
  | c :: rest => if isBlank c then front.reverse :: piecesFrom [] rest else piecesFrom (c :: front) rest

def words (text : String) : List String :=
  ((piecesFrom [] text.toList).filter (!·.isEmpty)).map String.ofList

end Text
end LightestFirst
