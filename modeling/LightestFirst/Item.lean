import LightestFirst.Machine
-- The elements that sessions work on: a weight and a text. Weights are signed words whose
-- arithmetic stops at the ends of the range.
namespace LightestFirst

structure Item where
  weight : Int64
  text : String
deriving DecidableEq, Repr

namespace Item

def saturate (value : Int) : Int64 := Int64.ofIntClamp value

def satAdd (x y : Int64) : Int64 := saturate (x.toInt + y.toInt)

def satMul (x y : Int64) : Int64 := saturate (x.toInt * y.toInt)

-- By weight, then by text in the order of its code points, which is the order of its bytes.
def le (x y : Item) : Bool :=
  x.weight < y.weight || (x.weight == y.weight && x.text ≤ y.text)

def add (x y : Item) : Item := ⟨satAdd x.weight y.weight, x.text ++ y.text⟩

def progression (first step : Int64) (place : Nat) : Item :=
  ⟨satAdd first (satMul step (saturate place)), ""⟩

end Item

inductive Comparison where
  | weightUp
  | weightDown
  | weightBelow
  | textUp
  | always
  | never
deriving DecidableEq, Repr

def Comparison.le : Comparison → Item → Item → Bool
  | .weightUp, x, y => x.weight ≤ y.weight
  | .weightDown, x, y => y.weight ≤ x.weight
  | .weightBelow, x, y => x.weight < y.weight
  | .textUp, x, y => x.text ≤ y.text
  | .always, _, _ => true
  | .never, _, _ => false

inductive Joining where
  | sum
  | max
  | min
  | product
  | left
  | right
deriving DecidableEq, Repr

def Joining.join : Joining → Item → Item → Item
  | .sum, x, y => x.add y
  | .max, x, y => ⟨if x.weight ≤ y.weight then y.weight else x.weight, x.text ++ y.text⟩
  | .min, x, y => ⟨if x.weight ≤ y.weight then x.weight else y.weight, x.text ++ y.text⟩
  | .product, x, y => ⟨Item.satMul x.weight y.weight, x.text ++ y.text⟩
  | .left, x, _ => x
  | .right, _, y => y

-- An ordering for items, with a join where it has one.
inductive ItemOrder where
  | natural
  | additive
  | byWeight
  | byText
  | byLength
  | assembled (comparison : Comparison) (joining : Joining)
  | shared (order : ItemOrder)
deriving DecidableEq, Repr

namespace ItemOrder

def le : ItemOrder → Item → Item → Bool
  | .natural, x, y => x.le y
  | .additive, x, y => x.le y
  | .byWeight, x, y => x.weight ≤ y.weight
  | .byText, x, y => x.text ≤ y.text
  | .byLength, x, y => x.text.length ≤ y.text.length
  | .assembled comparison _, x, y => comparison.le x y
  | .shared order, x, y => order.le x y

def join? : ItemOrder → Option (Item → Item → Item)
  | .natural => none
  | .additive => some Item.add
  | .byWeight => none
  | .byText => none
  | .byLength => none
  | .assembled _ joining => some joining.join
  | .shared order => order.join?

-- Joins of an assembled ordering are counted where they are called.
def counted : ItemOrder → Bool
  | .assembled _ _ => true
  | .shared order => order.counted
  | _ => false

end ItemOrder
end LightestFirst
