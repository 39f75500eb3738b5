-- What a grammar derives: a line of terminals, and the weight of all the rules it took. Weights are
-- words that stop at the largest one.
namespace LightestFirst

abbrev Weight := UInt64

namespace Weight

def largest : Weight := 0xFFFFFFFFFFFFFFFF

def plus (x y : Weight) : Weight := if x.toNat + y.toNat < UInt64.size then x + y else largest

theorem toNat_plus (x y : Weight) : (plus x y).toNat = min (x.toNat + y.toNat) (UInt64.size - 1) := by
  unfold plus
  split
  · next inside => rw [UInt64.toNat_add, Nat.mod_eq_of_lt inside]; omega
  · have : largest.toNat = UInt64.size - 1 := rfl
    omega

end Weight

structure Derivation where
  weight : Weight
  tokens : List String
deriving DecidableEq, Repr

namespace Derivation

def epsilon : Derivation := ⟨0, []⟩

def terminal (token : String) : Derivation := ⟨0, [token]⟩

def text (derivation : Derivation) : String := " ".intercalate derivation.tokens

def le (x y : Derivation) : Bool := x.weight ≤ y.weight

def join (x y : Derivation) : Derivation := ⟨Weight.plus x.weight y.weight, x.tokens ++ y.tokens⟩

def heavier (weight : Weight) (derivation : Derivation) : Derivation :=
  { derivation with weight := Weight.plus derivation.weight weight }

end Derivation
end LightestFirst
