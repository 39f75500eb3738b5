import LightestFirst.Network.Session
import LightestFirst.Item
import LightestFirst.Grammar.Enumeration
-- The functions that networks of items are made with, and items read as derivations.
namespace LightestFirst

inductive Transform where
  | same
  | add (amount : Int64)
  | multiply (factor : Int64)
  | tag (suffix : String)
  | const (item : Item)
  -- the same item, counted under this name
  | count (name : String)
  -- the same item, refused at this weight
  | refuseWeight (weight : Int64)
  -- the same item, refused at the call of this number
  | refuseCall (call : Nat)
deriving DecidableEq, Repr

def Transform.action : Transform → Action Item
  | .same, _, item, ledger => (.ok item, ledger)
  | .add amount, _, item, ledger => (.ok { item with weight := Item.satAdd item.weight amount }, ledger)
  | .multiply factor, _, item, ledger =>
    (.ok { item with weight := Item.satMul item.weight factor }, ledger)
  | .tag suffix, _, item, ledger => (.ok { item with text := item.text ++ suffix }, ledger)
  | .const constant, _, _, ledger => (.ok constant, ledger)
  | .count name, _, item, ledger => (.ok item, ledger.tally name)
  | .refuseWeight weight, _, item, ledger =>
    (if item.weight = weight then .error (.refusedItem weight.toInt) else .ok item, ledger)
  | .refuseCall refused, call, item, ledger =>
    (if call = refused then .error (.refusedCall refused) else .ok item, ledger)

def ItemOrder.joinCounter : String := "join"

def ItemOrder.joinAction? (order : ItemOrder) : Option (JoinAction Item) :=
  order.join?.map (fun join x y ledger =>
    (.ok (join x y), if order.counted then ledger.tally joinCounter else ledger))

namespace Item

def derivation (item : Item) : Derivation :=
  ⟨UInt64.ofNat item.weight.toInt.toNat, Text.words item.text⟩

def takeDerivations (recipe : Recipe Item) (limit : Nat) : Except GrammarError (List Derivation) :=
  match recipe.build 0 Network.blank with
  | (.error cause, _) => .error (.abandoned cause)
  | (.ok stream, network) =>
    Grammar.ofTaken (Iteration.take
      (Mapped.machine (Stream.machine [] Session.levels) (Mapped.plainly derivation))
      limit (.start (.start stream)) network).1

end Item
end LightestFirst
