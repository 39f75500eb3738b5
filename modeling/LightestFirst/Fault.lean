-- Why a call on a stream is abandoned. A fault stops the call that meets it and nothing else:
-- the state it leaves behind is a state like any other, and later calls go on from there.
namespace LightestFirst

-- The streams that refuse an `advance` nobody has earned by a `ready` answer.
inductive Operation where
  | empty
  | single
  | iterated
  | mapped
  | reader
  | merged
  | paired
deriving DecidableEq, Repr

def Operation.label : Operation → String
  | .empty => "Empty::advance"
  | .single => "Single::advance"
  | .iterated => "FromIter::advance"
  | .mapped => "Map::advance"
  | .reader => "View::advance"
  | .merged => "Union::advance"
  | .paired => "Product::advance"

inductive Fault where
  -- `advance` without a `ready` answer since the last one
  | violation (operation : Operation)
  -- a map function refuses the element of this weight
  | refusedItem (weight : Int)
  -- a map function refuses its call of this number
  | refusedCall (call : Nat)
  -- a postponed stream whose construction was itself abandoned
  | unbuilt
  | noHandle (name : String)
  -- the handle stands for something that has no such call
  | unfit (name : String)
  | noMultiplexer (name : String)
  | noDefinition (name : String)
  -- the stream is nested more deeply than its driver follows it
  | tooDeep
deriving DecidableEq, Repr

def Fault.message : Fault → String
  | .violation operation => operation.label ++ " called without a preceding Ready observation"
  | .refusedItem weight => "map refused " ++ toString weight
  | .refusedCall call => "map refused call " ++ toString call
  | .unbuilt => "internal error: entered unreachable code: deferred stream has no constructor left"
  | .noHandle name => "no handle '" ++ name ++ "'"
  | .unfit name => "handle '" ++ name ++ "' has no such call"
  | .noMultiplexer name => "no multiplexer '" ++ name ++ "'"
  | .noDefinition name => "no definition '" ++ name ++ "'"
  | .tooDeep => "streams are nested too deeply"

abbrev Attempt (β : Type) := Except Fault β

end LightestFirst
