import LightestFirst.Source
import LightestFirst.Postponed
import LightestFirst.Merged
import LightestFirst.Paired
import LightestFirst.Iteration
-- A stream with its machine and its state, of whatever type that is. Put together from these, a
-- stream needs no common type of states, and its depth no bound.
namespace LightestFirst

structure Flow (ω α : Type) : Type 1 where
  State : Type
  machine : Machine ω State α
  state : State

namespace Flow
variable {ω α : Type}

def query (flow : Flow ω α) (world : ω) : Attempt (Status α) × Flow ω α × ω :=
  match flow.machine.query flow.state world with
  | (result, state, world) => (result, { flow with state }, world)

def advance (flow : Flow ω α) (world : ω) : Attempt Unit × Flow ω α × ω :=
  match flow.machine.advance flow.state world with
  | (result, state, world) => (result, { flow with state }, world)

def take (limit : Nat) (flow : Flow ω α) (world : ω) :
    Attempt (List α × Option Shortage) × Flow ω α × ω :=
  match Iteration.take flow.machine limit (.start flow.state) world with
  | (result, iteration, world) => (result, { flow with state := iteration.stream }, world)

def empty : Flow ω α := ⟨Unit, Empty.machine, ()⟩

def single (value : α) : Flow ω α := ⟨Single α, Single.machine, .holding value⟩

def mapped (f : α → α) (inner : Flow ω α) : Flow ω α :=
  ⟨Mapped inner.State α, Mapped.machine inner.machine (Mapped.plainly f), .start inner.state⟩

def merged (le : α → α → Bool) (left right : Flow ω α) : Flow ω α :=
  ⟨Merged left.State right.State α, Merged.machine left.machine right.machine le,
    .of left.state right.state⟩

def mergedAll (le : α → α → Bool) : List (Flow ω α) → Flow ω α
  | [] => empty
  | [only] => only
  | first :: rest => merged le first (mergedAll le rest)

def paired (le : α → α → Bool) (join : α → α → α) (left right : Flow ω α) : Flow ω α :=
  ⟨Paired left.State right.State α,
    Paired.machine left.machine right.machine le (Paired.plainly join), .of left.state right.state⟩

-- Neither the stream nor its machine is made before the first call asks for them.
def deferred (later : Thunk (Flow ω α)) : Flow ω α where
  State := Postponed Unit later.get.State
  machine :=
    { query := fun state world =>
        Postponed.reach (fun _ world => (.ok later.get.state, world)) later.get.machine.query state world
      advance := fun state world =>
        Postponed.reach (fun _ world => (.ok later.get.state, world)) later.get.machine.advance state world }
  state := .waiting ()

end Flow
end LightestFirst
