import LightestFirst.Machine
-- A stream read by taking: the answer is asked for and consumed in one call. A stable answer is
-- kept between being looked at and being taken; a pending one is not.
namespace LightestFirst

inductive Shortage where
  | exhausted
  | pending
deriving DecidableEq, Repr

def Shortage.message : Shortage → String
  | .exhausted => "stream has ended; no element to take"
  | .pending => "stream is pending; no element is available yet"

structure Iteration (σ α : Type) where
  stream : σ
  peeked : Option (Status α)

namespace Iteration
variable {ω σ α : Type} (machine : Machine ω σ α)

def start (stream : σ) : Iteration σ α := ⟨stream, none⟩

def peek (state : Iteration σ α) (world : ω) : Attempt (Status α) × Iteration σ α × ω :=
  match state with
  | ⟨stream, some status⟩ => (.ok status, ⟨stream, some status⟩, world)
  | ⟨stream, none⟩ =>
    match machine.query stream world with
    | (.error fault, stream, world) => (.error fault, ⟨stream, none⟩, world)
    | (.ok status, stream, world) =>
      (.ok status, ⟨stream, if status.isStable then some status else none⟩, world)

-- The element is given up as looked at before the stream moves past it.
def takeNext (state : Iteration σ α) (world : ω) :
    Attempt (Except Shortage α) × Iteration σ α × ω :=
  match peek machine state world with
  | (.error fault, state, world) => (.error fault, state, world)
  | (.ok .ended, state, world) => (.ok (.error .exhausted), state, world)
  | (.ok .pending, state, world) => (.ok (.error .pending), state, world)
  | (.ok (.ready value), ⟨stream, _⟩, world) =>
    match machine.advance stream world with
    | (.error fault, stream, world) => (.error fault, ⟨stream, none⟩, world)
    | (.ok (), stream, world) => (.ok (.ok value), ⟨stream, none⟩, world)

-- Takes up to `limit` elements onto those already taken, newest first, and says what stopped it
-- short of the limit.
def takeOnto (taken : List α) (limit : Nat) (state : Iteration σ α) (world : ω) :
    Attempt (List α × Option Shortage) × Iteration σ α × ω :=
  match limit with
  | 0 => (.ok (taken.reverse, none), state, world)
  | limit + 1 =>
    match takeNext machine state world with
    | (.error fault, state, world) => (.error fault, state, world)
    | (.ok (.error shortage), state, world) => (.ok (taken.reverse, some shortage), state, world)
    | (.ok (.ok value), state, world) => takeOnto (value :: taken) limit state world

def take (limit : Nat) (state : Iteration σ α) (world : ω) :
    Attempt (List α × Option Shortage) × Iteration σ α × ω :=
  takeOnto machine [] limit state world

end Iteration
end LightestFirst
