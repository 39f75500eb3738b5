import LightestFirst.Machine
-- A stream that is built by the first call that reaches it, and never before. Building happens
-- at most once: a construction that is abandoned leaves `spent`, which refuses every later call.
-- Cyclic definitions unfold through this as far as somebody asks and no further.
namespace LightestFirst

inductive Postponed (τ σ : Type) where
  | waiting (thunk : τ)
  | forced (state : σ)
  | spent

namespace Postponed
variable {ω τ σ α β : Type}

def isForced : Postponed τ σ → Bool
  | .forced _ => true
  | _ => false

-- Runs `call` on the stream itself, building it first where that has not happened.
@[inline] def reach (build : τ → ω → Attempt σ × ω) (call : σ → ω → Attempt β × σ × ω)
    (state : Postponed τ σ) (world : ω) : Attempt β × Postponed τ σ × ω :=
  match state with
  | .forced inner => Machine.within .forced (call inner world)
  | .spent => (.error .unbuilt, .spent, world)
  | .waiting thunk =>
    match build thunk world with
    | (.error fault, world) => (.error fault, .spent, world)
    | (.ok inner, world) => Machine.within .forced (call inner world)

def machine (build : τ → ω → Attempt σ × ω) (inner : Machine ω σ α) :
    Machine ω (Postponed τ σ) α where
  query := reach build inner.query
  advance := reach build inner.advance

end Postponed
end LightestFirst
