import LightestFirst.Status
import LightestFirst.Fault
-- A stream is a state together with the two calls that drive it. Everything a call can touch
-- besides the stream itself is its world: counters, gates, shared buffers, or nothing at all.
-- A call gives the state and the world back whether or not it was abandoned, so what a fault
-- leaves half done is on the page.
namespace LightestFirst

structure Machine (ω σ α : Type) where
  query : σ → ω → Attempt (Status α) × σ × ω
  advance : σ → ω → Attempt Unit × σ × ω

namespace Machine
variable {ω σ τ α β : Type}

@[inline] def within (put : σ → τ) (outcome : Attempt β × σ × ω) : Attempt β × τ × ω :=
  match outcome with
  | (result, state, world) => (result, put state, world)

end Machine
end LightestFirst
