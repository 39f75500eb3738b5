import LightestFirst.Machine
-- Every element of a stream sent through a function. A stable answer is kept until it is
-- consumed, so the function meets an element once however often its position is asked for.
-- The function may act on the world and may refuse; a refusal keeps nothing, and the next query
-- meets the same element again. It is told the number of its call, counted from 1.
namespace LightestFirst

structure Mapped (σ β : Type) where
  inner : σ
  cached : Option (Status β)
  calls : Nat

namespace Mapped
variable {ω σ α β : Type}

def start (inner : σ) : Mapped σ β := ⟨inner, none, 0⟩

def query (source : Machine ω σ α) (f : Nat → α → ω → Attempt β × ω)
    (state : Mapped σ β) (world : ω) : Attempt (Status β) × Mapped σ β × ω :=
  match state with
  | ⟨inner, some status, calls⟩ => (.ok status, ⟨inner, some status, calls⟩, world)
  | ⟨inner, none, calls⟩ =>
    match source.query inner world with
    | (.error fault, inner, world) => (.error fault, ⟨inner, none, calls⟩, world)
    | (.ok .pending, inner, world) => (.ok .pending, ⟨inner, none, calls⟩, world)
    | (.ok .ended, inner, world) => (.ok .ended, ⟨inner, some .ended, calls⟩, world)
    | (.ok (.ready value), inner, world) =>
      match f (calls + 1) value world with
      | (.error fault, world) => (.error fault, ⟨inner, none, calls + 1⟩, world)
      | (.ok image, world) => (.ok (.ready image), ⟨inner, some (.ready image), calls + 1⟩, world)

def advance (source : Machine ω σ α) (state : Mapped σ β) (world : ω) :
    Attempt Unit × Mapped σ β × ω :=
  match state with
  | ⟨inner, some (.ready _), calls⟩ =>
    Machine.within (fun inner => ⟨inner, none, calls⟩) (source.advance inner world)
  | state => (.error (.violation .mapped), state, world)

def machine (source : Machine ω σ α) (f : Nat → α → ω → Attempt β × ω) :
    Machine ω (Mapped σ β) β :=
  ⟨query source f, advance source⟩

def plainly (f : α → β) (_ : Nat) (value : α) (world : ω) : Attempt β × ω := (.ok (f value), world)

end Mapped
end LightestFirst
