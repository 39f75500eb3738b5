import LightestFirst.Machine
-- Streams that read no other stream: nothing, one element, the answers of an iterator.
namespace LightestFirst
variable {ω σ α : Type}

namespace Empty

def machine : Machine ω Unit α where
  query _ world := (.ok .ended, (), world)
  advance _ world := (.error (.violation .empty), (), world)

end Empty

structure Single (α : Type) where
  held : Option α

namespace Single

def holding (value : α) : Single α := ⟨some value⟩

def query (state : Single α) (world : ω) : Attempt (Status α) × Single α × ω :=
  match state.held with
  | some value => (.ok (.ready value), state, world)
  | none => (.ok .ended, state, world)

def advance (state : Single α) (world : ω) : Attempt Unit × Single α × ω :=
  match state.held with
  | some _ => (.ok (), ⟨none⟩, world)
  | none => (.error (.violation .single), state, world)

def machine : Machine ω (Single α) α := ⟨query, advance⟩

end Single

-- `head` is the iterator's last answer, kept until the element in it is consumed. An answer of
-- `none` is never consumed, so an iterator that has said `none` once is not asked again.
structure Iterated (ι α : Type) where
  iterator : ι
  head : Option (Option α)

namespace Iterated
variable {ι : Type} (next : ι → ω → Option α × ι × ω)

def start (iterator : ι) : Iterated ι α := ⟨iterator, none⟩

def answer : Option α → Status α
  | some value => .ready value
  | none => .ended

def query (state : Iterated ι α) (world : ω) : Attempt (Status α) × Iterated ι α × ω :=
  match state with
  | ⟨iterator, some head⟩ => (.ok (answer head), ⟨iterator, some head⟩, world)
  | ⟨iterator, none⟩ =>
    match next iterator world with
    | (head, iterator, world) => (.ok (answer head), ⟨iterator, some head⟩, world)

def advance (state : Iterated ι α) (world : ω) : Attempt Unit × Iterated ι α × ω :=
  match state.head with
  | some (some _) => (.ok (), ⟨state.iterator, none⟩, world)
  | _ => (.error (.violation .iterated), state, world)

def machine : Machine ω (Iterated ι α) α := ⟨query next, advance⟩

end Iterated

end LightestFirst
