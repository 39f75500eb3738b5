import LightestFirst.Machine
-- Streams that stand in front of another one and change nothing about its elements: they count
-- the calls, hold answers back, or read something else first.
namespace LightestFirst
variable {ω σ τ α : Type}

namespace Probed

-- Tells the world of every call before it is passed on.
def machine (onQuery onAdvance : ω → ω) (inner : Machine ω σ α) : Machine ω σ α where
  query state world := inner.query state (onQuery world)
  advance state world := inner.advance state (onAdvance world)

end Probed

namespace Gated

-- Pending while the gate is closed. An advance passes a closed gate.
def machine (isOpen : ω → Bool) (inner : Machine ω σ α) : Machine ω σ α where
  query state world := if isOpen world then inner.query state world else (.ok .pending, state, world)
  advance := inner.advance

end Gated

-- Pending `period` times in front of every position, `left` of them still to come.
structure Delayed (σ : Type) where
  period : Nat
  left : Nat
  inner : σ

namespace Delayed

def everywhere (period : Nat) (inner : σ) : Delayed σ := ⟨period, period, inner⟩

def machine (inner : Machine ω σ α) : Machine ω (Delayed σ) α where
  query state world :=
    match state with
    | ⟨period, left + 1, inside⟩ => (.ok .pending, ⟨period, left, inside⟩, world)
    | ⟨period, 0, inside⟩ => Machine.within (⟨period, 0, ·⟩) (inner.query inside world)
  advance state world :=
    match state with
    | ⟨period, _, inside⟩ => Machine.within (⟨period, period, ·⟩) (inner.advance inside world)

end Delayed

-- One stream and, once it has no element to show, another. `inHead` says which of the two the
-- last query was answered by, and only a query changes it.
structure Followed (σ τ : Type) where
  head : σ
  inHead : Bool
  tail : τ

namespace Followed

def after (tail : τ) (head : σ) : Followed σ τ := ⟨head, false, tail⟩

def query (first : Machine ω σ α) (second : Machine ω τ α) (state : Followed σ τ) (world : ω) :
    Attempt (Status α) × Followed σ τ × ω :=
  match state with
  | ⟨head, inHead, tail⟩ =>
    match first.query head world with
    | (.error fault, head, world) => (.error fault, ⟨head, inHead, tail⟩, world)
    | (.ok (.ready value), head, world) => (.ok (.ready value), ⟨head, true, tail⟩, world)
    | (.ok _, head, world) => Machine.within (⟨head, false, ·⟩) (second.query tail world)

def advance (first : Machine ω σ α) (second : Machine ω τ α) (state : Followed σ τ) (world : ω) :
    Attempt Unit × Followed σ τ × ω :=
  match state with
  | ⟨head, true, tail⟩ => Machine.within (⟨·, true, tail⟩) (first.advance head world)
  | ⟨head, false, tail⟩ => Machine.within (⟨head, false, ·⟩) (second.advance tail world)

def machine (first : Machine ω σ α) (second : Machine ω τ α) : Machine ω (Followed σ τ) α :=
  ⟨query first second, advance first second⟩

end Followed
end LightestFirst
