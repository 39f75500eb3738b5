import LightestFirst.Machine
-- Two streams merged. With both heads in sight the left one goes first unless the right one is
-- strictly smaller; with one side ended the other goes on alone. A side that is pending may
-- still hold the smaller element, so nothing is decided before both sides have answered.
namespace LightestFirst

-- The decision for the position, kept until its element is consumed.
inductive Verdict (α : Type) where
  | left (value : α)
  | right (value : α)
  | ended

namespace Verdict
variable {α : Type}

def status : Verdict α → Status α
  | .left value => .ready value
  | .right value => .ready value
  | .ended => .ended

def between (le : α → α → Bool) : Status α → Status α → Option (Verdict α)
  | .ready x, .ready y => some (if le x y then .left x else .right y)
  | .ready x, .ended => some (.left x)
  | .ended, .ready y => some (.right y)
  | .ended, .ended => some .ended
  | _, _ => none

def answer : Option (Verdict α) → Status α
  | some verdict => verdict.status
  | none => .pending

end Verdict

structure Merged (σ τ α : Type) where
  left : σ
  right : τ
  verdict : Option (Verdict α)

namespace Merged
variable {ω σ τ α : Type}

def of (left : σ) (right : τ) : Merged σ τ α := ⟨left, right, none⟩

def query (first : Machine ω σ α) (second : Machine ω τ α) (le : α → α → Bool)
    (state : Merged σ τ α) (world : ω) : Attempt (Status α) × Merged σ τ α × ω :=
  match state with
  | ⟨left, right, some verdict⟩ => (.ok verdict.status, ⟨left, right, some verdict⟩, world)
  | ⟨left, right, none⟩ =>
    match first.query left world with
    | (.error fault, left, world) => (.error fault, ⟨left, right, none⟩, world)
    | (.ok x, left, world) =>
      match second.query right world with
      | (.error fault, right, world) => (.error fault, ⟨left, right, none⟩, world)
      | (.ok y, right, world) =>
        (.ok (Verdict.answer (Verdict.between le x y)), ⟨left, right, Verdict.between le x y⟩, world)

def advance (first : Machine ω σ α) (second : Machine ω τ α)
    (state : Merged σ τ α) (world : ω) : Attempt Unit × Merged σ τ α × ω :=
  match state with
  | ⟨left, right, some (.left _)⟩ =>
    Machine.within (fun left => ⟨left, right, none⟩) (first.advance left world)
  | ⟨left, right, some (.right _)⟩ =>
    Machine.within (fun right => ⟨left, right, none⟩) (second.advance right world)
  | state => (.error (.violation .merged), state, world)

def machine (first : Machine ω σ α) (second : Machine ω τ α) (le : α → α → Bool) :
    Machine ω (Merged σ τ α) α :=
  ⟨query first second le, advance first second⟩

end Merged
end LightestFirst
