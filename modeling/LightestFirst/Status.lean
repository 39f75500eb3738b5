-- What a stream answers when it is asked for the element at its position.
-- `ready` and `ended` are stable: asked again with no advance between, a stream says the same.
-- `pending` promises nothing, not even that another answer ever follows, so nobody keeps it.
namespace LightestFirst

inductive Status (α : Type) where
  | ready (value : α)
  | ended
  | pending
deriving DecidableEq, Repr

namespace Status
variable {α β : Type}

def isReady : Status α → Bool
  | .ready _ => true
  | _ => false

def isEnded : Status α → Bool
  | .ended => true
  | _ => false

def isPending : Status α → Bool
  | .pending => true
  | _ => false

def isStable (status : Status α) : Bool := !status.isPending

def ready? : Status α → Option α
  | .ready value => some value
  | _ => none

def map (f : α → β) : Status α → Status β
  | .ready value => .ready (f value)
  | .ended => .ended
  | .pending => .pending

theorem isReady_iff {status : Status α} : status.isReady = true ↔ ∃ value, status = .ready value := by
  cases status <;> simp [isReady]

theorem isStable_iff {status : Status α} : status.isStable = true ↔ status ≠ .pending := by
  cases status <;> simp [isStable, isPending]

@[simp] theorem isReady_map (f : α → β) (status : Status α) : (status.map f).isReady = status.isReady := by
  cases status <;> rfl

@[simp] theorem isStable_map (f : α → β) (status : Status α) : (status.map f).isStable = status.isStable := by
  cases status <;> rfl

end Status
end LightestFirst
