-- What a system comes to, step by step. Each step is told apart by its event.
namespace LightestFirst
variable {σ ε : Type}

inductive Reached (steps : σ → ε → σ → Prop) (first : σ) : σ → Prop where
  | start : Reached steps first first
  | step {now later : σ} {event : ε} (before : Reached steps first now) (next : steps now event later) :
      Reached steps first later

namespace Reached
variable {steps : σ → ε → σ → Prop} {first now later : σ}

@[elab_as_elim]
theorem invariant {holds : σ → Prop} (reached : Reached steps first now) (begins : holds first)
    (keeps : ∀ {now event later}, steps now event later → holds now → holds later) : holds now := by
  induction reached with
  | start => exact begins
  | step _ next ih => exact keeps next ih

theorem trans (one : Reached steps first now) (two : Reached steps now later) : Reached steps first later := by
  induction two with
  | start => exact one
  | step _ next ih => exact ih.step next

end Reached
end LightestFirst
