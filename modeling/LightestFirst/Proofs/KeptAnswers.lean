import LightestFirst.Source
import LightestFirst.Mapped
import LightestFirst.Paired
import LightestFirst.Merged
-- What a stream keeps of an answer it has given: an iterator the element it is at, a map the image, a merge or a
-- product its decision.
namespace LightestFirst
variable {ω σ τ α β : Type}

theorem Iterated.query_keeps {ι : Type} {next : ι → ω → Option α × ι × ω} {state later : Iterated ι α} {world after : ω}
    {status : Status α} (asked : query next state world = (.ok status, later, after)) :
    ∃ iterator head, later = ⟨iterator, some head⟩ ∧ status = answer head := by
  obtain ⟨iterator, _ | head⟩ := state
  · simp only [query] at asked
    generalize next iterator world = outcome at asked
    obtain ⟨head, iterator, world⟩ := outcome
    cases asked
    exact ⟨iterator, head, rfl, rfl⟩
  · cases asked
    exact ⟨iterator, head, rfl, rfl⟩

theorem Mapped.query_keeps {source : Machine ω σ α} {f : Nat → α → ω → Attempt β × ω} {world after : ω}
    {state later : Mapped σ β} {status : Status β} (asked : query source f state world = (.ok status, later, after))
    (stable : status ≠ .pending) : ∃ inner calls, later = ⟨inner, some status, calls⟩ := by
  obtain ⟨inner, _ | kept, calls⟩ := state
  · simp only [query] at asked
    generalize source.query inner world = outcome at asked
    obtain ⟨_ | value | _ | _, inner, middle⟩ := outcome
    · cases asked
    · dsimp only at asked
      generalize f (calls + 1) value middle = outcome at asked
      obtain ⟨_ | image, _⟩ := outcome
      · cases asked
      · cases asked
        exact ⟨_, _, rfl⟩
    · cases asked
      exact ⟨_, _, rfl⟩
    · cases asked
      exact absurd rfl stable
  · cases asked
    exact ⟨_, _, rfl⟩

theorem Merged.query_keeps {first : Machine ω σ α} {second : Machine ω τ α} {le : α → α → Bool}
    {state later : Merged σ τ α} {world after : ω} {status : Status α}
    (asked : query first second le state world = (.ok status, later, after)) (stable : status ≠ .pending) :
    ∃ left right verdict, later = ⟨left, right, some verdict⟩ ∧ status = verdict.status := by
  obtain ⟨left, right, _ | verdict⟩ := state
  · simp only [query] at asked
    generalize first.query left world = outcome at asked
    obtain ⟨_ | x, left, middle⟩ := outcome
    · cases asked
    · dsimp only at asked
      generalize second.query right middle = outcome at asked
      obtain ⟨_ | y, right, _⟩ := outcome
      · cases asked
      · dsimp only at asked
        generalize Verdict.between le x y = decided at asked
        cases asked
        cases decided with
        | none => exact absurd rfl stable
        | some verdict => exact ⟨left, right, verdict, rfl, rfl⟩
  · cases asked
    exact ⟨left, right, verdict, rfl, rfl⟩

theorem Paired.query_keeps {first : Machine ω σ α} {second : Machine ω τ α} {le : α → α → Bool}
    {join : α → α → ω → Attempt α × ω} {state later : Paired σ τ α} {world after : ω} {status : Status α}
    (asked : query first second le join state world = (.ok status, later, after)) (stable : status ≠ .pending) :
    ∃ choice, later.choice = some choice ∧ status = choice.status := by
  rw [query] at asked
  split at asked
  · next choice chosen =>
    cases asked
    exact ⟨choice, chosen, rfl⟩
  · generalize grow first state world = outcome at asked
    obtain ⟨_ | _ | _, grown, middle⟩ := outcome
    · cases asked
    · cases asked
      exact absurd rfl stable
    · simp only [settle] at asked
      generalize poll second join grown.lanes (grown.right, middle) = outcome at asked
      obtain ⟨_ | statuses, lanes, right, _⟩ := outcome
      · cases asked
      · dsimp only at asked
        generalize choose le statuses = decided at asked
        cases asked
        cases decided with
        | none => exact absurd rfl stable
        | some choice => exact ⟨choice, rfl, rfl⟩

end LightestFirst
