import LightestFirst.Proofs.Flows.Basic
-- Trees of streams as data. What the functions, iterators and shared buffers of a tree may be is said
-- by the means of the world it lives in; a buffer that several readers share is part of the world.
namespace LightestFirst

-- A stream with an eye on how it is used. `observed`: the last call was a query that answered `ready`.
structure Watched (σ : Type) where
  inner : σ
  observed : Bool

namespace Watched
variable {ω σ α : Type}

-- An advance that nothing has earned is noted in the world, and passed on like any other.
def machine (note : ω → ω) (inner : Machine ω σ α) : Machine ω (Watched σ) α where
  query state world :=
    match inner.query state.inner world with
    | (.error fault, inner, world) => (.error fault, ⟨inner, false⟩, world)
    | (.ok status, inner, world) => (.ok status, ⟨inner, status.isReady⟩, world)
  advance state world :=
    Machine.within (⟨·, false⟩) (inner.advance state.inner (if state.observed then world else note world))

end Watched

def Flow.watched {ω α : Type} (note : ω → ω) (flow : Flow ω α) : Flow ω α :=
  ⟨Watched flow.State, Watched.machine note flow.machine, ⟨flow.state, false⟩⟩

structure Means (ω : Type) where
  pulls : ∀ {ι α : Type}, (ι → ω → Option α × ι × ω) → Prop
  maps : ∀ {α β : Type}, (Nat → α → ω → Attempt β × ω) → Prop
  joins : ∀ {α : Type}, (α → α → ω → Attempt α × ω) → Prop
  reads : ∀ {α : Type}, (Nat → ω → Attempt (Status α) × ω) → Prop
  -- where operands are watched, what is noted
  note : Option (ω → ω)

namespace Means
variable {ω α : Type}

def lend (means : Means ω) (watched : Bool) (flow : Flow ω α) : Flow ω α :=
  match watched, means.note with
  | true, some note => flow.watched note
  | _, _ => flow

theorem lend_cases (means : Means ω) (watched : Bool) (flow : Flow ω α) :
    means.lend watched flow = flow ∨ ∃ note, means.lend watched flow = flow.watched note := by
  cases watched with
  | false => exact .inl rfl
  | true =>
    cases noted : means.note with
    | none => exact .inl (by simp only [lend, noted])
    | some note => exact .inr ⟨note, by simp only [lend, noted]⟩

end Means

-- A box and a reference are the stream in them; a union of many is one of two again and again.
inductive Composite {ω : Type} (means : Means ω) : Type → Type 1 where
  | empty {α : Type} : Composite means α
  | single {α : Type} (value : α) : Composite means α
  | iterated {ι α : Type} (next : ι → ω → Option α × ι × ω) (pulls : means.pulls next) (iterator : ι) : Composite means α
  | mapped {α β : Type} (f : Nat → α → ω → Attempt β × ω) (maps : means.maps f) (watched : Bool)
      (inner : Composite means α) : Composite means β
  | merged {α : Type} (le : α → α → Bool) (watched watched' : Bool) (left right : Composite means α) : Composite means α
  | paired {α : Type} (le : α → α → Bool) (join : α → α → ω → Attempt α × ω) (joins : means.joins join)
      (watched watched' : Bool) (left right : Composite means α) : Composite means α
  | multiplexed {α : Type} (watched : Bool) (source : Composite means α) : Composite means α
  | view {α : Type} (readAt : Nat → ω → Attempt (Status α) × ω) (reads : means.reads readAt) : Composite means α
  | deferred {α : Type} (later : Unit → Composite means α) : Composite means α

namespace Composite
variable {ω α : Type} {means : Means ω}

def flow {ω : Type} {means : Means ω} : {α : Type} → Composite means α → Flow ω α
  | _, .empty => .empty
  | _, .single value => .single value
  | _, .iterated next _ iterator => .iterated next iterator
  | _, .mapped f _ watched inner => .mappedBy f (means.lend watched inner.flow)
  | _, .merged le watched watched' left right =>
    .merged le (means.lend watched left.flow) (means.lend watched' right.flow)
  | _, .paired le join _ watched watched' left right =>
    .pairedBy le join (means.lend watched left.flow) (means.lend watched' right.flow)
  | _, .multiplexed watched source => .multiplexed (means.lend watched source.flow)
  | _, .view readAt _ => .view readAt
  | _, .deferred later => .deferred ⟨fun _ => (later ()).flow⟩

def outermost {ω : Type} {means : Means ω} : {α : Type} → Composite means α → Operation
  | _, .empty => .empty
  | _, .single _ => .single
  | _, .iterated .. => .iterated
  | _, .mapped .. => .mapped
  | _, .merged .. => .merged
  | _, .paired .. => .paired
  | _, .multiplexed .. => .reader
  | _, .view .. => .reader
  | _, .deferred later => (later ()).outermost

end Composite

-- A world in which some buffers are shared, with what may be called in it; how it starts from what
-- lies underneath, and what of that is left.
structure Ground (ω₀ : Type) where
  World : Type
  means : Means World
  start : ω₀ → World
  foot : World → ω₀

namespace Means
variable {ω σ α : Type}

inductive Reads (means : Means ω) (source : Machine ω σ α) :
    ∀ {β : Type}, (Nat → Buffered σ α × ω → Attempt (Status β) × Buffered σ α × ω) → Prop where
  | new : Reads means source (Paired.readRight source)
  | old {β : Type} {readAt : Nat → ω → Attempt (Status β) × ω} (reads : means.reads readAt) :
      Reads means source (fun place => aside (readAt place))

def beside (means : Means ω) (source : Machine ω σ α) : Means (Buffered σ α × ω) where
  pulls next := ∃ pull, means.pulls pull ∧ next = fun iterator (cell, world) =>
    match pull iterator world with
    | (head, iterator, world) => (head, iterator, cell, world)
  maps f := ∃ g, means.maps g ∧ f = fun call value => aside (g call value)
  joins join := ∃ pair, means.joins pair ∧ join = fun x y => aside (pair x y)
  reads readAt := Reads means source readAt
  note := means.note.map (Prod.map id)

end Means

namespace Ground
variable {ω₀ α : Type}

def bare (means : Means ω₀) : Ground ω₀ := ⟨ω₀, means, id, id⟩

def sharing (ground : Ground ω₀) (source : Flow ground.World α) : Ground ω₀ where
  World := Buffered source.State α × ground.World
  means := ground.means.beside source.machine
  start outside := (.start source.state, ground.start outside)
  foot shared := ground.foot shared.2

-- One multiplexer after the other, each over a tree that may read those before it.
inductive Layered (means : Means ω₀) : Ground ω₀ → Prop where
  | bare : Layered means (.bare means)
  | sharing {ground : Ground ω₀} {α : Type} (layered : Layered means ground) (watched : Bool)
      (source : Composite ground.means α) : Layered means (ground.sharing (ground.means.lend watched source.flow))

end Ground
end LightestFirst
