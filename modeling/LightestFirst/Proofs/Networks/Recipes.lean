import Mathlib.Tactic.Choose
import LightestFirst.Proofs.Networks.LeastCourses
-- Recipes whose streams come to the same elements whenever they are asked: trees of plain streams,
-- with readers of named buffers for leaves. The courses of all buffers are found together, in stages:
-- nothing is known of any at first, and each stage knows what follows from the one before.
namespace LightestFirst
variable {α : Type}

-- What is done to an element depends on nothing but the element. What it does to the ledger may be
-- anything: nothing here reads the ledger.
def Action.Pure (f : Action α) : Prop := ∃ g : α → α, ∀ call value ledger, (f call value ledger).1 = .ok (g value)

def JoinAction.Pure (join : JoinAction α) : Prop :=
  ∃ g : α → α → α, ∀ x y ledger, (join x y ledger).1 = .ok (g x y)

def Action.image (f : Action α) (value : α) : α :=
  match (f 0 value .blank).1 with
  | .ok image => image
  | .error _ => value

def JoinAction.image (join : JoinAction α) (x y : α) : α :=
  match (join x y .blank).1 with
  | .ok image => image
  | .error _ => x

theorem Action.Pure.result {f : Action α} (plain : Action.Pure f) (call : Nat) (value : α) (ledger : Ledger) :
    (f call value ledger).1 = .ok (Action.image f value) := by
  obtain ⟨g, given⟩ := plain
  rw [Action.image, given, given]

theorem JoinAction.Pure.result {join : JoinAction α} (plain : JoinAction.Pure join) (x y : α) (ledger : Ledger) :
    (join x y ledger).1 = .ok (JoinAction.image join x y) := by
  obtain ⟨g, given⟩ := plain
  rw [JoinAction.image, given, given]

namespace Recipe

def Confined (names : List String) : Recipe α → Prop
  | .empty => True
  | .single _ => True
  | .iterated _ => True
  | .deferred _ body => body.Confined names
  | .mapped f inner => Action.Pure f ∧ inner.Confined names
  | .merged _ left right => left.Confined names ∧ right.Confined names
  | .paired _ join left right => JoinAction.Pure join ∧ left.Confined names ∧ right.Confined names
  | .view name => name ∈ names
  | .boxed inner => inner.Confined names
  | .following _ tail => tail.Confined names
  | _ => False

def height : Recipe α → Nat
  | .deferred _ body => body.height + 1
  | .mapped _ inner => inner.height + 1
  | .merged _ left right => max left.height right.height + 1
  | .paired _ _ left right => max left.height right.height + 1
  | .boxed inner => inner.height + 1
  | .following _ tail => tail.height + 1
  | _ => 0

def tallest (recipes : List (Recipe α)) : Nat := (recipes.map height).foldr max 0

def course (names : Table Nat) (cells : Nat → Course α) : Recipe α → Course α
  | .empty => fun _ => .ended
  | .single value => .ofList [value]
  | .iterated supply => .ofAnswers fun place => supply.answers (supply.calls + place)
  | .deferred _ body => body.course names cells
  | .mapped f inner => (inner.course names cells).map (Action.image f)
  | .merged le left right => .merged le (left.course names cells) (right.course names cells)
  | .paired le join left right =>
    .joined le (JoinAction.image join) (left.course names cells) (right.course names cells)
  | .view name => fun place => (names.get? name).elim .pending (cells · place)
  | .boxed inner => inner.course names cells
  | .following head tail => .after head (tail.course names cells)
  | _ => fun _ => .pending

theorem course_below (names : Table Nat) {one other : Nat → Course α} {bound : Nat}
    (below : ∀ cell, (one cell).Below bound (other cell)) (recipe : Recipe α) :
    (recipe.course names one).Below bound (recipe.course names other) := by
  induction recipe with
  | mapped f inner ih => exact Course.map_below _ ih
  | merged le left right leftIh rightIh => exact Course.merged_below leftIh rightIh
  | paired le join left right leftIh rightIh => exact Course.joined_below leftIh rightIh
  | view name =>
    intro place inside
    simp only [course]
    cases names.get? name with
    | none => exact .refl _
    | some cell => exact below cell place inside
  | following head tail ih => exact Course.after_below head ih
  | deferred _ _ ih => exact ih
  | boxed _ ih => exact ih
  | _ => exact fun _ _ => .refl _

section Stages
variable (names : Table Nat) (sources : List (Recipe α))

-- What is known of the course of each buffer after so many stages.
def stage : Nat → Nat → Course α
  | 0, _ => fun _ => .pending
  | k + 1, cell =>
    match sources[cell]? with
    | none => fun _ => .pending
    | some source => source.course names (stage k)

variable {names sources}

theorem stage_succ {cell : Nat} {source : Recipe α} (there : sources[cell]? = some source) (k : Nat) :
    stage names sources (k + 1) cell = source.course names (stage names sources k) := by
  rw [stage, there]

theorem stage_none {cell : Nat} (none_ : sources[cell]? = none) (k place : Nat) :
    stage names sources k cell place = .pending := by
  cases k with
  | zero => rfl
  | succ k => rw [stage, none_]

theorem stage_below (k cell place : Nat) :
    (stage names sources k cell place).Below (stage names sources (k + 1) cell place) := by
  induction k generalizing cell place with
  | zero => exact .inl rfl
  | succ k ih =>
    cases there : sources[cell]? with
    | none => exact .inl (stage_none there _ _)
    | some source =>
      rw [stage_succ there, stage_succ there]
      exact course_below names (fun cell place _ => ih cell place) source place (Nat.le_refl _)

theorem stage_mono {k later : Nat} (before : k ≤ later) (cell place : Nat) :
    (stage names sources k cell place).Below (stage names sources later cell place) := by
  induction before with
  | refl => exact .refl _
  | step _ ih => exact ih.trans (stage_below _ cell place)

-- From some stage on nothing more comes to be known of a place.
theorem stage_settles (cell place : Nat) :
    ∃ k, ∀ later, (stage names sources later cell place).Below (stage names sources k cell place) := by
  by_cases known : ∃ k, (stage names sources k cell place).isStable = true
  · obtain ⟨k, stable⟩ := known
    refine ⟨k, fun later => ?_⟩
    rcases Nat.le_total k later with before | after
    · rw [(stage_mono before cell place).eq_of_stable stable]
      exact .refl _
    · exact stage_mono after cell place
  · refine ⟨0, fun later => .inl ?_⟩
    cases answer : stage names sources later cell place with
    | pending => rfl
    | ready value => exact absurd ⟨later, by rw [answer]; rfl⟩ known
    | ended => exact absurd ⟨later, by rw [answer]; rfl⟩ known

theorem all_settle {settled : Nat → Nat → Prop}
    (lasts : ∀ i {k later}, k ≤ later → settled i k → settled i later) (each : ∀ i, ∃ k, settled i k) (count : Nat) :
    ∃ k, ∀ i < count, settled i k := by
  induction count with
  | zero => exact ⟨0, nofun⟩
  | succ count ih =>
    obtain ⟨k, before⟩ := ih
    obtain ⟨last, here⟩ := each count
    refine ⟨max k last, fun i inside => ?_⟩
    rcases Nat.lt_succ_iff_lt_or_eq.mp inside with earlier | rfl
    · exact lasts i (Nat.le_max_left _ _) (before i earlier)
    · exact lasts i (Nat.le_max_right _ _) here

theorem stages_settle (cells bound : Nat) : ∃ k, ∀ cell < cells, ∀ place < bound, ∀ later,
    (stage names sources later cell place).Below (stage names sources k cell place) := by
  refine all_settle ?_ (fun cell => all_settle ?_ (stage_settles cell) bound) cells
  · intro cell k later before settled place inside other
    exact (settled place inside other).trans (stage_mono before cell place)
  · intro place k later before settled other
    exact (settled other).trans (stage_mono before cell place)

theorem exists_courses (names : Table Nat) (sources : List (Recipe α)) :
    ∃ cells : Nat → Course α, ∀ (cell : Nat) (source : Recipe α), sources[cell]? = some source →
      source.course names cells = cells cell := by
  have settles : ∀ cell place, ∃ k, ∀ later,
      (stage names sources later cell place).Below (stage names sources k cell place) := stage_settles
  choose last settled using settles
  refine ⟨fun cell place => stage names sources (last cell place) cell place, fun cell source there => ?_⟩
  funext place
  obtain ⟨k, all⟩ : ∃ k, ∀ cell < sources.length, ∀ i < place + 1, ∀ later,
      (stage names sources later cell i).Below (stage names sources k cell i) := stages_settle _ _
  have known : ∀ other, Course.Below place (fun place => stage names sources (last other place) other place)
      (stage names sources k other) := by
    intro other i inside
    rcases Nat.lt_or_ge other sources.length with within | outside
    · exact all other within i (Nat.lt_succ_of_le inside) _
    · exact .inl (stage_none (List.getElem?_eq_none outside) _ _)
  have above := course_below names known source place (Nat.le_refl _)
  rw [← stage_succ there] at above
  have within : (stage names sources (last cell place + 1) cell place).Below
      (source.course names (fun cell place => stage names sources (last cell place) cell place) place) := by
    rw [stage_succ there]
    exact course_below names (fun other i _ => settled other i _) source place (Nat.le_refl _)
  exact (above.trans (settled cell place (k + 1))).antisymm ((stage_below _ cell place).trans within)

end Stages
end Recipe
end LightestFirst
