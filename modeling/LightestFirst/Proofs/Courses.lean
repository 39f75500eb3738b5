import LightestFirst.Source
import LightestFirst.Merged
import LightestFirst.Paired
import LightestFirst.Proofs.Playing
-- The courses of composed streams, from those of their parts. Nothing here runs: a merge knows how
-- far it is into each side, a product how many joins each row of its grid has given.
namespace LightestFirst

namespace Iterated
variable {α : Type} {given : Option α}

theorem answer_eq_ready {value : α} : answer given = .ready value ↔ given = some value := by
  cases given <;> simp [answer]

theorem answer_eq_ended : answer given = .ended ↔ given = none := by
  cases given <;> simp [answer]

theorem answer_ne_pending : answer given ≠ .pending := by
  cases given <;> simp [answer]

end Iterated

namespace Course
variable {α β : Type}

def map (f : α → β) (course : Course α) : Course β := fun place => (course place).map f

theorem map_eq {course : Course α} {place : Nat} {status : Status α} (f : α → β)
    (answer : course place = status) : course.map f place = status.map f := by rw [map, answer]

theorem answers_map {ω : Type} {setting : Setting ω} {course : Course α} {place : Nat} {before after : ω}
    {status : Status α} (f : α → β) (answers : setting.Answers course place before after status) :
    setting.Answers (course.map f) place before after (status.map f) := by
  rcases answers with exact | ⟨rfl, held⟩
  · exact .inl (map_eq f exact)
  · exact .inr ⟨rfl, held⟩

def ofAnswers (answers : Nat → Option α) : Course α := fun place => Iterated.answer (answers place)

def ofList (items : List α) : Course α := ofAnswers (fun place => items[place]?)

def after (head : List α) (tail : Course α) : Course α := fun place =>
  match head[place]? with
  | some value => .ready value
  | none => tail (place - head.length)

section Merging
variable (le : α → α → Bool) (xs ys : Course α)

-- The positions of the two sides after so many elements, as long as each of them was there.
def mergedAt : Nat → Option (Nat × Nat)
  | 0 => some (0, 0)
  | place + 1 =>
    match mergedAt place with
    | none => none
    | some (i, j) =>
      match Verdict.between le (xs i) (ys j) with
      | some (.left _) => some (i + 1, j)
      | some (.right _) => some (i, j + 1)
      | _ => none

def merged : Course α := fun place =>
  match mergedAt le xs ys place with
  | none => .pending
  | some (i, j) => Verdict.answer (Verdict.between le (xs i) (ys j))

end Merging

section Joining
variable (le : α → α → Bool) (join : α → α → α) (xs ys : Course α)

def entry (row column : Nat) : Status α :=
  match xs row with
  | .ready x => (ys column).map (join x)
  | status => status

def lineup : Nat → List Nat → List (Status α)
  | _, [] => []
  | row, column :: columns => entry join xs ys row column :: lineup (row + 1) columns

-- The rows begun stand in the list with the number of their joins given. The row behind them is in
-- line with its first join; the rows after that are not.
def decision (columns : List Nat) : Option (Choice α) :=
  Paired.choose le (lineup join xs ys 0 (columns ++ [0]))

def given (columns : List Nat) (row : Nat) : List Nat :=
  if row < columns.length then columns.modify row (· + 1) else columns ++ [1]

def joinedAt : Nat → Option (List Nat)
  | 0 => some []
  | place + 1 =>
    match joinedAt place with
    | none => none
    | some columns =>
      match decision le join xs ys columns with
      | some (.ready _ row) => some (given columns row)
      | _ => none

def joined : Course α := fun place =>
  match joinedAt le join xs ys place with
  | none => .pending
  | some columns => Paired.answer (decision le join xs ys columns)

variable {le join xs ys}

@[elab_as_elim] theorem joinedAt_invariant {holds : List Nat → Prop} (start : holds [])
    (step : ∀ {columns row value}, holds columns → decision le join xs ys columns = some (.ready value row) →
      holds (given columns row)) {place : Nat} {columns : List Nat}
    (reached : joinedAt le join xs ys place = some columns) : holds columns := by
  induction place generalizing columns with
  | zero =>
    cases reached
    exact start
  | succ place ih =>
    simp only [joinedAt] at reached
    split at reached
    · cases reached
    · next before =>
      split at reached
      · next decided =>
        cases reached
        exact step (ih before) decided
      · cases reached

end Joining

end Course
end LightestFirst
