import LightestFirst.Proofs.Playing.Pairing
import LightestFirst.Proofs.Reading
-- Courses that say something at every position they come to. What is put together from such courses
-- is one of them: an answer that never comes would have to come from a part.
namespace LightestFirst
namespace Course
variable {α β : Type} {le : α → α → Bool} {join : α → α → α} {xs ys : Course α}

def Reaches (course : Course α) (place : Nat) : Prop := ∀ before < place, (course before).isReady = true

def Definite (course : Course α) : Prop := ∀ place, course.Reaches place → course place ≠ .pending

theorem Reaches.back {course : Course α} {place : Nat} (reaches : course.Reaches (place + 1)) :
    course.Reaches place ∧ (course place).isReady = true :=
  ⟨fun before inside => reaches before (Nat.lt_succ_of_lt inside), reaches place (Nat.lt_succ_self place)⟩

theorem Reaches.next {course : Course α} {place : Nat} (reaches : course.Reaches place)
    (ready : (course place).isReady = true) : course.Reaches (place + 1) := by
  intro before inside
  rcases Nat.lt_succ_iff_lt_or_eq.mp inside with earlier | rfl
  · exact reaches before earlier
  · exact ready

theorem reaches_start (course : Course α) : course.Reaches 0 := nofun

theorem Begins.reaches {course : Course α} {items : List α} (begins : course.Begins items) :
    course.Reaches items.length := by
  intro before inside
  rw [begins before _ (List.getElem?_eq_getElem inside)]
  rfl

theorem Definite.serves {course : Course α} (definite : course.Definite) {place : Nat} (reaches : course.Reaches place)
    (limit : Nat) : ∃ items ending, course.Serves place limit items ending := by
  induction limit generalizing place with
  | zero => exact ⟨[], .limit, .limit⟩
  | succ limit ih =>
    cases shown : course place with
    | pending => exact absurd shown (definite place reaches)
    | ended => exact ⟨[], .ended, .ended shown⟩
    | ready value =>
      obtain ⟨items, ending, serves⟩ := ih (reaches.next (by rw [shown]; rfl))
      exact ⟨value :: items, ending, .ready shown serves⟩

theorem definite_ended : Definite (fun _ => .ended : Course α) := nofun

theorem definite_ofAnswers (answers : Nat → Option α) : (ofAnswers answers).Definite :=
  fun _ _ => Iterated.answer_ne_pending

theorem Definite.map {course : Course α} (definite : course.Definite) (f : α → β) : (course.map f).Definite := by
  intro place reaches pending
  have inner : course.Reaches place := fun before inside => by simpa [Course.map] using reaches before inside
  have there := definite place inner
  rw [Course.map] at pending
  cases shown : course place with
  | pending => exact there shown
  | ready value => rw [shown] at pending; cases pending
  | ended => rw [shown] at pending; cases pending

section Merging

theorem mergedAt_reaches {place i j : Nat} (reached : mergedAt le xs ys place = some (i, j)) :
    xs.Reaches i ∧ ys.Reaches j := by
  induction place generalizing i j with
  | zero =>
    cases reached
    exact ⟨reaches_start xs, reaches_start ys⟩
  | succ place ih =>
    simp only [mergedAt] at reached
    split at reached
    · cases reached
    · next before =>
      obtain ⟨left, right⟩ := ih before
      split at reached
      · next decided =>
        cases reached
        exact ⟨left.next (by rw [Verdict.ready_of_between_left decided]; rfl), right⟩
      · next decided =>
        cases reached
        exact ⟨left, right.next (by rw [Verdict.ready_of_between_right decided]; rfl)⟩
      · cases reached

theorem merged_reaches {place : Nat} (reaches : (merged le xs ys).Reaches place) :
    ∃ i j, mergedAt le xs ys place = some (i, j) := by
  induction place with
  | zero => exact ⟨0, 0, rfl⟩
  | succ place ih =>
    obtain ⟨before, ready⟩ := reaches.back
    obtain ⟨i, j, reached⟩ := ih before
    rw [Merged.merged_eq reached] at ready
    cases decided : Verdict.between le (xs i) (ys j) with
    | none => rw [decided] at ready; cases ready
    | some verdict =>
      cases verdict with
      | left => exact ⟨i + 1, j, by simp only [mergedAt, reached, decided]⟩
      | right => exact ⟨i, j + 1, by simp only [mergedAt, reached, decided]⟩
      | ended => rw [decided] at ready; cases ready

theorem between_definite (le : α → α → Bool) {x y : Status α} (left : x ≠ .pending) (right : y ≠ .pending) :
    ∃ verdict, Verdict.between le x y = some verdict := by
  cases x <;> cases y <;> simp_all [Verdict.between]

theorem Definite.merged (left : xs.Definite) (right : ys.Definite) : (merged le xs ys).Definite := by
  intro place reaches
  obtain ⟨i, j, reached⟩ := merged_reaches reaches
  obtain ⟨before, behind⟩ := mergedAt_reaches reached
  obtain ⟨verdict, decided⟩ := between_definite le (left i before) (right j behind)
  rw [Merged.merged_eq reached, decided]
  cases verdict <;> nofun

end Merging

section Joining
variable {rows : List Nat}

theorem entry_ready {row column : Nat} {value : α} (shown : entry join xs ys row column = .ready value) :
    (xs row).isReady = true ∧ (ys column).isReady = true := by
  rw [entry] at shown
  split at shown
  · next left =>
    rw [left]
    cases right : ys column with
    | ready => exact ⟨rfl, rfl⟩
    | ended => rw [right] at shown; cases shown
    | pending => rw [right] at shown; cases shown
  · next other => exact absurd shown (other value)

-- The rows begun were there, and so was every column they have passed.
structure Lined (xs ys : Course α) (rows : List Nat) : Prop where
  begun : xs.Reaches rows.length
  columns : ∀ (row count : Nat), rows[row]? = some count → ys.Reaches count

theorem getElem?_concat {last row column : Nat} (found : (rows ++ [last])[row]? = some column) :
    rows[row]? = some column ∨ row = rows.length ∧ column = last := by
  rcases Nat.lt_trichotomy row rows.length with begun | rfl | beyond
  · rw [List.getElem?_append_left begun] at found
    exact .inl found
  · rw [List.getElem?_concat_length] at found
    exact .inr ⟨rfl, (Option.some.inj found).symm⟩
  · rw [List.getElem?_eq_none (by rw [List.length_append]; exact beyond)] at found
    cases found

theorem decision_entry {row : Nat} {value : α} (decided : decision le join xs ys rows = some (.ready value row)) :
    ∃ column, (rows ++ [0])[row]? = some column ∧ entry join xs ys row column = .ready value := by
  have there := Paired.choose_getElem? decided
  rw [Paired.lineup_getElem?, Nat.zero_add] at there
  exact Option.map_eq_some_iff.mp there

theorem Lined.inLine (lined : Lined xs ys rows) {row column : Nat} (inside : (rows ++ [0])[row]? = some column) :
    xs.Reaches row ∧ ys.Reaches column := by
  rcases getElem?_concat inside with found | ⟨rfl, rfl⟩
  · have begun : row < rows.length := (List.getElem?_eq_some_iff.mp found).1
    exact ⟨fun before earlier => lined.begun before (Nat.lt_trans earlier begun), lined.columns row column found⟩
  · exact ⟨lined.begun, reaches_start ys⟩

theorem Lined.given (lined : Lined xs ys rows) {row : Nat} {value : α}
    (decided : decision le join xs ys rows = some (.ready value row)) : Lined xs ys (given rows row) := by
  obtain ⟨column, inside, shown⟩ := decision_entry decided
  obtain ⟨left, right⟩ := entry_ready shown
  have behind := (lined.inLine inside).2
  rw [Course.given]
  split
  · next begun =>
    rw [List.getElem?_append_left begun] at inside
    refine ⟨by rw [List.length_modify]; exact lined.begun, fun other count found => ?_⟩
    rw [List.getElem?_modify] at found
    obtain ⟨old, there, rfl⟩ := Option.map_eq_some_iff.mp found
    split
    · next same =>
      subst same
      obtain rfl := Option.some.inj (inside.symm.trans there)
      exact behind.next right
    · exact lined.columns other old there
  · next last =>
    rcases getElem?_concat inside with found | ⟨rfl, rfl⟩
    · exact absurd (List.getElem?_eq_some_iff.mp found).1 last
    · refine ⟨by rw [List.length_append]; exact lined.begun.next left, fun other count found => ?_⟩
      rcases getElem?_concat found with there | ⟨rfl, rfl⟩
      · exact lined.columns other count there
      · exact behind.next right

theorem joinedAt_lined {place : Nat} (reached : joinedAt le join xs ys place = some rows) : Lined xs ys rows :=
  joinedAt_invariant ⟨reaches_start xs, nofun⟩ (fun lined decided => lined.given decided) reached

theorem joined_reaches {place : Nat} (reaches : (joined le join xs ys).Reaches place) :
    ∃ rows, joinedAt le join xs ys place = some rows := by
  induction place with
  | zero => exact ⟨[], rfl⟩
  | succ place ih =>
    obtain ⟨before, ready⟩ := reaches.back
    obtain ⟨rows, reached⟩ := ih before
    simp only [joined, reached] at ready
    cases decided : decision le join xs ys rows with
    | none => rw [decided] at ready; cases ready
    | some choice =>
      cases choice with
      | ended => rw [decided] at ready; cases ready
      | ready value row => exact ⟨_, Paired.joinedAt_given reached decided⟩

theorem Lined.entry_definite (lined : Lined xs ys rows) (left : xs.Definite) (right : ys.Definite) {row column : Nat}
    (inside : (rows ++ [0])[row]? = some column) : entry join xs ys row column ≠ .pending := by
  obtain ⟨before, behind⟩ := lined.inLine inside
  have there := left row before
  rw [entry]
  split
  · have other := right column behind
    cases shown : ys column with
    | pending => exact absurd shown other
    | ready => exact fun pending => by cases pending
    | ended => exact fun pending => by cases pending
  · exact there

theorem Definite.joined (left : xs.Definite) (right : ys.Definite) : (joined le join xs ys).Definite := by
  intro place reaches
  obtain ⟨rows, reached⟩ := joined_reaches reaches
  have lined := joinedAt_lined reached
  have settled : (lineup join xs ys 0 (rows ++ [0])).any Status.isPending = false := by
    rw [List.any_eq_false]
    intro status among pending
    obtain ⟨row, found⟩ := List.mem_iff_getElem?.mp among
    rw [Paired.lineup_getElem?, Nat.zero_add] at found
    obtain ⟨column, inside, rfl⟩ := Option.map_eq_some_iff.mp found
    have there : entry join xs ys row column ≠ .pending := lined.entry_definite left right inside
    cases shown : entry join xs ys row column with
    | pending => exact there shown
    | ready => rw [shown] at pending; cases pending
    | ended => rw [shown] at pending; cases pending
  simp only [Course.joined, reached, decision, Paired.choose, settled]
  cases Paired.least le (lineup join xs ys 0 (rows ++ [0])) with
  | none => exact fun pending => by cases pending
  | some least => exact fun pending => by cases pending

end Joining
end Course
end LightestFirst
