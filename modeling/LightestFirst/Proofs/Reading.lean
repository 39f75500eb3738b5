import Mathlib.Data.List.Induction
import LightestFirst.Network.Session
import LightestFirst.Proofs.Courses
-- Reading a stream from where it stands, up to a limit or to its end. What is read are the elements
-- of its course in turn, and reading stops at the end of the course and nowhere before.
namespace LightestFirst
variable {ω σ α : Type}

-- What reading from a place gives under a limit, and what stops it.
inductive Course.Serves (course : Course α) : Nat → Nat → List α → Ending → Prop where
  | limit {place : Nat} : Serves course place 0 [] .limit
  | ended {place limit : Nat} (finished : course place = .ended) : Serves course place (limit + 1) [] .ended
  | ready {place limit : Nat} {value : α} {items : List α} {ending : Ending}
      (shown : course place = .ready value) (rest : Serves course (place + 1) limit items ending) :
      Serves course place (limit + 1) (value :: items) ending

theorem Course.Serves.going {course : Course α} {place limit : Nat} {items : List α} {ending : Ending}
    (serves : course.Serves place limit items ending) : ending ≠ .pending := by
  induction serves with
  | limit => nofun
  | ended => nofun
  | ready _ _ ih => exact ih

def Course.Begins (course : Course α) (items : List α) : Prop :=
  ∀ place value, items[place]? = some value → course place = .ready value

theorem Course.Begins.append {course : Course α} {items : List α} (begins : course.Begins items) {value : α}
    (next : course items.length = .ready value) : course.Begins (items ++ [value]) := by
  intro place other found
  rcases Nat.lt_trichotomy place items.length with inside | rfl | beyond
  · rw [List.getElem?_append_left inside] at found
    exact begins place other found
  · rw [List.getElem?_concat_length] at found
    cases found
    exact next
  · rw [List.getElem?_eq_none (by rw [List.length_append]; exact beyond)] at found
    cases found

theorem Course.Begins.front {course : Course α} {items : List α} {value : α} (begins : course.Begins (items ++ [value])) :
    course.Begins items ∧ course items.length = .ready value := by
  refine ⟨fun place other found => begins place other ?_, begins items.length value List.getElem?_concat_length⟩
  rwa [List.getElem?_append_left (List.getElem?_eq_some_iff.mp found).1]

theorem Course.Begins.serves {course : Course α} {front items : List α} {limit : Nat} {ending : Ending}
    (begins : course.Begins front) (serves : course.Serves front.length limit items ending) :
    course.Serves 0 (front.length + limit) (front ++ items) ending := by
  induction front using List.reverseRecOn generalizing limit items with
  | nil => rwa [List.length_nil, Nat.zero_add, List.nil_append]
  | append_singleton front value ih =>
    obtain ⟨before, shown⟩ := begins.front
    rw [List.length_append, List.length_singleton] at serves ⊢
    rw [List.append_assoc, List.singleton_append, Nat.add_assoc, Nat.add_comm 1]
    exact ih before (.ready shown serves)

theorem Course.serves_all {course : Course α} {items : List α} (begins : course.Begins items)
    {limit : Nat} (finished : course items.length = .ended) (room : items.length < limit) :
    course.Serves 0 limit items .ended := by
  obtain ⟨more, rfl⟩ := Nat.exists_eq_add_of_lt room
  have stops : course.Serves items.length (more + 1) [] .ended := .ended finished
  have served := begins.serves stops
  rwa [List.append_nil] at served

theorem Course.serves_begun {course : Course α} {items : List α} (begins : course.Begins items) :
    course.Serves 0 items.length items .limit := by
  have served := begins.serves .limit
  rwa [List.append_nil] at served

theorem Course.ofList_begins (items : List α) : (Course.ofList items).Begins items := by
  intro place value found
  rw [ofList, ofAnswers, found]
  rfl

theorem Course.ofList_length (items : List α) : Course.ofList items items.length = .ended := by
  simp [ofList, ofAnswers, Iterated.answer]

theorem Course.map_ofList {β : Type} (f : α → β) (items : List α) :
    (Course.ofList items).map f = .ofList (items.map f) := by
  funext place
  simp only [map, ofList, ofAnswers, List.getElem?_map]
  cases items[place]? <;> rfl

theorem Course.serves_take {course : Course α} {items : List α} (begins : course.Begins items)
    (finished : course items.length = .ended) (limit : Nat) : ∃ ending,
    course.Serves 0 limit (items.take limit) ending ∧ (ending = .ended ↔ items.length < limit) := by
  rcases Nat.lt_or_ge items.length limit with room | reached
  · rw [List.take_of_length_le (Nat.le_of_lt room)]
    exact ⟨.ended, serves_all begins finished room, by simp [room]⟩
  · have front : course.Begins (items.take limit) := by
      intro place value found
      rw [List.getElem?_take] at found
      split at found
      · exact begins place value found
      · cases found
    refine ⟨.limit, ?_, by simp; omega⟩
    have served := serves_begun front
    rwa [List.length_take_of_le reached] at served

theorem Course.serves_ofList (items : List α) (limit : Nat) : ∃ ending,
    (Course.ofList items).Serves 0 limit (items.take limit) ending ∧ (ending = .ended ↔ items.length < limit) :=
  serves_take (ofList_begins items) (ofList_length items) limit

namespace Plays
variable {setting : Setting ω} {machine : Machine ω σ α} {course : Course α} {stands : Standing σ ω}
  {place limit : Nat} {items : List α} {ending : Ending}

theorem drains (plays : Plays setting machine course stands) (prompt : setting.Prompt)
    (serves : course.Serves place limit items ending) (taken : List α) (retried : Nat) {seen : Bool}
    {state : σ} {world : ω} (there : stands place seen state world) (sound : setting.sound world) :
    ∃ later after, Session.drain machine limit 0 taken retried state world =
      (.ok ⟨taken.reverse ++ items, ending, retried⟩, later, after) := by
  induction serves generalizing taken seen state world with
  | limit => exact ⟨state, world, by rw [Session.drain, List.append_nil]⟩
  | ended finished =>
    obtain ⟨later, after, asked, _⟩ := (plays.query there sound).exactly prompt
    rw [finished] at asked
    exact ⟨later, after, by rw [Session.drain.eq_def, asked, List.append_nil]⟩
  | @ready place limit value items ending shown rest ih =>
    obtain ⟨later, after, asked, fine, _, there⟩ := (plays.query there sound).exactly prompt
    rw [shown] at asked there
    have passed := plays.advance there (by rw [shown]; rfl) fine
    rw [Session.drain.eq_def, asked]
    dsimp only
    generalize machine.advance later after = outcome at passed ⊢
    cases passed with
    | passed fine _ there =>
      obtain ⟨state, after, drained⟩ := ih (value :: taken) there fine
      exact ⟨state, after, by simpa using drained⟩

def shortage : Ending → Option Shortage
  | .limit => none
  | .ended => some .exhausted
  | .pending => some .pending

theorem takes (plays : Plays setting machine course stands) (prompt : setting.Prompt)
    (serves : course.Serves place limit items ending) (taken : List α) {seen : Bool}
    {state : σ} {world : ω} (there : stands place seen state world) (sound : setting.sound world) :
    ∃ later after, Iteration.takeOnto machine taken limit (.start state) world =
      (Except.ok (taken.reverse ++ items, shortage ending), later, after) := by
  induction serves generalizing taken seen state world with
  | limit => exact ⟨.start state, world, by rw [Iteration.takeOnto, List.append_nil]; rfl⟩
  | ended finished =>
    obtain ⟨later, after, asked, _⟩ := (plays.query there sound).exactly prompt
    rw [finished] at asked
    refine ⟨⟨later, some .ended⟩, after, ?_⟩
    simp [Iteration.takeOnto, Iteration.takeNext, Iteration.peek, Iteration.start, asked, Status.isStable,
      Status.isPending, shortage]
  | @ready place limit value items ending shown rest ih =>
    obtain ⟨later, after, asked, fine, _, there⟩ := (plays.query there sound).exactly prompt
    rw [shown] at asked there
    have passed := plays.advance there (by rw [shown]; rfl) fine
    simp only [Iteration.takeOnto, Iteration.takeNext, Iteration.peek, Iteration.start, asked]
    generalize machine.advance later after = outcome at passed ⊢
    cases passed with
    | passed fine _ there =>
      obtain ⟨state, after, drained⟩ := ih (value :: taken) there fine
      exact ⟨state, after, by simpa [Iteration.start] using drained⟩

end Plays
end LightestFirst
