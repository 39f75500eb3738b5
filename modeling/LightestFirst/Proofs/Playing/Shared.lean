import LightestFirst.Paired
import LightestFirst.Proofs.Playing
-- A buffer over a source that plays a course holds the first elements of this course, and readers
-- of the buffer play the course themselves, each from its own position.
namespace LightestFirst
variable {ω σ τ α : Type}

namespace Buffered

-- The source of a buffer stands behind what the buffer holds, or still on the last element of it.
def Sourced (stands : Standing σ ω) (size : Nat) (headBuffered : Bool) (source : σ) (world : ω) : Prop :=
  match headBuffered with
  | true => ∃ place, size = place + 1 ∧ stands place true source world
  | false => ∃ shown, stands size shown source world

structure Holds (course : Course α) (cell : Buffered σ α) : Prop where
  elements : ∀ {place value}, cell.buffer[place]? = some value → course place = .ready value
  complete : cell.ended = true → course cell.buffer.size = .ended
  released : cell.ended = true → cell.headBuffered = false

structure Stands (course : Course α) (stands : Standing σ ω) (cell : Buffered σ α) (world : ω) : Prop
    extends Holds course cell where
  source : Sourced stands cell.buffer.size cell.headBuffered cell.source world

section Drawing
variable (setting : Setting ω) (course : Course α) (stands : Standing σ ω)

inductive Drawn (size : Nat) (world : ω) : Attempt (Status α) × Bool × σ × ω → Prop where
  | answered {status : Status α} {source : σ} {after : ω}
      (answers : setting.Answers course size world after status) (sound : setting.sound after)
      (moved : setting.moves world after) (there : stands size status.isStable source after) :
      Drawn size world (.ok status, status.isReady, source, after)
  | failed {fault : Fault} {source : σ} {after : ω} (hinders : setting.hinders (.fault fault) world after)
      (sound : setting.sound after) (moved : setting.moves world after)
      (there : stands size false source after) : Drawn size world (.error fault, false, source, after)

end Drawing

variable {setting : Setting ω} {course : Course α} {stands : Standing σ ω} {machine : Machine ω σ α}

theorem Sourced.kept {size : Nat} {headBuffered : Bool} {source : σ} {world after : ω}
    (sourced : Sourced stands size headBuffered source world) (inside : stands.Kept world after) :
    Sourced stands size headBuffered source after := by
  cases headBuffered with
  | false =>
    obtain ⟨shown, there⟩ := sourced
    exact ⟨shown, inside there⟩
  | true =>
    obtain ⟨place, size, there⟩ := sourced
    exact ⟨place, size, inside there⟩

theorem Stands.kept {cell : Buffered σ α} {world after : ω} (there : Stands course stands cell world)
    (inside : stands.Kept world after) : Stands course stands cell after :=
  ⟨there.toHolds, there.source.kept inside⟩

theorem start_stands {source : σ} {world : ω} {shown : Bool} (there : stands 0 shown source world) :
    Stands course stands (start source) world := by
  refine ⟨⟨fun found => ?_, nofun, nofun⟩, shown, there⟩
  simp [start] at found

theorem Drawn.from_before {size : Nat} {before world : ω} {outcome : Attempt (Status α) × Bool × σ × ω}
    (moved : setting.moves before world) (drawn : Drawn setting course stands size world outcome) :
    Drawn setting course stands size before outcome := by
  cases drawn with
  | answered answers sound went there =>
    exact .answered (answers.from_before moved) sound (setting.goes_on moved went) there
  | failed hinders sound went there =>
    exact .failed (setting.hinders_before moved hinders) sound (setting.goes_on moved went) there

theorem ask_drawn (plays : Plays setting machine course stands) {size : Nat} {shown : Bool} {source : σ}
    {world : ω} (there : stands size shown source world) (sound : setting.sound world) :
    Drawn setting course stands size world (draw.ask machine source world) := by
  have told := plays.query there sound
  rw [draw.ask]
  generalize machine.query source world = outcome at told ⊢
  cases told with
  | answered answers sound moved there => exact .answered answers sound moved there
  | failed hinders sound moved there => exact .failed hinders sound moved there

theorem draw_asks (plays : Plays setting machine course stands) {cell : Buffered τ α}
    (holds : Holds course cell) {source : σ} {world : ω}
    (sourced : Sourced stands cell.buffer.size cell.headBuffered source world) (sound : setting.sound world) :
    ∃ later middle shown, draw machine source cell.headBuffered world = draw.ask machine later middle ∧
      stands cell.buffer.size shown later middle ∧ setting.sound middle ∧ setting.moves world middle ∧
      (middle = world ∨ middle = (machine.advance source world).2.2) := by
  cases flag : cell.headBuffered with
  | false =>
    obtain ⟨shown, there⟩ : ∃ shown, stands cell.buffer.size shown source world := by
      simpa only [Sourced, flag] using sourced
    exact ⟨source, world, shown, rfl, there, sound, setting.stays world, .inl rfl⟩
  | true =>
    obtain ⟨place, size, there⟩ : ∃ place, cell.buffer.size = place + 1 ∧ stands place true source world := by
      simpa only [Sourced, flag] using sourced
    have inside : place < cell.buffer.size := by omega
    have last : course place = .ready cell.buffer[place] := holds.elements (Array.getElem?_eq_getElem inside)
    have passed := plays.advance there (by rw [last]; rfl) sound
    rw [draw, size]
    generalize machine.advance source world = outcome at passed ⊢
    cases passed with
    | passed sound moved there => exact ⟨_, _, false, rfl, there, sound, moved, .inr rfl⟩

theorem draw_drawn (plays : Plays setting machine course stands) {cell : Buffered τ α}
    (holds : Holds course cell) {source : σ} {world : ω}
    (sourced : Sourced stands cell.buffer.size cell.headBuffered source world) (sound : setting.sound world) :
    Drawn setting course stands cell.buffer.size world (draw machine source cell.headBuffered world) := by
  obtain ⟨later, middle, shown, asked, there, sound, moved, _⟩ := draw_asks plays holds sourced sound
  rw [asked]
  exact (ask_drawn plays there sound).from_before moved

theorem absorb_stands {size : Nat} {cell : Buffered τ α} {world : ω} {result : Attempt (Status α)}
    {headBuffered : Bool} {source : σ} {after : ω} (holds : Holds course cell)
    (open_ : cell.ended = false) (here : cell.buffer.size = size)
    (drawn : Drawn setting course stands size world (result, headBuffered, source, after)) :
    Stands course stands (cell.absorb result headBuffered source) after := by
  obtain ⟨_, buffer, ended, _⟩ := cell
  obtain rfl : ended = false := open_
  obtain rfl : buffer.size = size := here
  cases drawn with
  | failed hinders sound moved there => exact ⟨⟨holds.elements, nofun, nofun⟩, _, there⟩
  | @answered status _ _ answers sound moved there =>
    cases status with
    | pending => exact ⟨⟨holds.elements, nofun, nofun⟩, _, there⟩
    | ended => exact ⟨⟨holds.elements, fun _ => answers.of_stable rfl, fun _ => rfl⟩, _, there⟩
    | ready value =>
      refine ⟨⟨?_, nofun, nofun⟩, buffer.size, Array.size_push value, there⟩
      intro place held found
      change (buffer.push value)[place]? = some held at found
      rw [Array.getElem?_push] at found
      split at found
      · next last =>
        cases found
        rw [last]
        exact answers.of_stable rfl
      · exact holds.elements found

theorem size_absorb (cell : Buffered τ α) (result : Attempt (Status α)) (headBuffered : Bool) (source : σ) :
    cell.buffer.size ≤ (cell.absorb result headBuffered source).buffer.size := by
  obtain ⟨_, buffer, _, _⟩ := cell
  rcases result with _ | _ | _ | _ <;> simp [absorb]

theorem size_absorb_ready (cell : Buffered τ α) (value : α) (headBuffered : Bool) (source : σ) :
    (cell.absorb (.ok (.ready value)) headBuffered source).buffer.size = cell.buffer.size + 1 := by
  obtain ⟨_, buffer, _, _⟩ := cell
  exact Array.size_push value

theorem settled_course {cell : Buffered σ α} (holds : Holds course cell) {place : Nat} {status : Status α}
    (behind : place ≤ cell.buffer.size) (settled : cell.settled? place = some status) :
    course place = status ∧ (status.isReady = true → place < cell.buffer.size) := by
  rw [settled?] at settled
  split at settled
  · next value found =>
    cases settled
    have inside : place < cell.buffer.size := (Array.getElem?_eq_some_iff.mp found).1
    exact ⟨holds.elements found, fun _ => inside⟩
  · next found =>
    split at settled
    · next ended =>
      cases settled
      have past : cell.buffer.size ≤ place := Array.getElem?_eq_none_iff.mp found
      rw [Nat.le_antisymm behind past]
      exact ⟨holds.complete ended, nofun⟩
    · cases settled

theorem unsettled {cell : Buffered σ α} {place : Nat} (behind : place ≤ cell.buffer.size)
    (settled : cell.settled? place = none) : place = cell.buffer.size ∧ cell.ended = false := by
  rw [settled?] at settled
  split at settled
  · cases settled
  · next found =>
    split at settled
    · cases settled
    · next going => exact ⟨Nat.le_antisymm behind (Array.getElem?_eq_none_iff.mp found), by simpa using going⟩

theorem settled_absorb {cell : Buffered τ α} (going : cell.ended = false) {place : Nat} {status : Status α}
    (settled : cell.settled? place = some status) (result : Attempt (Status α)) (flag : Bool) (state : σ) :
    (cell.absorb result flag state).settled? place = some status := by
  obtain ⟨_, buffer, ended, _⟩ := cell
  obtain rfl : ended = false := going
  simp only [settled?] at settled
  split at settled
  · next value found =>
    cases settled
    have inside : place < buffer.size := (Array.getElem?_eq_some_iff.mp found).1
    rcases result with _ | value' | _ | _
    · simp only [settled?, absorb, found]
    · simp only [settled?, absorb, Array.getElem?_push, if_neg (Nat.ne_of_lt inside), found]
    · simp only [settled?, absorb, found]
    · simp only [settled?, absorb, found]
  · cases settled

theorem going_of_unsettled {cell : Buffered σ α} {place : Nat} (unsettled : cell.settled? place = none) :
    cell.ended = false := by
  rw [settled?] at unsettled
  split at unsettled
  · cases unsettled
  · split at unsettled
    · cases unsettled
    · next going => simpa using going

theorem settled_stable {cell : Buffered σ α} {place : Nat} {status : Status α}
    (settled : cell.settled? place = some status) : status.isStable = true := by
  rw [settled?] at settled
  split at settled
  · cases settled
    rfl
  · split at settled
    · cases settled
      rfl
    · cases settled

end Buffered

-- The buffer belongs to the world of its readers. It never shrinks.
def Setting.sharing (outer : Setting ω) (course : Course α) (stands : Standing σ ω) :
    Setting (Buffered σ α × ω) where
  sound shared := outer.sound shared.2 ∧ shared.1.Stands course stands shared.2
  moves before after := outer.moves before.2 after.2 ∧ before.1.buffer.size ≤ after.1.buffer.size
  hinders cause before after := outer.hinders cause before.2 after.2
  stays shared := ⟨outer.stays shared.2, Nat.le_refl _⟩
  goes_on one two := ⟨outer.goes_on one.1 two.1, Nat.le_trans one.2 two.2⟩
  hinders_before moved held := outer.hinders_before moved.1 held
  hinders_after held moved := outer.hinders_after held moved.1

def aside {κ ω β : Type} (act : ω → β × ω) : κ × ω → β × κ × ω
  | (kept, world) =>
    match act world with
    | (result, world) => (result, kept, world)

theorem Setting.Computes.aside {β : Type} {outer : Setting ω} {machine : Machine ω σ α} {course : Course α}
    {stands : Standing σ ω} {act : ω → Attempt β × ω} {value : β} (plays : Plays outer machine course stands)
    (computes : outer.Computes act value) : (outer.sharing course stands).Computes (LightestFirst.aside act) value := by
  rintro ⟨cell, world⟩ ⟨sound, there⟩
  have given := computes world sound
  simp only [LightestFirst.aside]
  generalize act world = outcome at given ⊢
  cases given with
  | given sound moved => exact .given ⟨sound, there.kept (plays.stays moved)⟩ ⟨moved, Nat.le_refl _⟩
  | refused hinders sound moved => exact .refused hinders ⟨sound, there.kept (plays.stays moved)⟩ ⟨moved, Nat.le_refl _⟩

namespace Reader
variable {setting : Setting ω} {course : Course α} {size : ω → Nat} {readAt : Nat → ω → Attempt (Status α) × ω}

-- What a world shows at a place of the course of which it holds the first `size` elements.
inductive Shown (setting : Setting ω) (course : Course α) (size : ω → Nat) (place : Nat) (world : ω) :
    Attempt (Status α) × ω → Prop where
  | answered {status : Status α} {after : ω} (answers : setting.Answers course place world after status)
      (sound : setting.sound after) (moved : setting.moves world after)
      (inside : status.isReady = true → place < size after) :
      Shown setting course size place world (.ok status, after)
  | failed {fault : Fault} {after : ω} (hinders : setting.hinders (.fault fault) world after)
      (sound : setting.sound after) (moved : setting.moves world after) :
      Shown setting course size place world (.error fault, after)

def Stands (course : Course α) (size : ω → Nat) : Standing Reader ω := fun place seen reader world =>
  reader.index = place ∧ place ≤ size world ∧ (reader.observed = true → place < size world) ∧
    (seen = true → (course place).isReady = true → reader.observed = true)

theorem kept {before after : ω} (grown : size before ≤ size after) : (Stands course size).Kept before after := by
  rintro place seen ⟨index, observed⟩ ⟨rfl, behind, inside, flag⟩
  exact ⟨rfl, Nat.le_trans behind grown, fun seen => Nat.lt_of_lt_of_le (inside seen) grown, flag⟩

theorem plays (grows : ∀ {before after}, setting.moves before after → size before ≤ size after)
    (reads : ∀ {place world}, setting.sound world → place ≤ size world →
      Shown setting course size place world (readAt place world)) :
    Plays setting (machine readAt) course (Stands course size) where
  query := by
    rintro place seen ⟨index, observed⟩ world ⟨rfl, behind, inside, flag⟩ sound
    have shown := reads sound behind
    simp only [machine, query]
    generalize readAt index world = outcome at shown ⊢
    cases shown with
    | failed hinders sound moved =>
      have behind := Nat.le_trans behind (grows moved)
      exact .failed hinders sound moved
        ⟨rfl, behind, fun seen => Nat.lt_of_lt_of_le (inside seen) (grows moved), nofun⟩
    | @answered status after answers sound moved ahead =>
      have behind := Nat.le_trans behind (grows moved)
      refine .answered answers sound moved ⟨rfl, behind, ahead, fun stable ready => ?_⟩
      rwa [answers.of_stable stable] at ready
  advance := by
    rintro place ⟨index, observed⟩ world ⟨rfl, behind, inside, flag⟩ ready sound
    obtain rfl : observed = true := flag rfl ready
    exact .passed sound (setting.stays _) ⟨rfl, inside rfl, nofun, nofun⟩
  kept there moved := kept (grows moved) there

end Reader

namespace Buffered
variable {outer : Setting ω} {course : Course α} {stands : Standing σ ω} {machine : Machine ω σ α}

theorem pull_shown (plays : Plays outer machine course stands) {cell : Buffered σ α} {world : ω}
    (sound : outer.sound world) (there : Stands course stands cell world) (going : cell.ended = false) :
    Reader.Shown (outer.sharing course stands) course (·.1.buffer.size) cell.buffer.size (cell, world)
      (cell.pull machine world) := by
  have drawn := draw_drawn plays there.toHolds there.source sound
  obtain ⟨source, buffer, ended, headBuffered⟩ := cell
  obtain rfl : ended = false := going
  simp only [pull]
  generalize draw machine source headBuffered world = outcome at drawn ⊢
  obtain ⟨result, flag, source, after⟩ := outcome
  have bare : Holds course (⟨(), buffer, false, flag⟩ : Buffered Unit α) := ⟨there.elements, nofun, nofun⟩
  have stand := absorb_stands bare rfl rfl drawn
  have grown := size_absorb (⟨(), buffer, false, flag⟩ : Buffered Unit α) result flag source
  cases drawn with
  | failed hinders sound moved => exact .failed hinders ⟨sound, stand⟩ ⟨moved, grown⟩
  | @answered status _ _ answers sound moved =>
    refine .answered answers ⟨sound, stand⟩ ⟨moved, grown⟩ fun ready => ?_
    obtain ⟨value, rfl⟩ := Status.isReady_iff.mp ready
    exact Nat.lt_of_lt_of_eq (Nat.lt_succ_self _)
      (size_absorb_ready ⟨(), buffer, false, true⟩ value true source).symm

theorem read_shown (plays : Plays outer machine course stands) {place : Nat} {cell : Buffered σ α} {world : ω}
    (sound : (outer.sharing course stands).sound (cell, world)) (behind : place ≤ cell.buffer.size) :
    Reader.Shown (outer.sharing course stands) course (·.1.buffer.size) place (cell, world)
      (cell.read machine place world) := by
  rw [read]
  cases settled : cell.settled? place with
  | some status =>
    obtain ⟨answer, inside⟩ := settled_course sound.2.toHolds behind settled
    exact .answered (.inl answer) sound ((outer.sharing course stands).stays _) inside
  | none =>
    obtain ⟨rfl, going⟩ := unsettled behind settled
    exact pull_shown plays sound.1 sound.2 going

theorem readers_play (plays : Plays outer machine course stands) :
    Plays (outer.sharing course stands) (Reader.machine (Paired.readRight machine)) course
      (Reader.Stands course (·.1.buffer.size)) := by
  refine Reader.plays (fun moved => moved.2) ?_
  rintro place ⟨cell, world⟩ sound behind
  exact read_shown plays sound behind

theorem read_complete {cell : Buffered σ α} {place : Nat} (behind : place ≤ cell.buffer.size)
    (ended : cell.ended = true) (world : ω) : ∃ status, cell.read machine place world = (.ok status, cell, world) := by
  rw [read]
  cases settled : cell.settled? place with
  | some status => exact ⟨status, rfl⟩
  | none => exact absurd ended (by simp [(unsettled behind settled).2])

theorem read_ended {cell later : Buffered σ α} {place : Nat} {world after : ω}
    (finished : cell.read machine place world = (.ok .ended, later, after)) : later.ended = true := by
  rw [read] at finished
  split at finished
  · next settled =>
    cases finished
    rw [settled?] at settled
    split at settled
    · cases settled
    · split at settled
      · assumption
      · cases settled
  · obtain ⟨source, buffer, ended, headBuffered⟩ := cell
    simp only [pull] at finished
    generalize draw machine source headBuffered world = outcome at finished
    obtain ⟨result, flag, source, after⟩ := outcome
    cases finished
    rfl

end Buffered
end LightestFirst
