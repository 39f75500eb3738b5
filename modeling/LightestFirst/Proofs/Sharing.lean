import Mathlib.Data.Seq.Defs
import LightestFirst.Proofs.Playing.Elementary
import LightestFirst.Proofs.Playing.Shared
import LightestFirst.Proofs.Reached
-- Any number of readers of one buffer, asking and advancing in whatever order, with new readers and
-- copies of readers made meanwhile. The source may hold answers back for as long as it likes; how it
-- does so is no part of what is said here, nor that it ever answers.
namespace LightestFirst

structure Counted (σ : Type) where
  stream : σ
  queries : Nat
  advances : Nat

namespace Counted
variable {ω σ α : Type}

def start (stream : σ) : Counted σ := ⟨stream, 0, 0⟩

def machine (source : Machine ω σ α) : Machine ω (Counted σ) α where
  query state world := Machine.within (⟨·, state.queries + 1, state.advances⟩) (source.query state.stream world)
  advance state world := Machine.within (⟨·, state.queries, state.advances + 1⟩) (source.advance state.stream world)

def Stands (stands : Standing σ ω) : Standing (Counted σ) ω := fun place seen state world =>
  stands place seen state.stream world ∧ state.advances = place

theorem plays {setting : Setting ω} {source : Machine ω σ α} {course : Course α} {stands : Standing σ ω}
    (plays : Plays setting source course stands) : Plays setting (machine source) course (Stands stands) where
  query := by
    rintro place seen ⟨stream, queries, advances⟩ world ⟨there, rfl⟩ sound
    have put : ∀ {seen state after}, stands advances seen state after →
        Stands stands advances seen ⟨state, queries + 1, advances⟩ after := fun there => ⟨there, rfl⟩
    exact (plays.query there sound).within put
  advance := by
    rintro place ⟨stream, queries, advances⟩ world ⟨there, rfl⟩ ready sound
    have put : ∀ {state after}, setting.moves world after → stands (advances + 1) false state after →
        Stands stands (advances + 1) false ⟨state, queries, advances + 1⟩ after := fun _ there => ⟨there, rfl⟩
    exact (plays.advance there ready sound).within put
  kept there moved := ⟨plays.kept there.1 moved, there.2⟩

end Counted

namespace Sharing
variable {ω σ α : Type}

-- The first of the readers is the multiplexer itself.
structure State (ω σ α : Type) where
  cell : Buffered (Counted σ) α
  world : ω
  readers : List Reader

def State.start (source : σ) (world : ω) : State ω σ α := ⟨.start (.start source), world, [.start]⟩

inductive Event (α : Type) where
  | asked (reader : Nat) (answer : Attempt (Status α))
  | advanced (reader : Nat) (answer : Attempt Unit)
  | viewed
  | forked (reader : Nat)
  -- something else moved the world
  | elsewhere

def Event.about? : Event α → Option Nat
  | .asked reader _ => some reader
  | .advanced reader _ => some reader
  | _ => none

section Steps
variable (setting : Setting ω) (source : Machine ω σ α)

def reading : Machine (Buffered (Counted σ) α × ω) Reader α :=
  Reader.machine (Paired.readRight (Counted.machine source))

inductive Step : State ω σ α → Event α → State ω σ α → Prop where
  | asked {now : State ω σ α} {place : Nat} {reader later : Reader} {answer : Attempt (Status α)}
      {cell : Buffered (Counted σ) α} {world : ω} (here : now.readers[place]? = some reader)
      (call : (reading source).query reader (now.cell, now.world) = (answer, later, cell, world)) :
      Step now (.asked place answer) ⟨cell, world, now.readers.set place later⟩
  | advanced {now : State ω σ α} {place : Nat} {reader later : Reader} {answer : Attempt Unit}
      {cell : Buffered (Counted σ) α} {world : ω} (here : now.readers[place]? = some reader)
      (call : (reading source).advance reader (now.cell, now.world) = (answer, later, cell, world)) :
      Step now (.advanced place answer) ⟨cell, world, now.readers.set place later⟩
  | viewed {now : State ω σ α} : Step now .viewed ⟨now.cell, now.world, now.readers ++ [.start]⟩
  | forked {now : State ω σ α} {place : Nat} {reader : Reader} (here : now.readers[place]? = some reader) :
      Step now (.forked place) ⟨now.cell, now.world, now.readers ++ [reader]⟩
  | elsewhere {now : State ω σ α} {world : ω} (moved : setting.moves now.world world)
      (sound : setting.sound world) : Step now .elsewhere ⟨now.cell, world, now.readers⟩

end Steps

-- What an event makes of the readers there are. To ask leaves a reader where it is, and lets it pass the element
-- there just where it is shown one; it then passes that one element, and no other before it has asked again.
inductive Moved (readers : List Reader) : Event α → List Reader → Prop where
  | told {place : Nat} {reader : Reader} {status : Status α} (here : readers[place]? = some reader) :
      Moved readers (.asked place (.ok status)) (readers.set place ⟨reader.index, status.isReady⟩)
  | abandoned {place : Nat} {fault : Fault} : Moved readers (.asked place (.error fault)) readers
  | passed {place index : Nat} (here : readers[place]? = some ⟨index, true⟩) :
      Moved readers (.advanced place (.ok ())) (readers.set place ⟨index + 1, false⟩)
  | refused {place index : Nat} (here : readers[place]? = some ⟨index, false⟩) :
      Moved readers (.advanced place (.error (.violation .reader))) readers
  | viewed : Moved readers .viewed (readers ++ [⟨0, false⟩])
  | forked {place : Nat} {reader : Reader} (here : readers[place]? = some reader) :
      Moved readers (.forked place) (readers ++ [reader])
  | elsewhere : Moved readers .elsewhere readers

-- The sequence has just so many elements.
def EndsAt (s : Stream'.Seq α) (place : Nat) : Prop := s.get? place = none ∧ ∀ i < place, (s.get? i).isSome = true

structure Invariant (setting : Setting ω) (course : Course α) (stands : Standing σ ω) (now : State ω σ α) :
    Prop where
  sound : setting.sound now.world
  cell : now.cell.Stands course (Counted.Stands stands) now.world
  readers : ∀ reader ∈ now.readers, reader.index ≤ now.cell.buffer.size ∧
    (reader.observed = true → reader.index < now.cell.buffer.size)

variable {setting : Setting ω} {source : Machine ω σ α} {course : Course α} {stands : Standing σ ω}
  {now later : State ω σ α} {event : Event α}

theorem start_invariant {state : σ} {world : ω} (there : stands 0 false state world)
    (sound : setting.sound world) : Invariant setting course stands (.start state world) := by
  refine ⟨sound, Buffered.start_stands ⟨there, rfl⟩, fun reader among => ?_⟩
  obtain rfl := List.mem_singleton.mp among
  exact ⟨Nat.zero_le _, nofun⟩

theorem reading_plays (plays : Plays setting source course stands) :
    Plays (setting.sharing course (Counted.Stands stands)) (reading source) course
      (Reader.Stands course (·.1.buffer.size)) := Buffered.readers_play (Counted.plays plays)

theorem Invariant.shared (invariant : Invariant setting course stands now) :
    (setting.sharing course (Counted.Stands stands)).sound (now.cell, now.world) := ⟨invariant.sound, invariant.cell⟩

theorem Invariant.reader_stands (invariant : Invariant setting course stands now) {place : Nat} {reader : Reader}
    (here : now.readers[place]? = some reader) :
    Reader.Stands course (·.1.buffer.size) reader.index false reader (now.cell, now.world) := by
  obtain ⟨behind, inside⟩ := invariant.readers reader (List.mem_of_getElem? here)
  exact ⟨rfl, behind, inside, nofun⟩

theorem Invariant.moved (invariant : Invariant setting course stands now) {place : Nat} {reader : Reader}
    {cell : Buffered (Counted σ) α} {world : ω}
    (sound : (setting.sharing course (Counted.Stands stands)).sound (cell, world))
    (grown : now.cell.buffer.size ≤ cell.buffer.size) (behind : reader.index ≤ cell.buffer.size)
    (inside : reader.observed = true → reader.index < cell.buffer.size) :
    Invariant setting course stands ⟨cell, world, now.readers.set place reader⟩ := by
  refine ⟨sound.1, sound.2, fun other among => ?_⟩
  rcases List.mem_or_eq_of_mem_set among with among | rfl
  · obtain ⟨behind, inside⟩ := invariant.readers other among
    exact ⟨Nat.le_trans behind grown, fun seen => Nat.lt_of_lt_of_le (inside seen) grown⟩
  · exact ⟨behind, inside⟩

theorem Invariant.step (plays : Plays setting source course stands)
    (invariant : Invariant setting course stands now) (next : Step setting source now event later) :
    Invariant setting course stands later := by
  cases next with
  | asked here call =>
    have told := (reading_plays plays).query (invariant.reader_stands here) invariant.shared
    rw [call] at told
    cases told with
    | answered _ sound moved there =>
      obtain ⟨same, behind, inside, _⟩ := there
      exact invariant.moved sound moved.2 (same ▸ behind) (same ▸ inside)
    | failed _ sound moved there =>
      obtain ⟨same, behind, inside, _⟩ := there
      exact invariant.moved sound moved.2 (same ▸ behind) (same ▸ inside)
  | @advanced place reader _ _ _ _ here call =>
    obtain ⟨same, behind, inside, _⟩ := invariant.reader_stands here
    simp only [reading, Reader.machine, Reader.advance] at call
    split at call
    · next observed =>
      cases call
      exact invariant.moved invariant.shared (Nat.le_refl _) (inside observed) (by rintro ⟨⟩)
    · cases call
      exact invariant.moved invariant.shared (Nat.le_refl _) behind inside
  | viewed =>
    refine ⟨invariant.sound, invariant.cell, fun reader among => ?_⟩
    rcases List.mem_append.mp among with among | last
    · exact invariant.readers reader among
    · obtain rfl := List.mem_singleton.mp last
      exact ⟨Nat.zero_le _, by rintro ⟨⟩⟩
  | forked here =>
    refine ⟨invariant.sound, invariant.cell, fun reader among => ?_⟩
    rcases List.mem_append.mp among with among | last
    · exact invariant.readers reader among
    · obtain rfl := List.mem_singleton.mp last
      exact invariant.readers _ (List.mem_of_getElem? here)
  | elsewhere moved sound =>
    exact ⟨sound, invariant.cell.kept ((Counted.plays plays).stays moved), invariant.readers⟩

theorem Invariant.reached (plays : Plays setting source course stands) (invariant : Invariant setting course stands now)
    (reached : Reached (Step setting source) now later) : Invariant setting course stands later :=
  reached.invariant invariant fun next held => held.step plays next

theorem Invariant.complete (invariant : Invariant setting course stands now) (ended : now.cell.ended = true)
    (next : Step setting source now event later) : later.cell = now.cell := by
  cases next with
  | @asked place reader _ _ cell world here call =>
    obtain ⟨_, behind, _⟩ := invariant.reader_stands here
    obtain ⟨status, read⟩ : ∃ status, now.cell.read (Counted.machine source) reader.index now.world =
        (.ok status, now.cell, now.world) := Buffered.read_complete behind ended now.world
    simp only [reading, Reader.machine, Reader.query, Paired.readRight, read] at call
    cases call
    rfl
  | advanced here call =>
    simp only [reading, Reader.machine, Reader.advance] at call
    split at call <;> (cases call; rfl)
  | viewed => rfl
  | forked => rfl
  | elsewhere => rfl

theorem Invariant.completed (plays : Plays setting source course stands)
    (invariant : Invariant setting course stands now) (ended : now.cell.ended = true)
    (reached : Reached (Step setting source) now later) : later.cell = now.cell := by
  have both : Invariant setting course stands later ∧ later.cell = now.cell := by
    refine reached.invariant ⟨invariant, rfl⟩ fun next before => ?_
    obtain ⟨held, same⟩ := before
    exact ⟨held.step plays next, (held.complete (by rw [same, ended]) next).trans same⟩
  exact both.2

theorem Step.others (next : Step setting source now event later) {other : Nat} {reader : Reader}
    (there : now.readers[other]? = some reader) (apart : event.about? ≠ some other) :
    later.readers[other]? = some reader := by
  cases next with
  | asked => rwa [List.getElem?_set_ne fun same => apart (congrArg some same)]
  | advanced => rwa [List.getElem?_set_ne fun same => apart (congrArg some same)]
  | viewed => rwa [List.getElem?_append_left (List.getElem?_eq_some_iff.mp there).1]
  | forked => rwa [List.getElem?_append_left (List.getElem?_eq_some_iff.mp there).1]
  | elsewhere => exact there

theorem set_same {readers : List Reader} {place : Nat} {reader : Reader} (here : readers[place]? = some reader) :
    readers.set place reader = readers := by
  obtain ⟨inside, rfl⟩ := List.getElem?_eq_some_iff.mp here
  exact List.set_getElem_self inside

theorem Step.moved (next : Step setting source now event later) : Moved now.readers event later.readers := by
  cases next with
  | @asked place reader _ _ _ _ here call =>
    simp only [reading, Reader.machine, Reader.query] at call
    generalize Paired.readRight (Counted.machine source) reader.index (now.cell, now.world) = outcome at call
    obtain ⟨_ | status, _⟩ := outcome
    · cases call
      exact (set_same here).symm ▸ .abandoned
    · cases call
      exact .told here
  | @advanced place reader _ _ _ _ here call =>
    obtain ⟨index, observed⟩ := reader
    cases observed with
    | true =>
      cases call
      exact .passed here
    | false =>
      cases call
      exact (set_same here).symm ▸ .refused here
  | viewed => exact .viewed
  | forked here => exact .forked here
  | elsewhere => exact .elsewhere

theorem Step.passed (invariant : Invariant setting course stands now) {place : Nat} {answer : Attempt Unit}
    (next : Step setting source now (.advanced place answer) later) :
    later.cell = now.cell ∧ later.world = now.world ∧ (answer = .ok () → ∃ reader, now.readers[place]? = some reader ∧
      reader.index < now.cell.buffer.size ∧ later.readers[place]? = some ⟨reader.index + 1, false⟩) := by
  cases next with
  | @advanced place reader _ _ _ _ here call =>
    obtain ⟨index, observed⟩ := reader
    cases observed with
    | true =>
      cases call
      have inside := (invariant.readers _ (List.mem_of_getElem? here)).2 rfl
      have there : place < now.readers.length := (List.getElem?_eq_some_iff.mp here).1
      exact ⟨rfl, rfl, fun _ => ⟨_, here, inside, List.getElem?_set_self there⟩⟩
    | false =>
      cases call
      exact ⟨rfl, rfl, nofun⟩

theorem Step.told (plays : Plays setting source course stands) (invariant : Invariant setting course stands now)
    {place : Nat} {status : Status α} (next : Step setting source now (.asked place (.ok status)) later)
    (stable : status.isStable = true) : ∃ reader, now.readers[place]? = some reader ∧ course reader.index = status := by
  cases next with
  | asked here call =>
    have told := (reading_plays plays).query (invariant.reader_stands here) invariant.shared
    rw [call] at told
    cases told with
    | answered answers => exact ⟨_, here, answers.of_stable stable⟩

theorem Step.ended {place : Nat} (next : Step setting source now (.asked place (.ok .ended)) later) :
    later.cell.ended = true := by
  cases next with
  | @asked place reader _ _ cell world here call =>
    simp only [reading, Reader.machine, Reader.query] at call
    obtain ⟨⟨answer, cell, world⟩, read⟩ :=
      Exists.intro _ (rfl : Paired.readRight (Counted.machine source) reader.index (now.cell, now.world) = _)
    rw [read] at call
    cases answer with
    | error fault => cases call
    | ok status =>
      cases call
      exact Buffered.read_ended read

section Sequences
variable {s : Stream'.Seq α}

variable (invariant : Invariant setting (.ofAnswers s.get?) stands now)
include invariant

theorem Invariant.buffer_eq {place : Nat} (inside : place < now.cell.buffer.size) :
    now.cell.buffer[place]? = s.get? place := by
  have found : now.cell.buffer[place]? = some now.cell.buffer[place] := Array.getElem?_eq_getElem inside
  rw [found, Iterated.answer_eq_ready.mp (invariant.cell.elements found)]

theorem Invariant.ends_at {place : Nat} (behind : place ≤ now.cell.buffer.size) (finished : s.get? place = none) :
    EndsAt s place := by
  refine ⟨finished, fun i before => ?_⟩
  have inside : i < now.cell.buffer.size := Nat.lt_of_lt_of_le before behind
  rw [← invariant.buffer_eq inside, Array.getElem?_eq_getElem inside]
  rfl

-- Where the source stands: behind the buffer, or on its last element where that is still its own.
theorem Invariant.source_at : ∃ shown, stands now.cell.source.advances shown now.cell.source.stream now.world ∧
    now.cell.source.advances ≤ now.cell.buffer.size ∧ now.cell.buffer.size ≤ now.cell.source.advances + 1 ∧
    (now.cell.headBuffered = true ↔ now.cell.source.advances < now.cell.buffer.size) := by
  have sourced := invariant.cell.source
  cases flag : now.cell.headBuffered with
  | true =>
    rw [flag] at sourced
    obtain ⟨place, size, there, advanced⟩ := sourced
    exact ⟨true, advanced ▸ there, by omega, by omega, by simp; omega⟩
  | false =>
    rw [flag] at sourced
    obtain ⟨shown, there, advanced⟩ := sourced
    exact ⟨shown, advanced ▸ there, by omega, by omega, by simp; omega⟩

end Sequences

-- Whatever has been called so far, by whichever readers: the buffer is the front of the sequence, the
-- source has been moved once past each element of it, the last one apart for a while, and what a
-- reader is told is what the sequence has at its own position. It passes one element by each advance that
-- is not refused.
theorem readers_share_one_pull {s : Stream'.Seq α} (plays : Plays setting source (.ofAnswers s.get?) stands)
    {state : σ} {world : ω} (starts : stands 0 false state world) (sound : setting.sound world)
    (reached : Reached (Step setting source) (.start state world) now) :
    (∀ place < now.cell.buffer.size, now.cell.buffer[place]? = s.get? place) ∧
    (∀ reader ∈ now.readers, reader.index ≤ now.cell.buffer.size) ∧
    (∃ shown, stands now.cell.source.advances shown now.cell.source.stream now.world ∧
      now.cell.source.advances ≤ now.cell.buffer.size ∧ now.cell.buffer.size ≤ now.cell.source.advances + 1 ∧
      (now.cell.headBuffered = true ↔ now.cell.source.advances < now.cell.buffer.size)) ∧
    (now.cell.ended = true → EndsAt s now.cell.buffer.size ∧ now.cell.source.advances = now.cell.buffer.size ∧
      ∀ later, Reached (Step setting source) now later → later.cell = now.cell) ∧
    ∀ event later, Step setting source now event later →
      (∀ place value, event = .asked place (.ok (.ready value)) →
        ∃ reader, now.readers[place]? = some reader ∧ s.get? reader.index = some value) ∧
      (∀ place, event = .asked place (.ok .ended) →
        ∃ reader, now.readers[place]? = some reader ∧ EndsAt s reader.index ∧ later.cell.ended = true) ∧
      (∀ place answer, event = .advanced place answer → later.cell = now.cell ∧ later.world = now.world ∧
        (answer = .ok () → ∃ reader value, now.readers[place]? = some reader ∧ s.get? reader.index = some value ∧
          later.readers[place]? = some ⟨reader.index + 1, false⟩)) ∧
      Moved now.readers event later.readers ∧
      ∀ other reader, now.readers[other]? = some reader → event.about? ≠ some other →
        later.readers[other]? = some reader := by
  have invariant := (start_invariant starts sound).reached plays reached
  refine ⟨fun place inside => invariant.buffer_eq inside, fun reader among => (invariant.readers reader among).1,
    invariant.source_at, fun ended => ?_, fun event later next => ⟨?_, ?_, ?_, next.moved, ?_⟩⟩
  · obtain ⟨_, _, _, last, flag⟩ := invariant.source_at
    have released := invariant.cell.released ended
    have nothing := Iterated.answer_eq_ended.mp (invariant.cell.complete ended)
    refine ⟨invariant.ends_at (Nat.le_refl _) nothing, ?_, fun later further => invariant.completed plays ended further⟩
    rw [released] at flag
    have := flag.mpr
    simp only [Bool.false_eq_true, imp_false] at this
    omega
  · rintro place value rfl
    obtain ⟨reader, here, answer⟩ := next.told plays invariant rfl
    exact ⟨reader, here, Iterated.answer_eq_ready.mp answer⟩
  · rintro place rfl
    obtain ⟨reader, here, answer⟩ := next.told plays invariant rfl
    have behind := (invariant.readers reader (List.mem_of_getElem? here)).1
    exact ⟨reader, here, invariant.ends_at behind (Iterated.answer_eq_ended.mp answer), next.ended⟩
  · rintro place answer rfl
    obtain ⟨cell, world, ahead⟩ := next.passed invariant
    refine ⟨cell, world, fun went => ?_⟩
    obtain ⟨reader, here, inside, there⟩ := ahead went
    exact ⟨reader, _, here, (invariant.buffer_eq inside).symm.trans (Array.getElem?_eq_getElem inside), there⟩
  · exact fun other reader there apart => next.others there apart

section Draining

def pair : Machine Bool (Iterated Nat Nat) Nat := Gated.machine id (Iterated.machine (Iterated.inTurn (.ofList [7, 9])))

theorem pair_plays : Plays (Setting.idle Bool) pair (.ofAnswers (Stream'.Seq.ofList [7, 9]).get?)
    (Gated.Stands (Iterated.InTurn (.ofList [7, 9]))) := Gated.plays (Iterated.inTurn_plays _) fun _ _ => rfl

theorem pair_starts : Gated.Stands (Iterated.InTurn (.ofList [7, 9])) 0 false (.start 0) false :=
  ⟨false, id, Iterated.inTurn_starts _ false⟩

abbrev Next := Step (Setting.idle Bool) pair

-- The gate opens after a query in vain. The first reader then goes on to the end; the second one follows through
-- the buffer, with the gate closed again, and is copied on the way.
theorem pair_drained_twice : ∃ now : State Bool (Iterated Nat Nat) Nat,
    Reached (Step (Setting.idle Bool) pair) (.start (.start 0) false) now ∧
      now.readers = [⟨2, false⟩, ⟨2, false⟩, ⟨0, true⟩] ∧ now.cell.buffer = #[7, 9] ∧ now.cell.source.queries = 4 ∧
      EndsAt (.ofList [7, 9]) now.cell.buffer.size ∧ now.cell.source.advances = now.cell.buffer.size ∧
      ∀ event later, Step (Setting.idle Bool) pair now event later →
        later.cell = now.cell ∧ Moved now.readers event later.readers := by
  let unseen : Buffered (Counted (Iterated Nat Nat)) Nat := ⟨⟨.start 0, 1, 0⟩, #[], false, false⟩
  let one : Buffered (Counted (Iterated Nat Nat)) Nat := ⟨⟨⟨1, some (some 7)⟩, 2, 0⟩, #[7], false, true⟩
  let two : Buffered (Counted (Iterated Nat Nat)) Nat := ⟨⟨⟨2, some (some 9)⟩, 3, 1⟩, #[7, 9], false, true⟩
  let all : Buffered (Counted (Iterated Nat Nat)) Nat := ⟨⟨⟨3, some none⟩, 4, 2⟩, #[7, 9], true, false⟩
  have joined : Next (.start (.start 0) false) .viewed ⟨.start (.start (.start 0)), false, [⟨0, false⟩, ⟨0, false⟩]⟩ :=
    .viewed
  have inVain : Next ⟨.start (.start (.start 0)), false, [⟨0, false⟩, ⟨0, false⟩]⟩ (.asked 0 (.ok .pending))
      ⟨unseen, false, [⟨0, false⟩, ⟨0, false⟩]⟩ := .asked rfl rfl
  have refused : Next ⟨unseen, false, [⟨0, false⟩, ⟨0, false⟩]⟩ (.advanced 1 (.error (.violation .reader)))
      ⟨unseen, false, [⟨0, false⟩, ⟨0, false⟩]⟩ := .advanced rfl rfl
  have opened : Next ⟨unseen, false, [⟨0, false⟩, ⟨0, false⟩]⟩ .elsewhere ⟨unseen, true, [⟨0, false⟩, ⟨0, false⟩]⟩ :=
    .elsewhere trivial trivial
  have seven : Next ⟨unseen, true, [⟨0, false⟩, ⟨0, false⟩]⟩ (.asked 0 (.ok (.ready 7)))
      ⟨one, true, [⟨0, true⟩, ⟨0, false⟩]⟩ := .asked rfl rfl
  have past : Next ⟨one, true, [⟨0, true⟩, ⟨0, false⟩]⟩ (.advanced 0 (.ok ())) ⟨one, true, [⟨1, false⟩, ⟨0, false⟩]⟩ :=
    .advanced rfl rfl
  have nine : Next ⟨one, true, [⟨1, false⟩, ⟨0, false⟩]⟩ (.asked 0 (.ok (.ready 9)))
      ⟨two, true, [⟨1, true⟩, ⟨0, false⟩]⟩ := .asked rfl rfl
  have last : Next ⟨two, true, [⟨1, true⟩, ⟨0, false⟩]⟩ (.advanced 0 (.ok ())) ⟨two, true, [⟨2, false⟩, ⟨0, false⟩]⟩ :=
    .advanced rfl rfl
  have ended : Next ⟨two, true, [⟨2, false⟩, ⟨0, false⟩]⟩ (.asked 0 (.ok .ended))
      ⟨all, true, [⟨2, false⟩, ⟨0, false⟩]⟩ := .asked rfl rfl
  have closed : Next ⟨all, true, [⟨2, false⟩, ⟨0, false⟩]⟩ .elsewhere ⟨all, false, [⟨2, false⟩, ⟨0, false⟩]⟩ :=
    .elsewhere trivial trivial
  have again : Next ⟨all, false, [⟨2, false⟩, ⟨0, false⟩]⟩ (.asked 1 (.ok (.ready 7)))
      ⟨all, false, [⟨2, false⟩, ⟨0, true⟩]⟩ := .asked rfl rfl
  have copied : Next ⟨all, false, [⟨2, false⟩, ⟨0, true⟩]⟩ (.forked 1)
      ⟨all, false, [⟨2, false⟩, ⟨0, true⟩, ⟨0, true⟩]⟩ := .forked rfl
  have follows : Next ⟨all, false, [⟨2, false⟩, ⟨0, true⟩, ⟨0, true⟩]⟩ (.advanced 1 (.ok ()))
      ⟨all, false, [⟨2, false⟩, ⟨1, false⟩, ⟨0, true⟩]⟩ := .advanced rfl rfl
  have nineAgain : Next ⟨all, false, [⟨2, false⟩, ⟨1, false⟩, ⟨0, true⟩]⟩ (.asked 1 (.ok (.ready 9)))
      ⟨all, false, [⟨2, false⟩, ⟨1, true⟩, ⟨0, true⟩]⟩ := .asked rfl rfl
  have lastAgain : Next ⟨all, false, [⟨2, false⟩, ⟨1, true⟩, ⟨0, true⟩]⟩ (.advanced 1 (.ok ()))
      ⟨all, false, [⟨2, false⟩, ⟨2, false⟩, ⟨0, true⟩]⟩ := .advanced rfl rfl
  have endedAgain : Next ⟨all, false, [⟨2, false⟩, ⟨2, false⟩, ⟨0, true⟩]⟩ (.asked 1 (.ok .ended))
      ⟨all, false, [⟨2, false⟩, ⟨2, false⟩, ⟨0, true⟩]⟩ := .asked rfl rfl
  have first : Reached Next (.start (.start 0) false) ⟨all, true, [⟨2, false⟩, ⟨0, false⟩]⟩ :=
    ((((((((Reached.start.step joined).step inVain).step refused).step opened).step seven).step past).step nine).step
      last).step ended
  have reached := ((((((first.step closed).step again).step copied).step follows).step nineAgain).step lastAgain).step
    endedAgain
  obtain ⟨-, -, -, complete, steps⟩ := readers_share_one_pull pair_plays pair_starts trivial reached
  obtain ⟨ends, advances, still⟩ := complete rfl
  refine ⟨_, reached, rfl, rfl, rfl, ends, advances, fun event later next => ⟨still _ (Reached.start.step next), ?_⟩⟩
  exact (steps event later next).2.2.2.1

end Draining

end Sharing
end LightestFirst
