import LightestFirst.Proofs.Flows.Composites
import LightestFirst.Proofs.Flows.Tempers
-- The streams resume: what a refused call leaves of a stream can be asked again and goes on with the call
-- that was refused; what has been answered is answered again without any call.
namespace LightestFirst
variable {κ ω σ τ ι α β : Type}

section Resuming
variable (footing : Footing κ ω) (setting : Setting ω)

def Machine.Tries (machine : Machine ω σ α) (quiet : Status α → σ → ω → Prop) (state : σ) (world : ω) : Prop :=
  Tried (fun left : σ × ω => footing.foot left.2)
    (fun status left => status.isStable = true ∧ quiet status left.1 left.2)
    (fun left => (machine.query left.1 left.2).2) (footing.foot world) (machine.query state world)

-- `quiet`: asked where it is, the stream answers this at once and touches nothing.
structure Resumes (machine : Machine ω σ α) (course : Course α) (stands : Standing σ ω)
    (quiet : Status α → σ → ω → Prop) : Prop extends Plays setting machine course stands where
  along : machine.Along footing.moves
  tries : ∀ {place seen state world}, stands place seen state world → setting.sound world →
    machine.Tries footing quiet state world
  repeats : ∀ {status state world}, quiet status state world → ∃ later, machine.query state world = (.ok status, later, world)
  still : ∀ {status state before after}, quiet status state before → footing.moves before after → quiet status state after

def Machine.Settled (machine : Machine ω σ α) (status : Status α) (state : σ) (_ : ω) : Prop :=
  ∀ world, ∃ later, machine.query state world = (.ok status, later, world)

-- A place of the world that readers look at: what is settled there is read without touching anything.
structure Reading (readAt : Nat → ω → Attempt (Status α) × ω) (course : Course α) (size : ω → Nat)
    (settled : Nat → Status α → ω → Prop) : Prop where
  grows : ∀ {before after}, setting.moves before after → size before ≤ size after
  shown : ∀ {place world}, setting.sound world → place ≤ size world →
    Reader.Shown setting course size place world (readAt place world)
  along : ∀ place world, footing.moves world (readAt place world).2
  tries : ∀ {place world}, setting.sound world → place ≤ size world →
    Tried footing.foot (fun status after => status.isStable = true ∧ settled place status after)
      (fun after => (readAt place after).2) (footing.foot world) (readAt place world)
  repeats : ∀ {place status world}, settled place status world → readAt place world = (.ok status, world)
  still : ∀ {place status before after}, settled place status before → footing.moves before after →
    settled place status after

end Resuming

variable {footing : Footing κ ω} {setting : Setting ω}

theorem Empty.resumes : Resumes footing setting (Empty.machine : Machine ω Unit α) (fun _ => .ended)
    (fun _ _ _ _ => True) Empty.machine.Settled where
  toPlays := Empty.plays
  along := Empty.along footing.drifts
  tries _ _ := .done ⟨rfl, fun _ => ⟨_, rfl⟩⟩
  repeats held := held _
  still held _ := held

theorem Single.resumes (value : α) :
    Resumes footing setting Single.machine (.ofList [value]) (Single.Stands value) Single.machine.Settled where
  toPlays := Single.plays value
  along := Single.along footing.drifts
  tries := by
    rintro place seen ⟨_ | held⟩ world _ _
    · exact .done ⟨rfl, fun _ => ⟨_, rfl⟩⟩
    · exact .done ⟨rfl, fun _ => ⟨_, rfl⟩⟩
  repeats held := held _
  still held _ := held

theorem Iterated.resumes (next : ι → Option α × ι) (iterator : ι) :
    Resumes footing setting (Iterated.machine (plainly next)) (.ofAnswers (answers next iterator))
      (Iterated.Stands (answers next iterator) fun place now _ => now = later next iterator place)
      (Iterated.machine (plainly next)).Settled where
  toPlays := Iterated.plays (plainly_yields setting next iterator)
  along := Iterated.along footing.drifts fun _ world => footing.drifts.stays world
  tries := by
    have stable : ∀ head : Option α, (answer head).isStable = true := by rintro (_ | _) <;> rfl
    rintro place seen ⟨iterator, _ | head⟩ world _ _
    · exact .done ⟨stable _, fun _ => ⟨_, rfl⟩⟩
    · exact .done ⟨stable _, fun _ => ⟨_, rfl⟩⟩
  repeats held := held _
  still held _ := held

namespace Mapped
variable {source : Machine ω σ α} {f : Nat → α → ω → Attempt β × ω} {g : α → β} {said : α → κ} {course : Course α}
  {stands : Standing σ ω} {quiet : Status α → σ → ω → Prop}

theorem query_along (along : ∀ call value world, footing.moves world (f call value world).2) (state : σ) (calls : Nat)
    (world : ω) : footing.moves (source.query state world).2.2 (query source f ⟨state, none, calls⟩ world).2.2 := by
  simp only [query]
  generalize source.query state world = outcome
  obtain ⟨_ | value | _ | _, later, after⟩ := outcome
  · exact footing.drifts.stays after
  · have acted := along (calls + 1) value after
    dsimp only
    generalize f (calls + 1) value after = outcome at acted ⊢
    obtain ⟨_ | _, _⟩ := outcome
    · exact acted
    · exact acted
  · exact footing.drifts.stays after
  · exact footing.drifts.stays after

theorem query_ready {state later : σ} {world after : ω} {value : α} (calls : Nat)
    (asked : source.query state world = (.ok (.ready value), later, after)) :
    (query source f ⟨state, none, calls⟩ world).2.2 = (f (calls + 1) value after).2 := by
  simp only [query, asked]
  generalize f (calls + 1) value after = outcome
  obtain ⟨_ | _, _⟩ := outcome
  · rfl
  · rfl

theorem resumes (inner : Resumes footing setting source course stands quiet)
    (speaks : ∀ call value, Speaks footing setting (said value) (g value) (f call value)) :
    Resumes footing setting (machine source f) (course.map g) (Stands course g stands) (machine source f).Settled where
  toPlays := Mapped.plays inner.toPlays fun call value => (speaks call value).computes
  along := Mapped.along footing.drifts inner.along fun call value => (speaks call value).along
  repeats held := held _
  still held _ := held
  tries := by
    have acts : ∀ call value world, footing.moves world (f call value world).2 := fun call value => (speaks call value).along
    rintro place seen ⟨state, cached, calls⟩ world there sound
    cases cached with
    | some status =>
      obtain ⟨rfl, stable, _⟩ := there
      exact .done ⟨by rwa [Status.isStable_map], fun _ => ⟨_, rfl⟩⟩
    | none =>
      obtain ⟨_, shown, there⟩ := there
      have tried := inner.tries there sound
      have moved := inner.along.query state world
      simp only [Machine.Tries, machine, query] at tried ⊢
      generalize source.query state world = outcome at tried moved ⊢
      cases tried with
      | @refused _ left _ _ last made said numbered repeated =>
        exact .refused last made said numbered (repeated.trans (footing.calls (query_along acts left.1 calls left.2)))
      | @done status left fine =>
        obtain ⟨later, after⟩ := left
        cases status with
        | pending => cases fine.1
        | ended => exact .done ⟨rfl, fun _ => ⟨_, rfl⟩⟩
        | ready value =>
          have acted : Tried footing.foot (fun _ _ => True)
              (fun world => (query source f ⟨later, none, calls + 1⟩ world).2.2)
              (footing.foot after) (f (calls + 1) value after) := by
            refine (speaks (calls + 1) value).tried (fun _ _ _ => trivial) ?_
            obtain ⟨again, asked⟩ := inner.repeats (inner.still fine.2 (acts (calls + 1) value after))
            rw [query_ready (calls + 1) asked]
            exact (speaks (calls + 1 + 1) value).logs _
          have acted := acted.from_before (footing.goes moved)
          dsimp only
          generalize f (calls + 1) value after = outcome at acted ⊢
          cases acted with
          | done => exact .done ⟨rfl, fun _ => ⟨_, rfl⟩⟩
          | refused last made said numbered repeated => exact .refused last made said numbered repeated

end Mapped

namespace Merged
variable {first : Machine ω σ α} {second : Machine ω τ α} {le : α → α → Bool} {xs ys : Course α}
  {firstStands : Standing σ ω} {secondStands : Standing τ ω} {quiet : Status α → σ → ω → Prop}
  {still : Status α → τ → ω → Prop}

theorem query_along (right : second.Along footing.moves) (l : σ) (r : τ) (world : ω) :
    footing.moves (first.query l world).2.2 (query first second le ⟨l, r, none⟩ world).2.2 := by
  simp only [query]
  generalize first.query l world = outcome
  obtain ⟨_ | x, l, middle⟩ := outcome
  · exact footing.drifts.stays middle
  · have answered := right.query r middle
    dsimp only
    generalize second.query r middle = outcome at answered ⊢
    obtain ⟨_ | y, _, _⟩ := outcome
    · exact answered
    · exact answered

theorem query_right {l later : σ} {r : τ} {world middle : ω} {x : Status α}
    (asked : first.query l world = (.ok x, later, middle)) :
    (query first second le ⟨l, r, none⟩ world).2.2 = (second.query r middle).2.2 := by
  simp only [query, asked]
  generalize second.query r middle = outcome
  obtain ⟨_ | y, _, _⟩ := outcome
  · rfl
  · rfl

theorem between_stable (le : α → α → Bool) {x y : Status α} (left : x.isStable = true) (right : y.isStable = true) :
    ∃ verdict, Verdict.between le x y = some verdict ∧ verdict.status.isStable = true := by
  obtain ⟨verdict, decided⟩ := Course.between_definite le (Status.isStable_iff.mp left) (Status.isStable_iff.mp right)
  exact ⟨verdict, decided, by cases verdict <;> rfl⟩

theorem resumes (left : Resumes footing setting first xs firstStands quiet)
    (right : Resumes footing setting second ys secondStands still) :
    Resumes footing setting (machine first second le) (.merged le xs ys) (Stands le xs ys firstStands secondStands)
      (machine first second le).Settled where
  toPlays := Merged.plays left.toPlays right.toPlays
  along := Merged.along footing.drifts left.along right.along
  repeats held := held _
  still held _ := held
  tries := by
    rintro place seen ⟨l, r, verdict⟩ world ⟨i, j, _, there⟩ sound
    cases verdict with
    | some verdict => exact .done ⟨by cases verdict <;> rfl, fun _ => ⟨_, rfl⟩⟩
    | none =>
      obtain ⟨_, ⟨_, leftThere⟩, _, rightThere⟩ := there
      have tried := left.tries leftThere sound
      have told := left.query leftThere sound
      have moved := left.along.query l world
      simp only [Machine.Tries, machine, query] at tried ⊢
      generalize first.query l world = outcome at tried told moved ⊢
      cases tried with
      | @refused _ back _ _ last made said numbered repeated =>
        exact .refused last made said numbered (repeated.trans (footing.calls (query_along right.along back.1 r back.2)))
      | @done x back answered =>
        obtain ⟨l, middle⟩ := back
        obtain ⟨sound, went⟩ : setting.sound middle ∧ setting.moves world middle := by
          cases told with
          | answered _ sound moved _ => exact ⟨sound, moved⟩
        have tried := (right.tries (right.kept rightThere went) sound).from_before (footing.goes moved)
        have moved := right.along.query r middle
        dsimp only at tried ⊢
        generalize second.query r middle = outcome at tried moved ⊢
        cases tried with
        | @refused _ back _ _ last made said numbered repeated =>
          obtain ⟨_, again⟩ := left.repeats (left.still answered.2 moved)
          refine .refused last made said numbered ?_
          have same : (query first second le ⟨l, back.1, none⟩ back.2).2.2 = (second.query back.1 back.2).2.2 :=
            query_right again
          rwa [← same] at repeated
        | @done y back answer =>
          obtain ⟨verdict, decided, stable⟩ := between_stable le answered.1 answer.1
          dsimp only
          rw [decided]
          exact .done ⟨stable, fun _ => ⟨_, rfl⟩⟩

end Merged

namespace Reader
variable {readAt : Nat → ω → Attempt (Status α) × ω} {course : Course α} {size : ω → Nat}
  {settled : Nat → Status α → ω → Prop}

def Quiet (settled : Nat → Status α → ω → Prop) (status : Status α) (reader : Reader) (world : ω) : Prop :=
  settled reader.index status world

theorem query_world (readAt : Nat → ω → Attempt (Status α) × ω) (reader : Reader) (world : ω) :
    ((machine readAt).query reader world).2.2 = (readAt reader.index world).2 := by
  simp only [machine, query]
  generalize readAt reader.index world = outcome
  obtain ⟨_ | _, _⟩ := outcome
  · rfl
  · rfl

theorem resumes (reading : Reading footing setting readAt course size settled) :
    Resumes footing setting (machine readAt) course (Stands course size) (Quiet settled) where
  toPlays := Reader.plays reading.grows reading.shown
  along := Reader.along footing.drifts reading.along
  repeats := by
    intro status reader world held
    simp only [machine, query, reading.repeats held]
    exact ⟨_, rfl⟩
  still held moved := reading.still held moved
  tries := by
    rintro place seen ⟨index, observed⟩ world ⟨rfl, behind, _⟩ sound
    have tried := reading.tries sound behind
    simp only [Machine.Tries, machine, query]
    generalize readAt index world = outcome at tried ⊢
    cases tried with
    | done fine => exact .done fine
    | @refused _ after _ _ last made said numbered repeated =>
      have same := query_world readAt ⟨index, observed⟩ after
      refine .refused last made said numbered ?_
      rwa [← same] at repeated

end Reader

namespace Buffered
variable {source : Machine ω σ α} {course : Course α} {stands : Standing σ ω} {quiet : Status α → σ → ω → Prop}

theorem settled_read {cell : Buffered σ α} {place : Nat} {status : Status α} (settled : cell.settled? place = some status)
    (index : Nat) (world : ω) : (Paired.readRight source index (cell, world)).2.1.settled? place = some status := by
  simp only [Paired.readRight, read]
  split
  · exact settled
  · next unsettled =>
    have going := going_of_unsettled unsettled
    obtain ⟨state, buffer, ended, flag⟩ := cell
    obtain rfl : ended = false := going
    simp only [pull]
    generalize draw source state flag world = outcome
    have still : (⟨(), buffer, false, outcome.2.1⟩ : Buffered Unit α).ended = false := rfl
    exact settled_absorb still settled _ _ _

theorem read_unsettled {cell : Buffered σ α} {place : Nat} (unsettled : cell.settled? place = none)
    (flag : cell.headBuffered = false) (world : ω) :
    (Paired.readRight source place (cell, world)).2.2 = (source.query cell.source world).2.2 := by
  simp only [Paired.readRight, read, unsettled]
  obtain ⟨state, buffer, ended, headBuffered⟩ := cell
  obtain rfl : headBuffered = false := flag
  simp only [pull, draw, draw.ask]
  generalize source.query state world = outcome
  obtain ⟨_ | _, _, _⟩ := outcome
  · rfl
  · rfl

theorem read_tried (resumes : Resumes footing setting source course stands quiet) {place : Nat} {cell : Buffered σ α}
    {world : ω} (there : cell.Stands course stands world) (sound : setting.sound world) (behind : place ≤ cell.buffer.size) :
    Tried (footing.sharing σ α).foot (fun status shared => status.isStable = true ∧ shared.1.settled? place = some status)
      (fun shared => (Paired.readRight source place shared).2) (footing.foot world)
      (Paired.readRight source place (cell, world)) := by
  simp only [Paired.readRight, read]
  cases settled : cell.settled? place with
  | some status => exact .done ⟨settled_stable settled, settled⟩
  | none =>
    obtain ⟨rfl, going⟩ := unsettled behind settled
    obtain ⟨later, middle, shown, drawn, standing, sound, _, met⟩ :=
      draw_asks resumes.toPlays there.toHolds there.source sound
    have moved : footing.moves world middle := by
      rcases met with rfl | rfl
      · exact footing.drifts.stays middle
      · exact resumes.along.advance cell.source world
    have tried := (resumes.tries standing sound).from_before (footing.goes moved)
    obtain ⟨state, buffer, ended, flag⟩ := cell
    obtain rfl : ended = false := going
    have beyond : buffer[buffer.size]? = none := Array.getElem?_eq_none (Nat.le_refl _)
    simp only [pull]
    rw [drawn, draw.ask]
    generalize source.query later middle = outcome at tried ⊢
    cases tried with
    | @refused fault left _ _ last made said numbered repeated =>
      refine .refused last made said numbered ?_
      have unsettled : (⟨left.1, buffer, false, false⟩ : Buffered σ α).settled? buffer.size = none := by
        simp only [settled?, beyond]
        rfl
      have same : (Paired.readRight source buffer.size (⟨left.1, buffer, false, false⟩, left.2)).2.2 =
          (source.query left.1 left.2).2.2 := read_unsettled unsettled rfl left.2
      rwa [← same] at repeated
    | @done status left fine =>
      cases status with
      | pending => cases fine.1
      | ended => exact .done ⟨rfl, by simp only [settled?, absorb, beyond, if_pos]⟩
      | ready value => exact .done ⟨rfl, by simp only [settled?, absorb, Array.getElem?_push_size]⟩

theorem reading (resumes : Resumes footing setting source course stands quiet) :
    Reading (footing.sharing σ α) (setting.sharing course stands) (Paired.readRight source) course (·.1.buffer.size)
      (fun place status shared => shared.1.settled? place = some status) where
  grows moved := moved.2
  shown := by
    rintro place ⟨cell, world⟩ sound behind
    exact read_shown resumes.toPlays sound behind
  along := by
    rintro place ⟨cell, world⟩
    exact ⟨read_along footing.drifts resumes.along place (cell, world), fun _ _ settled => settled_read settled place world⟩
  tries := by
    rintro place ⟨cell, world⟩ ⟨sound, there⟩ behind
    exact read_tried resumes there sound behind
  repeats := by
    rintro place status ⟨cell, world⟩ settled
    simp only [Paired.readRight, read, settled]
  still settled moved := moved.2 _ _ settled

end Buffered

namespace Multiplexed
variable {source : Machine ω σ α} {course : Course α} {stands : Standing σ ω} {quiet : Status α → σ → ω → Prop}

theorem resumes (inner : Resumes footing setting source course stands quiet) :
    Resumes footing setting (machine source) course (Stands course stands) (machine source).Settled where
  toPlays := Multiplexed.plays inner.toPlays
  along := Multiplexed.along footing.drifts inner.along
  repeats held := held _
  still held _ := held
  tries := by
    rintro place seen ⟨cell, reader⟩ world ⟨holds, there⟩ sound
    have tried := (Reader.resumes (Buffered.reading inner)).tries there ⟨sound, holds⟩
    simp only [Machine.Tries, machine, Enclosed.machine] at tried ⊢
    change Tried _ _ _ _ ((reading source).query reader (cell, world)) at tried
    generalize (reading source).query reader (cell, world) = outcome at tried ⊢
    cases tried with
    | refused last made said numbered repeated => exact .refused last made said numbered repeated
    | @done status left fine =>
      refine .done ⟨fine.1, fun world => ?_⟩
      have held : left.2.1.settled? left.1.index = some status := fine.2
      simp only [reading, Reader.machine, Reader.query, Paired.readRight, Buffered.read, held]
      exact ⟨_, rfl⟩

end Multiplexed

theorem Speaks.aside {stands : Standing τ ω} {machine : Machine ω τ α} {course : Course α} {call : κ} {value : β}
    {act : ω → Attempt β × ω} (plays : Plays setting machine course stands) (speaks : Speaks footing setting call value act) :
    Speaks (footing.sharing τ α) (setting.sharing course stands) call value (aside act) where
  computes := speaks.computes.aside plays
  along := fun ⟨_, world⟩ => ⟨speaks.along world, fun _ _ settled => settled⟩
  logs := fun ⟨_, world⟩ => speaks.logs world
  refused := fun ⟨_, world⟩ fault => speaks.refused world fault

namespace Paired
variable {first : Machine ω σ α} {second : Machine ω τ α} {le : α → α → Bool} {join : α → α → ω → Attempt α × ω}
  {joined : α → α → α} {said : α → α → κ} {xs ys : Course α} {firstStands : Standing σ ω} {secondStands : Standing τ ω}
  {quiet : Status α → σ → ω → Prop} {still : Status α → τ → ω → Prop}

theorem lane_resumes (right : Resumes footing setting second ys secondStands still)
    (speaks : ∀ x y, Speaks footing setting (said x y) (joined x y) (join x y)) (element : α) :
    Resumes (footing.sharing τ α) (setting.sharing ys secondStands) (laneMachine second join element)
      (ys.map (joined element)) (JoinsStand ys joined element) (laneMachine second join element).Settled :=
  Mapped.resumes (Reader.resumes (Buffered.reading right)) fun _ y => (speaks element y).aside right.toPlays

theorem inFront_world (status : Status α) (kept : Lane α)
    (outcome : Attempt (List (Status α)) × List (Lane α) × Buffered τ α × ω) :
    (inFront status kept outcome).2.2 = outcome.2.2 := by
  obtain ⟨_ | _, _, _⟩ := outcome
  · rfl
  · rfl

-- By the rows: the lanes in front of the one that was given up have been answered and are passed at once.
theorem poll_tried (right : Resumes footing setting second ys secondStands still)
    (speaks : ∀ x y, Speaks footing setting (said x y) (joined x y) (join x y)) {row : Nat} {columns : List Nat}
    {seen : Bool} {lanes : List (Lane α)} {world : Buffered τ α × ω} (stand : Lanes joined xs ys seen world row columns lanes)
    (sound : (setting.sharing ys secondStands).sound world) :
    Tried (fun left : List (Lane α) × Buffered τ α × ω => footing.foot left.2.2)
      (fun statuses _ => statuses.any Status.isPending = false) (fun left => (poll second join left.1 left.2).2)
      (footing.foot world.2) (poll second join lanes world) := by
  have acts : ∀ x y world, footing.moves world (join x y world).2 := fun x y => (speaks x y).along
  have polls := poll_along footing.drifts right.along acts
  induction columns generalizing row seen lanes world with
  | nil =>
    cases stand
    exact .done rfl
  | cons column columns ih =>
    cases stand with
    | dropped ended rest => exact ih rest sound
    | @lane _ _ _ lane lanes shown answered here rest =>
      have resumes := lane_resumes right speaks lane.element
      have tried := resumes.tries here.2.2 sound
      have told := resumes.query here.2.2 sound
      have moved := resumes.along.query lane.joins world
      obtain ⟨⟨result, later, middle⟩, outcome⟩ :=
        Exists.intro _ (rfl : (laneMachine second join lane.element).query lane.joins world = _)
      have asked := pollLane_eq outcome
      simp only [Machine.Tries] at tried
      rw [outcome] at tried told moved
      cases tried with
      | refused last made said numbered repeated =>
        have behind := footing.calls (poll_first footing.drifts (polls lanes) ⟨lane.ordinal, lane.element, later⟩ middle)
        rw [poll, asked]
        exact .refused last made said numbered (repeated.trans behind)
      | @done status _ fine =>
        obtain ⟨sound, went⟩ : (setting.sharing ys secondStands).sound middle ∧
            (setting.sharing ys secondStands).moves world middle := by
          cases told with
          | answered _ sound moved _ => exact ⟨sound, moved⟩
        have tried := (ih (rest.kept went.2) sound).from_before (footing.goes moved.1)
        by_cases ended : status = .ended
        · subst ended
          rwa [poll_dropped asked]
        · rw [poll_kept asked ended]
          generalize poll second join lanes middle = outcome at tried ⊢
          cases tried with
          | done settled =>
            refine .done ?_
            rw [List.any_cons, settled, Bool.or_false]
            simpa [Status.isStable] using fine.1
          | @refused _ left _ _ last made said numbered repeated =>
            obtain ⟨again, answers⟩ := fine.2 left.2
            have kept : pollLane second join ⟨lane.ordinal, lane.element, later⟩ left.2 =
                (.ok status, ⟨lane.ordinal, lane.element, again⟩, left.2) := pollLane_eq answers
            have same : (poll second join (⟨lane.ordinal, lane.element, later⟩ :: left.1) left.2).2.2 =
                (poll second join left.1 left.2).2.2 := by
              rw [poll_kept kept ended, inFront_world]
            refine .refused last made said numbered ?_
            rwa [← same] at repeated

theorem grow_idle {l : σ} {leftEnded needsLeft : Bool} {cell : Buffered τ α} {lanes : List (Lane α)} {appended : Nat}
    {choice : Option (Choice α)} (idle : leftEnded = true ∨ needsLeft = false) (world : ω) :
    grow first ⟨l, leftEnded, cell, lanes, appended, needsLeft, choice⟩ world =
      (.ok true, ⟨l, leftEnded, cell, lanes, appended, needsLeft, choice⟩, world) := by
  rcases idle with rfl | rfl
  · rfl
  · cases leftEnded <;> rfl

theorem grow_first (along : first.Along footing.moves) (l : σ) (cell : Buffered τ α) (lanes : List (Lane α)) (appended : Nat)
    (choice : Option (Choice α)) (world : ω) : footing.moves (first.query l world).2.2
      (grow first ⟨l, false, cell, lanes, appended, true, choice⟩ world).2.2 := by
  simp only [grow]
  generalize first.query l world = outcome
  obtain ⟨_ | x | _ | _, l, middle⟩ := outcome
  · exact footing.drifts.stays middle
  · have passed := along.advance l middle
    dsimp only
    generalize first.advance l middle = outcome at passed ⊢
    obtain ⟨_ | _, _, _⟩ := outcome
    · exact passed
    · exact passed
  · exact footing.drifts.stays middle
  · exact footing.drifts.stays middle

theorem grow_tried (left : Resumes footing setting first xs firstStands quiet) {rows : List Nat} {due : Bool}
    {state : Paired σ τ α} {world : ω} (undecided : state.choice = none)
    (between : Between joined xs ys firstStands secondStands rows due state world) (sound : setting.sound world) :
    Tried (fun left : Paired σ τ α × ω => footing.foot left.2)
      (fun ready left => ready = true ∧ (left.1.leftEnded = true ∨ left.1.needsLeft = false))
      (fun left => (grow first left.1 left.2).2) (footing.foot world) (grow first state world) := by
  obtain ⟨l, leftEnded, cell, lanes, appended, needsLeft, choice⟩ := state
  obtain rfl : choice = none := undecided
  obtain ⟨⟨shown, leftThere⟩, _, frontier, _⟩ := between
  cases frontier with
  | fetched => exact .done ⟨rfl, .inr rfl⟩
  | finished ended => exact .done ⟨rfl, .inl rfl⟩
  | due =>
    have tried := left.tries leftThere sound
    have told := left.query leftThere sound
    simp only [Machine.Tries, grow] at tried ⊢
    generalize first.query l world = outcome at tried told ⊢
    cases tried with
    | @refused _ back _ _ last made said numbered repeated =>
      have more := footing.calls (grow_first left.along back.1 cell lanes rows.length none back.2)
      exact .refused last made said numbered (repeated.trans more)
    | @done status back fine =>
      obtain ⟨l, middle⟩ := back
      cases status with
      | pending => cases fine.1
      | ended => exact .done ⟨rfl, .inl rfl⟩
      | ready x =>
        cases told with
        | answered answers sound _ there =>
          have passed := left.advance there (by rw [answers.of_stable rfl]; rfl) sound
          dsimp only
          generalize first.advance l middle = outcome at passed ⊢
          cases passed with
          | passed => exact .done ⟨rfl, .inr rfl⟩

theorem query_grow (right : second.Along footing.moves) (acts : ∀ x y world, footing.moves world (join x y world).2)
    {state : Paired σ τ α} (undecided : state.choice = none) (world : ω) :
    footing.moves (grow first state world).2.2 (query first second le join state world).2.2 := by
  simp only [query, undecided]
  generalize grow first state world = outcome
  obtain ⟨_ | _ | _, state, middle⟩ := outcome
  · exact footing.drifts.stays middle
  · exact footing.drifts.stays middle
  · exact settle_along footing.drifts right acts state middle

theorem query_poll {l : σ} {leftEnded needsLeft : Bool} {cell : Buffered τ α} {lanes : List (Lane α)} {appended : Nat}
    (idle : leftEnded = true ∨ needsLeft = false) (world : ω) :
    (query first second le join ⟨l, leftEnded, cell, lanes, appended, needsLeft, none⟩ world).2.2 =
      (poll second join lanes (cell, world)).2.2.2 := by
  simp only [query, grow_idle idle, settle]
  generalize poll second join lanes (cell, world) = outcome
  obtain ⟨_ | _, _, _, _⟩ := outcome
  · rfl
  · rfl

theorem choose_settled {statuses : List (Status α)} (settled : statuses.any Status.isPending = false) :
    ∃ choice, choose le statuses = some choice := by
  rw [choose, settled]
  cases least le statuses with
  | none => exact ⟨_, rfl⟩
  | some _ => exact ⟨_, rfl⟩

theorem resumes (left : Resumes footing setting first xs firstStands quiet)
    (right : Resumes footing setting second ys secondStands still)
    (speaks : ∀ x y, Speaks footing setting (said x y) (joined x y) (join x y)) :
    Resumes footing setting (machine first second le join) (.joined le joined xs ys)
      (Stands le joined xs ys firstStands secondStands) (machine first second le join).Settled where
  toPlays := Paired.plays left.toPlays right.toPlays fun x y => (speaks x y).computes
  along := Paired.along footing.drifts left.along right.along fun x y => (speaks x y).along
  repeats held := held _
  still held _ := held
  tries := by
    have acts : ∀ x y world, footing.moves world (join x y world).2 := fun x y => (speaks x y).along
    have kept : ∀ {state : Paired σ τ α} {choice}, state.choice = some choice →
        choice.status.isStable = true ∧ ∀ world : ω, (machine first second le join).Settled choice.status state world := by
      intro state choice chosen
      refine ⟨by cases choice <;> rfl, fun _ world => ⟨state, ?_⟩⟩
      simp only [machine, query, chosen]
    rintro place seen state world ⟨rows, due, _, between, _⟩ sound
    simp only [Machine.Tries, machine, query]
    cases chosen : state.choice with
    | some choice => exact .done ((kept chosen).imp_right fun held => held world)
    | none =>
      have tried := grow_tried left chosen between sound
      have grown := grow_grown left.toPlays right.toPlays chosen between sound
      have moved := grow_along footing.drifts left.along state world
      dsimp only
      generalize grow first state world = outcome at tried grown moved ⊢
      cases tried with
      | refused last made said numbered repeated =>
        cases grown with
        | @failed _ state after undecided =>
          have more : footing.moves (grow first state after).2.2 (query first second le join state after).2.2 :=
            query_grow right.along acts undecided after
          exact .refused last made said numbered (repeated.trans (footing.calls more))
      | @done ready back fine =>
        obtain ⟨⟨l, leftEnded, cell, lanes, appended, needsLeft, choice⟩, middle⟩ := back
        obtain ⟨rfl, idle⟩ := fine
        cases grown with
        | ready undecided between sound went =>
          obtain rfl : choice = none := undecided
          have tried := (poll_tried right speaks between.lanes ⟨sound, between.right⟩).from_before (footing.goes moved)
          simp only [settle]
          generalize poll second join lanes (cell, middle) = outcome at tried ⊢
          cases tried with
          | @refused _ back _ _ last made said numbered repeated =>
            have same : (query first second le join ⟨l, leftEnded, back.2.1, back.1, appended, needsLeft, none⟩ back.2.2).2.2 =
                (poll second join back.1 back.2).2.2.2 := query_poll idle back.2.2
            refine .refused last made said numbered ?_
            rwa [← same] at repeated
          | @done statuses _ settled =>
            obtain ⟨choice, decided⟩ : ∃ choice, choose le statuses = some choice := choose_settled settled
            dsimp only
            rw [decided]
            exact .done ((kept rfl).imp_right fun held => held _)

end Paired

namespace Postponed
variable {build : τ → ω → Attempt σ × ω} {made : τ → σ} {inner : Machine ω σ α} {course : Course α}
  {stands : Standing σ ω} {quiet : Status α → σ → ω → Prop}

def Quiet (quiet : Status α → σ → ω → Prop) (status : Status α) (state : Postponed τ σ) (world : ω) : Prop :=
  match state with
  | .forced inside => quiet status inside world
  | _ => False

theorem forced_tries {state : σ} {world : ω} (tries : inner.Tries footing quiet state world) :
    (machine build inner).Tries footing (Quiet quiet) (.forced state : Postponed τ σ) world := by
  simp only [Machine.Tries, machine, reach] at tries ⊢
  exact tries.onto (fun left : σ × ω => ((.forced left.1 : Postponed τ σ), left.2)) (fun _ => rfl) id fun _ => List.suffix_rfl

theorem resumes (builds : ∀ thunk world, build thunk world = (.ok (made thunk), world))
    (starts : ∀ thunk world, stands 0 false (made thunk) world) (inside : Resumes footing setting inner course stands quiet) :
    Resumes footing setting (machine build inner) course (Stands stands fun _ _ => True) (Quiet quiet) where
  toPlays := by
    refine Postponed.plays ⟨fun {thunk world} _ sound => ?_, fun _ _ => trivial⟩ inside.toPlays
    exact ⟨_, world, builds thunk world, sound, setting.stays world, starts thunk world⟩
  along := by
    refine Postponed.along footing.drifts (fun thunk world => ?_) inside.along
    rw [builds]
    exact footing.drifts.stays world
  repeats := by
    rintro status (thunk | state | _) world held
    · exact held.elim
    · obtain ⟨later, answers⟩ := inside.repeats held
      exact ⟨.forced later, by simp only [machine, reach, answers, Machine.within]⟩
    · exact held.elim
  still := by
    rintro status (thunk | state | _) before after held moved
    · exact held.elim
    · exact inside.still held moved
    · exact held.elim
  tries := by
    rintro place seen (thunk | state | _) world there sound
    · have tries : (machine build inner).Tries footing (Quiet quiet) (.forced (made thunk) : Postponed τ σ) world :=
        forced_tries (inside.tries (starts thunk world) sound)
      simpa only [Machine.Tries, machine, reach, builds] using tries
    · exact forced_tries (inside.tries there sound)
    · exact there.elim

end Postponed

namespace Flow
variable {flow left right : Flow ω α} {course xs ys : Course α}

def Endures (footing : Footing κ ω) (setting : Setting ω) (flow : Flow ω α) (course : Course α) : Prop :=
  ∃ stands quiet, Resumes footing setting flow.machine course stands quiet ∧ ∀ world, stands 0 false flow.state world

theorem empty_endures : (empty : Flow ω α).Endures footing setting (fun _ => .ended) :=
  ⟨_, _, Empty.resumes, fun _ => trivial⟩

theorem single_endures (value : α) : (single value : Flow ω α).Endures footing setting (.ofList [value]) :=
  ⟨_, _, Single.resumes value, fun _ => .inl ⟨rfl, rfl⟩⟩

theorem iterated_endures (next : ι → Option α × ι) (iterator : ι) :
    (iterated (Iterated.plainly next) iterator : Flow ω α).Endures footing setting
      (.ofAnswers (Iterated.answers next iterator)) :=
  ⟨_, _, Iterated.resumes next iterator, fun _ => ⟨rfl, rfl⟩⟩

theorem mappedBy_endures {f : Nat → α → ω → Attempt β × ω} {g : α → β} {said : α → κ}
    (speaks : ∀ call value, Speaks footing setting (said value) (g value) (f call value))
    (endures : flow.Endures footing setting course) : (mappedBy f flow).Endures footing setting (course.map g) := by
  obtain ⟨stands, quiet, resumes, starts⟩ := endures
  exact ⟨_, _, Mapped.resumes resumes speaks, fun world => ⟨rfl, false, starts world⟩⟩

theorem merged_endures (le : α → α → Bool) (first : left.Endures footing setting xs)
    (second : right.Endures footing setting ys) : (merged le left right).Endures footing setting (.merged le xs ys) := by
  obtain ⟨stands, quiet, resumes, starts⟩ := first
  obtain ⟨others, still, follows, begins⟩ := second
  exact ⟨_, _, Merged.resumes resumes follows, fun world => ⟨0, 0, rfl, rfl, ⟨false, starts world⟩, false, begins world⟩⟩

theorem pairedBy_endures (le : α → α → Bool) {join : α → α → ω → Attempt α × ω} {joined : α → α → α} {said : α → α → κ}
    (speaks : ∀ x y, Speaks footing setting (said x y) (joined x y) (join x y))
    (first : left.Endures footing setting xs) (second : right.Endures footing setting ys) :
    (pairedBy le join left right).Endures footing setting (.joined le joined xs ys) := by
  obtain ⟨stands, quiet, resumes, starts⟩ := first
  obtain ⟨others, still, follows, begins⟩ := second
  exact ⟨_, _, Paired.resumes resumes follows speaks, fun world => Paired.of_stands (starts world) (begins world)⟩

theorem multiplexed_endures (endures : flow.Endures footing setting course) :
    (multiplexed flow).Endures footing setting course := by
  obtain ⟨stands, quiet, resumes, starts⟩ := endures
  exact ⟨_, _, Multiplexed.resumes resumes, fun world => Multiplexed.start_stands (starts world)⟩

theorem view_endures {readAt : Nat → ω → Attempt (Status α) × ω} {size : ω → Nat} {settled : Nat → Status α → ω → Prop}
    (reading : Reading footing setting readAt course size settled) : (view readAt).Endures footing setting course :=
  ⟨_, _, Reader.resumes reading, fun _ => ⟨rfl, Nat.zero_le _, nofun, nofun⟩⟩

theorem deferred_endures {later : Thunk (Flow ω α)} (endures : later.get.Endures footing setting course) :
    (deferred later).Endures footing setting course := by
  obtain ⟨stands, quiet, resumes, starts⟩ := endures
  have built : ∀ (_ : Unit) (world : ω),
      ((.ok later.get.state, world) : Attempt later.get.State × ω) = (.ok later.get.state, world) := fun _ _ => rfl
  exact ⟨_, _, Postponed.resumes built (fun _ => starts) resumes, fun _ => ⟨rfl, rfl, trivial⟩⟩

end Flow
end LightestFirst
