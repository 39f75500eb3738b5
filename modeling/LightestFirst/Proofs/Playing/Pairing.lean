import LightestFirst.Proofs.Playing.Elementary
import LightestFirst.Proofs.Playing.Shared
-- A product plays the course of joins of its two sides. The lanes it keeps are those rows of the
-- grid that may still have an entry, each at its column; a row is dropped once its entry is `ended`.
namespace LightestFirst
variable {ω σ τ α : Type} {setting : Setting ω}

namespace Paired

section Lanes
variable {second : Machine ω τ α} {join : α → α → ω → Attempt α × ω} {joined : α → α → α}
  {xs ys : Course α} {secondStands : Standing τ ω}

def JoinsStand (ys : Course α) (joined : α → α → α) (element : α) :
    Standing (Mapped Reader α) (Buffered τ α × ω) :=
  Mapped.Stands ys (joined element) (Reader.Stands ys (·.1.buffer.size))

theorem lane_plays (right : Plays setting second ys secondStands)
    (computes : ∀ x y, setting.Computes (join x y) (joined x y)) (element : α) :
    Plays (setting.sharing ys secondStands) (laneMachine second join element) (ys.map (joined element))
      (JoinsStand ys joined element) :=
  Mapped.plays (Buffered.readers_play right) fun _ y => (computes element y).aside right

def LaneStands (joined : α → α → α) (xs ys : Course α) (row column : Nat) (seen : Bool) (lane : Lane α)
    (shared : Buffered τ α × ω) : Prop :=
  lane.ordinal = row ∧ xs row = .ready lane.element ∧
    JoinsStand ys joined lane.element column seen lane.joins shared

-- The lanes kept, against the rows from the given one on with the columns they have come to.
inductive Lanes (joined : α → α → α) (xs ys : Course α) (seen : Bool) (shared : Buffered τ α × ω) :
    Nat → List Nat → List (Lane α) → Prop where
  | nil {row : Nat} : Lanes joined xs ys seen shared row [] []
  | lane {row column : Nat} {columns : List Nat} {lane : Lane α} {lanes : List (Lane α)} (shown : Bool)
      (answered : seen = true → shown = true)
      (here : LaneStands joined xs ys row column shown lane shared)
      (rest : Lanes joined xs ys seen shared (row + 1) columns lanes) :
      Lanes joined xs ys seen shared row (column :: columns) (lane :: lanes)
  | dropped {row column : Nat} {columns : List Nat} {lanes : List (Lane α)}
      (ended : Course.entry joined xs ys row column = .ended)
      (rest : Lanes joined xs ys seen shared (row + 1) columns lanes) :
      Lanes joined xs ys seen shared row (column :: columns) lanes

-- The lanes kept by a poll, with what they have answered.
inductive Polled (setting : Setting ω) (joined : α → α → α) (xs ys : Course α)
    (before after : Buffered τ α × ω) : Nat → List Nat → List (Lane α) → List (Status α) → Prop where
  | nil {row : Nat} : Polled setting joined xs ys before after row [] [] []
  | lane {row column : Nat} {columns : List Nat} {lane : Lane α} {lanes : List (Lane α)}
      {status : Status α} {statuses : List (Status α)}
      (here : LaneStands joined xs ys row column status.isStable lane after)
      (answer : Course.entry joined xs ys row column = status ∨
        status = .pending ∧ setting.hinders .pending before.2 after.2)
      (rest : Polled setting joined xs ys before after (row + 1) columns lanes statuses) :
      Polled setting joined xs ys before after row (column :: columns) (lane :: lanes) (status :: statuses)
  | dropped {row column : Nat} {columns : List Nat} {lanes : List (Lane α)} {statuses : List (Status α)}
      (ended : Course.entry joined xs ys row column = .ended)
      (rest : Polled setting joined xs ys before after (row + 1) columns lanes statuses) :
      Polled setting joined xs ys before after row (column :: columns) lanes statuses

theorem entry_eq {row column : Nat} {x : α} (shown : xs row = .ready x) :
    Course.entry joined xs ys row column = (ys column).map (joined x) := by
  simp only [Course.entry, shown]

theorem LaneStands.kept {row column : Nat} {seen : Bool} {lane : Lane α} {before after : Buffered τ α × ω}
    (here : LaneStands joined xs ys row column seen lane before)
    (grown : before.1.buffer.size ≤ after.1.buffer.size) :
    LaneStands joined xs ys row column seen lane after :=
  ⟨here.1, here.2.1, Mapped.kept (Reader.kept grown) here.2.2⟩

theorem Lanes.kept {row : Nat} {columns : List Nat} {seen : Bool} {lanes : List (Lane α)}
    {before after : Buffered τ α × ω} (stand : Lanes joined xs ys seen before row columns lanes)
    (grown : before.1.buffer.size ≤ after.1.buffer.size) : Lanes joined xs ys seen after row columns lanes := by
  induction stand with
  | nil => exact .nil
  | lane shown answered here _ ih => exact .lane shown answered (here.kept grown) ih
  | dropped ended _ ih => exact .dropped ended ih

theorem Polled.lanes {before after : Buffered τ α × ω} {row : Nat} {columns : List Nat}
    {lanes : List (Lane α)} {statuses : List (Status α)}
    (polled : Polled setting joined xs ys before after row columns lanes statuses) :
    Lanes joined xs ys false after row columns lanes := by
  induction polled with
  | nil => exact .nil
  | lane here _ _ ih => exact .lane _ nofun here ih
  | dropped ended _ ih => exact .dropped ended ih

theorem Polled.from_before {before middle after : Buffered τ α × ω} {row : Nat} {columns : List Nat}
    {lanes : List (Lane α)} {statuses : List (Status α)} (moved : setting.moves before.2 middle.2)
    (polled : Polled setting joined xs ys middle after row columns lanes statuses) :
    Polled setting joined xs ys before after row columns lanes statuses := by
  induction polled with
  | nil => exact .nil
  | lane here answer _ ih =>
    exact .lane here (answer.imp_right fun held => ⟨held.1, setting.hinders_before moved held.2⟩) ih
  | dropped ended _ ih => exact .dropped ended ih

inductive PollTold (setting : Setting ω) (joined : α → α → α) (xs ys : Course α)
    (secondStands : Standing τ ω) (row : Nat) (columns : List Nat) (before : Buffered τ α × ω) :
    Attempt (List (Status α)) × List (Lane α) × Buffered τ α × ω → Prop where
  | answered {statuses : List (Status α)} {lanes : List (Lane α)} {after : Buffered τ α × ω}
      (polled : Polled setting joined xs ys before after row columns lanes statuses)
      (sound : (setting.sharing ys secondStands).sound after)
      (moved : (setting.sharing ys secondStands).moves before after) :
      PollTold setting joined xs ys secondStands row columns before (.ok statuses, lanes, after)
  | failed {fault : Fault} {lanes : List (Lane α)} {after : Buffered τ α × ω}
      (stand : Lanes joined xs ys false after row columns lanes)
      (hinders : setting.hinders (.fault fault) before.2 after.2)
      (sound : (setting.sharing ys secondStands).sound after)
      (moved : (setting.sharing ys secondStands).moves before after) :
      PollTold setting joined xs ys secondStands row columns before (.error fault, lanes, after)

theorem Lanes.unseen {row : Nat} {columns : List Nat} {seen : Bool} {lanes : List (Lane α)}
    {shared : Buffered τ α × ω} (stand : Lanes joined xs ys seen shared row columns lanes) :
    Lanes joined xs ys false shared row columns lanes := by
  induction stand with
  | nil => exact .nil
  | lane shown _ here _ ih => exact .lane shown nofun here ih
  | dropped ended _ ih => exact .dropped ended ih

theorem pollLane_eq {lane : Lane α} {joins : Mapped Reader α} {world after : Buffered τ α × ω}
    {result : Attempt (Status α)}
    (asked : (laneMachine second join lane.element).query lane.joins world = (result, joins, after)) :
    pollLane second join lane world = (result, ⟨lane.ordinal, lane.element, joins⟩, after) := by
  rw [pollLane, asked]
  rfl

theorem poll_dropped {lane kept : Lane α} {rest : List (Lane α)} {world after : Buffered τ α × ω}
    (asked : pollLane second join lane world = (.ok .ended, kept, after)) :
    poll second join (lane :: rest) world = poll second join rest after := by
  rw [poll, asked]

def inFront (status : Status α) (kept : Lane α) :
    Attempt (List (Status α)) × List (Lane α) × ω → Attempt (List (Status α)) × List (Lane α) × ω
  | (.error fault, rest, world) => (.error fault, kept :: rest, world)
  | (.ok statuses, rest, world) => (.ok (status :: statuses), kept :: rest, world)

theorem poll_kept {lane kept : Lane α} {rest : List (Lane α)} {world after : Buffered τ α × ω}
    {status : Status α} (asked : pollLane second join lane world = (.ok status, kept, after))
    (going : status ≠ .ended) :
    poll second join (lane :: rest) world = inFront status kept (poll second join rest after) := by
  cases status with
  | ended => exact absurd rfl going
  | ready value =>
    simp only [poll, asked]
    rcases poll second join rest after with ⟨_ | _, _, _⟩ <;> rfl
  | pending =>
    simp only [poll, asked]
    rcases poll second join rest after with ⟨_ | _, _, _⟩ <;> rfl

section Asking
variable {row column : Nat} {columns : List Nat} {before middle : Buffered τ α × ω}
  {outcome : Attempt (List (Status α)) × List (Lane α) × Buffered τ α × ω}

theorem PollTold.dropped (told : PollTold setting joined xs ys secondStands (row + 1) columns middle outcome)
    (ended : Course.entry joined xs ys row column = .ended)
    (moved : (setting.sharing ys secondStands).moves before middle) :
    PollTold setting joined xs ys secondStands row (column :: columns) before outcome := by
  cases told with
  | answered polled sound went =>
    exact .answered (.dropped ended (polled.from_before moved.1)) sound
      ((setting.sharing ys secondStands).goes_on moved went)
  | failed stand hinders sound went =>
    exact .failed (.dropped ended stand) (setting.hinders_before moved.1 hinders) sound
      ((setting.sharing ys secondStands).goes_on moved went)

theorem PollTold.kept {lane : Lane α} {status : Status α}
    (told : PollTold setting joined xs ys secondStands (row + 1) columns middle outcome)
    (here : LaneStands joined xs ys row column status.isStable lane middle)
    (entry : Course.entry joined xs ys row column = status ∨
      status = .pending ∧ setting.hinders .pending before.2 middle.2)
    (moved : (setting.sharing ys secondStands).moves before middle) :
    PollTold setting joined xs ys secondStands row (column :: columns) before (inFront status lane outcome) := by
  cases told with
  | answered polled sound went =>
    refine .answered (.lane (here.kept went.2) ?_ (polled.from_before moved.1)) sound
      ((setting.sharing ys secondStands).goes_on moved went)
    exact entry.imp_right fun held => ⟨held.1, setting.hinders_after held.2 went.1⟩
  | failed stand hinders sound went =>
    exact .failed (.lane _ nofun (here.kept went.2) stand) (setting.hinders_before moved.1 hinders) sound
      ((setting.sharing ys secondStands).goes_on moved went)

end Asking

-- By the rows: a lane that is asked moves the world in which the lanes behind it are asked.
theorem poll_told (right : Plays setting second ys secondStands)
    (computes : ∀ x y, setting.Computes (join x y) (joined x y)) {row : Nat} {columns : List Nat}
    {seen : Bool} {lanes : List (Lane α)} {world : Buffered τ α × ω}
    (stand : Lanes joined xs ys seen world row columns lanes)
    (sound : (setting.sharing ys secondStands).sound world) :
    PollTold setting joined xs ys secondStands row columns world (poll second join lanes world) := by
  induction columns generalizing row seen lanes world with
  | nil =>
    cases stand
    exact .answered .nil sound ((setting.sharing ys secondStands).stays world)
  | cons column columns ih =>
    cases stand with
    | dropped ended rest => exact (ih rest sound).dropped ended ((setting.sharing ys secondStands).stays world)
    | @lane _ _ _ lane lanes shown answered here rest =>
      have told := (lane_plays right computes lane.element).query here.2.2 sound
      obtain ⟨⟨result, joins, middle⟩, outcome⟩ :=
        Exists.intro _ (rfl : (laneMachine second join lane.element).query lane.joins world = _)
      have asked := pollLane_eq outcome
      rw [outcome] at told
      cases told with
      | failed hinders sound moved there =>
        rw [poll, asked]
        exact .failed (.lane _ nofun ⟨here.1, here.2.1, there⟩ (rest.unseen.kept moved.2)) hinders sound moved
      | @answered status _ _ answers sound moved there =>
        have entry : Course.entry joined xs ys row column = status ∨
            status = .pending ∧ setting.hinders .pending world.2 middle.2 := by
          rw [entry_eq here.2.1]
          exact answers
        have told := ih (rest.kept moved.2) sound
        by_cases ended : status = .ended
        · subst ended
          rw [poll_dropped asked]
          exact told.dropped (entry.resolve_right fun held => nomatch held.1) moved
        · rw [poll_kept asked ended]
          exact told.kept ⟨here.1, here.2.1, there⟩ entry moved

theorem Polled.exactly {before after : Buffered τ α × ω} {row : Nat} {columns : List Nat}
    {lanes : List (Lane α)} {statuses : List (Status α)}
    (polled : Polled setting joined xs ys before after row columns lanes statuses) :
    statuses.any Status.isPending = true ∧ setting.hinders .pending before.2 after.2 ∨
      Polled setting.prompt joined xs ys before after row columns lanes statuses := by
  induction polled with
  | nil => exact .inr .nil
  | dropped ended _ ih => exact ih.imp_right (.dropped ended)
  | lane here answer _ ih =>
    rcases answer with exact | ⟨rfl, held⟩
    · rcases ih with ⟨waits, held⟩ | exactly
      · exact .inl ⟨by simp [waits], held⟩
      · exact .inr (.lane here (.inl exact) exactly)
    · exact .inl ⟨by simp [Status.isPending], held⟩

section Least
variable (le : α → α → Bool)

def keep (best : Option (Nat × α)) (place : Nat) (value : α) : Nat × α :=
  match best with
  | none => (place, value)
  | some (held, current) => if le current value then (held, current) else (place, value)

variable {le} {place : Nat} {best : Option (Nat × α)} {status : Status α} {statuses : List (Status α)}

theorem leastFrom_skip (nothing : status.isReady = false) :
    leastFrom le place best (status :: statuses) = leastFrom le (place + 1) best statuses := by
  cases status with
  | ready value => cases nothing
  | pending => cases best <;> rfl
  | ended => cases best <;> rfl

theorem leastFrom_ready (value : α) : leastFrom le place best (.ready value :: statuses) =
    leastFrom le (place + 1) (some (keep le best place value)) statuses := by
  cases best with
  | none => rfl
  | some held =>
    rw [leastFrom, keep]
    split <;> rfl

theorem keep_eq (value : α) : keep le best place value = (place, value) ∨ some (keep le best place value) = best := by
  cases best with
  | none => exact .inl rfl
  | some held =>
    rw [keep]
    split
    · exact .inr rfl
    · exact .inl rfl

theorem leastFrom_getElem? {row : Nat} {value : α} (found : leastFrom le place best statuses = some (row, value)) :
    best = some (row, value) ∨ place ≤ row ∧ statuses[row - place]? = some (.ready value) := by
  induction statuses generalizing place best with
  | nil => exact .inl (by simpa [leastFrom] using found)
  | cons status statuses ih =>
    have later : ∀ {best}, leastFrom le (place + 1) best statuses = some (row, value) →
        best = some (row, value) ∨ place ≤ row ∧ (status :: statuses)[row - place]? = some (.ready value) := by
      intro best found
      refine (ih found).imp_right fun ⟨behind, there⟩ => ⟨by omega, ?_⟩
      rwa [show row - place = row - (place + 1) + 1 by omega, List.getElem?_cons_succ]
    cases here : status.isReady with
    | false => exact later (leastFrom_skip here ▸ found)
    | true =>
      obtain ⟨current, rfl⟩ := Status.isReady_iff.mp here
      rw [leastFrom_ready] at found
      rcases later found with held | there
      · rcases keep_eq current with new | old
        · rw [new, Option.some.injEq, Prod.mk.injEq] at held
          obtain ⟨rfl, rfl⟩ := held
          exact .inr ⟨Nat.le_refl _, by simp⟩
        · exact .inl (old.symm.trans held)
      · exact .inr there

end Least

section Choosing
variable {le : α → α → Bool} {before after : Buffered τ α × ω} {row : Nat} {columns : List Nat}
  {lanes : List (Lane α)} {statuses : List (Status α)}

-- The places are those of the lanes kept on one side, the rows of the grid on the other.
def SamePick (lanes : List (Lane α)) (kept whole : Option (Nat × α)) : Prop :=
  match kept, whole with
  | none, none => True
  | some (place, value), some (row, same) => value = same ∧ ∃ lane, lanes[place]? = some lane ∧ lane.ordinal = row
  | _, _ => False

def SameChoice (lanes : List (Lane α)) (kept whole : Option (Choice α)) : Prop :=
  match kept, whole with
  | none, none => True
  | some .ended, some .ended => True
  | some (.ready value place), some (.ready same row) =>
    value = same ∧ ∃ lane, lanes[place]? = some lane ∧ lane.ordinal = row
  | _, _ => False

theorem SameChoice.answer_eq {kept whole : Option (Choice α)} (same : SameChoice lanes kept whole) :
    answer whole = answer kept := by
  match kept, whole, same with
  | none, none, _ => rfl
  | some .ended, some .ended, _ => rfl
  | some (.ready _ _), some (.ready _ _), ⟨rfl, _⟩ => rfl

theorem SameChoice.lane {value : α} {place : Nat} {whole : Option (Choice α)}
    (same : SameChoice lanes (some (.ready value place)) whole) :
    ∃ row, whole = some (.ready value row) ∧ ∃ lane, lanes[place]? = some lane ∧ lane.ordinal = row := by
  match whole, same with
  | some (.ready _ row), ⟨rfl, there⟩ => exact ⟨row, rfl, there⟩

theorem SamePick.append {kept whole : Option (Nat × α)} (same : SamePick lanes kept whole)
    (more : List (Lane α)) : SamePick (lanes ++ more) kept whole := by
  match kept, whole, same with
  | none, none, _ => trivial
  | some (place, value), some (row, _), ⟨rfl, lane, found, ordinal⟩ =>
    refine ⟨rfl, lane, ?_, ordinal⟩
    rw [List.getElem?_append_left (List.getElem?_eq_some_iff.mp found).1, found]

theorem SamePick.keep {passed : List (Lane α)} {kept whole : Option (Nat × α)} (same : SamePick passed kept whole)
    {lane : Lane α} (ordinal : lane.ordinal = row) (value : α) : SamePick (passed ++ [lane])
      (some (keep le kept passed.length value)) (some (keep le whole row value)) := by
  have picked : SamePick (passed ++ [lane]) (some (passed.length, value)) (some (row, value)) :=
    ⟨rfl, lane, by simp, ordinal⟩
  match kept, whole, same with
  | none, none, _ => exact picked
  | some (place, current), some (other, _), ⟨rfl, found⟩ =>
    have same : SamePick passed (some (place, current)) (some (other, current)) := ⟨rfl, found⟩
    simp only [Paired.keep]
    split
    · exact same.append _
    · exact picked

-- Dropped rows are passed over, so the fold goes through the same elements on both sides.
theorem Polled.same_leastFrom (polled : Polled setting.prompt joined xs ys before after row columns lanes statuses)
    {passed : List (Lane α)} {kept whole : Option (Nat × α)} (same : SamePick passed kept whole) :
    SamePick (passed ++ lanes) (leastFrom le passed.length kept statuses)
      (leastFrom le row whole (Course.lineup joined xs ys row columns)) := by
  induction polled generalizing passed kept whole with
  | nil => simpa [leastFrom, Course.lineup] using same
  | dropped ended _ ih =>
    rw [Course.lineup, ended, leastFrom_skip rfl]
    exact ih same
  | @lane row column columns lane lanes status statuses here answer _ ih =>
    obtain exact | ⟨_, held⟩ := answer
    · have onward : ∀ {kept whole : Option (Nat × α)}, SamePick (passed ++ [lane]) kept whole →
          SamePick (passed ++ lane :: lanes) (leastFrom le (passed.length + 1) kept statuses)
            (leastFrom le (row + 1) whole (Course.lineup joined xs ys (row + 1) columns)) := by
        intro kept whole same
        simpa using ih same
      rw [Course.lineup, exact]
      cases shown : status.isReady with
      | false =>
        rw [leastFrom_skip shown, leastFrom_skip shown]
        exact onward (same.append _)
      | true =>
        obtain ⟨value, rfl⟩ := Status.isReady_iff.mp shown
        rw [leastFrom_ready, leastFrom_ready]
        exact onward (same.keep here.1 value)
    · exact held.elim

theorem Polled.any_isPending
    (polled : Polled setting.prompt joined xs ys before after row columns lanes statuses) :
    (Course.lineup joined xs ys row columns).any Status.isPending = statuses.any Status.isPending := by
  induction polled with
  | nil => rfl
  | dropped ended _ ih => simpa [Course.lineup, ended, Status.isPending] using ih
  | lane here answer _ ih =>
    obtain exact | ⟨_, held⟩ := answer
    · simp only [Course.lineup, exact, List.any_cons, ih]
    · exact held.elim

theorem Polled.same_choose
    (polled : Polled setting.prompt joined xs ys before after 0 columns lanes statuses) :
    SameChoice lanes (choose le statuses) (choose le (Course.lineup joined xs ys 0 columns)) := by
  have nothing : SamePick ([] : List (Lane α)) none none := trivial
  have same : SamePick lanes (least le statuses) (least le (Course.lineup joined xs ys 0 columns)) :=
    polled.same_leastFrom nothing
  rw [choose, choose, polled.any_isPending]
  split
  · trivial
  · match least le statuses, least le (Course.lineup joined xs ys 0 columns), same with
    | none, none, _ => trivial
    | some _, some _, same => exact same

theorem Polled.shown (polled : Polled setting joined xs ys before after row columns lanes statuses)
    (settled : statuses.any Status.isPending = false) : Lanes joined xs ys true after row columns lanes := by
  induction polled with
  | nil => exact .nil
  | dropped ended _ ih => exact .dropped ended (ih settled)
  | lane here _ _ ih =>
    rw [List.any_cons, Bool.or_eq_false_iff] at settled
    refine .lane _ (fun _ => ?_) here (ih settled.2)
    simp [Status.isStable, settled.1]

end Choosing
end Lanes

section Product
variable {first : Machine ω σ α} {second : Machine ω τ α} {le : α → α → Bool}
  {join : α → α → ω → Attempt α × ω} {joined : α → α → α} {xs ys : Course α}
  {firstStands : Standing σ ω} {secondStands : Standing τ ω}

-- The row behind those begun: a left element is still due for it, or it has one, or there is none.
inductive Frontier (xs : Course α) (rows : Nat) : Bool → Bool → Nat → Bool → Prop where
  | due : Frontier xs rows false true rows true
  | fetched : Frontier xs rows false false (rows + 1) false
  | finished {needsLeft : Bool} (ended : xs rows = .ended) : Frontier xs rows true needsLeft rows false

def inLine (rows : List Nat) (due : Bool) : List Nat := if due then rows else rows ++ [0]

-- Between the calls. `rows` counts the joins given so far by each row begun.
structure Between (joined : α → α → α) (xs ys : Course α) (first : Standing σ ω) (second : Standing τ ω)
    (rows : List Nat) (due : Bool) (state : Paired σ τ α) (world : ω) : Prop where
  left : ∃ shown, first state.appended shown state.left world
  right : state.right.Stands ys second world
  frontier : Frontier xs rows.length state.leftEnded state.needsLeft state.appended due
  lanes : Lanes joined xs ys state.choice.isSome (state.right, world) 0 (inLine rows due) state.lanes

def Stands (le : α → α → Bool) (joined : α → α → α) (xs ys : Course α) (first : Standing σ ω)
    (second : Standing τ ω) : Standing (Paired σ τ α) ω := fun place seen state world =>
  ∃ rows due, Course.joinedAt le joined xs ys place = some rows ∧
    Between joined xs ys first second rows due state world ∧
    match state.choice with
    | none => seen = false
    | some choice => due = false ∧
        SameChoice state.lanes (some choice) (Course.decision le joined xs ys rows)

inductive Grown (setting : Setting ω) (joined : α → α → α) (xs ys : Course α) (first : Standing σ ω)
    (second : Standing τ ω) (rows : List Nat) (world : ω) : Attempt Bool × Paired σ τ α × ω → Prop where
  | ready {state : Paired σ τ α} {after : ω} (undecided : state.choice = none)
      (between : Between joined xs ys first second rows false state after)
      (sound : setting.sound after) (moved : setting.moves world after) :
      Grown setting joined xs ys first second rows world (.ok true, state, after)
  | waits {state : Paired σ τ α} {after : ω} (undecided : state.choice = none)
      (between : Between joined xs ys first second rows true state after)
      (answers : setting.Answers xs rows.length world after .pending)
      (sound : setting.sound after) (moved : setting.moves world after) :
      Grown setting joined xs ys first second rows world (.ok false, state, after)
  | failed {fault : Fault} {state : Paired σ τ α} {after : ω} (undecided : state.choice = none)
      (between : Between joined xs ys first second rows true state after)
      (hinders : setting.hinders (.fault fault) world after)
      (sound : setting.sound after) (moved : setting.moves world after) :
      Grown setting joined xs ys first second rows world (.error fault, state, after)

theorem Lanes.append {seen : Bool} {shared : Buffered τ α × ω} {row : Nat} {columns more : List Nat}
    {lanes others : List (Lane α)} (stand : Lanes joined xs ys seen shared row columns lanes)
    (behind : Lanes joined xs ys seen shared (row + columns.length) more others) :
    Lanes joined xs ys seen shared row (columns ++ more) (lanes ++ others) := by
  induction stand with
  | nil => simpa using behind
  | lane shown answered here _ ih =>
    refine .lane shown answered here (ih ?_)
    rwa [Nat.add_assoc, Nat.add_comm 1]
  | dropped ended _ ih =>
    refine .dropped ended (ih ?_)
    rwa [Nat.add_assoc, Nat.add_comm 1]

theorem openLane_stands {row : Nat} {x : α} (shown : xs row = .ready x) (shared : Buffered τ α × ω) :
    LaneStands joined xs ys row 0 false (openLane row x) shared :=
  ⟨rfl, shown, rfl, false, rfl, Nat.zero_le _, nofun, nofun⟩

theorem grow_grown (left : Plays setting first xs firstStands) (right : Plays setting second ys secondStands)
    {rows : List Nat} {due : Bool} {state : Paired σ τ α} {world : ω} (undecided : state.choice = none)
    (between : Between joined xs ys firstStands secondStands rows due state world) (sound : setting.sound world) :
    Grown setting joined xs ys firstStands secondStands rows world (grow first state world) := by
  obtain ⟨l, leftEnded, shared, lanes, appended, needsLeft, choice⟩ := state
  obtain rfl : choice = none := undecided
  obtain ⟨⟨shown, leftThere⟩, rightThere, frontier, stand⟩ := between
  cases frontier with
  | fetched => exact .ready rfl ⟨⟨shown, leftThere⟩, rightThere, .fetched, stand⟩ sound (setting.stays _)
  | finished ended => exact .ready rfl ⟨⟨shown, leftThere⟩, rightThere, .finished ended, stand⟩ sound (setting.stays _)
  | due =>
    have told := left.query leftThere sound
    simp only [grow]
    generalize first.query l world = outcome at told ⊢
    cases told with
    | failed hinders sound moved there =>
      exact .failed rfl ⟨⟨_, there⟩, rightThere.kept (right.stays moved), .due,
        stand.kept (Nat.le_refl _)⟩ hinders sound moved
    | @answered status l middle answers sound moved there =>
      have stand : Lanes joined xs ys false (shared, middle) 0 (inLine rows true) lanes :=
        stand.kept (Nat.le_refl _)
      have rightThere := rightThere.kept (right.stays moved)
      cases status with
      | pending => exact .waits rfl ⟨⟨_, there⟩, rightThere, .due, stand⟩ answers sound moved
      | ended =>
        have ended := answers.of_stable rfl
        refine .ready rfl ⟨⟨_, there⟩, rightThere, .finished ended, ?_⟩ sound moved
        have nothing : Course.entry joined xs ys (0 + rows.length) 0 = .ended := by
          simp only [Nat.zero_add, Course.entry, ended]
        simpa [inLine] using stand.append (.dropped nothing .nil)
      | ready x =>
        have shown := answers.of_stable rfl
        have passed := left.advance there (by rw [shown]; rfl) sound
        dsimp only
        generalize first.advance l middle = outcome at passed ⊢
        cases passed with
        | @passed _ after sound went there =>
          refine .ready rfl ⟨⟨_, there⟩, rightThere.kept (right.stays went), .fetched, ?_⟩ sound
            (setting.goes_on moved went)
          have stand : Lanes joined xs ys false (shared, after) 0 (inLine rows true) lanes :=
            stand.kept (Nat.le_refl _)
          refine stand.append (.lane false nofun ?_ .nil)
          rw [inLine, if_pos rfl, Nat.zero_add]
          exact openLane_stands shown _

theorem settle_told (right : Plays setting second ys secondStands)
    (left : Plays setting first xs firstStands)
    (computes : ∀ x y, setting.Computes (join x y) (joined x y)) {place : Nat} {rows : List Nat}
    {state : Paired σ τ α} {world : ω} (undecided : state.choice = none)
    (reached : Course.joinedAt le joined xs ys place = some rows)
    (between : Between joined xs ys firstStands secondStands rows false state world)
    (sound : setting.sound world) :
    Told setting (.joined le joined xs ys) (Stands le joined xs ys firstStands secondStands) place world
      (settle second le join state world) := by
  obtain ⟨l, leftEnded, cell, lanes, appended, needsLeft, choice⟩ := state
  obtain rfl : choice = none := undecided
  obtain ⟨⟨shown, leftThere⟩, rightThere, frontier, stand⟩ := between
  have course : Course.joined le joined xs ys place = answer (Course.decision le joined xs ys rows) := by
    simp only [Course.joined, reached]
  have told := poll_told right computes stand ⟨sound, rightThere⟩
  simp only [settle]
  generalize poll second join lanes (cell, world) = outcome at told ⊢
  cases told with
  | @failed fault lanes after stand hinders sound moved =>
    exact .failed hinders sound.1 moved.1
      ⟨rows, false, reached, ⟨⟨_, left.kept leftThere moved.1⟩, sound.2, frontier, stand⟩, rfl⟩
  | @answered statuses lanes after polled sound moved =>
    have leftThere := left.kept leftThere moved.1
    rcases polled.exactly with ⟨waits, held⟩ | exactly
    · have undecided : choose le statuses = none := by rw [choose, if_pos waits]
      dsimp only
      rw [undecided]
      exact .answered (.inr ⟨rfl, held⟩) sound.1 moved.1
        ⟨rows, false, reached, ⟨⟨_, leftThere⟩, sound.2, frontier, polled.lanes⟩, rfl⟩
    · have same : SameChoice lanes (choose le statuses) (Course.decision le joined xs ys rows) :=
        exactly.same_choose
      have answers : Course.joined le joined xs ys place = answer (choose le statuses) :=
        course.trans same.answer_eq
      cases decided : choose le statuses with
      | none =>
        rw [decided] at answers
        dsimp only
        rw [decided]
        exact .answered (.inl answers) sound.1 moved.1
          ⟨rows, false, reached, ⟨⟨_, leftThere⟩, sound.2, frontier, polled.lanes⟩, rfl⟩
      | some choice =>
        have settled : statuses.any Status.isPending = false := by
          cases waits : statuses.any Status.isPending with
          | false => rfl
          | true =>
            rw [choose, if_pos waits] at decided
            cases decided
        rw [decided] at answers same
        dsimp only
        rw [decided]
        exact .answered (.inl answers) sound.1 moved.1
          ⟨rows, false, reached, ⟨⟨_, leftThere⟩, sound.2, frontier, polled.shown settled⟩, rfl, same⟩

theorem least_of_choose {statuses : List (Status α)} {row : Nat} {value : α}
    (chosen : choose le statuses = some (.ready value row)) : least le statuses = some (row, value) := by
  rw [choose] at chosen
  split at chosen
  · cases chosen
  · split at chosen
    · next found =>
      cases chosen
      exact found
    · cases chosen

theorem choose_getElem? {statuses : List (Status α)} {row : Nat} {value : α}
    (chosen : choose le statuses = some (.ready value row)) : statuses[row]? = some (.ready value) :=
  (leastFrom_getElem? (least_of_choose chosen)).elim nofun fun there => there.2

theorem lineup_getElem? (row k : Nat) (columns : List Nat) :
    (Course.lineup joined xs ys row columns)[k]? = columns[k]?.map (Course.entry joined xs ys (row + k)) := by
  induction columns generalizing row k with
  | nil => simp [Course.lineup]
  | cons column columns ih =>
    cases k with
    | zero => simp [Course.lineup]
    | succ k => simp [Course.lineup, ih, Nat.add_assoc, Nat.add_comm 1]

theorem Lanes.getElem? {seen : Bool} {shared : Buffered τ α × ω} {row place : Nat} {columns : List Nat}
    {lanes : List (Lane α)} {lane : Lane α} (stand : Lanes joined xs ys seen shared row columns lanes)
    (found : lanes[place]? = some lane) :
    ∃ k column shown, lane.ordinal = row + k ∧ columns[k]? = some column ∧ (seen = true → shown = true) ∧
      LaneStands joined xs ys (row + k) column shown lane shared := by
  induction stand generalizing place with
  | nil => cases found
  | dropped ended _ ih =>
    obtain ⟨k, column, shown, ordinal, there, answered, here⟩ := ih found
    rw [Nat.add_assoc, Nat.add_comm 1] at ordinal here
    exact ⟨k + 1, column, shown, ordinal, there, answered, here⟩
  | lane shown answered here _ ih =>
    cases place with
    | zero =>
      cases found
      exact ⟨0, _, shown, here.1, rfl, answered, here⟩
    | succ place =>
      obtain ⟨k, column, shown, ordinal, there, answered, here⟩ := ih found
      rw [Nat.add_assoc, Nat.add_comm 1] at ordinal here
      exact ⟨k + 1, column, shown, ordinal, there, answered, here⟩

theorem Lanes.set {seen : Bool} {shared : Buffered τ α × ω} {row place k column : Nat} {columns : List Nat}
    {lanes : List (Lane α)} {lane moved : Lane α} (stand : Lanes joined xs ys seen shared row columns lanes)
    (found : lanes[place]? = some lane) (ordinal : lane.ordinal = row + k) (there : columns[k]? = some column)
    (here : LaneStands joined xs ys (row + k) (column + 1) false moved shared) :
    Lanes joined xs ys false shared row (columns.modify k (· + 1)) (lanes.set place moved) := by
  induction stand generalizing place k with
  | nil => cases found
  | @dropped row column columns lanes ended rest ih =>
    cases k with
    | zero =>
      obtain ⟨k, _, _, other, _⟩ := rest.getElem? found
      omega
    | succ k =>
      rw [show row + (k + 1) = row + 1 + k by omega] at ordinal here
      exact .dropped ended (ih found ordinal there here)
  | @lane row column columns first lanes shown answered standing rest ih =>
    cases place with
    | zero =>
      cases found
      obtain rfl : k = 0 := by have := standing.1; omega
      cases there
      exact .lane false nofun here rest.unseen
    | succ place =>
      cases k with
      | zero =>
        obtain ⟨k, _, _, other, _⟩ := rest.getElem? found
        omega
      | succ k =>
        rw [show row + (k + 1) = row + 1 + k by omega] at ordinal here
        exact .lane shown nofun standing (ih found ordinal there here)

theorem inLine_given {rows : List Nat} {row : Nat} (inside : row ≤ rows.length) :
    (inLine rows false).modify row (· + 1) =
      inLine (Course.given rows row) (row == rows.length) := by
  rcases Nat.lt_or_eq_of_le inside with begun | rfl
  · have other : (row == rows.length) = false := by simpa using Nat.ne_of_lt begun
    rw [other, Course.given, if_pos begun]
    apply List.ext_getElem?
    intro k
    simp only [inLine, Bool.false_eq_true, if_false, List.getElem?_modify, List.getElem?_append, List.length_modify]
    grind
  · rw [beq_self_eq_true, Course.given, if_neg (Nat.lt_irrefl _)]
    apply List.ext_getElem?
    intro k
    simp only [inLine, Bool.false_eq_true, if_false, if_true, List.getElem?_modify, List.getElem?_append]
    grind

theorem le_of_inLine {rows : List Nat} {row column : Nat} (inside : (inLine rows false)[row]? = some column) :
    row ≤ rows.length := by
  have behind := (List.getElem?_eq_some_iff.mp inside).1
  simp only [inLine, Bool.false_eq_true, if_false, List.length_append, List.length_singleton] at behind
  omega

theorem Frontier.given {rows : List Nat} {row appended : Nat} {leftEnded needsLeft : Bool}
    (frontier : Frontier xs rows.length leftEnded needsLeft appended false) (inside : row ≤ rows.length)
    {x : α} (shown : xs row = .ready x) :
    Frontier xs (Course.given rows row).length leftEnded (needsLeft || row + 1 == appended) appended
      (row == rows.length) := by
  rcases Nat.lt_or_eq_of_le inside with begun | rfl
  · have other : (row == rows.length) = false := by simpa using Nat.ne_of_lt begun
    rw [other, Course.given, if_pos begun, List.length_modify]
    cases frontier with
    | finished ended => exact .finished ended
    | fetched =>
      have still : (row + 1 == rows.length + 1) = false := by simpa using Nat.ne_of_lt begun
      rw [still]
      exact .fetched
  · cases frontier with
    | finished ended => exact absurd (ended.symm.trans shown) nofun
    | fetched =>
      have begins : Frontier xs (rows.length + 1) false true (rows.length + 1) true := .due
      simpa [Course.given] using begins

theorem joinedAt_given {place row : Nat} {rows : List Nat} {value : α}
    (reached : Course.joinedAt le joined xs ys place = some rows)
    (decided : Course.decision le joined xs ys rows = some (.ready value row)) :
    Course.joinedAt le joined xs ys (place + 1) = some (Course.given rows row) := by
  simp only [Course.joinedAt, reached, decided]

theorem of_stands {left : σ} {right : τ} {world : ω} (leftThere : firstStands 0 false left world)
    (rightThere : secondStands 0 false right world) :
    Stands le joined xs ys firstStands secondStands 0 false (of left right) world :=
  ⟨[], true, rfl, ⟨⟨_, leftThere⟩, Buffered.start_stands rightThere, .due, .nil⟩, rfl⟩

theorem kept {before after : ω} (left : firstStands.Kept before after) (right : secondStands.Kept before after) :
    (Stands le joined xs ys firstStands secondStands).Kept before after := by
  rintro place seen state ⟨rows, due, reached, ⟨⟨shown, leftThere⟩, rightThere, frontier, stand⟩, there⟩
  exact ⟨rows, due, reached, ⟨⟨shown, left leftThere⟩, rightThere.kept right, frontier,
    stand.kept (Nat.le_refl _)⟩, there⟩

theorem decision_pending {rows : List Nat} (pending : xs rows.length = .pending) :
    answer (Course.decision le joined xs ys rows) = .pending := by
  have there : (Course.lineup joined xs ys 0 (rows ++ [0]))[rows.length]? = some .pending := by
    rw [lineup_getElem?]
    simp [Course.entry, pending]
  have waits : (Course.lineup joined xs ys 0 (rows ++ [0])).any Status.isPending = true :=
    List.any_eq_true.mpr ⟨.pending, List.mem_of_getElem? there, rfl⟩
  rw [Course.decision, choose, if_pos waits]
  rfl

theorem query_told (left : Plays setting first xs firstStands) (right : Plays setting second ys secondStands)
    (computes : ∀ x y, setting.Computes (join x y) (joined x y)) {place : Nat} {seen : Bool}
    {state : Paired σ τ α} {world : ω}
    (there : Stands le joined xs ys firstStands secondStands place seen state world) (sound : setting.sound world) :
    Told setting (.joined le joined xs ys) (Stands le joined xs ys firstStands secondStands) place world
      (query first second le join state world) := by
  obtain ⟨rows, due, reached, between, there⟩ := there
  have course : Course.joined le joined xs ys place = answer (Course.decision le joined xs ys rows) := by
    simp only [Course.joined, reached]
  rw [query]
  cases decided : state.choice with
  | some choice =>
    simp only [decided] at there
    obtain ⟨rfl, same⟩ := there
    refine .answered (.inl (course.trans same.answer_eq)) sound (setting.stays _) ⟨rows, false, reached, between, ?_⟩
    rw [decided]
    exact ⟨rfl, same⟩
  | none =>
    have grown := grow_grown left right decided between sound
    dsimp only
    generalize grow first state world = outcome at grown ⊢
    cases grown with
    | failed undecided between hinders sound moved =>
      refine .failed hinders sound moved ⟨rows, true, reached, between, ?_⟩
      rw [undecided]
    | waits undecided between answers sound moved =>
      refine .answered ?_ sound moved ⟨rows, true, reached, between, ?_⟩
      · exact answers.imp_left fun pending => course.trans (decision_pending pending)
      · rw [undecided]
        rfl
    | ready undecided between sound moved =>
      exact (settle_told right left computes undecided reached between sound).from_before moved

theorem advanceLane_passed (right : Plays setting second ys secondStands)
    (computes : ∀ x y, setting.Computes (join x y) (joined x y)) {row column : Nat} {lane : Lane α} {value : α}
    {shared : Buffered τ α × ω} (here : LaneStands joined xs ys row column true lane shared)
    (entry : Course.entry joined xs ys row column = .ready value)
    (sound : (setting.sharing ys secondStands).sound shared) :
    ∃ joins after, advanceLane second join lane shared = (.ok (), ⟨lane.ordinal, lane.element, joins⟩, after) ∧
      (setting.sharing ys secondStands).sound after ∧ (setting.sharing ys secondStands).moves shared after ∧
      LaneStands joined xs ys row (column + 1) false ⟨lane.ordinal, lane.element, joins⟩ after := by
  obtain ⟨ordinal, shown, here⟩ := here
  rw [entry_eq shown] at entry
  have passed := (lane_plays right computes lane.element).advance here (by rw [Course.map, entry]; rfl) sound
  rw [advanceLane]
  generalize (laneMachine second join lane.element).advance lane.joins shared = outcome at passed ⊢
  cases passed with
  | passed fine moved there => exact ⟨_, _, rfl, fine, moved, ordinal, shown, there⟩

theorem advance_passed (left : Plays setting first xs firstStands) (right : Plays setting second ys secondStands)
    (computes : ∀ x y, setting.Computes (join x y) (joined x y)) {place : Nat} {state : Paired σ τ α} {world : ω}
    (there : Stands le joined xs ys firstStands secondStands place true state world)
    (ready : (Course.joined le joined xs ys place).isReady = true) (sound : setting.sound world) :
    Passed setting (Stands le joined xs ys firstStands secondStands) place world
      (Paired.advance second join state world) := by
  obtain ⟨rows, due, reached, ⟨⟨shown, leftThere⟩, rightThere, frontier, stand⟩, there⟩ := there
  have course : Course.joined le joined xs ys place = answer (Course.decision le joined xs ys rows) := by
    simp only [Course.joined, reached]
  obtain ⟨l, leftEnded, cell, lanes, appended, needsLeft, choice⟩ := state
  cases choice with
  | none => cases there
  | some choice =>
    obtain ⟨rfl, same⟩ := there
    cases choice with
    | ended =>
      rw [course, same.answer_eq] at ready
      cases ready
    | ready value lanePlace =>
      obtain ⟨row, decided, lane, found, ordinal⟩ := same.lane
      obtain ⟨k, column, answered, same, inside, toldReady, here⟩ := stand.getElem? found
      obtain rfl : k = row := by rw [← ordinal, same, Nat.zero_add]
      have entry : Course.entry joined xs ys (0 + k) column = .ready value := by
        have there := choose_getElem? decided
        rw [lineup_getElem?, show rows ++ [0] = inLine rows false from rfl, inside] at there
        exact Option.some.inj there
      obtain ⟨joins, after, stepped, fine, moved, further⟩ :=
        advanceLane_passed right computes (toldReady rfl ▸ here) entry ⟨sound, rightThere⟩
      simp only [Paired.advance, found, stepped]
      refine .passed fine.1 moved.1 ⟨Course.given rows k, k == rows.length, joinedAt_given reached decided,
        ⟨⟨_, left.kept leftThere moved.1⟩, fine.2, ?_, ?_⟩, rfl⟩
      · rw [ordinal]
        exact frontier.given (le_of_inLine inside) (Nat.zero_add k ▸ here.2.1)
      · rw [← inLine_given (le_of_inLine inside)]
        exact (stand.kept moved.2).set found same inside further

theorem plays (left : Plays setting first xs firstStands) (right : Plays setting second ys secondStands)
    (computes : ∀ x y, setting.Computes (join x y) (joined x y)) :
    Plays setting (machine first second le join) (.joined le joined xs ys)
      (Stands le joined xs ys firstStands secondStands) where
  query there sound := query_told left right computes there sound
  advance there ready sound := advance_passed left right computes there ready sound
  kept there moved := kept (left.stays moved) (right.stays moved) there

end Product
end Paired
end LightestFirst
