import LightestFirst.Machine
-- What it is for a stream to have a course: an answer fixed for each of its positions, which is the
-- answer that every query at this position gives, whoever asks and however often.
--   The world that streams share moves while they are called and between the calls. A setting says
-- which worlds are in order, how they may move, and what may hold a query up. A stream relies on the
-- others to move the world no further than that, and moves it no further itself.
namespace LightestFirst
variable {ω σ τ α β : Type}

-- The answers of a stream at its positions when nothing holds them up: `pending` is an answer that
-- never comes. What stands behind the first answer that is no element is never asked for.
abbrev Course (α : Type) := Nat → Status α

inductive Hindrance where
  | pending
  | fault (fault : Fault)

structure Setting (ω : Type) where
  sound : ω → Prop
  moves : ω → ω → Prop
  -- a call that found the first world and left the second was held up by this on its way
  hinders : Hindrance → ω → ω → Prop
  stays : ∀ world, moves world world
  goes_on : ∀ {first second third}, moves first second → moves second third → moves first third
  hinders_before : ∀ {cause first second third}, moves first second → hinders cause second third →
    hinders cause first third
  hinders_after : ∀ {cause first second third}, hinders cause first second → moves second third →
    hinders cause first third

def Setting.Prompt (setting : Setting ω) : Prop :=
  ∀ cause before after, ¬ setting.hinders cause before after

def Setting.prompt (setting : Setting ω) : Setting ω :=
  { setting with
    hinders := fun _ _ _ => False
    hinders_before := fun _ held => held
    hinders_after := fun held _ => held }

def Setting.calmly (setting : Setting ω) (calm : ω → Prop) : Setting ω :=
  { setting with
    sound := fun world => setting.sound world ∧ calm world
    hinders := fun _ _ _ => False
    hinders_before := fun _ held => held
    hinders_after := fun held _ => held }

-- Where a stream stands: its position, and whether its answer there has been given since it came.
abbrev Standing (σ ω : Type) := Nat → Bool → σ → ω → Prop

def Standing.Kept (stands : Standing σ ω) (before after : ω) : Prop :=
  ∀ ⦃place seen state⦄, stands place seen state before → stands place seen state after

def Setting.free (ω : Type) : Setting ω where
  sound _ := True
  moves _ _ := True
  hinders _ _ _ := False
  stays _ := trivial
  goes_on _ _ := trivial
  hinders_before _ held := held
  hinders_after held _ := held

def Setting.idle (ω : Type) : Setting ω where
  sound _ := True
  moves _ _ := True
  hinders cause _ _ := cause = .pending
  stays _ := trivial
  goes_on _ _ := trivial
  hinders_before _ held := held
  hinders_after held _ := held

section Outcomes
variable (setting : Setting ω)

-- The answer of the course, or `pending` where something held it up.
def Setting.Answers (course : Course α) (place : Nat) (before after : ω) (status : Status α) : Prop :=
  course place = status ∨ status = .pending ∧ setting.hinders .pending before after

inductive Told (course : Course α) (stands : Standing σ ω) (place : Nat) (world : ω) :
    Attempt (Status α) × σ × ω → Prop where
  | answered {status : Status α} {state : σ} {after : ω}
      (answers : setting.Answers course place world after status) (sound : setting.sound after)
      (moved : setting.moves world after) (there : stands place status.isStable state after) :
      Told course stands place world (.ok status, state, after)
  | failed {fault : Fault} {state : σ} {after : ω} (hinders : setting.hinders (.fault fault) world after)
      (sound : setting.sound after) (moved : setting.moves world after)
      (there : stands place false state after) : Told course stands place world (.error fault, state, after)

inductive Passed (stands : Standing σ ω) (place : Nat) (world : ω) : Attempt Unit × σ × ω → Prop where
  | passed {state : σ} {after : ω} (sound : setting.sound after) (moved : setting.moves world after)
      (there : stands (place + 1) false state after) : Passed stands place world (.ok (), state, after)

inductive Given (value : β) (world : ω) : Attempt β × ω → Prop where
  | given {after : ω} (sound : setting.sound after) (moved : setting.moves world after) :
      Given value world (.ok value, after)
  | refused {fault : Fault} {after : ω} (hinders : setting.hinders (.fault fault) world after)
      (sound : setting.sound after) (moved : setting.moves world after) :
      Given value world (.error fault, after)

def Setting.Computes (act : ω → Attempt β × ω) (value : β) : Prop :=
  ∀ world, setting.sound world → Given setting value world (act world)

-- A machine plays a course where it stands. Only an element that has been shown is passed, and
-- what others do to the world meanwhile does not move the stream.
structure Plays (machine : Machine ω σ α) (course : Course α) (stands : Standing σ ω) : Prop where
  query : ∀ {place seen state world}, stands place seen state world → setting.sound world →
    Told setting course stands place world (machine.query state world)
  advance : ∀ {place state world}, stands place true state world → (course place).isReady = true →
    setting.sound world → Passed setting stands place world (machine.advance state world)
  kept : ∀ {place seen state world after}, stands place seen state world → setting.moves world after →
    stands place seen state after

end Outcomes

section Carrying
variable {setting : Setting ω} {course : Course α} {stands : Standing σ ω} {wider : Standing τ ω}
  {place : Nat} {status : Status α} {before world after : ω}

theorem Plays.stays {machine : Machine ω σ α} (plays : Plays setting machine course stands)
    (moved : setting.moves before after) : stands.Kept before after := fun _ _ _ there => plays.kept there moved

theorem Setting.Answers.from_before (moved : setting.moves before world)
    (answers : setting.Answers course place world after status) :
    setting.Answers course place before after status :=
  answers.imp_right fun held => ⟨held.1, setting.hinders_before moved held.2⟩

theorem Setting.Answers.until_after (answers : setting.Answers course place before world status)
    (moved : setting.moves world after) : setting.Answers course place before after status :=
  answers.imp_right fun held => ⟨held.1, setting.hinders_after held.2 moved⟩

theorem Setting.Answers.of_stable (answers : setting.Answers course place before after status)
    (stable : status.isStable = true) : course place = status := by
  rcases answers with exact | ⟨rfl, _⟩
  · exact exact
  · cases stable

theorem Told.from_before {outcome : Attempt (Status α) × σ × ω} (moved : setting.moves before world)
    (told : Told setting course stands place world outcome) :
    Told setting course stands place before outcome := by
  cases told with
  | answered answers sound went there =>
    exact .answered (answers.from_before moved) sound (setting.goes_on moved went) there
  | failed hinders sound went there =>
    exact .failed (setting.hinders_before moved hinders) sound (setting.goes_on moved went) there

theorem Told.within {outcome : Attempt (Status α) × σ × ω} {put : σ → τ}
    (puts : ∀ {seen state after}, stands place seen state after → wider place seen (put state) after)
    (told : Told setting course stands place world outcome) :
    Told setting course wider place world (Machine.within put outcome) := by
  cases told with
  | answered answers sound went there => exact .answered answers sound went (puts there)
  | failed hinders sound went there => exact .failed hinders sound went (puts there)

theorem Passed.within {later : Nat} {outcome : Attempt Unit × σ × ω} {put : σ → τ}
    (puts : ∀ {state after}, setting.moves world after → stands (place + 1) false state after →
      wider (later + 1) false (put state) after)
    (passed : Passed setting stands place world outcome) :
    Passed setting wider later world (Machine.within put outcome) := by
  cases passed with
  | passed sound went there => exact .passed sound went (puts went there)

theorem Passed.from_before {outcome : Attempt Unit × σ × ω} (moved : setting.moves before world)
    (passed : Passed setting stands place world outcome) : Passed setting stands place before outcome := by
  cases passed with
  | passed sound went there => exact .passed sound (setting.goes_on moved went) there

theorem Setting.free_prompt : (Setting.free ω).Prompt := fun _ _ _ held => held

theorem Setting.prompt_prompt (setting : Setting ω) : setting.prompt.Prompt := fun _ _ _ held => held

theorem Told.exactly {outcome : Attempt (Status α) × σ × ω} (prompt : setting.Prompt)
    (told : Told setting course stands place world outcome) :
    ∃ state after, outcome = (.ok (course place), state, after) ∧ setting.sound after ∧
      setting.moves world after ∧ stands place (course place).isStable state after := by
  cases told with
  | failed hinders => exact absurd hinders (prompt _ _ _)
  | answered answers sound moved there =>
    rcases answers with rfl | ⟨_, held⟩
    · exact ⟨_, _, rfl, sound, moved, there⟩
    · exact absurd held (prompt _ _ _)

theorem Plays.along {machine : Machine ω σ α} {other : Course α} (plays : Plays setting machine course stands)
    (same : ∀ {place seen state world}, stands place seen state world → course place = other place) :
    Plays setting machine other stands where
  query there sound := by
    have told := plays.query there sound
    generalize machine.query _ _ = outcome at told ⊢
    cases told with
    | answered answers sound moved later =>
      rw [Setting.Answers, same there] at answers
      exact .answered answers sound moved later
    | failed hinders sound moved later => exact .failed hinders sound moved later
  advance there ready sound := plays.advance there (by rwa [same there]) sound
  kept := plays.kept

theorem Passed.of_prompt {outcome : Attempt Unit × σ × ω}
    (passed : Passed setting.prompt stands place world outcome) :
    Passed setting stands place world outcome := by
  cases passed with
  | passed sound moved there => exact .passed sound moved there

theorem Setting.calmly_prompt (setting : Setting ω) (calm : ω → Prop) : (setting.calmly calm).Prompt :=
  fun _ _ _ held => held

theorem Plays.calmly {machine : Machine ω σ α} {calm : ω → Prop} (plays : Plays setting machine course stands)
    (goes_on : ∀ {before after}, calm before → setting.moves before after → calm after)
    (free : ∀ {cause before after}, calm before → ¬ setting.hinders cause before after) :
    Plays (setting.calmly calm) machine course stands where
  query there sound := by
    have told := plays.query there sound.1
    generalize machine.query _ _ = outcome at told ⊢
    cases told with
    | answered answers fine moved later =>
      have exact := answers.resolve_right fun held => free sound.2 held.2
      exact .answered (.inl exact) ⟨fine, goes_on sound.2 moved⟩ moved later
    | failed hinders => exact absurd hinders (free sound.2)
  advance there ready sound := by
    have passed := plays.advance there ready sound.1
    generalize machine.advance _ _ = outcome at passed ⊢
    cases passed with
    | passed fine moved later => exact .passed ⟨fine, goes_on sound.2 moved⟩ moved later
  kept := plays.kept

theorem Setting.computes_pure (setting : Setting ω) (value : β) :
    setting.Computes (fun world => (.ok value, world)) value :=
  fun world sound => .given sound (setting.stays world)

end Carrying

end LightestFirst
