import LightestFirst.Proofs.Reading
-- A client of one stream, with what it has been shown and what it has passed.
namespace LightestFirst
variable {ω σ α : Type}

structure Visit (σ α : Type) where
  state : σ
  -- the element of the last answer, as long as it has not been passed
  shown : Option α
  passed : List α

namespace Visit

def fresh (state : σ) : Visit σ α := ⟨state, none, []⟩

-- What a call leaves. One that is abandoned passes nothing, and nothing is shown after it.
def left {β : Type} (visit : Visit σ α) (shown : β → Option α) (passed : List α) : Attempt β × σ × ω → Visit σ α × ω
  | (.ok result, state, world) => (⟨state, shown result, passed⟩, world)
  | (.error _, state, world) => (⟨state, none, visit.passed⟩, world)

section Calls
variable (machine : Machine ω σ α)

def ask (visit : Visit σ α) (world : ω) : Visit σ α × ω :=
  visit.left Status.ready? visit.passed (machine.query visit.state world)

def advance (visit : Visit σ α) (world : ω) : Visit σ α × ω :=
  visit.left (fun _ => none) (visit.passed ++ visit.shown.toList) (machine.advance visit.state world)

inductive Reached (elsewhere : ω → ω → Prop) (first : Visit σ α × ω) : Visit σ α × ω → Prop where
  | start : Reached elsewhere first first
  | asked {visit : Visit σ α} {world : ω} (before : Reached elsewhere first (visit, world)) :
      Reached elsewhere first (visit.ask machine world)
  | advanced {visit : Visit σ α} {world : ω} (before : Reached elsewhere first (visit, world))
      (lawful : visit.shown.isSome = true) : Reached elsewhere first (visit.advance machine world)
  | elsewhere {visit : Visit σ α} {world after : ω} (before : Reached elsewhere first (visit, world))
      (moved : elsewhere world after) : Reached elsewhere first (visit, after)

end Calls

variable {setting : Setting ω} {machine : Machine ω σ α} {course : Course α} {stands : Standing σ ω}
  {visit : Visit σ α} {world after : ω}

-- What has been passed is the front of the course, and what is shown is next in it.
structure Stands (course : Course α) (stands : Standing σ ω) (visit : Visit σ α) (world : ω) : Prop where
  there : ∃ seen, (visit.shown.isSome = true → seen = true) ∧ stands visit.passed.length seen visit.state world
  begins : course.Begins visit.passed
  shown : ∀ value, visit.shown = some value → course visit.passed.length = .ready value

theorem fresh_stands {state : σ} (starts : stands 0 false state world) :
    (fresh state : Visit σ α).Stands course stands world := ⟨⟨false, nofun, starts⟩, nofun, nofun⟩

theorem Stands.kept (there : visit.Stands course stands world) (inside : stands.Kept world after) :
    visit.Stands course stands after :=
  ⟨there.there.imp fun _ there => ⟨there.1, inside there.2⟩, there.begins, there.shown⟩

theorem Stands.ask (plays : Plays setting machine course stands) (there : visit.Stands course stands world)
    (sound : setting.sound world) :
    setting.sound (visit.ask machine world).2 ∧ setting.moves world (visit.ask machine world).2 ∧
      (visit.ask machine world).1.Stands course stands (visit.ask machine world).2 := by
  obtain ⟨state, shown, passed⟩ := visit
  obtain ⟨⟨seen, _, there⟩, begins, _⟩ := there
  have told := plays.query there sound
  simp only [Visit.ask]
  generalize machine.query state world = outcome at told ⊢
  cases told with
  | failed _ sound moved there => exact ⟨sound, moved, ⟨⟨false, nofun, there⟩, begins, nofun⟩⟩
  | @answered status _ _ answers sound moved there =>
    refine ⟨sound, moved, ⟨⟨_, fun some => ?_, there⟩, begins, fun value is => ?_⟩⟩
    · cases status with
      | ready => rfl
      | ended => cases some
      | pending => cases some
    · cases status with
      | ready => exact (answers.of_stable rfl).trans (congrArg _ (Option.some.inj is))
      | ended => cases is
      | pending => cases is

theorem Stands.passes (plays : Plays setting machine course stands) (there : visit.Stands course stands world)
    (sound : setting.sound world) (lawful : visit.shown.isSome = true) :
    Passed setting stands visit.passed.length world (machine.advance visit.state world) := by
  obtain ⟨value, shown⟩ := Option.isSome_iff_exists.mp lawful
  obtain ⟨seen, answered, standing⟩ := there.there
  obtain rfl := answered lawful
  exact plays.advance standing (by rw [there.shown value shown]; rfl) sound

theorem Stands.advance (plays : Plays setting machine course stands) (there : visit.Stands course stands world)
    (sound : setting.sound world) (lawful : visit.shown.isSome = true) :
    setting.sound (visit.advance machine world).2 ∧ setting.moves world (visit.advance machine world).2 ∧
      (visit.advance machine world).1.Stands course stands (visit.advance machine world).2 := by
  have passes := there.passes plays sound lawful
  obtain ⟨value, shown⟩ := Option.isSome_iff_exists.mp lawful
  have next := there.begins.append (there.shown value shown)
  simp only [Visit.advance, shown]
  generalize machine.advance visit.state world = outcome at passes ⊢
  cases passes with
  | @passed state after sound moved there =>
    have ahead : stands (visit.passed ++ [value]).length false state after := by rwa [List.length_append]
    exact ⟨sound, moved, ⟨⟨false, nofun, ahead⟩, next, nofun⟩⟩

theorem Reached.invariant (plays : Plays setting machine course stands) {elsewhere : ω → ω → Prop}
    (allowed : ∀ {before after}, elsewhere before after → setting.sound before →
      setting.sound after ∧ setting.moves before after)
    {first now : Visit σ α × ω} (sound : setting.sound first.2) (starts : first.1.Stands course stands first.2)
    (reached : Reached machine elsewhere first now) : setting.sound now.2 ∧ now.1.Stands course stands now.2 := by
  induction reached with
  | start => exact ⟨sound, starts⟩
  | asked _ ih =>
    obtain ⟨sound, _, there⟩ := ih.2.ask plays ih.1
    exact ⟨sound, there⟩
  | advanced _ lawful ih =>
    obtain ⟨sound, _, there⟩ := ih.2.advance plays ih.1 lawful
    exact ⟨sound, there⟩
  | elsewhere _ moved ih =>
    obtain ⟨sound, went⟩ := allowed moved ih.1
    exact ⟨sound, ih.2.kept (plays.stays went)⟩

end Visit
end LightestFirst
