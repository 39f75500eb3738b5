import LightestFirst.Flow
import LightestFirst.Proofs.Playing.Multiplexed
import LightestFirst.Proofs.Playing.Definite
-- The streams put together as flows, and the courses they keep to whatever world they are started in.
namespace LightestFirst

namespace Iterated
variable {ω ι α : Type}

def plainly (next : ι → Option α × ι) (iterator : ι) (world : ω) : Option α × ι × ω :=
  ((next iterator).1, (next iterator).2, world)

def later (next : ι → Option α × ι) (iterator : ι) : Nat → ι
  | 0 => iterator
  | place + 1 => (next (later next iterator place)).2

def answers (next : ι → Option α × ι) (iterator : ι) (place : Nat) : Option α := (next (later next iterator place)).1

theorem plainly_yields (setting : Setting ω) (next : ι → Option α × ι) (iterator : ι) :
    Yields setting (plainly next) (answers next iterator) (fun place now _ => now = later next iterator place) where
  next := by
    rintro place now world rfl sound
    exact ⟨_, world, rfl, sound, setting.stays world, rfl⟩
  kept there _ := there

end Iterated

namespace Flow
variable {ω ι κ α β : Type}

def iterated (next : ι → ω → Option α × ι × ω) (iterator : ι) : Flow ω α :=
  ⟨Iterated ι α, Iterated.machine next, .start iterator⟩

def mappedBy (f : Nat → α → ω → Attempt β × ω) (inner : Flow ω α) : Flow ω β :=
  ⟨Mapped inner.State β, Mapped.machine inner.machine f, .start inner.state⟩

def pairedBy (le : α → α → Bool) (join : α → α → ω → Attempt α × ω) (left right : Flow ω α) : Flow ω α :=
  ⟨Paired left.State right.State α, Paired.machine left.machine right.machine le join, .of left.state right.state⟩

def multiplexed (source : Flow ω α) : Flow ω α :=
  ⟨Buffered source.State α × Reader, Multiplexed.machine source.machine, Multiplexed.start source.state⟩

def view (readAt : Nat → ω → Attempt (Status α) × ω) : Flow ω α := ⟨Reader, Reader.machine readAt, .start⟩

def Keeps (setting : Setting ω) (flow : Flow ω α) (course : Course α) : Prop :=
  ∃ stands, Plays setting flow.machine course stands ∧ ∀ world, stands 0 false flow.state world

section Keeping
variable {setting : Setting ω} {flow left right : Flow ω α} {course xs ys : Course α}

theorem empty_keeps : (empty : Flow ω α).Keeps setting (fun _ => .ended) := ⟨_, Empty.plays, fun _ => trivial⟩

theorem single_keeps (value : α) : (single value : Flow ω α).Keeps setting (.ofList [value]) :=
  ⟨_, Single.plays value, fun _ => .inl ⟨rfl, rfl⟩⟩

theorem iterated_keeps (next : ι → Option α × ι) (iterator : ι) :
    (iterated (Iterated.plainly next) iterator : Flow ω α).Keeps setting (.ofAnswers (Iterated.answers next iterator)) :=
  ⟨_, Iterated.plays (Iterated.plainly_yields setting next iterator), fun _ => ⟨rfl, rfl⟩⟩

theorem mappedBy_keeps {f : Nat → α → ω → Attempt β × ω} {g : α → β}
    (computes : ∀ call value, setting.Computes (f call value) (g value)) (keeps : flow.Keeps setting course) :
    (mappedBy f flow).Keeps setting (course.map g) := by
  obtain ⟨stands, plays, starts⟩ := keeps
  exact ⟨_, Mapped.plays plays computes, fun world => ⟨rfl, false, starts world⟩⟩

theorem merged_keeps (le : α → α → Bool) (first : left.Keeps setting xs) (second : right.Keeps setting ys) :
    (merged le left right).Keeps setting (.merged le xs ys) := by
  obtain ⟨stands, plays, starts⟩ := first
  obtain ⟨others, follows, begins⟩ := second
  exact ⟨_, Merged.plays plays follows, fun world => ⟨0, 0, rfl, rfl, ⟨false, starts world⟩, false, begins world⟩⟩

theorem pairedBy_keeps (le : α → α → Bool) {join : α → α → ω → Attempt α × ω} {joined : α → α → α}
    (computes : ∀ x y, setting.Computes (join x y) (joined x y)) (first : left.Keeps setting xs)
    (second : right.Keeps setting ys) : (pairedBy le join left right).Keeps setting (.joined le joined xs ys) := by
  obtain ⟨stands, plays, starts⟩ := first
  obtain ⟨others, follows, begins⟩ := second
  exact ⟨_, Paired.plays plays follows computes, fun world => Paired.of_stands (starts world) (begins world)⟩

theorem multiplexed_keeps (keeps : flow.Keeps setting course) : (multiplexed flow).Keeps setting course := by
  obtain ⟨stands, plays, starts⟩ := keeps
  exact ⟨_, Multiplexed.plays plays, fun world => Multiplexed.start_stands (starts world)⟩

theorem deferred_keeps {later : Thunk (Flow ω α)} (keeps : later.get.Keeps setting course) :
    (deferred later).Keeps setting course := by
  obtain ⟨stands, plays, starts⟩ := keeps
  have builds : Postponed.Builds setting (fun (_ : Unit) world => (.ok later.get.state, world)) stands
      (fun _ _ => True) :=
    ⟨fun {_ world} _ sound => ⟨_, world, rfl, sound, setting.stays world, starts world⟩, fun _ _ => trivial⟩
  exact ⟨_, Postponed.plays builds plays, fun _ => ⟨rfl, rfl, trivial⟩⟩

end Keeping
end Flow
end LightestFirst
