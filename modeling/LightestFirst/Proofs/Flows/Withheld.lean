import LightestFirst.Proofs.Playing.Elementary
-- Streams that may answer `pending` in place of what they stand in front of. The world counts these
-- answers, so that it can be told whether one was given during a call.
namespace LightestFirst

structure Tallied (ω : Type) where
  tally : Nat
  outside : ω

-- Who holds queries back. A keeper is asked before each query and told of each advance; it may look at
-- the world outside and change it, so that others open and close gates while a call is under way.
structure Keeper (κ ω : Type) where
  holds : κ → ω → Bool × κ × ω
  passed : κ → ω → κ × ω

structure Withheld (κ σ : Type) where
  keeper : κ
  inner : σ

namespace Withheld
variable {κ ω σ α : Type}

def machine (keeper : Keeper κ ω) (inner : Machine (Tallied ω) σ α) : Machine (Tallied ω) (Withheld κ σ) α where
  query state world :=
    match keeper.holds state.keeper world.outside with
    | (true, kept, outside) => (.ok .pending, ⟨kept, state.inner⟩, ⟨world.tally + 1, outside⟩)
    | (false, kept, outside) => Machine.within (⟨kept, ·⟩) (inner.query state.inner ⟨world.tally, outside⟩)
  advance state world :=
    match keeper.passed state.keeper world.outside with
    | (kept, outside) => Machine.within (⟨kept, ·⟩) (inner.advance state.inner ⟨world.tally, outside⟩)

def gate (isOpen : ω → Bool) : Keeper Unit ω where
  holds _ outside := (!isOpen outside, (), outside)
  passed _ outside := ((), outside)

def delay (period : Nat) : Keeper Nat ω where
  holds
    | left + 1, outside => (true, left, outside)
    | 0, outside => (false, 0, outside)
  passed _ outside := (period, outside)

-- Something was held back on the way exactly where the count has gone up.
def setting (ω : Type) : Setting (Tallied ω) where
  sound _ := True
  moves before after := before.tally ≤ after.tally
  hinders cause before after := cause = .pending ∧ before.tally < after.tally
  stays _ := Nat.le_refl _
  goes_on := Nat.le_trans
  hinders_before moved held := ⟨held.1, Nat.lt_of_le_of_lt moved held.2⟩
  hinders_after held moved := ⟨held.1, Nat.lt_of_lt_of_le held.2 moved⟩

variable {keeper : Keeper κ ω} {inner : Machine (Tallied ω) σ α} {course : Course α} {stands : Standing σ (Tallied ω)}

def Stands (stands : Standing σ (Tallied ω)) : Standing (Withheld κ σ) (Tallied ω) := fun place seen state world =>
  ∃ shown, (seen = true → shown = true) ∧ stands place shown state.inner world

theorem plays (plays : Plays (setting ω) inner course stands) :
    Plays (setting ω) (machine keeper inner) course (Stands stands) where
  query := by
    rintro place seen ⟨kept, state⟩ ⟨tally, outside⟩ ⟨shown, _, there⟩ sound
    simp only [machine]
    obtain ⟨held, kept, outside'⟩ := keeper.holds kept outside
    cases held with
    | true =>
      have counted : tally < tally + 1 := Nat.lt_succ_self tally
      exact .answered (.inr ⟨rfl, rfl, counted⟩) trivial (Nat.le_of_lt counted)
        ⟨shown, nofun, plays.kept there (Nat.le_of_lt counted)⟩
    | false =>
      have still : (setting ω).moves ⟨tally, outside⟩ ⟨tally, outside'⟩ := Nat.le_refl tally
      have told := plays.query (plays.kept there still) sound
      exact (told.from_before still).within fun there => ⟨_, id, there⟩
  advance := by
    rintro place ⟨kept, state⟩ ⟨tally, outside⟩ ⟨shown, answered, there⟩ ready sound
    obtain rfl := answered rfl
    obtain ⟨⟨later, outside'⟩, told⟩ := Exists.intro _ (rfl : keeper.passed kept outside = _)
    simp only [machine, told]
    have still : (setting ω).moves ⟨tally, outside⟩ ⟨tally, outside'⟩ := Nat.le_refl tally
    have passed := plays.advance (plays.kept there still) ready sound
    exact (passed.from_before still).within fun _ there => ⟨_, id, there⟩
  kept := by
    rintro place seen state world after ⟨shown, answered, there⟩ moved
    exact ⟨shown, answered, plays.kept there moved⟩

end Withheld
end LightestFirst
