import LightestFirst.Proofs.Playing.Pairing
-- A buffer and what reads it as one state like any other: nobody else has a view of it.
namespace LightestFirst
variable {ω σ ρ α β : Type} {setting : Setting ω}

namespace Enclosed

def enclose {γ : Type} : Attempt γ × ρ × Buffered σ α × ω → Attempt γ × (Buffered σ α × ρ) × ω
  | (answer, inside, cell, world) => (answer, (cell, inside), world)

def machine (within : Machine (Buffered σ α × ω) ρ β) : Machine ω (Buffered σ α × ρ) β where
  query state world := enclose (within.query state.2 (state.1, world))
  advance state world := enclose (within.advance state.2 (state.1, world))

variable {source : Machine ω σ α} {given : Course α} {standing : Standing σ ω}
  {within : Machine (Buffered σ α × ω) ρ β} {course : Course β} {stands : Standing ρ (Buffered σ α × ω)}

def Stands (given : Course α) (standing : Standing σ ω) (stands : Standing ρ (Buffered σ α × ω)) :
    Standing (Buffered σ α × ρ) ω := fun place seen state world =>
  state.1.Stands given standing world ∧ stands place seen state.2 (state.1, world)

theorem plays (sourced : Plays setting source given standing)
    (inner : Plays (setting.sharing given standing) within course stands) :
    Plays setting (machine within) course (Stands given standing stands) where
  query := by
    rintro place seen ⟨cell, inside⟩ world ⟨held, there⟩ sound
    have told := inner.query there ⟨sound, held⟩
    simp only [machine]
    generalize within.query inside (cell, world) = outcome at told ⊢
    cases told with
    | answered answers sound moved there => exact .answered answers sound.1 moved.1 ⟨sound.2, there⟩
    | failed hinders sound moved there => exact .failed hinders sound.1 moved.1 ⟨sound.2, there⟩
  advance := by
    rintro place ⟨cell, inside⟩ world ⟨held, there⟩ ready sound
    have passed := inner.advance there ready ⟨sound, held⟩
    simp only [machine]
    generalize within.advance inside (cell, world) = outcome at passed ⊢
    cases passed with
    | passed sound moved there => exact .passed sound.1 moved.1 ⟨sound.2, there⟩
  kept := by
    rintro place seen ⟨cell, inside⟩ world after ⟨held, there⟩ moved
    exact ⟨held.kept (sourced.stays moved), inner.kept there ⟨moved, Nat.le_refl _⟩⟩

end Enclosed

namespace Multiplexed

def reading (source : Machine ω σ α) : Machine (Buffered σ α × ω) Reader α := Reader.machine (Paired.readRight source)

def start (source : σ) : Buffered σ α × Reader := ⟨.start source, .start⟩

def machine (source : Machine ω σ α) : Machine ω (Buffered σ α × Reader) α := Enclosed.machine (reading source)

variable {source : Machine ω σ α} {course : Course α} {stands : Standing σ ω}

def Stands (course : Course α) (stands : Standing σ ω) : Standing (Buffered σ α × Reader) ω :=
  Enclosed.Stands course stands (Reader.Stands course (·.1.buffer.size))

theorem start_stands {state : σ} {world : ω} {shown : Bool} (there : stands 0 shown state world) :
    Stands course stands 0 false (start state) world :=
  ⟨Buffered.start_stands there, rfl, Nat.zero_le _, nofun, nofun⟩

theorem plays (plays : Plays setting source course stands) :
    Plays setting (machine source) course (Stands course stands) :=
  Enclosed.plays plays (Buffered.readers_play plays)

end Multiplexed
end LightestFirst
