import LightestFirst.Machine
-- One stream computed once and read by many. The elements it has produced stand in a buffer;
-- a reader is an index into it. Reading below the end of the buffer never touches the source,
-- reading at the end makes it produce one element more.
namespace LightestFirst

structure Buffered (σ α : Type) where
  source : σ
  buffer : Array α
  -- the source has said that it ended: the buffer is complete
  ended : Bool
  -- the source still stands on the buffer's last element
  headBuffered : Bool

namespace Buffered
variable {ω σ τ α : Type}

def start (source : σ) : Buffered σ α := ⟨source, #[], false, false⟩

@[inline] def replace (source : τ) : Buffered σ α → Buffered τ α
  | ⟨_, buffer, ended, headBuffered⟩ => ⟨source, buffer, ended, headBuffered⟩

-- Asks a source for its element, and moves it off the last one first where that is still to be done.
-- Whether the source stands on an element now is told with the answer. It is noted to have moved at
-- once: an abandoned query after that does not move it a second time.
def draw (machine : Machine ω σ α) (source : σ) (headBuffered : Bool) (world : ω) :
    Attempt (Status α) × Bool × σ × ω :=
  match headBuffered with
  | false => ask source world
  | true =>
    match machine.advance source world with
    | (.error fault, source, world) => (.error fault, true, source, world)
    | (.ok (), source, world) => ask source world
where
  ask (source : σ) (world : ω) : Attempt (Status α) × Bool × σ × ω :=
    match machine.query source world with
    | (.error fault, source, world) => (.error fault, false, source, world)
    | (.ok status, source, world) => (.ok status, status.isReady, source, world)

def absorb (cell : Buffered τ α) (result : Attempt (Status α)) (headBuffered : Bool) (source : σ) :
    Buffered σ α :=
  match cell, result with
  | ⟨_, buffer, ended, _⟩, .ok (.ready value) => ⟨source, buffer.push value, ended, headBuffered⟩
  | ⟨_, buffer, _, _⟩, .ok .ended => ⟨source, buffer, true, headBuffered⟩
  | ⟨_, buffer, ended, _⟩, _ => ⟨source, buffer, ended, headBuffered⟩

def pull (machine : Machine ω σ α) (cell : Buffered σ α) (world : ω) :
    Attempt (Status α) × Buffered σ α × ω :=
  match cell with
  | ⟨source, buffer, ended, headBuffered⟩ =>
    match draw machine source headBuffered world with
    | (result, headBuffered, source, world) =>
      (result, (⟨(), buffer, ended, headBuffered⟩ : Buffered Unit α).absorb result headBuffered source, world)

def settled? (cell : Buffered σ α) (index : Nat) : Option (Status α) :=
  match cell.buffer[index]? with
  | some value => some (.ready value)
  | none => if cell.ended then some .ended else none

-- A reader only passes elements it has been shown, so an index the buffer does not answer for is
-- the buffer's size, and the element pulled lands there.
def read (machine : Machine ω σ α) (index : Nat) (cell : Buffered σ α) (world : ω) :
    Attempt (Status α) × Buffered σ α × ω :=
  match cell.settled? index with
  | some status => (.ok status, cell, world)
  | none => cell.pull machine world

theorem absorb_source (cell : Buffered τ α) (result : Attempt (Status α)) (flag : Bool) (source : σ) :
    (cell.absorb result flag source).source = source := by
  rcases cell with ⟨_, _, _, _⟩
  rcases result with _ | _ | _ | _ <;> rfl

theorem absorb_replace {ρ : Type} (cell : Buffered τ α) (other : ρ) (result : Attempt (Status α)) (flag : Bool)
    (source : σ) : (cell.replace other).absorb result flag source = cell.absorb result flag source := by
  rcases result with _ | _ | _ | _ <;> rfl

end Buffered

-- `observed`: the last query at `index` answered `ready`.
structure Reader where
  index : Nat
  observed : Bool
deriving DecidableEq, Repr

namespace Reader
variable {ω α : Type}

def start : Reader := ⟨0, false⟩

def query (readAt : Nat → ω → Attempt (Status α) × ω) (reader : Reader) (world : ω) :
    Attempt (Status α) × Reader × ω :=
  match readAt reader.index world with
  | (.error fault, world) => (.error fault, reader, world)
  | (.ok status, world) => (.ok status, ⟨reader.index, status.isReady⟩, world)

def advance (reader : Reader) (world : ω) : Attempt Unit × Reader × ω :=
  if reader.observed then (.ok (), ⟨reader.index + 1, false⟩, world)
  else (.error (.violation .reader), reader, world)

-- A reader moves over whatever `readAt` shows it; where that comes from is the world's affair.
def machine (readAt : Nat → ω → Attempt (Status α) × ω) : Machine ω Reader α :=
  ⟨query readAt, advance⟩

end Reader
end LightestFirst
