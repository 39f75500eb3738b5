import LightestFirst.Mapped
import LightestFirst.Buffered
-- Every element of one stream joined with every element of another, smallest joins first, with
-- no more of either computed than the answers need.
--   Each left element met so far has a lane: the right stream, read from its start and joined
--   with that element. The right stream stands behind one buffer, so it is computed once.
--   A new left element is fetched only when the newest lane has moved off its first join: until
--   then that join bounds from below everything a later lane could hold.
--   A lane that has ended is dropped for good. Of equal heads the earlier lane's goes first.
namespace LightestFirst

structure Lane (α : Type) where
  -- how many lanes were opened before this one
  ordinal : Nat
  element : α
  joins : Mapped Reader α

inductive Choice (α : Type) where
  | ready (value : α) (lane : Nat)
  | ended

def Choice.status {α : Type} : Choice α → Status α
  | .ready value _ => .ready value
  | .ended => .ended

structure Paired (σ τ α : Type) where
  left : σ
  leftEnded : Bool
  right : Buffered τ α
  lanes : List (Lane α)
  -- how many lanes were ever opened
  appended : Nat
  -- the newest lane has moved off its first join: another left element is due
  needsLeft : Bool
  choice : Option (Choice α)

namespace Paired
variable {ω σ τ α : Type}

def of (left : σ) (right : τ) : Paired σ τ α := ⟨left, false, Buffered.start right, [], 0, true, none⟩

def openLane (ordinal : Nat) (element : α) : Lane α := ⟨ordinal, element, Mapped.start Reader.start⟩

section Lanes
variable (second : Machine ω τ α) (join : α → α → ω → Attempt α × ω)

-- A reader of the right stream's buffer, which is part of the world that the lanes live in.
def readRight (index : Nat) : Buffered τ α × ω → Attempt (Status α) × Buffered τ α × ω
  | (right, world) => right.read second index world

def joinWith (x : α) (_ : Nat) (y : α) : Buffered τ α × ω → Attempt α × Buffered τ α × ω
  | (right, world) =>
    match join x y world with
    | (result, world) => (result, right, world)

def laneMachine (element : α) : Machine (Buffered τ α × ω) (Mapped Reader α) α :=
  Mapped.machine (Reader.machine (readRight second)) (joinWith join element)

def pollLane (lane : Lane α) (world : Buffered τ α × ω) :
    Attempt (Status α) × Lane α × Buffered τ α × ω :=
  match lane with
  | ⟨ordinal, element, joins⟩ =>
    Machine.within (⟨ordinal, element, ·⟩) ((laneMachine second join element).query joins world)

def advanceLane (lane : Lane α) (world : Buffered τ α × ω) :
    Attempt Unit × Lane α × Buffered τ α × ω :=
  match lane with
  | ⟨ordinal, element, joins⟩ =>
    Machine.within (⟨ordinal, element, ·⟩) ((laneMachine second join element).advance joins world)

-- Asks every lane once, earliest first, and drops those that have ended. The answers are those of
-- the lanes kept, in order. An abandoned call leaves the lanes behind it unasked.
def poll (lanes : List (Lane α)) (world : Buffered τ α × ω) :
    Attempt (List (Status α)) × List (Lane α) × Buffered τ α × ω :=
  match lanes with
  | [] => (.ok [], [], world)
  | lane :: rest =>
    match pollLane second join lane world with
    | (.error fault, lane, world) => (.error fault, lane :: rest, world)
    | (.ok .ended, _, world) => poll rest world
    | (.ok status, lane, world) =>
      match poll rest world with
      | (.error fault, rest, world) => (.error fault, lane :: rest, world)
      | (.ok statuses, rest, world) => (.ok (status :: statuses), lane :: rest, world)

end Lanes

-- The first of the answers that no later one is strictly below, with its place.
def leastFrom (le : α → α → Bool) : Nat → Option (Nat × α) → List (Status α) → Option (Nat × α)
  | _, best, [] => best
  | place, none, .ready value :: rest => leastFrom le (place + 1) (some (place, value)) rest
  | place, some (held, current), .ready value :: rest =>
    leastFrom le (place + 1) (if le current value then some (held, current) else some (place, value)) rest
  | place, best, _ :: rest => leastFrom le (place + 1) best rest

def least (le : α → α → Bool) (statuses : List (Status α)) : Option (Nat × α) :=
  leastFrom le 0 none statuses

-- A lane that is pending might hold something smaller than all others show. With no lane left,
-- either the left stream has ended, or the newest lane ended at its first join and the right
-- stream is empty.
def choose (le : α → α → Bool) (statuses : List (Status α)) : Option (Choice α) :=
  if statuses.any Status.isPending then none
  else match least le statuses with
    | some (place, value) => some (.ready value place)
    | none => some .ended

def answer : Option (Choice α) → Status α
  | some choice => choice.status
  | none => .pending

-- Fetches a left element where one is due; `false` where the left stream cannot answer yet.
def grow (first : Machine ω σ α) (state : Paired σ τ α) (world : ω) :
    Attempt Bool × Paired σ τ α × ω :=
  match state with
  | ⟨left, false, right, lanes, appended, true, choice⟩ =>
    match first.query left world with
    | (.error fault, left, world) =>
      (.error fault, ⟨left, false, right, lanes, appended, true, choice⟩, world)
    | (.ok .pending, left, world) =>
      (.ok false, ⟨left, false, right, lanes, appended, true, choice⟩, world)
    | (.ok .ended, left, world) =>
      (.ok true, ⟨left, true, right, lanes, appended, false, choice⟩, world)
    | (.ok (.ready x), left, world) =>
      match first.advance left world with
      | (.error fault, left, world) =>
        (.error fault, ⟨left, false, right, lanes, appended, true, choice⟩, world)
      | (.ok (), left, world) =>
        (.ok true,
          ⟨left, false, right, lanes ++ [openLane appended x], appended + 1, false, choice⟩, world)
  | state => (.ok true, state, world)

def settle (second : Machine ω τ α) (le : α → α → Bool) (join : α → α → ω → Attempt α × ω)
    (state : Paired σ τ α) (world : ω) : Attempt (Status α) × Paired σ τ α × ω :=
  match state with
  | ⟨left, leftEnded, right, lanes, appended, needsLeft, choice⟩ =>
    match poll second join lanes (right, world) with
    | (.error fault, lanes, right, world) =>
      (.error fault, ⟨left, leftEnded, right, lanes, appended, needsLeft, choice⟩, world)
    | (.ok statuses, lanes, right, world) =>
      (.ok (answer (choose le statuses)),
        ⟨left, leftEnded, right, lanes, appended, needsLeft, choose le statuses⟩, world)

def query (first : Machine ω σ α) (second : Machine ω τ α) (le : α → α → Bool)
    (join : α → α → ω → Attempt α × ω) (state : Paired σ τ α) (world : ω) :
    Attempt (Status α) × Paired σ τ α × ω :=
  match state.choice with
  | some choice => (.ok choice.status, state, world)
  | none =>
    match grow first state world with
    | (.error fault, state, world) => (.error fault, state, world)
    | (.ok false, state, world) => (.ok .pending, state, world)
    | (.ok true, state, world) => settle second le join state world

-- The choice is given up before its lane moves. Its lane exists: a choice is made among the lanes
-- kept, and nothing drops one while the choice stands.
def advance (second : Machine ω τ α) (join : α → α → ω → Attempt α × ω)
    (state : Paired σ τ α) (world : ω) : Attempt Unit × Paired σ τ α × ω :=
  match state with
  | ⟨left, leftEnded, right, lanes, appended, needsLeft, some (.ready value place)⟩ =>
    match lanes[place]? with
    | none =>
      (.error (.violation .paired),
        ⟨left, leftEnded, right, lanes, appended, needsLeft, some (.ready value place)⟩, world)
    | some lane =>
      match advanceLane second join lane (right, world) with
      | (.error fault, lane, right, world) =>
        (.error fault,
          ⟨left, leftEnded, right, lanes.set place lane, appended, needsLeft, none⟩, world)
      | (.ok (), lane, right, world) =>
        (.ok (), ⟨left, leftEnded, right, lanes.set place lane, appended,
          needsLeft || lane.ordinal + 1 == appended, none⟩, world)
  | state => (.error (.violation .paired), state, world)

def machine (first : Machine ω σ α) (second : Machine ω τ α) (le : α → α → Bool)
    (join : α → α → ω → Attempt α × ω) : Machine ω (Paired σ τ α) α :=
  ⟨query first second le join, advance second join⟩

def plainly (join : α → α → α) (x y : α) (world : ω) : Attempt α × ω := (.ok (join x y), world)

end Paired
end LightestFirst
