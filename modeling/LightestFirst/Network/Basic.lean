import LightestFirst.Source
import LightestFirst.Postponed
import LightestFirst.Paired
import LightestFirst.Merged
import LightestFirst.Interrupted
import LightestFirst.Iteration
import LightestFirst.Ledger
-- Streams put together freely: a stream is a tree of the streams of this library, and its leaves
-- may read shared buffers that other trees feed, itself included. The buffers, the named handles
-- and the ledger make up the network that all these streams live in.
namespace LightestFirst

-- An iterator given by its answers, call by call. It may answer `none` and then go on. Elements
-- it yields are counted under `tally`.
structure Supply (α : Type) where
  answers : Nat → Option α
  calls : Nat
  tally : Option String

namespace Supply
variable {α : Type}

-- Answers as written, and `none` from there on. The array is made once, not at each call.
def scripted (script : Array (Option α)) (tally : Option String) : Supply α :=
  ⟨fun place => script[place]?.join, 0, tally⟩

def ofList (items : List α) (tally : Option String) : Supply α :=
  scripted (items.map some).toArray tally

def broken (first second : List α) : Supply α :=
  scripted (first.map some ++ none :: second.map some).toArray none

def endless (element : Nat → α) : Supply α := ⟨fun place => some (element place), 0, none⟩

def next (supply : Supply α) (ledger : Ledger) : Option α × Supply α × Ledger :=
  match supply.answers supply.calls with
  | some value => (some value, { supply with calls := supply.calls + 1 }, ledger.tallyIf supply.tally)
  | none => (none, { supply with calls := supply.calls + 1 }, ledger)

end Supply

-- A function applied to elements: told the number of its call, it may act on the ledger and refuse.
abbrev Action (α : Type) := Nat → α → Ledger → Attempt α × Ledger

abbrev JoinAction (α : Type) := α → α → Ledger → Attempt α × Ledger

-- How a stream is built. Building looks names up and takes handles; a deferred part is built by
-- the first call that reaches it, with the names as they are then.
inductive Recipe (α : Type) where
  | empty
  | single (value : α)
  | iterated (supply : Supply α)
  | deferred (tally : Option String) (body : Recipe α)
  | mapped (f : Action α) (inner : Recipe α)
  | merged (le : α → α → Bool) (left right : Recipe α)
  | paired (le : α → α → Bool) (join : JoinAction α) (left right : Recipe α)
  -- a buffer fed by `source`, read from its start
  | multiplexed (source : Recipe α)
  -- a reader, from its start, of the buffer known under this name
  | view (name : String)
  | boxed (inner : Recipe α)
  -- the stream of a handle, which is gone afterwards
  | taken (handle : String)
  -- the body of a definition with so much fuel
  | defined (definition : String) (fuel : Nat)
  -- the same with one less than the fuel of the body this stands in, and empty at none
  | recurring (definition : String)
  | probed (name : String) (inner : Recipe α)
  | gated (gate : String) (inner : Recipe α)
  | delayed (period : Nat) (inner : Recipe α)
  | following (head : List α) (tail : Recipe α)

def Recipe.mergedAll {α : Type} (le : α → α → Bool) : List (Recipe α) → Recipe α
  | [] => .boxed .empty
  | [only] => .boxed only
  | first :: rest => .merged le first (mergedAll le rest)

inductive Blueprint (α : Type) where
  | recipe (tally : Option String) (body : Recipe α) (fuel : Nat)
  | definition (name : String) (fuel : Nat)

inductive Stream (α : Type) where
  | empty
  | single (state : Single α)
  | iterated (state : Iterated (Supply α) α)
  | postponed (state : Postponed (Blueprint α) (Stream α))
  | mapped (f : Action α) (state : Mapped (Stream α) α)
  | merged (le : α → α → Bool) (state : Merged (Stream α) (Stream α) α)
  | paired (le : α → α → Bool) (join : JoinAction α) (state : Paired (Stream α) (Stream α) α)
  -- the first reader of a buffer, and the others
  | multiplexer (cell : Nat) (reader : Reader)
  | view (cell : Nat) (reader : Reader)
  | boxed (inner : Stream α)
  | probed (name : String) (inner : Stream α)
  | gated (gate : String) (inner : Stream α)
  | delayed (state : Delayed (Stream α))
  | following (state : Followed (Iterated (Supply α) α) (Stream α))

inductive Handle (α : Type) where
  | stream (stream : Stream α)
  | iteration (iteration : Iteration (Stream α) α)

namespace Handle
variable {α τ : Type}

def contents : Handle α → Stream α
  | .stream held => held
  | .iteration held => .boxed held.stream

-- What calls on a handle of some kind are given, and the way back.
structure Kind (α τ : Type) where
  of? : Handle α → Option τ
  put : τ → Handle α
  of?_put : ∀ state, of? (put state) = some state
  eq_put : ∀ {held state}, of? held = some state → held = put state

namespace Kind

def streams : Kind α (Stream α) where
  of?
    | .stream held => some held
    | .iteration _ => none
  put := .stream
  of?_put _ := rfl
  eq_put {held _} found := by
    cases held with
    | stream _ => exact congrArg _ (Option.some.inj found)
    | iteration _ => cases found

def iterations : Kind α (Iteration (Stream α) α) where
  of?
    | .stream _ => none
    | .iteration held => some held
  put := .iteration
  of?_put _ := rfl
  eq_put {held _} found := by
    cases held with
    | stream _ => cases found
    | iteration _ => exact congrArg _ (Option.some.inj found)

end Kind
end Handle

-- While its source runs, a cell stands in the network without it: the buffer stays readable, and
-- nothing can run the source a second time.
structure Network (α : Type) where
  cells : Array (Buffered (Option (Stream α)) α)
  -- the buffers that names stand for; a name keeps its buffer when its handle goes
  multiplexers : Table Nat
  handles : Table (Handle α)
  ledger : Ledger

namespace Network
variable {α β : Type}

def blank : Network α := ⟨#[], [], [], .blank⟩

@[inline] def onLedger (act : Ledger → β × Ledger) (network : Network α) : β × Network α :=
  match network with
  | ⟨cells, multiplexers, handles, ledger⟩ =>
    match act ledger with
    | (result, ledger) => (result, ⟨cells, multiplexers, handles, ledger⟩)

def updateLedger (update : Ledger → Ledger) (network : Network α) : Network α :=
  { network with ledger := update network.ledger }

def addCell (network : Network α) (source : Stream α) : Nat × Network α :=
  (network.cells.size, { network with cells := network.cells.push (Buffered.start (some source)) })

def setCell (network : Network α) (cell : Nat) (state : Buffered (Option (Stream α)) α) : Network α :=
  { network with cells := network.cells.setIfInBounds cell state }

end Network

end LightestFirst
