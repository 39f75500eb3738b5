import LightestFirst.Network.Build
-- The calls on the streams of a network. Each level of a tree is driven by the machine of its own
-- kind over the machine of the levels below; how many levels are followed is given beforehand,
-- and a stream nested more deeply than that answers `tooDeep` instead of running on.
namespace LightestFirst
namespace Stream
variable {α : Type}

def unreached : Machine (Network α) (Stream α) α where
  query state network := (.error .tooDeep, state, network)
  advance state network := (.error .tooDeep, state, network)

def nextOf (supply : Supply α) (network : Network α) : Option α × Supply α × Network α :=
  match network with
  | ⟨cells, multiplexers, handles, ledger⟩ =>
    match supply.next ledger with
    | (answer, supply, ledger) => (answer, supply, ⟨cells, multiplexers, handles, ledger⟩)

def actOn (f : Action α) (call : Nat) (value : α) : Network α → Attempt α × Network α :=
  Network.onLedger (f call value)

def joinOn (join : JoinAction α) (x y : α) : Network α → Attempt α × Network α :=
  Network.onLedger (join x y)

-- Reads a buffer of the network. A cell whose source is out is one whose source is running, and
-- asking that for another element would never come back: it is `pending`. The source of any other
-- cell is taken out while it runs; what stands at its place meanwhile is not written by anybody.
-- That is put away before the buffer grows, so that the buffer grows in place.
def readCell (source : Machine (Network α) (Stream α) α) (cell index : Nat) (network : Network α) :
    Attempt (Status α) × Network α :=
  match network.cells[cell]? with
  | none => (.ok .pending, network)
  | some shared =>
    match shared.settled? index with
    | some status => (.ok status, network)
    | none =>
      match shared.source with
      | none => (.ok .pending, network)
      | some running =>
        match Buffered.draw source running shared.headBuffered
            (network.setCell cell (shared.replace none)) with
        | (result, headBuffered, running, network) =>
          let network := network.setCell cell (.start none)
          (result, network.setCell cell (shared.absorb result headBuffered (some running)))

-- A stream taken apart: the state of its own kind, the machine that drives it, and the way back.
structure Layer (α : Type) : Type 1 where
  State : Type
  machine : Machine (Network α) State α
  state : State
  put : State → Stream α

def layer (definitions : Definitions α) (inner : Machine (Network α) (Stream α) α) : Stream α → Layer α
  | .empty => ⟨Unit, Empty.machine, (), fun _ => .empty⟩
  | .single state => ⟨_, Single.machine, state, .single⟩
  | .iterated state => ⟨_, Iterated.machine nextOf, state, .iterated⟩
  | .postponed state => ⟨_, Postponed.machine (Blueprint.build definitions) inner, state, .postponed⟩
  | .mapped f state => ⟨_, Mapped.machine inner (actOn f), state, .mapped f⟩
  | .merged le state => ⟨_, Merged.machine inner inner le, state, .merged le⟩
  | .paired le join state => ⟨_, Paired.machine inner inner le (joinOn join), state, .paired le join⟩
  | .multiplexer cell reader => ⟨_, Reader.machine (readCell inner cell), reader, .multiplexer cell⟩
  | .view cell reader => ⟨_, Reader.machine (readCell inner cell), reader, .view cell⟩
  | .boxed stream => ⟨_, inner, stream, .boxed⟩
  | .probed name stream =>
    ⟨_, Probed.machine (Network.updateLedger (·.tally (name ++ ".query")))
      (Network.updateLedger (·.tally (name ++ ".advance"))) inner, stream, .probed name⟩
  | .gated gate stream => ⟨_, Gated.machine (·.ledger.isOpen gate) inner, stream, .gated gate⟩
  | .delayed state => ⟨_, Delayed.machine inner, state, .delayed⟩
  | .following state => ⟨_, Followed.machine (Iterated.machine nextOf) inner, state, .following⟩

def level (definitions : Definitions α) (inner : Machine (Network α) (Stream α) α) :
    Machine (Network α) (Stream α) α where
  query stream network :=
    match layer definitions inner stream with
    | ⟨_, machine, state, put⟩ => Machine.within put (machine.query state network)
  advance stream network :=
    match layer definitions inner stream with
    | ⟨_, machine, state, put⟩ => Machine.within put (machine.advance state network)

-- The machine that follows so many levels. None of them is put together before a call reaches it.
def machine (definitions : Definitions α) : Nat → Machine (Network α) (Stream α) α
  | 0 => unreached
  | depth + 1 =>
    { query := fun stream network => (level definitions (machine definitions depth)).query stream network
      advance := fun stream network =>
        (level definitions (machine definitions depth)).advance stream network }

theorem machine_succ (definitions : Definitions α) (depth : Nat) :
    machine definitions (depth + 1) = level definitions (machine definitions depth) := rfl

end Stream
end LightestFirst
