import LightestFirst.Network.Machine
-- The cells of a network: what is in them after one has been written, and what reading one comes to.
namespace LightestFirst
namespace Network
variable {α : Type}

theorem getElem?_setCell (network : Network α) (cell other : Nat) (state : Buffered (Option (Stream α)) α)
    (inside : cell < network.cells.size) :
    (network.setCell cell state).cells[other]? = if other = cell then some state else network.cells[other]? := by
  rw [setCell, Array.getElem?_setIfInBounds]
  by_cases same : cell = other
  · subst same
    rw [if_pos rfl, if_pos inside, if_pos rfl]
  · rw [if_neg same, if_neg (Ne.symm same)]

theorem size_setCell (network : Network α) (cell : Nat) (state : Buffered (Option (Stream α)) α) :
    (network.setCell cell state).cells.size = network.cells.size := Array.size_setIfInBounds

theorem setCell_setCell (network : Network α) (cell : Nat) (one other : Buffered (Option (Stream α)) α) :
    (network.setCell cell one).setCell cell other = network.setCell cell other := by
  simp [setCell]

end Network

namespace Stream
variable {α : Type}

-- What reading a cell comes to. Where the source is asked, it comes back behind what has become of the buffer.
inductive CellRead (source : Machine (Network α) (Stream α) α) (cell index : Nat) (network : Network α) :
    Attempt (Status α) × Network α → Prop where
  | nowhere (missing : network.cells[cell]? = none) : CellRead source cell index network (.ok .pending, network)
  | settled {shared : Buffered (Option (Stream α)) α} {status : Status α} (there : network.cells[cell]? = some shared)
      (known : shared.settled? index = some status) : CellRead source cell index network (.ok status, network)
  | out {shared : Buffered (Option (Stream α)) α} (there : network.cells[cell]? = some shared)
      (unsettled : shared.settled? index = none) (gone : shared.source = none) :
      CellRead source cell index network (.ok .pending, network)
  | drawn {shared : Buffered (Option (Stream α)) α} {running later : Stream α} {result : Attempt (Status α)}
      {flag : Bool} {after : Network α} (there : network.cells[cell]? = some shared)
      (unsettled : shared.settled? index = none) (home : shared.source = some running)
      (drew : Buffered.draw source running shared.headBuffered (network.setCell cell (shared.replace none)) =
        (result, flag, later, after)) :
      CellRead source cell index network (result, after.setCell cell (shared.absorb result flag (some later)))

theorem readCell_cases (source : Machine (Network α) (Stream α) α) (cell index : Nat) (network : Network α) :
    CellRead source cell index network (readCell source cell index network) := by
  rw [readCell]
  split
  · next missing => exact .nowhere missing
  · next shared there =>
    split
    · next known => exact .settled there known
    · next unsettled =>
      split
      · next gone => exact .out there unsettled gone
      · next running home =>
        obtain ⟨⟨result, flag, later, after⟩, drew⟩ := Exists.intro _ (rfl : Buffered.draw source running
          shared.headBuffered (network.setCell cell (shared.replace none)) = _)
        rw [drew]
        dsimp only
        rw [Network.setCell_setCell]
        exact .drawn there unsettled home drew

end Stream
end LightestFirst
