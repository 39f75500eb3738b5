import LightestFirst.Proofs.Networks.Cells
import LightestFirst.Proofs.Networks.Recipes
-- The streams built from confined recipes: where each of them stands, layer by layer, and that a
-- network whose buffers only grow leaves them where they are.
namespace LightestFirst
variable {α : Type}

def Network.sizeOf (network : Network α) (cell : Nat) : Nat := network.cells[cell]?.elim 0 (·.buffer.size)

namespace Network
variable {network : Network α} {cell : Nat} {shared : Buffered (Option (Stream α)) α}

theorem sizeOf_eq (there : network.cells[cell]? = some shared) : network.sizeOf cell = shared.buffer.size := by
  rw [sizeOf, there]
  rfl

theorem sizeOf_setCell {state : Buffered (Option (Stream α)) α} (inside : cell < network.cells.size)
    (grown : network.sizeOf cell ≤ state.buffer.size) (other : Nat) :
    network.sizeOf other ≤ (network.setCell cell state).sizeOf other := by
  rw [sizeOf.eq_def (network.setCell cell state), getElem?_setCell network cell other state inside]
  split
  · next same =>
    subst same
    exact grown
  · exact Nat.le_refl _

end Network

-- A reader that has passed nothing but what it was shown.
structure Reader.Follows (size : Nat) (reader : Reader) : Prop where
  behind : reader.index ≤ size
  shown : reader.observed = true → reader.index < size

theorem Reader.Follows.start (size : Nat) : Reader.start.Follows size := ⟨Nat.zero_le size, nofun⟩

theorem Reader.Follows.kept {size more : Nat} {reader : Reader} (follows : reader.Follows size) (grown : size ≤ more) :
    reader.Follows more :=
  ⟨Nat.le_trans follows.behind grown, fun observed => Nat.lt_of_lt_of_le (follows.shown observed) grown⟩

theorem Reader.advance_network (reader : Reader) (network : Network α) : (reader.advance network).2.2 = network := by
  rw [advance]
  split
  · rfl
  · rfl

theorem Reader.Follows.advance {cell : Nat} {reader : Reader} {network : Network α}
    (follows : reader.Follows (network.sizeOf cell)) :
    (reader.advance network).2.1.Follows ((reader.advance network).2.2.sizeOf cell) := by
  rw [Reader.advance]
  split
  · next observed => exact ⟨follows.shown observed, nofun⟩
  · exact follows

def Stream.Placed {σ : Type} (put : σ → Stream α) (stands : Standing σ (Network α)) :
    Standing (Stream α) (Network α) := fun place seen stream network =>
  ∃ state, stream = put state ∧ stands place seen state network

def Supply.Stands (supply : Supply α) (place : Nat) (iterator : Supply α) (_ : Network α) : Prop :=
  iterator = { supply with calls := supply.calls + place }

namespace Recipe

def Stands (names : Table Nat) (cells : Nat → Course α) : Recipe α → Standing (Stream α) (Network α)
  | .empty => Stream.Placed (fun _ => .empty) (fun _ _ (_ : Unit) _ => True)
  | .single value => Stream.Placed .single (Single.Stands value)
  | .iterated supply =>
    Stream.Placed .iterated (Iterated.Stands (fun place => supply.answers (supply.calls + place)) supply.Stands)
  | .deferred tally body =>
    Stream.Placed .postponed (Postponed.Stands (body.Stands names cells)
      fun blueprint _ => ∃ fuel, blueprint = .recipe tally body fuel)
  | .mapped f inner =>
    Stream.Placed (.mapped f) (Mapped.Stands (inner.course names cells) (Action.image f) (inner.Stands names cells))
  | .merged le left right =>
    Stream.Placed (.merged le) (Merged.Stands le (left.course names cells) (right.course names cells)
      (left.Stands names cells) (right.Stands names cells))
  | .paired le join left right =>
    Stream.Placed (.paired le join) (Paired.Stands le (JoinAction.image join) (left.course names cells)
      (right.course names cells) (left.Stands names cells) (right.Stands names cells))
  | .view name => fun place seen stream network => ∃ cell, names.get? name = some cell ∧
    Stream.Placed (.view cell) (Reader.Stands (cells cell) (·.sizeOf cell)) place seen stream network
  | .boxed inner => Stream.Placed .boxed (inner.Stands names cells)
  | .following head tail =>
    Stream.Placed .following (Followed.Stands head
      (Iterated.Stands (head[·]?) (Supply.ofList head none).Stands) (tail.Stands names cells))
  | _ => fun _ _ _ _ => False

variable {names : Table Nat} {cells : Nat → Course α} {before after : Network α}

theorem placed_kept {σ : Type} {put : σ → Stream α} {stands : Standing σ (Network α)}
    (inside : stands.Kept before after) : (Stream.Placed put stands).Kept before after := by
  rintro place seen stream ⟨state, rfl, there⟩
  exact ⟨state, rfl, inside there⟩

theorem supply_kept (answers : Nat → Option α) (supply : Supply α) :
    (Iterated.Stands answers supply.Stands).Kept before after := Iterated.kept fun _ _ there => there

theorem stands_kept (grown : ∀ cell, before.sizeOf cell ≤ after.sizeOf cell) (recipe : Recipe α) :
    (recipe.Stands names cells).Kept before after := by
  induction recipe with
  | empty => exact placed_kept fun _ _ _ there => there
  | single value => exact placed_kept fun _ _ _ there => there
  | iterated supply => exact placed_kept (supply_kept _ supply)
  | deferred tally body ih => exact placed_kept (Postponed.kept ih fun _ waiting => waiting)
  | mapped f inner ih => exact placed_kept (Mapped.kept ih)
  | merged le left right leftIh rightIh => exact placed_kept (Merged.kept leftIh rightIh)
  | paired le join left right leftIh rightIh => exact placed_kept (Paired.kept leftIh rightIh)
  | view name =>
    rintro place seen stream ⟨cell, known, there⟩
    exact ⟨cell, known, placed_kept (Reader.kept (grown cell)) there⟩
  | boxed inner ih => exact placed_kept ih
  | following head tail ih => exact placed_kept (Followed.kept (supply_kept _ _) ih)
  | _ => exact fun _ _ _ there => there.elim

-- Building leaves the network as it was, and fails for nothing but a name that is not known.
inductive Built (known : List String) (names : Table Nat) (cells : Nat → Course α) (recipe : Recipe α)
    (network : Network α) : Attempt (Stream α) × Network α → Prop where
  | made {stream : Stream α} (there : ∀ world, recipe.Stands names cells 0 false stream world) :
      Built known names cells recipe network (.ok stream, network)
  | failed {fault : Fault} {name : String} (listed : name ∈ known)
      (unknown : network.multiplexers.get? name = none) : Built known names cells recipe network (.error fault, network)

theorem build_built {known : List String} {network : Network α}
    (agree : ∀ {name cell}, network.multiplexers.get? name = some cell → names.get? name = some cell) (fuel : Nat)
    {recipe : Recipe α} (confined : recipe.Confined known) :
    Built known names cells recipe network (recipe.build fuel network) := by
  induction recipe with
  | empty => exact .made fun _ => ⟨(), rfl, trivial⟩
  | single value => exact .made fun _ => ⟨_, rfl, .inl ⟨rfl, rfl⟩⟩
  | iterated supply => exact .made fun _ => ⟨_, rfl, rfl, rfl⟩
  | deferred tally body => exact .made fun _ => ⟨_, rfl, rfl, rfl, fuel, rfl⟩
  | mapped f inner ih =>
    have outcome := ih confined.2
    rw [build]
    generalize inner.build fuel network = built at outcome ⊢
    cases outcome with
    | failed listed unknown => exact .failed listed unknown
    | made there => exact .made fun world => ⟨_, rfl, rfl, false, there world⟩
  | merged le left right leftIh rightIh =>
    have first := leftIh confined.1
    have second := rightIh confined.2
    rw [build]
    generalize left.build fuel network = built at first ⊢
    cases first with
    | failed listed unknown => exact .failed listed unknown
    | made there =>
      dsimp only
      generalize right.build fuel network = built at second ⊢
      cases second with
      | failed listed unknown => exact .failed listed unknown
      | made other => exact .made fun world => ⟨_, rfl, 0, 0, rfl, rfl, ⟨false, there world⟩, false, other world⟩
  | paired le join left right leftIh rightIh =>
    have first := leftIh confined.2.1
    have second := rightIh confined.2.2
    rw [build]
    generalize left.build fuel network = built at first ⊢
    cases first with
    | failed listed unknown => exact .failed listed unknown
    | made there =>
      dsimp only
      generalize right.build fuel network = built at second ⊢
      cases second with
      | failed listed unknown => exact .failed listed unknown
      | made other => exact .made fun world => ⟨_, rfl, Paired.of_stands (there world) (other world)⟩
  | view name =>
    rw [build]
    cases found : network.multiplexers.get? name with
    | none => exact .failed confined found
    | some cell => exact .made fun _ => ⟨cell, agree found, _, rfl, rfl, Nat.zero_le _, nofun, nofun⟩
  | boxed inner ih =>
    have outcome := ih confined
    rw [build]
    generalize inner.build fuel network = built at outcome ⊢
    cases outcome with
    | failed listed unknown => exact .failed listed unknown
    | made there => exact .made fun world => ⟨_, rfl, there world⟩
  | following head tail ih =>
    have outcome := ih confined
    rw [build]
    generalize tail.build fuel network = built at outcome ⊢
    cases outcome with
    | failed listed unknown => exact .failed listed unknown
    | made there =>
      refine .made fun world => ⟨_, rfl, false, false, ⟨rfl, ?_⟩, ?_, nofun⟩
      · rw [Nat.zero_min]
        rfl
      · rw [Nat.zero_sub]
        exact there world
  | _ => exact confined.elim

end Recipe
end LightestFirst
