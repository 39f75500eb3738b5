import LightestFirst.Proofs.Networks.CallEffects
import LightestFirst.Proofs.Networks.StreamPositions
import LightestFirst.Proofs.Playing.Shared
-- Answers that last: what a buffer has answered it goes on answering, whatever is called meanwhile, and a stream
-- that has kept its answer gives it again without a call of any other.
namespace LightestFirst
variable {α : Type}

namespace Buffered
variable {σ τ : Type} {cell : Buffered τ α} {place : Nat} {status : Status α}

theorem settled_pulled (behind : place ≤ cell.buffer.size) (open_ : cell.settled? place = none)
    (stable : status ≠ .pending) (flag : Bool) (source : σ) :
    (cell.absorb (.ok status) flag source).settled? place = some status := by
  obtain ⟨rfl, going⟩ := unsettled behind open_
  obtain ⟨_, buffer, ended, _⟩ := cell
  cases status with
  | ready value => simp [absorb, settled?]
  | ended => simp [absorb, settled?]
  | pending => exact absurd rfl stable

theorem settled_ready {value : α} (settled : cell.settled? place = some (.ready value)) : place < cell.buffer.size := by
  rw [settled?] at settled
  split at settled
  · next found => exact (Array.getElem?_eq_some_iff.mp found).1
  · split at settled <;> cases settled

end Buffered

namespace Network
variable {network before after : Network α} {cell place : Nat} {status : Status α}

def settled? (network : Network α) (cell place : Nat) : Option (Status α) :=
  (network.cells[cell]?).bind (·.settled? place)

structure Outlasts (before after : Network α) : Prop where
  count : before.cells.size ≤ after.cells.size
  grown : ∀ cell, before.sizeOf cell ≤ after.sizeOf cell
  settled : ∀ {cell place status}, before.settled? cell place = some status → after.settled? cell place = some status

def AddsNoHandle (before after : Network α) : Prop :=
  ∀ name held, after.handles.get? name = some held → before.handles.get? name = some held

theorem settled_ready {value : α} (settled : network.settled? cell place = some (.ready value)) :
    place < network.sizeOf cell := by
  obtain ⟨shared, there, settled⟩ := Option.bind_eq_some_iff.mp settled
  rw [sizeOf, there]
  exact Buffered.settled_ready settled

theorem outlasts_drifts : Drifts (Outlasts : Network α → Network α → Prop) where
  stays _ := ⟨Nat.le_refl _, fun _ => Nat.le_refl _, id⟩
  goes_on one two := ⟨Nat.le_trans one.count two.count, fun cell => Nat.le_trans (one.grown cell) (two.grown cell),
    fun settled => two.settled (one.settled settled)⟩

theorem Outlasts.aside (same : after.cells = before.cells) : Outlasts before after where
  count := Nat.le_of_eq (congrArg Array.size same).symm
  grown cell := Nat.le_of_eq (by rw [sizeOf, sizeOf, same])
  settled settled := by rwa [settled?, same]

theorem Outlasts.written {shared hidden now : Buffered (Option (Stream α)) α} (there : network.cells[cell]? = some shared)
    (went : Outlasts (network.setCell cell hidden) after) (larger : shared.buffer.size ≤ now.buffer.size)
    (still : ∀ {place status}, shared.settled? place = some status → now.settled? place = some status) :
    Outlasts network (after.setCell cell now) := by
  have inside : cell < network.cells.size := (Array.getElem?_eq_some_iff.mp there).1
  have count : network.cells.size ≤ after.cells.size := size_setCell network cell hidden ▸ went.count
  have behind : ∀ other, (after.setCell cell now).cells[other]? = if other = cell then some now else after.cells[other]? :=
    fun other => getElem?_setCell after cell other now (Nat.lt_of_lt_of_le inside count)
  have before : ∀ other, other ≠ cell → (network.setCell cell hidden).cells[other]? = network.cells[other]? := by
    intro other apart
    rw [getElem?_setCell network cell other hidden inside, if_neg apart]
  refine ⟨(size_setCell after cell now).symm ▸ count, fun other => ?_, fun {other place status} settled => ?_⟩
  · rw [sizeOf, sizeOf, behind]
    split
    · next same =>
      subst same
      rw [there]
      exact larger
    · next apart =>
      have grown := went.grown other
      rwa [sizeOf, sizeOf, before other apart] at grown
  · rw [settled?, behind]
    split
    · next same =>
      subst same
      rw [settled?, there] at settled
      exact still settled
    · next apart =>
      refine went.settled ?_
      rwa [settled?, before other apart]

theorem outlasts_addCell (network : Network α) (source : Stream α) : Outlasts network (network.addCell source).2 := by
  have behind : ∀ cell, cell < network.cells.size → (network.addCell source).2.cells[cell]? = network.cells[cell]? :=
    fun cell inside => by rw [addCell, Array.getElem?_push, if_neg (Nat.ne_of_lt inside)]
  refine ⟨?_, fun cell => ?_, fun {cell place status} settled => ?_⟩
  · simp [addCell]
  · by_cases inside : cell < network.cells.size
    · exact Nat.le_of_eq (by rw [sizeOf, sizeOf, behind cell inside])
    · rw [sizeOf, Array.getElem?_eq_none (Nat.le_of_not_lt inside)]
      exact Nat.zero_le _
  · obtain ⟨shared, there, settled⟩ := Option.bind_eq_some_iff.mp settled
    rw [settled?, behind cell (Array.getElem?_eq_some_iff.mp there).1, there]
    exact settled

theorem outlasts_readCell {inner : Machine (Network α) (Stream α) α} (along : inner.Along Outlasts) (cell place : Nat)
    (network : Network α) : Outlasts network (Stream.readCell inner cell place network).2 := by
  refine readCell_within outlasts_drifts along fun there unsettled _ ran => ?_
  exact ran.written there (Buffered.size_absorb _ _ _ _) fun settled =>
    Buffered.settled_absorb (Buffered.going_of_unsettled unsettled) settled _ _ _

theorem outlasts_cellwise : Cellwise (Outlasts : Network α → Network α → Prop) :=
  ⟨outlasts_drifts, Outlasts.aside, outlasts_addCell, outlasts_readCell⟩

theorem addsNoHandle_drifts : Drifts (AddsNoHandle : Network α → Network α → Prop) where
  stays _ _ _ found := found
  goes_on one two name held found := one name held (two name held found)

theorem addsNoHandle_confines : Confines (AddsNoHandle : Network α → Network α → Prop) where
  drifts := addsNoHandle_drifts
  writes _ _ _ _ found := found
  takes _ _ _ _ found := Table.get?_of_erase found
  adds _ _ _ _ found := found
  reads along _ _ _ := readCell_within addsNoHandle_drifts along fun _ _ _ ran => ran

def KeepsAnswers (before after : Network α) : Prop := Outlasts before after ∧ AddsNoHandle before after

theorem keepsAnswers_confines : Confines (KeepsAnswers : Network α → Network α → Prop) :=
  outlasts_cellwise.confines.and addsNoHandle_confines

theorem KeepsAnswers.aside (cells : after.cells = before.cells) (handles : after.handles = before.handles) :
    KeepsAnswers before after := ⟨.aside cells, fun _ _ found => handles ▸ found⟩

end Network

namespace Stream
variable {network after : Network α} {cell place depth : Nat} {status : Status α} {stream : Stream α}

theorem readCell_settles {inner : Machine (Network α) (Stream α) α} (along : inner.Along Network.Outlasts)
    (behind : place ≤ network.sizeOf cell) (read : readCell inner cell place network = (.ok status, after))
    (stable : status ≠ .pending) : after.settled? cell place = some status := by
  have came := readCell_cases inner cell place network
  rw [read] at came
  cases came with
  | nowhere | out => exact absurd rfl stable
  | settled there known => exact Option.bind_eq_some_iff.mpr ⟨_, there, known⟩
  | @drawn shared running _ _ _ after there unsettled _ drew =>
    rw [Network.sizeOf, there] at behind
    have ran := (Buffered.draw_along Network.outlasts_drifts along running shared.headBuffered
      (network.setCell cell (shared.replace none))).count
    rw [drew, Network.size_setCell] at ran
    have inside : cell < after.cells.size := Nat.lt_of_lt_of_le (Array.getElem?_eq_some_iff.mp there).1 ran
    rw [Network.settled?, Network.getElem?_setCell after cell cell _ inside, if_pos rfl]
    exact Buffered.settled_pulled behind unsettled stable _ _

theorem readCell_settled (inner : Machine (Network α) (Stream α) α) (settled : network.settled? cell place = some status) :
    readCell inner cell place network = (.ok status, network) := by
  obtain ⟨shared, there, settled⟩ := Option.bind_eq_some_iff.mp settled
  simp only [readCell, there, settled]

-- The stream stands on this answer, so many levels down: it is kept, or in a buffer that is read.
inductive Knows : Nat → Status α → Stream α → Network α → Prop where
  | empty {depth : Nat} {network : Network α} : Knows (depth + 1) .ended .empty network
  | single {depth : Nat} {network : Network α} {value : α} :
      Knows (depth + 1) (.ready value) (.single ⟨some value⟩) network
  | consumed {depth : Nat} {network : Network α} : Knows (depth + 1) .ended (.single ⟨none⟩) network
  | iterated {depth : Nat} {network : Network α} {status : Status α} {supply : Supply α} {head : Option α}
      (kept : status = Iterated.answer head) : Knows (depth + 1) status (.iterated ⟨supply, some head⟩) network
  | forced {depth : Nat} {network : Network α} {status : Status α} {inner : Stream α}
      (inside : Knows depth status inner network) : Knows (depth + 1) status (.postponed (.forced inner)) network
  | mapped {depth : Nat} {network : Network α} {status : Status α} {f : Action α} {inner : Stream α} {calls : Nat} :
      Knows (depth + 1) status (.mapped f ⟨inner, some status, calls⟩) network
  | merged {depth : Nat} {network : Network α} {status : Status α} {le : α → α → Bool} {left right : Stream α}
      {verdict : Verdict α} (kept : status = verdict.status) :
      Knows (depth + 1) status (.merged le ⟨left, right, some verdict⟩) network
  | paired {depth : Nat} {network : Network α} {status : Status α} {le : α → α → Bool} {join : JoinAction α}
      {state : Paired (Stream α) (Stream α) α} {choice : Choice α} (chosen : state.choice = some choice)
      (kept : status = choice.status) : Knows (depth + 1) status (.paired le join state) network
  | multiplexer {depth : Nat} {network : Network α} {status : Status α} {cell : Nat} {reader : Reader}
      (settled : network.settled? cell reader.index = some status) (shown : reader.observed = status.isReady) :
      Knows (depth + 1) status (.multiplexer cell reader) network
  | view {depth : Nat} {network : Network α} {status : Status α} {cell : Nat} {reader : Reader}
      (settled : network.settled? cell reader.index = some status) (shown : reader.observed = status.isReady) :
      Knows (depth + 1) status (.view cell reader) network
  | boxed {depth : Nat} {network : Network α} {status : Status α} {inner : Stream α}
      (inside : Knows depth status inner network) : Knows (depth + 1) status (.boxed inner) network

theorem Knows.outlasts (knows : Knows depth status stream network) (lasts : Network.Outlasts network after) :
    Knows depth status stream after := by
  induction knows with
  | empty => exact .empty
  | single => exact .single
  | consumed => exact .consumed
  | iterated kept => exact .iterated kept
  | forced _ ih => exact .forced (ih lasts)
  | mapped => exact .mapped
  | merged kept => exact .merged kept
  | paired chosen kept => exact .paired chosen kept
  | multiplexer settled shown => exact .multiplexer (lasts.settled settled) shown
  | view settled shown => exact .view (lasts.settled settled) shown
  | boxed _ ih => exact .boxed (ih lasts)

theorem query_reader {inner : Machine (Network α) (Stream α) α} {reader : Reader}
    (settled : network.settled? cell reader.index = some status) (shown : reader.observed = status.isReady) :
    (Reader.machine (readCell inner cell)).query reader network = (.ok status, reader, network) := by
  obtain ⟨index, observed⟩ := reader
  obtain rfl := shown
  simp only [Reader.machine, Reader.query, readCell_settled inner settled]

-- Asked again, it answers the same. No other stream is called, nor any function, iterator or thunk.
theorem Knows.query (definitions : Definitions α) (knows : Knows depth status stream network) :
    (machine definitions depth).query stream network = (.ok status, stream, network) := by
  induction knows with
  | empty => rfl
  | single => rfl
  | consumed => rfl
  | iterated kept => rw [kept]; rfl
  | forced _ ih => exact congrArg (Machine.within fun inner => Stream.postponed (.forced inner)) ih
  | mapped => rfl
  | merged kept => rw [kept]; rfl
  | @paired depth network status le join state choice chosen kept =>
    have asked : (Paired.machine (machine definitions depth) (machine definitions depth) le (joinOn join)).query state network =
        (.ok status, state, network) := by
      simp only [Paired.machine, Paired.query, chosen, kept]
    exact congrArg (Machine.within (Stream.paired le join)) asked
  | multiplexer settled shown => exact congrArg (Machine.within (Stream.multiplexer _)) (query_reader settled shown)
  | view settled shown => exact congrArg (Machine.within (Stream.view _)) (query_reader settled shown)
  | boxed _ ih => exact congrArg (Machine.within Stream.boxed) ih

theorem Knows.advance (definitions : Definitions α) (knows : Knows depth .ended stream network) :
    ∃ fault, (machine definitions depth).advance stream network = (.error fault, stream, network) := by
  generalize same : (.ended : Status α) = status at knows
  induction knows with
  | empty => exact ⟨_, rfl⟩
  | single => cases same
  | consumed => exact ⟨_, rfl⟩
  | @iterated depth network status supply head kept =>
    subst same
    cases head with
    | none => exact ⟨_, rfl⟩
    | some value => cases kept
  | forced _ ih =>
    obtain ⟨fault, refused⟩ := ih same
    exact ⟨fault, congrArg (Machine.within fun inner => Stream.postponed (.forced inner)) refused⟩
  | mapped =>
    subst same
    exact ⟨_, rfl⟩
  | @merged depth network status le left right verdict kept =>
    subst same
    cases verdict with
    | left => cases kept
    | right => cases kept
    | ended => exact ⟨_, rfl⟩
  | @paired depth network status le join state choice chosen kept =>
    subst same
    obtain ⟨left, leftEnded, right, lanes, appended, needsLeft, _⟩ := state
    obtain rfl := chosen
    cases choice with
    | ready => cases kept
    | ended => exact ⟨_, rfl⟩
  | @multiplexer depth network status cell reader settled shown =>
    subst same
    obtain ⟨index, observed⟩ := reader
    obtain rfl := shown
    exact ⟨_, rfl⟩
  | @view depth network status cell reader settled shown =>
    subst same
    obtain ⟨index, observed⟩ := reader
    obtain rfl := shown
    exact ⟨_, rfl⟩
  | boxed _ ih =>
    obtain ⟨fault, refused⟩ := ih same
    exact ⟨fault, congrArg (Machine.within Stream.boxed) refused⟩

end Stream
end LightestFirst
