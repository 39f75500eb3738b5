import LightestFirst.Proofs.ReentrantReaders
import LightestFirst.Proofs.Networks.CallDepth
import LightestFirst.Proofs.Networks.StreamPositions
-- Each buffer of a network as its source and its readers have it in common. A call that is made in the network is
-- a call made in the commons, and whatever else goes on in a call leaves a buffer alone whose source is out.
namespace LightestFirst
variable {ω σ α : Type}

namespace Network

theorem readCell_around {source : Machine (Network α) (Stream α) α} (along : source.Along Extends) {network : Network α}
    {cell : Nat} {shared : Buffered (Option (Stream α)) α} {running : Stream α}
    (there : network.cells[cell]? = some shared) (home : shared.source = some running)
    (restored : Buffered (Option (Stream α)) α) {outcome : Attempt (Status α) × Bool × Stream α × Network α}
    (drew : Buffered.draw source running shared.headBuffered (network.setCell cell (shared.replace none)) = outcome) :
    outcome.2.2.2.cells[cell]? = some (shared.replace none) ∧
      network.Extends (outcome.2.2.2.setCell cell restored) := by
  subst drew
  have idle : network.lent cell = false := by
    rw [lent, there, Option.any_some, home]
    rfl
  exact (Buffered.draw_along extends_drifts along running shared.headBuffered _).around
    (Array.getElem?_eq_some_iff.mp there).1 rfl idle restored

theorem extends_readCell {source : Machine (Network α) (Stream α) α} (along : source.Along Extends) (cell place : Nat)
    (network : Network α) : Extends network (Stream.readCell source cell place network).2 := by
  refine readCell_within extends_drifts along fun there _ home ran => ?_
  have idle : network.lent cell = false := by
    rw [lent, there, Option.any_some, home]
    rfl
  exact (ran.around (Array.getElem?_eq_some_iff.mp there).1 rfl idle _).2

theorem extends_cellwise : Cellwise (Extends : Network α → Network α → Prop) :=
  ⟨extends_drifts, .of_cells, extends_addCell, extends_readCell⟩

def place (cell : Nat) : Buffered.Place (Network α) (Stream α) α where
  find network := network.cells[cell]?
  put network shared := network.setCell cell shared
  find_put {network held} shared found := by
    rw [getElem?_setCell network cell cell shared (Array.getElem?_eq_some_iff.mp found).1, if_pos rfl]

end Network

open Network

theorem Stream.readCell_eq_place {source : Machine (Network α) (Stream α) α} (along : source.Along Extends)
    (cell index : Nat) (network : Network α) :
    readCell source cell index network = (place cell).read source index network := by
  simp only [readCell, Buffered.Place.read, place]
  cases there : network.cells[cell]? with
  | none => rfl
  | some shared =>
    dsimp only
    cases shared.settled? index with
    | some status => rfl
    | none =>
      cases home : shared.source with
      | none => rfl
      | some running =>
        have left := (readCell_around along there home shared rfl).1
        dsimp only
        generalize Buffered.draw source running shared.headBuffered _ = outcome at left ⊢
        obtain ⟨result, flag, stream, after⟩ := outcome
        dsimp only at left ⊢
        simp only [left, Network.setCell_setCell, Buffered.absorb_replace]

namespace Commons

def lifted (machine : Machine ω σ α) : Machine (Commons ω α) σ α where
  query state now :=
    match machine.query state now.world with
    | (answer, state, world) => (answer, state, { now with world })
  advance state now :=
    match machine.advance state now.world with
    | (answer, state, world) => (answer, state, { now with world })

theorem lifted_mannered {machine : Machine (Network α) (Stream α) α} (along : machine.Along Extends) (cell : Nat)
    (drives : Machine (Commons (Network α) α) (Stream α) α → Prop) :
    (lifted machine).Along (Reenters (place cell) drives) := by
  have untouched : ∀ {now : Commons (Network α) α} {after : Network α}, now.world.Extends after →
      Reenters (place cell) drives now { now with world := after } := by
    rintro now after moved ⟨shared, found, out⟩
    have lent : now.world.lent cell = true := by
      have there : now.world.cells[cell]? = some shared := found
      rw [Network.lent, there, Option.any_some, out]
      rfl
    exact Reached.start.step (.elsewhere (moved.untouched lent))
  exact ⟨fun stream now => untouched (along.query stream now.world),
    fun stream now => untouched (along.advance stream now.world)⟩

theorem draw_lifted (machine : Machine ω σ α) (state : σ) (flag : Bool) (now : Commons ω α) :
    ∃ log, Buffered.draw (noted (lifted machine)) state flag now =
      match Buffered.draw machine state flag now.world with
      | (result, flag, state, world) => (result, flag, state, ⟨world, now.readers, log⟩) := by
  have asks : ∀ state (now : Commons ω α), ∃ log, Buffered.draw.ask (noted (lifted machine)) state now =
      match Buffered.draw.ask machine state now.world with
      | (result, flag, state, world) => (result, flag, state, ⟨world, now.readers, log⟩) := by
    intro state now
    obtain ⟨⟨answer, later, after⟩, told⟩ := Exists.intro _ (rfl : machine.query state now.world = _)
    have noting : (noted (lifted machine)).query state now =
        (answer, later, ⟨after, now.readers, .asked answer :: now.log⟩) := by
      simp only [noted, lifted, told]
    rw [Buffered.draw.ask, Buffered.draw.ask, noting, told]
    cases answer with
    | error fault => exact ⟨_, rfl⟩
    | ok status => exact ⟨_, rfl⟩
  cases flag with
  | false => exact asks state now
  | true =>
    obtain ⟨⟨answer, later, after⟩, passed⟩ := Exists.intro _ (rfl : machine.advance state now.world = _)
    have noting : (noted (lifted machine)).advance state now =
        (answer, later, ⟨after, now.readers, .advanced answer :: now.log⟩) := by
      simp only [noted, lifted, passed]
    rw [Buffered.draw, Buffered.draw, noting, passed]
    cases answer with
    | error fault => exact ⟨_, rfl⟩
    | ok => exact asks later ⟨after, now.readers, .advanced (.ok ()) :: now.log⟩

theorem read_lifted (place : Buffered.Place ω σ α) (machine : Machine ω σ α) (index : Nat) (now : Commons ω α) :
    ∃ log, (within place).read (noted (lifted machine)) index now =
      match place.read machine index now.world with
      | (result, world) => (result, ⟨world, now.readers, log⟩) := by
  simp only [Buffered.Place.read, within]
  cases place.find now.world with
  | none => exact ⟨now.log, rfl⟩
  | some shared =>
    dsimp only
    cases shared.settled? index with
    | some status => exact ⟨now.log, rfl⟩
    | none =>
      cases shared.source with
      | none => exact ⟨now.log, rfl⟩
      | some running =>
        obtain ⟨log, drew⟩ := draw_lifted machine running shared.headBuffered
          { now with world := place.put now.world (shared.replace none) }
        refine ⟨log, ?_⟩
        simp only [drew]
        generalize Buffered.draw machine running shared.headBuffered _ = outcome
        obtain ⟨result, flag, stream, after⟩ := outcome
        dsimp only
        cases place.find after with
        | none => rfl
        | some found => rfl

theorem asked_in_network {machine : Machine (Network α) (Stream α) α} (along : machine.Along Extends)
    {cell number : Nat}
    {drives : Machine (Commons (Network α) α) (Stream α) α → Prop} (driven : drives (lifted machine))
    {now : Commons (Network α) α} {reader moved : Reader} {answer : Attempt (Status α)} {network : Network α}
    (here : now.readers[number]? = some reader)
    (call : reader.query (Stream.readCell machine cell) now.world = (answer, moved, network)) :
    ∃ log, Step (place cell) drives now (.asked number answer) ⟨network, now.readers.set number moved, log⟩ := by
  obtain ⟨log, read⟩ := read_lifted (place cell) machine reader.index now
  have told : ask (place cell) (lifted machine) reader now = (answer, moved, ⟨network, now.readers, log⟩) := by
    simp only [ask, Reader.query, read, Stream.readCell_eq_place along] at call ⊢
    generalize (place cell).read machine reader.index now.world = outcome at call ⊢
    obtain ⟨_ | status, after⟩ := outcome
    · cases call
      rfl
    · cases call
      rfl
  exact ⟨log, .asked driven here told⟩

def ofNetwork (definitions : Definitions α) (source : Machine (Commons (Network α) α) (Stream α) α) : Prop :=
  ∃ depth, source = lifted (Stream.machine definitions depth)

variable {definitions : Definitions α}

theorem ofNetwork_mannered (cell : Nat) {source : Machine (Commons (Network α) α) (Stream α) α}
    (driven : ofNetwork definitions source) : source.Along (Reenters (place cell) (ofNetwork definitions)) := by
  obtain ⟨depth, rfl⟩ := driven
  exact lifted_mannered (Stream.machine_along extends_cellwise.confines definitions depth) cell _

theorem read_in_network (definitions : Definitions α) (depth : Nat) {now : Commons (Network α) α} {cell index : Nat}
    {shared : Buffered (Option (Stream α)) α} (there : now.world.cells[cell]? = some shared)
    (behind : index ≤ shared.buffer.size) {answer : Attempt (Status α)} {network : Network α}
    (read : Stream.readCell (Stream.machine definitions depth) cell index now.world = (answer, network)) :
    ∃ before later number, Reached (Step (place cell) (ofNetwork definitions)) now before ∧ before.world = now.world ∧
      before.readers[number]? = some ⟨index, false⟩ ∧
      Step (place cell) (ofNetwork definitions) before (.asked number answer) later ∧ later.world = network := by
  have driven : ofNetwork definitions (lifted (Stream.machine definitions depth)) := ⟨depth, rfl⟩
  have found : (place cell).find now.world = some shared := there
  obtain ⟨before, walked, same, here⟩ : ∃ before, Reached (Step (place cell) (ofNetwork definitions)) now before ∧
      before.world = now.world ∧ before.readers[now.readers.length]? = some ⟨index, false⟩ :=
    ⟨_, Commons.walked driven found behind, rfl, List.getElem?_concat_length⟩
  obtain ⟨⟨told, moved, after⟩, call⟩ := Exists.intro _
    (rfl : Reader.query (Stream.readCell (Stream.machine definitions depth) cell) ⟨index, false⟩ before.world = _)
  have reads := Reader.query_reads call
  rw [same, read] at reads
  cases reads
  obtain ⟨log, asked⟩ :=
    asked_in_network (Stream.machine_along extends_cellwise.confines definitions depth) driven here call
  exact ⟨before, _, _, walked, same, here, asked, rfl⟩

theorem read_lands {first : Network α} {stream : Stream α} {now : Commons (Network α) α} {cell index depth : Nat}
    {shared : Buffered (Option (Stream α)) α} (fresh : (place cell).find first = some (.start (some stream)))
    (reached : Reached (Step (place cell) (ofNetwork definitions)) (start first) now)
    (there : now.world.cells[cell]? = some shared) (behind : index ≤ shared.buffer.size)
    {answer : Attempt (Status α)} {network : Network α}
    (read : Stream.readCell (Stream.machine definitions depth) cell index now.world = (answer, network)) :
    ∃ grown, network.cells[cell]? = some grown ∧ (grown.buffer = shared.buffer ∨ ∃ value,
      answer = .ok (.ready value) ∧ index = shared.buffer.size ∧ grown.buffer = shared.buffer.push value) := by
  obtain ⟨before, later, number, walked, same, standing, asked, rfl⟩ :=
    read_in_network definitions depth there behind read
  obtain ⟨held, orderly⟩ := reached_orderly (fun _ => ofNetwork_mannered cell) fresh (reached.trans walked)
  obtain rfl := Option.some.inj (orderly.found.symm.trans (same ▸ there))
  obtain ⟨grown, found, lands⟩ := orderly.lands asked
  refine ⟨grown, found, lands.imp_right ?_⟩
  rintro ⟨_, reader, value, told, here, last, pushed⟩
  cases told
  obtain rfl := Option.some.inj (standing.symm.trans here)
  exact ⟨value, rfl, last, pushed⟩

end Commons

namespace Network
variable {definitions : Definitions α} {network : Network α} {cell : Nat}

-- Since its source was put into it, nothing has happened to a buffer but calls of readers of it.
def Lived (definitions : Definitions α) (network : Network α) (cell : Nat) : Prop :=
  ∃ first stream now, (place cell).find first = some (.start (some stream)) ∧
    Reached (Commons.Step (place cell) (Commons.ofNetwork definitions)) (.start first) now ∧ now.world = network

theorem Lived.beside {after : Network α} (lived : network.Lived definitions cell)
    (same : after.cells[cell]? = network.cells[cell]?) : after.Lived definitions cell := by
  obtain ⟨first, stream, now, fresh, reached, rfl⟩ := lived
  exact ⟨first, stream, _, fresh, reached.step (.elsewhere same), rfl⟩

theorem lived_addCell (network : Network α) (source : Stream α) :
    (network.addCell source).2.Lived definitions network.cells.size := by
  refine ⟨(network.addCell source).2, source, _, ?_, .start, rfl⟩
  exact Array.getElem?_push_size

theorem Lived.read (lived : network.Lived definitions cell) (depth : Nat) {index : Nat}
    (behind : index ≤ network.sizeOf cell) :
    (Stream.readCell (Stream.machine definitions depth) cell index network).2.Lived definitions cell := by
  obtain ⟨first, stream, now, fresh, reached, rfl⟩ := lived
  cases there : now.world.cells[cell]? with
  | none =>
    rw [Stream.readCell, there]
    exact ⟨first, stream, now, fresh, reached, rfl⟩
  | some shared =>
    obtain ⟨before, later, _, walked, _, _, asked, same⟩ :=
      Commons.read_in_network definitions depth there (behind.trans (sizeOf_eq there).le) rfl
    exact ⟨first, stream, later, fresh, (reached.trans walked).step asked, same⟩

end Network
end LightestFirst
