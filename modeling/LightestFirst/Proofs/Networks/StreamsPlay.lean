import Mathlib.Data.Finset.Card
import LightestFirst.Proofs.Networks.Cells
import LightestFirst.Proofs.Networks.StreamPositions
-- The streams of a network play the courses of their recipes. While a source runs, its cell is read
-- without it and may answer `pending`; how many sources may still be started bounds how deep the calls
-- can go, whatever reads whatever.
namespace LightestFirst
variable {α : Type}

namespace Network

-- The parts of a network that do not change: the cells that names stand for, the definitions of the
-- cells, and their courses.
structure Web (α : Type) where
  names : Table Nat
  sources : List (Recipe α)
  cells : Nat → Course α

variable (web : Web α)

-- Every buffer holds the front of its course. The cells that run stand without their sources, the
-- source of any other stands behind its buffer.
structure Sound (running : Finset Nat) (network : Network α) : Prop where
  named : network.multiplexers = web.names
  count : network.cells.size = web.sources.length
  holds : ∀ {cell shared}, network.cells[cell]? = some shared → Buffered.Holds (web.cells cell) shared
  out : ∀ {cell shared}, network.cells[cell]? = some shared → cell ∈ running → shared.source = none
  idle : ∀ {cell shared}, network.cells[cell]? = some shared → cell ∉ running →
    ∃ source stream, web.sources[cell]? = some source ∧ shared.source = some stream ∧
      Buffered.Sourced (source.Stands web.names web.cells) shared.buffer.size shared.headBuffered stream network

-- What a call leaves as it was: the names, the handles and the cells that run.
structure Moved (running : Finset Nat) (before after : Network α) : Prop where
  named : before.multiplexers = after.multiplexers
  handles : before.handles = after.handles
  count : before.cells.size = after.cells.size
  grown : ∀ cell, before.sizeOf cell ≤ after.sizeOf cell
  out : ∀ {cell}, cell ∈ running → before.cells[cell]? = after.cells[cell]?

def setting (running : Finset Nat) : Setting (Network α) where
  sound := Sound web running
  moves := Moved running
  hinders cause _ _ := cause = .pending
  stays _ := ⟨rfl, rfl, rfl, fun _ => Nat.le_refl _, fun _ => rfl⟩
  goes_on one two := ⟨one.named.trans two.named, one.handles.trans two.handles, one.count.trans two.count,
    fun cell => Nat.le_trans (one.grown cell) (two.grown cell), fun inside => (one.out inside).trans (two.out inside)⟩
  hinders_before _ held := held
  hinders_after held _ := held

variable {web} {running : Finset Nat} {network : Network α} {cell : Nat}
  {shared : Buffered (Option (Stream α)) α}

theorem Sound.of_cells {after : Network α} (sound : Sound web running network)
    (named : network.multiplexers = after.multiplexers) (same : network.cells = after.cells) :
    Sound web running after := by
  have sizes : ∀ cell, network.sizeOf cell ≤ after.sizeOf cell := fun cell => by rw [sizeOf, sizeOf, same]
  refine ⟨named ▸ sound.named, same ▸ sound.count, fun there => sound.holds (same ▸ there),
    fun there => sound.out (same ▸ there), fun there apart => ?_⟩
  obtain ⟨source, stream, listed, idle, sourced⟩ := sound.idle (same ▸ there) apart
  exact ⟨source, stream, listed, idle, Buffered.Sourced.kept sourced (Recipe.stands_kept sizes source)⟩

theorem Moved.of_ledger (ledger : Ledger) : Moved running network { network with ledger } :=
  ⟨rfl, rfl, rfl, fun _ => Nat.le_refl _, fun _ => rfl⟩

theorem Moved.put {state : Buffered (Option (Stream α)) α} (inside : cell < network.cells.size)
    (grown : network.sizeOf cell ≤ state.buffer.size) (apart : cell ∉ running) :
    Moved running network (network.setCell cell state) := by
  refine ⟨rfl, rfl, (size_setCell network cell state).symm, sizeOf_setCell inside grown, fun {other} among => ?_⟩
  rw [getElem?_setCell network cell other state inside, if_neg (by rintro rfl; exact apart among)]

theorem Sound.put {others : Finset Nat} {state : Buffered (Option (Stream α)) α} (sound : Sound web running network)
    (inside : cell < network.cells.size) (grown : network.sizeOf cell ≤ state.buffer.size)
    (same : ∀ other, other ≠ cell → (other ∈ others ↔ other ∈ running))
    (holds : Buffered.Holds (web.cells cell) state) (out : cell ∈ others → state.source = none)
    (idle : cell ∉ others → ∃ source stream, web.sources[cell]? = some source ∧ state.source = some stream ∧
      Buffered.Sourced (source.Stands web.names web.cells) state.buffer.size state.headBuffered stream network) :
    Sound web others (network.setCell cell state) := by
  have sizes := sizeOf_setCell inside grown
  refine ⟨sound.named, (size_setCell network cell state).trans sound.count, ?_, ?_, ?_⟩ <;>
    intro other shared there <;> rw [getElem?_setCell network cell other state inside] at there <;> split at there
  · next here => cases there; exact here ▸ holds
  · exact sound.holds there
  · next here => cases there; exact here ▸ out
  · next away => exact fun among => sound.out there ((same other away).mp among)
  · next here =>
    cases there
    subst here
    intro apart
    obtain ⟨source, stream, listed, standing, sourced⟩ := idle apart
    exact ⟨source, stream, listed, standing, sourced.kept (Recipe.stands_kept sizes source)⟩
  · next away =>
    intro apart
    obtain ⟨source, stream, listed, standing, sourced⟩ := sound.idle there fun among => apart ((same other away).mpr among)
    exact ⟨source, stream, listed, standing, sourced.kept (Recipe.stands_kept sizes source)⟩

theorem holds_replace {σ τ : Type} {course : Course α} {held : Buffered σ α} (holds : Buffered.Holds course held)
    (source : τ) : Buffered.Holds course (held.replace source) := by
  obtain ⟨_, buffer, ended, headBuffered⟩ := held
  exact ⟨holds.elements, holds.complete, holds.released⟩

theorem absorb_replace {σ : Type} (held : Buffered σ α) (result : Attempt (Status α)) (flag : Bool) (stream : Stream α) :
    held.absorb result flag (some stream) = (held.absorb result flag stream).replace (some stream) := by
  obtain ⟨_, buffer, ended, headBuffered⟩ := held
  rcases result with _ | _ | _ | _ <;> rfl

theorem Moved.fewer {after : Network α} (moved : Moved (insert cell running) network after) :
    Moved running network after :=
  ⟨moved.named, moved.handles, moved.count, moved.grown, fun among => moved.out (Finset.mem_insert_of_mem among)⟩

theorem Sound.emptied (sound : Sound web running network) (there : network.cells[cell]? = some shared) :
    Sound web (insert cell running) (network.setCell cell (shared.replace none)) := by
  have inside : cell < network.cells.size := (Array.getElem?_eq_some_iff.mp there).1
  refine sound.put inside (by rw [sizeOf_eq there]; exact Nat.le_refl _) (fun other away => ?_)
    (holds_replace (sound.holds there) none) (fun _ => rfl) fun apart => absurd (Finset.mem_insert_self _ _) apart
  exact ⟨fun among => (Finset.mem_insert.mp among).resolve_left away, Finset.mem_insert_of_mem⟩

theorem Sound.restored {source : Recipe α} {held : Buffered (Stream α) α}
    (sound : Sound web (insert cell running) network) (inside : cell < network.cells.size) (apart : cell ∉ running)
    (listed : web.sources[cell]? = some source) (grown : network.sizeOf cell ≤ held.buffer.size)
    (stand : held.Stands (web.cells cell) (source.Stands web.names web.cells) network) :
    Sound web running (network.setCell cell (held.replace (some held.source))) := by
  refine sound.put inside grown (fun other away => ?_) (holds_replace stand.toHolds _) (fun among => absurd among apart)
    fun _ => ⟨source, held.source, listed, rfl, stand.source⟩
  exact ⟨Finset.mem_insert_of_mem, fun among => (Finset.mem_insert.mp among).resolve_left away⟩

theorem drawn_shown {source : Recipe α} {result : Attempt (Status α)} {flag : Bool} {stream : Stream α}
    {after : Network α} (sound : Sound web running network) (there : network.cells[cell]? = some shared)
    (going : shared.ended = false) (apart : cell ∉ running) (listed : web.sources[cell]? = some source)
    (drawn : Buffered.Drawn (setting web (insert cell running)) (web.cells cell) (source.Stands web.names web.cells)
      shared.buffer.size (network.setCell cell (shared.replace none)) (result, flag, stream, after)) :
    Reader.Shown (setting web running) (web.cells cell) (·.sizeOf cell) shared.buffer.size network
      (result, after.setCell cell (shared.absorb result flag (some stream))) := by
  have inside : cell < network.cells.size := (Array.getElem?_eq_some_iff.mp there).1
  have taken : Moved running network (network.setCell cell (shared.replace none)) :=
    .put inside (by rw [sizeOf_eq there]; exact Nat.le_refl _) apart
  have stand := Buffered.absorb_stands (sound.holds there) going rfl drawn
  have source_eq : (shared.absorb result flag stream).source = stream := by
    obtain ⟨_, buffer, ended, headBuffered⟩ := shared
    rcases result with _ | _ | _ | _ <;> rfl
  have larger := Buffered.size_absorb shared result flag stream
  -- the cell has stood without its source all the while
  have back : Sound web (insert cell running) after →
      Moved (insert cell running) (network.setCell cell (shared.replace none)) after →
      Sound web running (after.setCell cell (shared.absorb result flag (some stream))) ∧
        Moved running network (after.setCell cell (shared.absorb result flag (some stream))) ∧
        (after.setCell cell (shared.absorb result flag (some stream))).sizeOf cell =
          (shared.absorb result flag stream).buffer.size := by
    intro fine moved
    have within : cell < after.cells.size := by rw [← moved.count, size_setCell]; exact inside
    have size : after.sizeOf cell = shared.buffer.size := by
      rw [sizeOf, ← moved.out (Finset.mem_insert_self _ _), getElem?_setCell network cell cell _ inside, if_pos rfl]
      rfl
    have restored := fine.restored within apart listed (size ▸ larger) stand
    rw [source_eq] at restored
    rw [absorb_replace]
    refine ⟨restored, ?_, ?_⟩
    · exact (setting web running).goes_on ((setting web running).goes_on taken moved.fewer)
        (.put within (size ▸ larger) apart)
    · rw [sizeOf, getElem?_setCell after cell cell _ within, if_pos rfl]
      rfl
  cases drawn with
  | failed hinders => cases hinders
  | @answered status _ _ answers fine moved there =>
    obtain ⟨restored, went, size⟩ := back fine moved
    refine .answered (answers.imp id fun held => ⟨held.1, rfl⟩) restored went fun ready => ?_
    obtain ⟨value, rfl⟩ := Status.isReady_iff.mp ready
    rw [size]
    exact Nat.lt_of_lt_of_eq (Nat.lt_succ_self _) (Buffered.size_absorb_ready shared value true stream).symm

theorem readCell_shown {machine : Machine (Network α) (Stream α) α}
    (plays : ∀ source, web.sources[cell]? = some source → cell ∉ running →
      Plays (setting web (insert cell running)) machine (web.cells cell) (source.Stands web.names web.cells))
    {place : Nat} (sound : Sound web running network) (behind : place ≤ network.sizeOf cell) :
    Reader.Shown (setting web running) (web.cells cell) (·.sizeOf cell) place network
      (Stream.readCell machine cell place network) := by
  have read := Stream.readCell_cases machine cell place network
  generalize Stream.readCell machine cell place network = outcome at read ⊢
  cases read with
  | nowhere | out => exact .answered (.inr ⟨rfl, rfl⟩) sound ((setting web running).stays network) (by rintro ⟨⟩)
  | settled there known =>
    rw [sizeOf_eq there] at behind
    obtain ⟨answer, inside⟩ := Buffered.settled_course (sound.holds there) behind known
    exact .answered (.inl answer) sound ((setting web running).stays network) fun ready =>
      (sizeOf_eq there).symm ▸ inside ready
  | @drawn shared stream _ _ _ _ there unsettled standing drew =>
    rw [sizeOf_eq there] at behind
    obtain ⟨rfl, going⟩ := Buffered.unsettled behind unsettled
    have apart : cell ∉ running := fun among => by simp [sound.out there among] at standing
    obtain ⟨source, same, listed, idle, sourced⟩ := sound.idle there apart
    obtain rfl : same = stream := Option.some.inj (idle.symm.trans standing)
    have inside : cell < network.cells.size := (Array.getElem?_eq_some_iff.mp there).1
    have grown : network.sizeOf cell ≤ (shared.replace (none : Option (Stream α))).buffer.size :=
      (sizeOf_eq there).le
    have drawn := Buffered.draw_drawn (plays source listed apart) (sound.holds there)
      (sourced.kept (Recipe.stands_kept (sizeOf_setCell inside grown) source)) (sound.emptied there)
    rw [drew] at drawn
    exact drawn_shown sound there going apart listed drawn

end Network

namespace Stream
variable {σ : Type} {setting : Setting (Network α)} {machine : Machine (Network α) σ α}
  {outer : Machine (Network α) (Stream α) α} {course : Course α} {stands : Standing σ (Network α)} {put : σ → Stream α}

theorem placed_plays (plays : Plays setting machine course stands)
    (queries : ∀ state network, outer.query (put state) network = Machine.within put (machine.query state network))
    (advances : ∀ state network,
      outer.advance (put state) network = Machine.within put (machine.advance state network)) :
    Plays setting outer course (Placed put stands) where
  query := by
    rintro place seen stream network ⟨state, rfl, there⟩ sound
    rw [queries]
    have puts : ∀ {seen state after}, stands place seen state after → Placed put stands place seen (put state) after :=
      fun there => ⟨_, rfl, there⟩
    exact (plays.query there sound).within puts
  advance := by
    rintro place stream network ⟨state, rfl, there⟩ ready sound
    rw [advances]
    have puts : ∀ {state after}, setting.moves network after → stands (place + 1) false state after →
        Placed put stands (place + 1) false (put state) after := fun _ there => ⟨_, rfl, there⟩
    exact (plays.advance there ready sound).within puts
  kept := by
    rintro place seen stream network after ⟨state, rfl, there⟩ moved
    exact ⟨state, rfl, plays.kept there moved⟩

end Stream

namespace Network
variable {web : Web α} {running : Finset Nat} {definitions : Definitions α} {depth : Nat}

def Web.idle (web : Web α) (running : Finset Nat) : Nat := (Finset.range web.sources.length \ running).card

def Web.tallest (web : Web α) : Nat := Recipe.tallest web.sources

theorem Web.height_le {source : Recipe α} (listed : source ∈ web.sources) : source.height ≤ web.tallest := by
  rw [tallest, Recipe.tallest]
  generalize web.sources = sources at listed
  induction sources with
  | nil => cases listed
  | cons first rest ih =>
    rw [List.map_cons, List.foldr_cons]
    rcases List.mem_cons.mp listed with rfl | among
    · exact Nat.le_max_left _ _
    · exact Nat.le_trans (ih among) (Nat.le_max_right _ _)

theorem Web.idle_insert {cell : Nat} (inside : cell < web.sources.length) (apart : cell ∉ running) :
    web.idle (insert cell running) + 1 = web.idle running := by
  rw [idle, idle, Finset.sdiff_insert]
  exact Finset.card_erase_add_one (Finset.mem_sdiff.mpr ⟨Finset.mem_range.mpr inside, apart⟩)

-- A web of confined recipes whose names are all known, with the courses that solve it.
structure Web.Closed (web : Web α) (known : List String) : Prop where
  confined : ∀ source ∈ web.sources, source.Confined known
  named : ∀ name ∈ known, ∃ cell, web.names.get? name = some cell
  solved : ∀ {cell source}, web.sources[cell]? = some source → source.course web.names web.cells = web.cells cell

-- No more calls stand in one another than a tree has layers, for the tree called and for one tree of
-- each source that is not running yet.
def Web.deep (web : Web α) (running : Finset Nat) (height : Nat) : Nat :=
  height + (web.tallest + 1) * web.idle running

def Unledgered (setting : Setting (Network α)) : Prop := ∀ {network : Network α} (ledger : Ledger),
  setting.sound network → setting.sound { network with ledger } ∧ setting.moves network { network with ledger }

theorem nextOf_eq (supply : Supply α) (network : Network α) : ∃ ledger, Stream.nextOf supply network =
    (supply.answers supply.calls, { supply with calls := supply.calls + 1 }, { network with ledger }) := by
  simp only [Stream.nextOf, Supply.next]
  split
  · next answer => exact ⟨_, by rw [answer]⟩
  · next answer => exact ⟨network.ledger, by rw [answer]⟩

theorem supply_yields {setting : Setting (Network α)} (free : Unledgered setting) (supply : Supply α) :
    Iterated.Yields setting Stream.nextOf (fun place => supply.answers (supply.calls + place)) supply.Stands where
  next := by
    rintro place iterator network rfl sound
    obtain ⟨ledger, given⟩ := nextOf_eq { supply with calls := supply.calls + place } network
    obtain ⟨fine, moved⟩ := free ledger sound
    exact ⟨_, _, given, fine, moved, rfl⟩
  kept there _ := there

theorem onLedger_computes {β : Type} {setting : Setting (Network α)} (free : Unledgered setting)
    {act : Ledger → Attempt β × Ledger} {value : β} (given : ∀ ledger, (act ledger).1 = .ok value) :
    setting.Computes (Network.onLedger act) value := by
  intro network sound
  obtain ⟨fine, moved⟩ := free (act network.ledger).2 sound
  have result := given network.ledger
  rw [onLedger]
  generalize act network.ledger = outcome at result fine moved ⊢
  obtain ⟨answer, ledger⟩ := outcome
  obtain rfl := result
  exact .given fine moved

theorem setting_unledgered : Unledgered (setting web running) :=
  fun ledger sound => ⟨Sound.of_cells sound rfl rfl, .of_ledger ledger⟩

theorem prompt_unledgered : Unledgered (setting web running).prompt :=
  fun ledger sound => ⟨Sound.of_cells sound rfl rfl, .of_ledger ledger⟩

theorem ofList_answers (items : List α) (tally : Option String) :
    (fun place => (Supply.ofList items tally).answers ((Supply.ofList items tally).calls + place)) = (items[·]?) := by
  funext place
  simp only [Supply.ofList, Supply.scripted, Nat.zero_add, List.getElem?_toArray, List.getElem?_map]
  cases items[place]? <;> rfl

theorem body_builds {known : List String} (closed : web.Closed known) {body : Recipe α} (confined : body.Confined known)
    {tally : Option String} :
    Postponed.Builds (setting web running) (Blueprint.build definitions) (body.Stands web.names web.cells)
      (fun blueprint _ => ∃ fuel, blueprint = .recipe tally body fuel) where
  build := by
    rintro _ network ⟨fuel, rfl⟩ sound
    obtain ⟨fine, moved⟩ := setting_unledgered (network.ledger.tallyIf tally) sound
    have built : Recipe.Built known web.names web.cells body (network.updateLedger (·.tallyIf tally))
        (body.build fuel (network.updateLedger (·.tallyIf tally))) :=
      Recipe.build_built (fun found => fine.named ▸ found) fuel confined
    rw [Blueprint.build]
    generalize body.build fuel (network.updateLedger (·.tallyIf tally)) = outcome at built ⊢
    cases built with
    | made there => exact ⟨_, _, rfl, fine, moved, there _⟩
    | failed listed unknown =>
      obtain ⟨cell, named⟩ := closed.named _ listed
      rw [← fine.named] at named
      exact absurd (named.symm.trans unknown) nofun
  kept waiting _ := waiting

theorem Web.deep_insert {cell : Nat} {source : Recipe α} (listed : web.sources[cell]? = some source)
    (apart : cell ∉ running) : web.deep (insert cell running) source.height < web.deep running 0 := by
  have inside : cell < web.sources.length := (List.getElem?_eq_some_iff.mp listed).1
  have low := Web.height_le (List.mem_of_getElem? listed)
  rw [deep, deep, ← Web.idle_insert inside apart, Nat.mul_add]
  omega

section Reading
variable {known : List String} {machine : Machine (Network α) (Stream α) α} {cell : Nat}

theorem reader_plays (plays : ∀ source, web.sources[cell]? = some source → cell ∉ running →
      Plays (setting web (insert cell running)) machine (web.cells cell) (source.Stands web.names web.cells)) :
    Plays (setting web running) (Reader.machine (Stream.readCell machine cell)) (web.cells cell)
      (Reader.Stands (web.cells cell) (·.sizeOf cell)) :=
  Reader.plays (fun moved => moved.grown cell) (readCell_shown plays)

theorem view_plays {name : String} (named : web.names.get? name = some cell)
    (plays : Plays (setting web running) (Reader.machine (Stream.readCell machine cell)) (web.cells cell)
      (Reader.Stands (web.cells cell) (·.sizeOf cell))) :
    Plays (setting web running) (Stream.level definitions machine) ((Recipe.view name).course web.names web.cells)
      ((Recipe.view name).Stands web.names web.cells) := by
  have placed : Plays (setting web running) (Stream.level definitions machine) (web.cells cell)
      (Stream.Placed (.view cell) (Reader.Stands (web.cells cell) (·.sizeOf cell))) :=
    Stream.placed_plays plays (fun _ _ => rfl) fun _ _ => rfl
  have course : (Recipe.view name).course web.names web.cells = web.cells cell := by
    simp only [Recipe.course, named, Option.elim_some]
  have stands : (Recipe.view name).Stands web.names web.cells =
      Stream.Placed (.view cell) (Reader.Stands (web.cells cell) (·.sizeOf cell)) := by
    funext place seen stream network
    simp only [Recipe.Stands, named, Option.some.injEq, exists_eq_left']
  rw [course, stands]
  exact placed

end Reading

-- By the depth: the trees below a stream stand as deep as it does but one, and so does the source of
-- the buffer that a reader reads, for it is none of those that run.
theorem recipe_plays {known : List String} (closed : web.Closed known) {recipe : Recipe α}
    (confined : recipe.Confined known) (deep : web.deep running recipe.height < depth) :
    Plays (setting web running) (Stream.machine definitions depth) (recipe.course web.names web.cells)
      (recipe.Stands web.names web.cells) := by
  induction depth generalizing running recipe with
  | zero => exact absurd deep (Nat.not_lt_zero _)
  | succ depth ih =>
    have part : ∀ {part : Recipe α}, part.Confined known → part.height < recipe.height →
        Plays (setting web running) (Stream.machine definitions depth) (part.course web.names web.cells)
          (part.Stands web.names web.cells) :=
      fun confined lower => ih confined (by rw [Web.deep] at *; omega)
    rw [Stream.machine_succ]
    cases recipe with
    | empty => exact Stream.placed_plays Empty.plays (fun _ _ => rfl) fun _ _ => rfl
    | single value => exact Stream.placed_plays (Single.plays value) (fun _ _ => rfl) fun _ _ => rfl
    | iterated supply =>
      exact Stream.placed_plays (Iterated.plays (supply_yields setting_unledgered supply)) (fun _ _ => rfl) fun _ _ => rfl
    | deferred tally body =>
      have confined : body.Confined known := confined
      have inside := part confined (by rw [Recipe.height]; omega)
      exact Stream.placed_plays (Postponed.plays (body_builds closed confined) inside) (fun _ _ => rfl) fun _ _ => rfl
    | mapped f inner =>
      have inside := part confined.2 (by rw [Recipe.height]; omega)
      have computes : ∀ call value, (setting web running).Computes (Stream.actOn f call value) (Action.image f value) :=
        fun call value => onLedger_computes setting_unledgered (confined.1.result call value)
      exact Stream.placed_plays (Mapped.plays inside computes) (fun _ _ => rfl) fun _ _ => rfl
    | merged le left right =>
      have first := part confined.1 (by rw [Recipe.height]; omega)
      have second := part confined.2 (by rw [Recipe.height]; omega)
      exact Stream.placed_plays (Merged.plays first second) (fun _ _ => rfl) fun _ _ => rfl
    | paired le join left right =>
      have first := part confined.2.1 (by rw [Recipe.height]; omega)
      have second := part confined.2.2 (by rw [Recipe.height]; omega)
      have computes : ∀ x y, (setting web running).Computes (Stream.joinOn join x y) (JoinAction.image join x y) :=
        fun x y => onLedger_computes setting_unledgered (confined.1.result x y)
      exact Stream.placed_plays (Paired.plays first second computes) (fun _ _ => rfl) fun _ _ => rfl
    | view name =>
      obtain ⟨cell, named⟩ := closed.named name confined
      refine view_plays named (reader_plays fun source listed apart => ?_)
      have below := Web.deep_insert listed apart
      have here : web.deep running 0 < depth + 1 := deep
      rw [← closed.solved listed]
      exact ih (closed.confined source (List.mem_of_getElem? listed)) (by omega)
    | boxed inner =>
      have confined : inner.Confined known := confined
      exact Stream.placed_plays (part confined (by rw [Recipe.height]; omega)) (fun _ _ => rfl) fun _ _ => rfl
    | following head tail =>
      have confined : tail.Confined known := confined
      have inside := part confined (by rw [Recipe.height]; omega)
      have before : Plays (setting web running).prompt (Iterated.machine Stream.nextOf) (.ofList head)
          (Iterated.Stands (head[·]?) (Supply.ofList head none).Stands) := by
        have free : Unledgered (setting web running).prompt := prompt_unledgered
        have yields := supply_yields free (Supply.ofList head none)
        rw [ofList_answers] at yields
        exact Iterated.plays yields
      exact Stream.placed_plays (Followed.plays before inside) (fun _ _ => rfl) fun _ _ => rfl
    | _ => exact confined.elim

end Network
end LightestFirst
