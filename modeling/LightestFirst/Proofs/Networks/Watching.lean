import LightestFirst.Proofs.Networks.CallDepth
-- Sources that read what they feed. A call is made once more by a machine that is told which sources are
-- running, and that may do anything where a source would be run a second time or where the levels it
-- follows are used up. Both come to the same: each source that goes out takes its share along, so that
-- calls inside calls get to the end of what there is in the network.
namespace LightestFirst
variable {α : Type}

namespace Stream

section Watching
variable (definitions : Definitions α) (astray : Network α → Attempt (Status α) × Network α)

-- Reads a buffer while these sources are running. What should not be met is left to `astray`: no such cell, a
-- source that is missing though it does not run, one that is there though it runs, and a cell that is gone when
-- its source comes back. The source comes back to the buffer as it is then.
def readWatched (watch : List Nat → Machine (Network α) (Stream α) α) (running : List Nat) (cell index : Nat)
    (network : Network α) : Attempt (Status α) × Network α :=
  match network.cells[cell]? with
  | none => astray network
  | some shared =>
    match shared.settled? index with
    | some status => (.ok status, network)
    | none =>
      match shared.source with
      | none => if cell ∈ running then (.ok .pending, network) else astray network
      | some source =>
        if cell ∈ running then astray network
        else
          match Buffered.draw (watch (cell :: running)) source shared.headBuffered
              (network.setCell cell (shared.replace none)) with
          | (result, headBuffered, source, network) =>
            match network.cells[cell]? with
            | none => astray network
            | some now => (result, network.setCell cell (now.absorb result headBuffered (some source)))

def watchedLayer (watch : List Nat → Machine (Network α) (Stream α) α) (running : List Nat) : Stream α → Layer α
  | .multiplexer cell reader => ⟨_, Reader.machine (readWatched astray watch running cell), reader, .multiplexer cell⟩
  | .view cell reader => ⟨_, Reader.machine (readWatched astray watch running cell), reader, .view cell⟩
  | stream => layer definitions (watch running) stream

def watched (beyond : Machine (Network α) (Stream α) α) : Nat → List Nat → Machine (Network α) (Stream α) α
  | 0, _ => beyond
  | depth + 1, running =>
    { query := fun stream network =>
        match watchedLayer definitions astray (watched beyond depth) running stream with
        | ⟨_, machine, state, put⟩ => Machine.within put (machine.query state network)
      advance := fun stream network =>
        match watchedLayer definitions astray (watched beyond depth) running stream with
        | ⟨_, machine, state, put⟩ => Machine.within put (machine.advance state network) }

end Watching

variable {definitions : Definitions α} {astray : Network α → Attempt (Status α) × Network α}
  {inner : Machine (Network α) (Stream α) α} {watch : List Nat → Machine (Network α) (Stream α) α}
  {running : List Nat} {limit cell : Nat}

theorem readCell_running {network : Network α} {shared : Buffered (Option (Stream α)) α}
    (there : network.cells[cell]? = some shared) (out : shared.source = none) (index : Nat) :
    readCell inner cell index network = (.ok ((shared.settled? index).getD .pending), network) := by
  rw [readCell, there]
  dsimp only
  cases shared.settled? index with
  | some status => rfl
  | none =>
    rw [out]
    rfl

theorem allows_kept {k : Nat} {stream : Stream α} {before after : Network α} (there : allows k stream before)
    (moved : before.Extends after) : allows k stream after :=
  Fits.kept there moved.grown

theorem readCell_watched (agree : ∀ running, Agree (Network.budget running limit) allows inner (watch running))
    (place : Nat) {load : Nat} {network : Network α} (inside : cell < network.cells.size)
    (carries : network.Carries running load) (room : load < limit + 1) :
    Shown (Network.budget running (limit + 1)) load network (readCell inner cell place network)
      (readWatched astray watch running cell place network) := by
  have still : ∀ answer : Attempt (Status α), Shown (Network.budget running (limit + 1)) load network
      (answer, network) (answer, network) :=
    fun _ => .shown carries (Nat.le_refl _) (Network.extends_drifts.stays network)
  have there : network.cells[cell]? = some network.cells[cell] := Array.getElem?_eq_getElem inside
  generalize network.cells[cell] = shared at there
  have out : network.lent cell = shared.source.isNone := by rw [Network.lent, there, Option.any_some]
  rw [carries.out] at out
  simp only [readCell, readWatched, there]
  cases shared.settled? place with
  | some status => exact still _
  | none =>
    cases held : shared.source with
    | none =>
      have among : cell ∈ running := by simpa [held] using out
      dsimp only
      rw [if_pos among]
      exact still _
    | some source =>
      have home : cell ∉ running := by simpa [held] using out
      obtain ⟨k, load', fits, less, lent⟩ := carries.lends there held
      have allowed : allows k source (network.setCell cell (shared.replace none)) := by
        rw [allows, Network.size_setCell]
        exact fits
      obtain ⟨result, flag, source, after, k', load'', here, same, there', spent, below, moved⟩ :=
        Buffered.draw_agreed (agree (cell :: running)) shared.headBuffered allowed lent (by omega : k + load' < limit)
      have idle : network.lent cell = false := by rw [carries.out, decide_eq_false home]
      obtain ⟨left, went⟩ := moved.around inside rfl idle (shared.absorb result flag (some source))
      have back := Buffered.absorb_source shared result flag (some source)
      dsimp only
      rw [if_neg home, here, same]
      simp only [left, Buffered.absorb_replace, Network.setCell_setCell]
      exact .shown (spent.returned home (Array.getElem?_eq_some_iff.mp left).1 back there') (by omega) went

inductive Layers (budget : Budget (Network α)) (k : Nat) (network : Network α) : Layer α → Layer α → Prop where
  | layers {σ : Type} {one other : Machine (Network α) σ α} {state : σ} {put : σ → Stream α}
      {allowing : Allowance σ (Network α)} (agree : Agree budget allowing one other)
      (there : allowing k state network)
      (puts : ∀ {k state after}, allowing k state after → allows k (put state) after) :
      Layers budget k network ⟨σ, one, state, put⟩ ⟨σ, other, state, put⟩

def Plans (k : Nat) (blueprint : Blueprint α) (_ : Network α) : Prop :=
  ∃ tally body fuel, blueprint = .recipe tally body fuel ∧ body.Woven ∧ body.size ≤ k

theorem plans_build (definitions : Definitions α) {k load : Nat} {blueprint : Blueprint α} {network : Network α}
    (plan : Plans k blueprint network) (carries : network.Carries running load) :
    Postponed.Built (Network.budget running limit) allows (k + load) network (blueprint.build definitions network) := by
  obtain ⟨tally, body, fuel, rfl, woven, less⟩ := plan
  have tallied : network.Extends (network.updateLedger (·.tallyIf tally)) := .of_cells rfl
  have counted : (network.updateLedger (·.tallyIf tally)).Carries running load := carries.ledger
  have built := Recipe.build_fits limit woven fuel counted
  rw [Blueprint.build]
  generalize body.build fuel _ = outcome at built ⊢
  cases built with
  | built there spent below moved =>
    exact .built there spent (by omega) (Network.extends_drifts.goes_on tallied moved)
  | failed spent below moved => exact .failed spent (by omega) (Network.extends_drifts.goes_on tallied moved)

theorem layers_watched (definitions : Definitions α) (astray : Network α → Attempt (Status α) × Network α)
    (running : List Nat) (agree : ∀ running, Agree (Network.budget running limit) allows inner (watch running)) {k : Nat}
    {stream : Stream α} {network : Network α} (fits : stream.Fits network.cells.size k) :
    Layers (Network.budget running (limit + 1)) k network (layer definitions inner stream)
      (watchedLayer definitions astray watch running stream) := by
  have inside := agree running
  have on_ledger : ∀ {γ : Type} {limit : Nat} (act : Ledger → γ × Ledger),
      (Network.budget (α := α) running limit).Spares (Network.onLedger act) :=
    fun act _ _ carries => ⟨carries.ledger, .of_cells rfl⟩
  have postponed : Agree (Network.budget running (limit + 1)) (Postponed.allowing Plans allows).below
      (Postponed.machine (Blueprint.build definitions) inner)
      (Postponed.machine (Blueprint.build definitions) (watch running)) :=
    (Postponed.agree Plans inside (fun plan spent _ => plans_build definitions plan spent) fun plan _ => plan).raised
  have postpones : ∀ {k state after}, (Postponed.allowing Plans allows).below k state after →
      allows k (Stream.postponed (α := α) state) after := by
    rintro k (_ | inside | _) after ⟨x, less, there⟩
    · obtain ⟨tally, body, fuel, rfl, woven, small⟩ := there
      exact .waiting woven (Nat.lt_of_le_of_lt small less)
    · exact .forced there less
    · exact .spent (Nat.zero_lt_of_lt less)
  have reads : ∀ cell, Agree (Network.budget running (limit + 1)) (fun _ _ network => cell < network.cells.size)
      (Reader.machine (readCell inner cell)) (Reader.machine (readWatched astray watch running cell)) :=
    fun cell => Reader.agree_where (fun place _ _ => readCell_watched agree place) fun inside moved =>
      Nat.lt_of_lt_of_le inside moved.grown
  have pulls : ∀ {limit : Nat} (supply : Supply α), (Network.budget running limit).Spares fun network =>
      ((nextOf supply network).1, (nextOf supply network).2.2) := fun supply _ _ carries => ⟨carries.ledger, .of_cells rfl⟩
  have tallies : ∀ {limit : Nat} (update : Ledger → Ledger) {load network},
      (Network.budget (α := α) running limit).spent load network →
        (Network.budget running limit).spent load (network.updateLedger update) ∧
          (Network.budget running limit).moves network (network.updateLedger update) :=
    fun _ _ _ carries => ⟨carries.ledger, .of_cells rfl⟩
  cases fits with
  | empty => exact .layers Empty.agree trivial fun _ => .empty
  | single => exact .layers Single.agree trivial fun _ => .single
  | iterated => exact .layers (Iterated.agree pulls) trivial fun _ => .iterated
  | waiting woven less => exact .layers postponed ⟨_, less, _, _, _, rfl, woven, Nat.le_refl _⟩ postpones
  | forced there less => exact .layers postponed ⟨_, less, there⟩ postpones
  | spent less => exact .layers postponed ⟨_, less, trivial⟩ postpones
  | mapped there less =>
    refine .layers (Mapped.agree inside fun call value => on_ledger _).raised ⟨_, less, there⟩ ?_
    exact fun ⟨_, less, there⟩ => .mapped there less
  | merged there behind less =>
    refine .layers (Merged.agree inside inside).raised ⟨_, less, _, _, Nat.le_refl _, there, behind⟩ ?_
    exact fun ⟨_, less, _, _, both, there, behind⟩ => .merged there behind (Nat.lt_of_le_of_lt both less)
  | paired there behind less =>
    refine .layers (Paired.agree inside inside fun x y => on_ledger _).raised
      ⟨_, less, _, _, Nat.le_refl _, there, behind⟩ ?_
    exact fun ⟨_, less, _, _, both, there, behind⟩ => .paired there behind (Nat.lt_of_le_of_lt both less)
  | multiplexer inside => exact .layers (reads _) inside fun inside => .multiplexer inside
  | view inside => exact .layers (reads _) inside fun inside => .view inside
  | boxed there less =>
    refine .layers inside.raised ⟨_, less, there⟩ ?_
    exact fun ⟨_, less, there⟩ => .boxed there less
  | probed there less =>
    refine .layers (Probed.agree (tallies _) (tallies _) inside).raised ⟨_, less, there⟩ ?_
    exact fun ⟨_, less, there⟩ => .probed there less
  | gated there less =>
    refine .layers (Gated.agree inside).raised ⟨_, less, there⟩ ?_
    exact fun ⟨_, less, there⟩ => .gated there less
  | delayed there less =>
    refine .layers (Delayed.agree inside).raised ⟨_, less, there⟩ ?_
    exact fun ⟨_, less, there⟩ => .delayed there less
  | following there less =>
    refine .layers (Followed.agree (Iterated.agree pulls) inside).raised
      ⟨_, less, 0, _, Nat.le_of_eq (Nat.zero_add _), trivial, there⟩ ?_
    exact fun ⟨_, less, _, _, both, _, there⟩ => .following there (by omega)

-- By the levels: what is allowed and what the network carries are together less than the levels followed, and
-- each call further inside has less of both.
theorem machine_watched (definitions : Definitions α) (astray : Network α → Attempt (Status α) × Network α)
    (beyond : Machine (Network α) (Stream α) α) (depth : Nat) (running : List Nat) :
    Agree (Network.budget running depth) allows (machine definitions depth)
      (watched definitions astray beyond depth running) := by
  induction depth generalizing running with
  | zero =>
    have nothing : ∀ {k j : Nat}, ¬ k + j < 0 := Nat.not_lt_zero _
    exact ⟨fun _ _ room => absurd room nothing, fun _ _ room => absurd room nothing, allows_kept⟩
  | succ depth ih =>
    constructor
    · intro k load stream network fits carries room
      have layers := layers_watched definitions astray running ih fits
      simp only [machine, level, watched]
      generalize layer definitions _ stream = one, watchedLayer definitions _ _ _ stream = other at layers ⊢
      cases layers with
      | layers agree there puts =>
        exact (agree.query there carries room).within 0 (Nat.le_refl _) fun _ there => puts there
    · intro k load stream network fits carries room
      have layers := layers_watched definitions astray running ih fits
      simp only [machine, level, watched]
      generalize layer definitions _ stream = one, watchedLayer definitions _ _ _ stream = other at layers ⊢
      cases layers with
      | layers agree there puts =>
        exact (agree.advance there carries room).within 0 (Nat.le_refl _) fun _ there => puts there
    · exact allows_kept

end Stream

end LightestFirst
