import LightestFirst.Proofs.Along
-- Two ways of driving the same streams, side by side. They agree as long as no more is used up than
-- there is: a state is allowed some of the budget, some has been spent in the world, and a call moves
-- from the one to the other but never adds to the sum.
namespace LightestFirst
variable {ω σ τ ρ ι κ α β : Type}

structure Budget (ω : Type) where
  -- the world is in order, and no more than this has been spent in it
  spent : Nat → ω → Prop
  moves : ω → ω → Prop
  -- what is allowed and spent together stays below this
  limit : Nat
  drifts : Drifts moves

-- What a state may still spend, and what it relies on in the world.
abbrev Allowance (σ ω : Type) := Nat → σ → ω → Prop

section Outcomes
variable (budget : Budget ω) (allows : Allowance σ ω)

inductive Agreed (sum : Nat) (before : ω) : β × σ × ω → β × σ × ω → Prop where
  | agreed {result : β} {state : σ} {after : ω} {k j : Nat} (there : allows k state after)
      (spent : budget.spent j after) (less : k + j ≤ sum) (moved : budget.moves before after) :
      Agreed sum before (result, state, after) (result, state, after)

structure Agree (one other : Machine ω σ α) : Prop where
  query : ∀ {k j state world}, allows k state world → budget.spent j world → k + j < budget.limit →
    Agreed budget allows (k + j) world (one.query state world) (other.query state world)
  advance : ∀ {k j state world}, allows k state world → budget.spent j world → k + j < budget.limit →
    Agreed budget allows (k + j) world (one.advance state world) (other.advance state world)
  kept : ∀ {k state world after}, allows k state world → budget.moves world after → allows k state after

inductive Shown (sum : Nat) (before : ω) : β × ω → β × ω → Prop where
  | shown {result : β} {after : ω} {j : Nat} (spent : budget.spent j after) (less : j ≤ sum)
      (moved : budget.moves before after) : Shown sum before (result, after) (result, after)

def ReadAlike (one other : Nat → ω → Attempt (Status α) × ω) : Prop :=
  ∀ place {j world}, budget.spent j world → j < budget.limit → Shown budget j world (one place world) (other place world)

def Budget.Spares (act : ω → β × ω) : Prop :=
  ∀ {j world}, budget.spent j world → budget.spent j (act world).2 ∧ budget.moves world (act world).2

end Outcomes

section Carrying
variable {budget : Budget ω} {allows : Allowance σ ω} {wider : Allowance τ ω} {sum more : Nat} {before world : ω}

theorem Agreed.from_before {one other : β × σ × ω} (moved : budget.moves before world) (less : sum ≤ more)
    (agreed : Agreed budget allows sum world one other) : Agreed budget allows more before one other := by
  cases agreed with
  | agreed there spent below went =>
    exact .agreed there spent (Nat.le_trans below less) (budget.drifts.goes_on moved went)

theorem Agreed.within {one other : Attempt β × σ × ω} {put : σ → τ} (share : Nat) (less : sum + share ≤ more)
    (puts : ∀ {k state after}, budget.moves before after → allows k state after → wider (k + share) (put state) after)
    (agreed : Agreed budget allows sum before one other) :
    Agreed budget wider more before (Machine.within put one) (Machine.within put other) := by
  cases agreed with
  | agreed there spent below moved => exact .agreed (puts moved there) spent (by omega) moved

theorem Agreed.still {state : σ} {k j : Nat} (result : β) (there : allows k state world)
    (spent : budget.spent j world) : Agreed budget allows (k + j) world (result, state, world) (result, state, world) :=
  .agreed there spent (Nat.le_refl _) (budget.drifts.stays world)

end Carrying

def Allowance.free : Allowance σ ω := fun _ _ _ => True

-- What is left to a state with something around it.
def Allowance.below (allows : Allowance σ ω) : Allowance σ ω := fun k state world => ∃ x < k, allows x state world

def Budget.raised (budget : Budget ω) : Budget ω := { budget with limit := budget.limit + 1 }

variable {budget : Budget ω} {allows : Allowance σ ω} {others : Allowance τ ω}

theorem Agree.raised {one other : Machine ω σ α} (agree : Agree budget allows one other) :
    Agree budget.raised allows.below one other := by
  have raises : ∀ {β : Type} {x k j : Nat} {world : ω} {outcome outcome' : β × σ × ω}, x < k →
      Agreed budget allows (x + j) world outcome outcome' →
      Agreed budget.raised allows.below (k + j) world outcome outcome' := by
    intro β x k j world _ _ above agreed
    cases agreed with
    | @agreed _ _ _ x' _ there spent less moved => exact .agreed ⟨x', Nat.lt_succ_self x', there⟩ spent (by omega) moved
  constructor
  · rintro k j state world ⟨x, above, there⟩ spent room
    have room : k + j < budget.limit + 1 := room
    exact raises above (agree.query there spent (by omega))
  · rintro k j state world ⟨x, above, there⟩ spent room
    have room : k + j < budget.limit + 1 := room
    exact raises above (agree.advance there spent (by omega))
  · rintro k state world after ⟨x, above, there⟩ moved
    exact ⟨x, above, agree.kept there moved⟩

theorem Agree.keeping {machine : Machine ω σ α} {fine : σ → Prop} (agree : Agree budget allows machine machine)
    (queries : ∀ state world, fine state → fine (machine.query state world).2.1)
    (advances : ∀ state world, fine state → fine (machine.advance state world).2.1) :
    Agree budget (fun k state world => allows k state world ∧ fine state) machine machine where
  query {_ _ state world} there spent room := by
    have asked := agree.query there.1 spent room
    have still := queries state world there.2
    generalize machine.query state world = outcome at asked still ⊢
    cases asked with
    | agreed there spent below moved => exact .agreed ⟨there, still⟩ spent below moved
  advance {_ _ state world} there spent room := by
    have passed := agree.advance there.1 spent room
    have still := advances state world there.2
    generalize machine.advance state world = outcome at passed still ⊢
    cases passed with
    | agreed there spent below moved => exact .agreed ⟨there, still⟩ spent below moved
  kept there moved := ⟨agree.kept there.1 moved, there.2⟩

theorem Empty.agree : Agree budget Allowance.free (Empty.machine : Machine ω Unit α) Empty.machine where
  query there spent _ := .still _ there spent
  advance there spent _ := .still _ there spent
  kept _ _ := trivial

theorem Single.agree : Agree budget Allowance.free (Single.machine : Machine ω (Single α) α) Single.machine where
  query := by
    rintro k j ⟨_ | value⟩ world there spent _
    · exact .still _ there spent
    · exact .still _ there spent
  advance := by
    rintro k j ⟨_ | value⟩ world there spent _
    · exact .still _ there spent
    · exact .still _ trivial spent
  kept _ _ := trivial

theorem Iterated.agree {next : ι → ω → Option α × ι × ω}
    (pulls : ∀ iterator, budget.Spares fun world => ((next iterator world).1, (next iterator world).2.2)) :
    Agree budget Allowance.free (Iterated.machine next) (Iterated.machine next) where
  query := by
    rintro k j ⟨iterator, _ | head⟩ world there spent _
    · obtain ⟨spent, moved⟩ := pulls iterator spent
      exact .agreed there spent (Nat.le_refl _) moved
    · exact .still _ there spent
  advance := by
    rintro k j ⟨iterator, _ | _ | value⟩ world there spent _
    · exact .still _ there spent
    · exact .still _ there spent
    · exact .still _ trivial spent
  kept _ _ := trivial

namespace Mapped
variable {one other : Machine ω σ α} {f : Nat → α → ω → Attempt β × ω}

def allowing (allows : Allowance σ ω) : Allowance (Mapped σ β) ω := fun k state world => allows k state.inner world

theorem agree (inner : Agree budget allows one other) (acts : ∀ call value, budget.Spares (f call value)) :
    Agree budget (Mapped.allowing allows) (machine one f) (machine other f) where
  query := by
    rintro k j ⟨state, _ | status, calls⟩ world there spent room
    · have asked := inner.query there spent room
      simp only [machine, query]
      generalize one.query state world = outcome, other.query state world = outcome' at asked ⊢
      cases asked with
      | @agreed result _ after _ _ there spent less moved =>
        rcases result with _ | value | _ | _
        · exact .agreed there spent less moved
        · obtain ⟨spent, went⟩ := acts (calls + 1) value spent
          have there := inner.kept there went
          have moved := budget.drifts.goes_on moved went
          dsimp only
          generalize f (calls + 1) value after = outcome at spent there moved ⊢
          obtain ⟨_ | _, _⟩ := outcome
          · exact .agreed there spent less moved
          · exact .agreed there spent less moved
        · exact .agreed there spent less moved
        · exact .agreed there spent less moved
    · exact .still _ there spent
  advance := by
    rintro k j ⟨state, _ | _ | _ | _, calls⟩ world there spent room
    · exact .still _ there spent
    · simp only [machine, advance]
      exact Agreed.within 0 (Nat.le_refl _) (fun _ there => there) (inner.advance there spent room)
    · exact .still _ there spent
    · exact .still _ there spent
  kept there moved := inner.kept there moved

end Mapped

namespace Merged
variable {first first' : Machine ω σ α} {second second' : Machine ω τ α} {le : α → α → Bool}

def allowing (allows : Allowance σ ω) (others : Allowance τ ω) : Allowance (Merged σ τ α) ω :=
  fun k state world => ∃ x y, x + y ≤ k ∧ allows x state.left world ∧ others y state.right world

theorem agree (left : Agree budget allows first first') (right : Agree budget others second second') :
    Agree budget (Merged.allowing allows others) (machine first second le) (machine first' second' le) where
  query := by
    rintro k j ⟨l, r, _ | verdict⟩ world ⟨x, y, both, there, behind⟩ spent room
    · have asked := left.query there spent (by omega)
      simp only [machine, query]
      generalize first.query l world = outcome, first'.query l world = outcome' at asked ⊢
      cases asked with
      | @agreed result l middle x' j' there spent less moved =>
        have behind := right.kept behind moved
        cases result with
        | error fault => exact .agreed ⟨x', y, Nat.le_refl _, there, behind⟩ spent (by omega) moved
        | ok status =>
          have answered := right.query behind spent (by omega)
          dsimp only
          generalize second.query r middle = outcome, second'.query r middle = outcome' at answered ⊢
          cases answered with
          | @agreed result r after y' _ behind spent below went =>
            have there := left.kept there went
            have moved := budget.drifts.goes_on moved went
            cases result with
            | error fault => exact .agreed ⟨x', y', Nat.le_refl _, there, behind⟩ spent (by omega) moved
            | ok status => exact .agreed ⟨x', y', Nat.le_refl _, there, behind⟩ spent (by omega) moved
    · exact .still _ ⟨x, y, both, there, behind⟩ spent
  advance := by
    rintro k j ⟨l, r, _ | _ | _ | _⟩ world ⟨x, y, both, there, behind⟩ spent room
    · exact .still _ ⟨x, y, both, there, behind⟩ spent
    · have passed := left.advance there spent (by omega)
      simp only [machine, advance]
      refine passed.within y (by omega) fun moved there => ?_
      exact ⟨_, y, Nat.le_refl _, there, right.kept behind moved⟩
    · have passed := right.advance behind spent (by omega)
      simp only [machine, advance]
      refine passed.within x (by omega) fun moved behind => ?_
      exact ⟨x, _, Nat.le_of_eq (Nat.add_comm _ _), left.kept there moved, behind⟩
    · exact .still _ ⟨x, y, both, there, behind⟩ spent
  kept := by
    rintro k state world after ⟨x, y, both, there, behind⟩ moved
    exact ⟨x, y, both, left.kept there moved, right.kept behind moved⟩

end Merged

theorem Reader.agree_where {one other : Nat → ω → Attempt (Status α) × ω} {holds : ω → Prop}
    (reads : ∀ place {j world}, holds world → budget.spent j world → j < budget.limit →
      LightestFirst.Shown budget j world (one place world) (other place world))
    (kept : ∀ {world after}, holds world → budget.moves world after → holds after) :
    Agree budget (fun _ _ world => holds world) (Reader.machine one) (Reader.machine other) where
  query := by
    rintro k j ⟨index, observed⟩ world there spent room
    have read := reads index there spent (by omega)
    simp only [machine, query]
    generalize one index world = outcome, other index world = outcome' at read ⊢
    cases read with
    | @shown result after j' spent less moved =>
      cases result with
      | error fault => exact .agreed (k := k) (kept there moved) spent (by omega) moved
      | ok status => exact .agreed (k := k) (kept there moved) spent (by omega) moved
  advance := by
    rintro k j ⟨index, _ | _⟩ world there spent _
    · exact .still _ there spent
    · exact .still _ there spent
  kept there moved := kept there moved

theorem Reader.agree {one other : Nat → ω → Attempt (Status α) × ω} (reads : ReadAlike budget one other) :
    Agree budget Allowance.free (Reader.machine one) (Reader.machine other) :=
  agree_where (fun place _ _ _ => reads place) fun _ _ => trivial

namespace Postponed
variable {one other : Machine ω σ α} {build : κ → ω → Attempt σ × ω}

def allowing (thunks : Allowance κ ω) (allows : Allowance σ ω) : Allowance (Postponed κ σ) ω
  | k, .waiting thunk, world => thunks k thunk world
  | k, .forced state, world => allows k state world
  | _, .spent, _ => True

inductive Built (budget : Budget ω) (allows : Allowance σ ω) (sum : Nat) (before : ω) : Attempt σ × ω → Prop where
  | built {state : σ} {after : ω} {k j : Nat} (there : allows k state after) (spent : budget.spent j after)
      (less : k + j ≤ sum) (moved : budget.moves before after) : Built budget allows sum before (.ok state, after)
  | failed {fault : Fault} {after : ω} {j : Nat} (spent : budget.spent j after) (less : j ≤ sum)
      (moved : budget.moves before after) : Built budget allows sum before (.error fault, after)

theorem agree (thunks : Allowance κ ω) (inner : Agree budget allows one other)
    (builds : ∀ {k j thunk world}, thunks k thunk world → budget.spent j world → k + j < budget.limit →
      Built budget allows (k + j) world (build thunk world))
    (kept : ∀ {k thunk world after}, thunks k thunk world → budget.moves world after → thunks k thunk after) :
    Agree budget (Postponed.allowing thunks allows) (machine build one) (machine build other) := by
  have reaches : ∀ {β : Type} {call call' : σ → ω → Attempt β × σ × ω},
      (∀ {k j state world}, allows k state world → budget.spent j world → k + j < budget.limit →
        Agreed budget allows (k + j) world (call state world) (call' state world)) →
      ∀ {k j state world}, Postponed.allowing thunks allows k state world → budget.spent j world → k + j < budget.limit →
        Agreed budget (Postponed.allowing thunks allows) (k + j) world (reach build call state world)
          (reach build call' state world) := by
    rintro β call call' calls k j (thunk | state | _) world there spent room
    · have built := builds there spent room
      simp only [reach]
      generalize build thunk world = outcome at built ⊢
      cases built with
      | built there spent less moved =>
        have called := calls there spent (by omega)
        dsimp only
        exact Agreed.from_before moved less (called.within 0 (Nat.le_refl _) fun _ there => there)
      | failed spent less moved => exact .agreed (k := 0) trivial spent (by omega) moved
    · exact (calls there spent room).within 0 (Nat.le_refl _) fun _ there => there
    · exact .still _ there spent
  refine ⟨reaches inner.query, reaches inner.advance, ?_⟩
  rintro k (thunk | state | _) world after there moved
  · exact kept there moved
  · exact inner.kept there moved
  · trivial

end Postponed

-- What a buffer's source may spend counts as spent by those who read the buffer.
def Budget.sharing (budget : Budget ω) (allows : Allowance σ ω) : Budget (Buffered σ α × ω) where
  spent j shared := ∃ x i, x + i ≤ j ∧ allows x shared.1.source shared.2 ∧ budget.spent i shared.2
  moves := Beside budget.moves
  limit := budget.limit
  drifts := budget.drifts.beside

namespace Buffered
variable {one other : Machine ω σ α}

theorem draw_agreed (source : Agree budget allows one other) {k j : Nat} {state : σ} {world : ω} (flag : Bool)
    (there : allows k state world) (spent : budget.spent j world) (room : k + j < budget.limit) :
    ∃ result flag' state' after k' j', draw one state flag world = (result, flag', state', after) ∧
      draw other state flag world = (result, flag', state', after) ∧ allows k' state' after ∧
      budget.spent j' after ∧ k' + j' ≤ k + j ∧ budget.moves world after := by
  have asks : ∀ {k j state world}, allows k state world → budget.spent j world → k + j < budget.limit →
      ∃ result flag' state' after k' j', draw.ask one state world = (result, flag', state', after) ∧
        draw.ask other state world = (result, flag', state', after) ∧ allows k' state' after ∧
        budget.spent j' after ∧ k' + j' ≤ k + j ∧ budget.moves world after := by
    intro k j state world there spent room
    have asked := source.query there spent room
    rw [draw.ask, draw.ask]
    generalize one.query state world = outcome, other.query state world = outcome' at asked ⊢
    cases asked with
    | @agreed result _ _ _ _ there spent less moved =>
      cases result with
      | error fault => exact ⟨_, _, _, _, _, _, rfl, rfl, there, spent, less, moved⟩
      | ok status => exact ⟨_, _, _, _, _, _, rfl, rfl, there, spent, less, moved⟩
  cases flag with
  | false => exact asks there spent room
  | true =>
    have passed := source.advance there spent room
    rw [draw, draw]
    generalize one.advance state world = outcome, other.advance state world = outcome' at passed ⊢
    cases passed with
    | @agreed result _ _ _ _ there spent less moved =>
      cases result with
      | error fault => exact ⟨_, _, _, _, _, _, rfl, rfl, there, spent, less, moved⟩
      | ok =>
        obtain ⟨result, flag', state', after, k', j', here, same, there, spent, below, went⟩ :=
          asks there spent (by omega)
        exact ⟨_, _, _, _, _, _, here, same, there, spent, by omega, budget.drifts.goes_on moved went⟩

theorem read_agree (source : Agree budget allows one other) :
    ReadAlike (budget.sharing allows) (Paired.readRight one) (Paired.readRight other) := by
  rintro place j ⟨⟨state, buffer, ended, flag⟩, world⟩ ⟨x, i, less, there, spent⟩ room
  simp only [Paired.readRight, read]
  split
  · exact .shown ⟨x, i, less, there, spent⟩ (Nat.le_refl _) (budget.drifts.stays world)
  · obtain ⟨result, flag', state', after, x', i', here, same, there, spent, below, moved⟩ :=
      draw_agreed source flag there spent (Nat.lt_of_le_of_lt less room)
    simp only [pull, here, same]
    refine .shown ⟨x', i', Nat.le_refl _, ?_, spent⟩ (by omega) moved
    rwa [absorb_source]

end Buffered

namespace Paired
variable {first first' : Machine ω σ α} {second second' : Machine ω τ α} {le : α → α → Bool}
  {join : α → α → ω → Attempt α × ω}

theorem lane_agree (right : Agree budget others second second') (acts : ∀ x y, budget.Spares (join x y)) (element : α) :
    Agree (budget.sharing others) (Mapped.allowing Allowance.free) (laneMachine second join element)
      (laneMachine second' join element) := by
  refine Mapped.agree (Reader.agree (Buffered.read_agree right)) fun call y => ?_
  rintro j ⟨cell, world⟩ ⟨x, i, less, there, spent⟩
  obtain ⟨spent, moved⟩ := acts element y spent
  exact ⟨⟨x, i, less, right.kept there moved, spent⟩, moved⟩

theorem poll_agreed (right : Agree budget others second second') (acts : ∀ x y, budget.Spares (join x y))
    (lanes : List (Lane α)) {j : Nat} {world : Buffered τ α × ω} (spent : (budget.sharing others).spent j world)
    (room : j < budget.limit) : Agreed (budget.sharing others) (Allowance.free : Allowance (List (Lane α)) _) j world
      (poll second join lanes world) (poll second' join lanes world) := by
  induction lanes generalizing j world with
  | nil => exact .agreed (k := 0) trivial spent (by omega) ((budget.sharing others).drifts.stays world)
  | cons lane rest ih =>
    have inside : 0 + j < budget.limit := by omega
    have asked : Agreed (budget.sharing others) (Allowance.free : Allowance (Lane α) _) (0 + j) world
        (pollLane second join lane world) (pollLane second' join lane world) :=
      ((lane_agree right acts lane.element).query (k := 0) trivial spent inside).within 0 (Nat.le_refl _)
        fun _ _ => trivial
    simp only [poll]
    generalize pollLane second join lane world = outcome, pollLane second' join lane world = outcome' at asked ⊢
    cases asked with
    | @agreed result kept middle k' j' _ spent less moved =>
      rcases result with _ | value | _ | _
      · exact .agreed (k := 0) trivial spent (by omega) moved
      all_goals
        have behind := (ih spent (by omega)).from_before moved (by omega : j' ≤ j)
        dsimp only
        generalize poll second join rest middle = outcome, poll second' join rest middle = outcome' at behind ⊢
      · cases behind with
        | @agreed result _ _ _ _ _ spent less moved =>
          rcases result with _ | statuses
          · exact .agreed (k := 0) trivial spent (by omega) moved
          · exact .agreed (k := 0) trivial spent (by omega) moved
      · exact behind
      · cases behind with
        | @agreed result _ _ _ _ _ spent less moved =>
          rcases result with _ | statuses
          · exact .agreed (k := 0) trivial spent (by omega) moved
          · exact .agreed (k := 0) trivial spent (by omega) moved

def allowing (allows : Allowance σ ω) (others : Allowance τ ω) : Allowance (Paired σ τ α) ω :=
  fun k state world => ∃ x y, x + y ≤ k ∧ allows x state.left world ∧ others y state.right.source world

theorem grow_agreed (left : Agree budget allows first first') (right : Agree budget others second second') {k j : Nat}
    {state : Paired σ τ α} {world : ω} (there : Paired.allowing allows others k state world)
    (spent : budget.spent j world) (room : k + j < budget.limit) :
    Agreed budget (Paired.allowing allows others) (k + j) world (grow first state world) (grow first' state world) := by
  obtain ⟨l, _ | _, cell, lanes, appended, _ | _, choice⟩ := state
  · exact .still _ there spent
  · obtain ⟨x, y, both, there, behind⟩ := there
    have asked := left.query there spent (by omega)
    simp only [grow]
    generalize first.query l world = outcome, first'.query l world = outcome' at asked ⊢
    cases asked with
    | @agreed result l middle x' j' there spent less moved =>
      have behind := right.kept behind moved
      rcases result with _ | value | _ | _
      · exact .agreed ⟨x', y, Nat.le_refl _, there, behind⟩ spent (by omega) moved
      · have passed := left.advance there spent (by omega)
        dsimp only
        generalize first.advance l middle = outcome, first'.advance l middle = outcome' at passed ⊢
        cases passed with
        | @agreed result l after x'' j'' there spent below went =>
          have behind := right.kept behind went
          have moved := budget.drifts.goes_on moved went
          cases result with
          | error fault => exact .agreed ⟨x'', y, Nat.le_refl _, there, behind⟩ spent (by omega) moved
          | ok => exact .agreed ⟨x'', y, Nat.le_refl _, there, behind⟩ spent (by omega) moved
      · exact .agreed ⟨x', y, Nat.le_refl _, there, behind⟩ spent (by omega) moved
      · exact .agreed ⟨x', y, Nat.le_refl _, there, behind⟩ spent (by omega) moved
  · exact .still _ there spent
  · exact .still _ there spent

theorem settle_agreed (left : Agree budget allows first first') (right : Agree budget others second second')
    (acts : ∀ x y, budget.Spares (join x y)) {k j : Nat} {state : Paired σ τ α} {world : ω}
    (there : Paired.allowing allows others k state world) (spent : budget.spent j world) (room : k + j < budget.limit) :
    Agreed budget (Paired.allowing allows others) (k + j) world (settle second le join state world)
      (settle second' le join state world) := by
  obtain ⟨l, leftEnded, cell, lanes, appended, needsLeft, choice⟩ := state
  obtain ⟨x, y, both, there, behind⟩ := there
  have shared : (budget.sharing others).spent (y + j) (cell, world) := ⟨y, j, Nat.le_refl _, behind, spent⟩
  have polled := poll_agreed right acts lanes shared (by omega)
  simp only [settle]
  generalize poll second join lanes (cell, world) = outcome, poll second' join lanes (cell, world) = outcome' at polled ⊢
  cases polled with
  | @agreed result lanes after k' j' _ shared less moved =>
    obtain ⟨cell, after⟩ := after
    obtain ⟨y', i, inside, behind, spent⟩ := shared
    have there := left.kept there moved
    cases result with
    | error fault => exact .agreed ⟨x, y', Nat.le_refl _, there, behind⟩ spent (by omega) moved
    | ok statuses => exact .agreed ⟨x, y', Nat.le_refl _, there, behind⟩ spent (by omega) moved

theorem agree (left : Agree budget allows first first') (right : Agree budget others second second')
    (acts : ∀ x y, budget.Spares (join x y)) : Agree budget (Paired.allowing allows others)
      (machine first second le join) (machine first' second' le join) where
  query := by
    intro k j state world there spent room
    simp only [machine, query]
    cases state.choice with
    | some choice => exact .still _ there spent
    | none =>
      have grown := grow_agreed left right there spent room
      dsimp only
      generalize grow first state world = outcome, grow first' state world = outcome' at grown ⊢
      cases grown with
      | @agreed result _ _ _ _ there spent less moved =>
        rcases result with _ | _ | _
        · exact .agreed there spent less moved
        · exact .agreed there spent less moved
        · exact (settle_agreed left right acts there spent (by omega)).from_before moved less
  advance := by
    rintro k j ⟨l, leftEnded, cell, lanes, appended, needsLeft, _ | ⟨value, place⟩ | _⟩ world there spent room
    · exact .still _ there spent
    · simp only [machine, Paired.advance]
      cases lanes[place]? with
      | none => exact .still _ there spent
      | some lane =>
        obtain ⟨x, y, both, there, behind⟩ := there
        have inside : 0 + (y + j) < budget.limit := by omega
        have passed : Agreed (budget.sharing others) (Allowance.free : Allowance (Lane α) _) (0 + (y + j)) (cell, world)
            (advanceLane second join lane (cell, world)) (advanceLane second' join lane (cell, world)) :=
          ((lane_agree right acts lane.element).advance (k := 0) trivial ⟨y, j, Nat.le_refl _, behind, spent⟩
            inside).within 0 (Nat.le_refl _) fun _ _ => trivial
        dsimp only
        generalize advanceLane second join lane (cell, world) = outcome,
          advanceLane second' join lane (cell, world) = outcome' at passed ⊢
        cases passed with
        | @agreed result _ after k' j' _ shared less moved =>
          obtain ⟨cell, after⟩ := after
          obtain ⟨y', i, inside, behind, spent⟩ := shared
          have there := left.kept there moved
          cases result with
          | error fault => exact .agreed ⟨x, y', Nat.le_refl _, there, behind⟩ spent (by omega) moved
          | ok => exact .agreed ⟨x, y', Nat.le_refl _, there, behind⟩ spent (by omega) moved
    · exact .still _ there spent
  kept := by
    rintro k state world after ⟨x, y, both, there, behind⟩ moved
    exact ⟨x, y, both, left.kept there moved, right.kept behind moved⟩

end Paired

namespace Followed
variable {first first' : Machine ω σ α} {second second' : Machine ω τ α}

def allowing (allows : Allowance σ ω) (others : Allowance τ ω) : Allowance (Followed σ τ) ω :=
  fun k state world => ∃ x y, x + y ≤ k ∧ allows x state.head world ∧ others y state.tail world

theorem agree (head : Agree budget allows first first') (tail : Agree budget others second second') :
    Agree budget (Followed.allowing allows others) (machine first second) (machine first' second') where
  query := by
    rintro k j ⟨h, inHead, t⟩ world ⟨x, y, both, there, behind⟩ spent room
    have asked := head.query there spent (by omega)
    simp only [machine, query]
    generalize first.query h world = outcome, first'.query h world = outcome' at asked ⊢
    cases asked with
    | @agreed result h middle x' j' there spent less moved =>
      have behind := tail.kept behind moved
      -- the tail is asked where the head shows nothing
      have onward : Agreed budget (Followed.allowing allows others) (k + j) world
          (Machine.within (⟨h, false, ·⟩) (second.query t middle))
          (Machine.within (⟨h, false, ·⟩) (second'.query t middle)) := by
        have asked := tail.query behind spent (by omega)
        refine (asked.within x' (by omega : y + j' + x' ≤ k + j) fun moved behind => ?_).from_before moved (Nat.le_refl _)
        exact ⟨x', _, Nat.le_of_eq (Nat.add_comm _ _), head.kept there moved, behind⟩
      rcases result with _ | value | _ | _
      · exact .agreed ⟨x', y, Nat.le_refl _, there, behind⟩ spent (by omega) moved
      · exact .agreed ⟨x', y, Nat.le_refl _, there, behind⟩ spent (by omega) moved
      · exact onward
      · exact onward
  advance := by
    rintro k j ⟨h, _ | _, t⟩ world ⟨x, y, both, there, behind⟩ spent room
    · have passed := tail.advance behind spent (by omega)
      simp only [machine, advance]
      refine passed.within x (by omega) fun moved behind => ?_
      exact ⟨x, _, Nat.le_of_eq (Nat.add_comm _ _), head.kept there moved, behind⟩
    · have passed := head.advance there spent (by omega)
      simp only [machine, advance]
      refine passed.within y (by omega) fun moved there => ?_
      exact ⟨_, y, Nat.le_refl _, there, tail.kept behind moved⟩
  kept := by
    rintro k state world after ⟨x, y, both, there, behind⟩ moved
    exact ⟨x, y, both, head.kept there moved, tail.kept behind moved⟩

end Followed

namespace Delayed

def allowing (allows : Allowance σ ω) : Allowance (Delayed σ) ω := fun k state world => allows k state.inner world

theorem agree {one other : Machine ω σ α} (inner : Agree budget allows one other) :
    Agree budget (Delayed.allowing allows) (machine one) (machine other) where
  query := by
    rintro k j ⟨period, _ | left, state⟩ world there spent room
    · exact (inner.query there spent room).within 0 (Nat.le_refl _) fun _ there => there
    · exact .still _ there spent
  advance := by
    rintro k j ⟨period, left, state⟩ world there spent room
    exact (inner.advance there spent room).within 0 (Nat.le_refl _) fun _ there => there
  kept there moved := inner.kept there moved

end Delayed

theorem Gated.agree {one other : Machine ω σ α} {isOpen : ω → Bool} (inner : Agree budget allows one other) :
    Agree budget allows (Gated.machine isOpen one) (Gated.machine isOpen other) where
  query := by
    intro k j state world there spent room
    simp only [machine]
    split
    · exact inner.query there spent room
    · exact .still _ there spent
  advance := inner.advance
  kept := inner.kept

theorem Probed.agree {one other : Machine ω σ α} {onQuery onAdvance : ω → ω}
    (queried : ∀ {j world}, budget.spent j world → budget.spent j (onQuery world) ∧ budget.moves world (onQuery world))
    (advanced : ∀ {j world}, budget.spent j world →
      budget.spent j (onAdvance world) ∧ budget.moves world (onAdvance world))
    (inner : Agree budget allows one other) :
    Agree budget allows (Probed.machine onQuery onAdvance one) (Probed.machine onQuery onAdvance other) where
  query there spent room := by
    obtain ⟨spent, moved⟩ := queried spent
    exact (inner.query (inner.kept there moved) spent room).from_before moved (Nat.le_refl _)
  advance there spent room := by
    obtain ⟨spent, moved⟩ := advanced spent
    exact (inner.advance (inner.kept there moved) spent room).from_before moved (Nat.le_refl _)
  kept := inner.kept

section Reading
variable {one other : Machine ω σ α}

namespace Iteration

def allowing (allows : Allowance σ ω) : Allowance (Iteration σ α) ω := fun k state world => allows k state.stream world

theorem peek_agreed (agree : Agree budget allows one other) {k j : Nat} {state : Iteration σ α} {world : ω}
    (there : allowing allows k state world) (spent : budget.spent j world) (room : k + j < budget.limit) :
    Agreed budget (allowing allows) (k + j) world (peek one state world) (peek other state world) := by
  obtain ⟨stream, _ | status⟩ := state
  · have asked := agree.query there spent room
    simp only [peek]
    generalize one.query stream world = outcome, other.query stream world = outcome' at asked ⊢
    cases asked with
    | @agreed result _ _ _ _ there spent less moved =>
      cases result with
      | error fault => exact .agreed there spent less moved
      | ok status => exact .agreed there spent less moved
  · exact .still _ there spent

theorem takeNext_agreed (agree : Agree budget allows one other) {k j : Nat} {state : Iteration σ α} {world : ω}
    (there : allowing allows k state world) (spent : budget.spent j world) (room : k + j < budget.limit) :
    Agreed budget (allowing allows) (k + j) world (takeNext one state world) (takeNext other state world) := by
  have peeked := peek_agreed agree there spent room
  rw [takeNext, takeNext]
  generalize peek one state world = outcome, peek other state world = outcome' at peeked ⊢
  cases peeked with
  | @agreed result state middle _ _ there spent less moved =>
    obtain _ | _ | _ | _ := result
    · exact .agreed there spent less moved
    · have passed := agree.advance there spent (by omega)
      dsimp only
      generalize one.advance state.stream middle = outcome, other.advance state.stream middle = outcome' at passed ⊢
      cases passed with
      | @agreed result _ _ _ _ there spent below went =>
        have moved := budget.drifts.goes_on moved went
        cases result with
        | error fault => exact .agreed there spent (by omega) moved
        | ok => exact .agreed there spent (by omega) moved
    · exact .agreed there spent less moved
    · exact .agreed there spent less moved

theorem takeOnto_agreed (agree : Agree budget allows one other) (taken : List α) (limit : Nat) {k j : Nat}
    {state : Iteration σ α} {world : ω} (there : allowing allows k state world) (spent : budget.spent j world)
    (room : k + j < budget.limit) : Agreed budget (allowing allows) (k + j) world (takeOnto one taken limit state world)
      (takeOnto other taken limit state world) := by
  induction limit generalizing taken k j state world with
  | zero => exact .still _ there spent
  | succ limit ih =>
    have next := takeNext_agreed agree there spent room
    rw [takeOnto, takeOnto]
    generalize takeNext one state world = outcome, takeNext other state world = outcome' at next ⊢
    cases next with
    | @agreed result _ _ _ _ there spent less moved =>
      obtain _ | _ | value := result
      · exact .agreed there spent less moved
      · exact .agreed there spent less moved
      · exact (ih (value :: taken) there spent (by omega)).from_before moved less

end Iteration

-- By the rounds: each gets nearer to the limit or to the last retry.
theorem Session.drain_agreed (agree : Agree budget allows one other) (limit retries : Nat) (taken : List α)
    (retried : Nat) {k j : Nat} {state : σ} {world : ω} (there : allows k state world) (spent : budget.spent j world)
    (room : k + j < budget.limit) :
    Agreed budget allows (k + j) world (drain one limit retries taken retried state world)
      (drain other limit retries taken retried state world) := by
  induction rounds : limit + retries generalizing limit retries taken retried k j state world with
  | zero =>
    obtain rfl : limit = 0 := by omega
    rw [drain, drain]
    exact .still _ there spent
  | succ rounds ih =>
    cases limit with
    | zero =>
      rw [drain, drain]
      exact .still _ there spent
    | succ limit =>
      have asked := agree.query there spent room
      rw [drain, drain]
      generalize one.query state world = outcome, other.query state world = outcome' at asked ⊢
      cases asked with
      | @agreed result state middle k' j' there spent less moved =>
        obtain _ | value | _ | _ := result
        · exact .agreed there spent less moved
        · have passed := agree.advance there spent (by omega)
          dsimp only
          generalize one.advance state middle = outcome, other.advance state middle = outcome' at passed ⊢
          cases passed with
          | @agreed result _ _ _ _ there spent below went =>
            have moved := budget.drifts.goes_on moved went
            cases result with
            | error fault => exact .agreed there spent (by omega) moved
            | ok =>
              have onward := ih limit retries (value :: taken) retried there spent (by omega) (by omega)
              exact onward.from_before moved (by omega)
        · exact .agreed there spent less moved
        · cases retries with
          | zero => exact .agreed there spent less moved
          | succ retries =>
            have onward := ih (limit + 1) retries taken (retried + 1) there spent (by omega) (by omega)
            exact onward.from_before moved less

end Reading
end LightestFirst
