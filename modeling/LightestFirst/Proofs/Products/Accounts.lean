import LightestFirst.Proofs.Along
import LightestFirst.Proofs.Products.Coverage
-- The accounts of a product: what its right stream has been asked for, how far its buffer goes, and which
-- pairs have been joined. A poll keeps them, and leaves no head of a lane that is kept unjoined.
namespace LightestFirst
open Stream' (Seq)
variable {ω σ τ κ α β : Type} {setting : Setting ω}

-- The same stream, in a world with something beside that it leaves alone.
def Machine.aside (source : Machine ω σ α) : Machine (κ × ω) σ α where
  query state world := beneath world.1 (source.query state world.2)
  advance state world := beneath world.1 (source.advance state world.2)
where
  beneath {β : Type} (kept : κ) : Attempt β × σ × ω → Attempt β × σ × κ × ω
    | (result, state, after) => (result, state, kept, after)

def Setting.aside (κ : Type) (setting : Setting ω) : Setting (κ × ω) where
  sound world := setting.sound world.2
  moves := Beside setting.moves
  hinders cause before after := setting.hinders cause before.2 after.2
  stays world := setting.stays world.2
  goes_on := setting.goes_on
  hinders_before := setting.hinders_before
  hinders_after := setting.hinders_after

def Standing.aside (stands : Standing σ ω) : Standing σ (κ × ω) := fun place seen state world =>
  stands place seen state world.2

section Beneath
variable {course : Course α} {stands : Standing σ ω} {place : Nat} {world : κ × ω}

theorem Told.beneath {outcome : Attempt (Status α) × σ × ω} (told : Told setting course stands place world.2 outcome) :
    Told (setting.aside κ) course stands.aside place world (Machine.aside.beneath world.1 outcome) := by
  cases told with
  | answered answers sound moved there => exact .answered answers sound moved there
  | failed hinders sound moved there => exact .failed hinders sound moved there

theorem Passed.beneath {outcome : Attempt Unit × σ × ω} (passed : Passed setting stands place world.2 outcome) :
    Passed (setting.aside κ) stands.aside place world (Machine.aside.beneath world.1 outcome) := by
  cases passed with
  | passed sound moved there => exact .passed sound moved there

theorem Plays.aside {source : Machine ω σ α} (plays : Plays setting source course stands) :
    Plays (setting.aside κ) source.aside course stands.aside where
  query there sound := (plays.query there sound).beneath
  advance there ready sound := (plays.advance there ready sound).beneath
  kept there moved := plays.kept there moved

end Beneath

theorem Counted.along {moves : ω → ω → Prop} {source : Machine ω σ α} (inner : source.Along moves) :
    (Counted.machine source).Along moves :=
  ⟨fun state world => inner.query state.stream world, fun state world => inner.advance state.stream world⟩

theorem Buffered.draw_queries {source : Machine ω σ α} {state later : Counted σ} {flag moved : Bool} {world after : ω}
    {status : Status α} (drawn : draw (Counted.machine source) state flag world = (.ok status, moved, later, after)) :
    later.queries = state.queries + 1 := by
  have asks : ∀ (state : Counted σ) (world : ω),
      draw.ask (Counted.machine source) state world = (.ok status, moved, later, after) →
        later.queries = state.queries + 1 := by
    intro state world asked
    simp only [draw.ask, Counted.machine] at asked
    generalize source.query state.stream world = outcome at asked
    obtain ⟨_ | _, _, _⟩ := outcome
    · cases asked
    · cases asked
      rfl
  cases flag with
  | false => exact asks state world drawn
  | true =>
    simp only [draw, Counted.machine] at drawn
    generalize source.advance state.stream world = outcome at drawn
    obtain ⟨_ | _, stream, middle⟩ := outcome
    · cases drawn
    · exact asks ⟨stream, state.queries, state.advances + 1⟩ middle drawn

namespace Paired

def noting (join : α → α → ω → Attempt α × ω) (x y : α) (world : List (α × α) × ω) : Attempt α × List (α × α) × ω :=
  match join x y world.2 with
  | (result, after) => (result, (x, y) :: world.1, after)

theorem noting_computes {join : α → α → ω → Attempt α × ω} {x y value : α}
    (computes : setting.Computes (join x y) value) :
    (setting.aside _).Computes (noting join x y) value := by
  intro world sound
  have given := computes world.2 sound
  rw [noting]
  generalize join x y world.2 = outcome at given ⊢
  cases given with
  | given sound moved => exact .given sound moved
  | refused hinders sound moved => exact .refused hinders sound moved

def computed (lane : Lane α) : Bool :=
  match lane.joins.cached with
  | some (.ready _) => true
  | _ => false

def front (lane : Lane α) : Nat × Nat := (lane.ordinal, lane.joins.inner.index)

def heads (lanes : List (Lane α)) : List (Nat × Nat) := (lanes.filter computed).map front

theorem heads_nil : heads ([] : List (Lane α)) = [] := rfl

theorem heads_joined {lane : Lane α} (joined : computed lane = true) (lanes : List (Lane α)) :
    heads (lane :: lanes) = front lane :: heads lanes := by
  rw [heads, List.filter_cons_of_pos joined, List.map_cons, heads]

theorem heads_bare {lane : Lane α} (bare : computed lane = false) (lanes : List (Lane α)) :
    heads (lane :: lanes) = heads lanes := by
  rw [heads, List.filter_cons_of_neg (by rw [bare]; exact Bool.false_ne_true), heads]

theorem heads_cons (lane : Lane α) (lanes : List (Lane α)) : heads (lane :: lanes) = heads [lane] ++ heads lanes := by
  cases joined : computed lane with
  | true =>
    rw [heads_joined joined, heads_joined joined]
    rfl
  | false =>
    rw [heads_bare joined, heads_bare joined]
    rfl

def operands (xs ys : Seq α) (p : Nat × Nat) : Option (α × α) :=
  (xs.get? p.1).bind fun x => (ys.get? p.2).map (x, ·)

structure Account (xs ys : Seq α) (bound : Nat) (pairs : List (Nat × Nat))
    (shared : Buffered (Counted τ) α × List (α × α) × ω) : Prop where
  once : shared.1.source.queries = shared.1.buffer.size + shared.1.ended.toNat
  within : shared.1.buffer.size ≤ bound
  calls : (shared.2.1.map some).Perm (pairs.map (operands xs ys))

section Reading
variable {source : Machine ω τ α} {stands : Standing τ ω} {xs ys : Seq α} {bound place : Nat} {pairs : List (Nat × Nat)}
  {shared : Buffered (Counted τ) α × List (α × α) × ω}

abbrev noted (setting : Setting ω) (ys : Seq α) (stands : Standing τ ω) :
    Setting (Buffered (Counted τ) α × List (α × α) × ω) :=
  (setting.aside _).sharing (Grid.course ys) (Counted.Stands stands.aside)

theorem read_log (source : Machine ω τ α) (place : Nat) (shared : Buffered (Counted τ) α × List (α × α) × ω) :
    (readRight (Counted.machine source.aside) place shared).2.2.1 = shared.2.1 := by
  have drifts : Drifts fun before after : List (α × α) × ω => after.1 = before.1 :=
    ⟨fun _ => rfl, fun one two => two.trans one⟩
  have inner : source.aside.Along fun before after : List (α × α) × ω => after.1 = before.1 :=
    ⟨fun _ _ => rfl, fun _ _ => rfl⟩
  exact Buffered.read_along drifts (Counted.along inner) place shared

theorem read_accounted (prompt : setting.Prompt) (plays : Plays setting source (Grid.course ys) stands)
    (sound : (noted setting ys stands).sound shared) (behind : place ≤ shared.1.buffer.size) (inside : place < bound)
    (account : Account xs ys bound pairs shared) :
    ∃ after, readRight (Counted.machine source.aside) place shared = (.ok (Iterated.answer (ys.get? place)), after) ∧
      (noted setting ys stands).sound after ∧ Account xs ys bound pairs after := by
  have shown := Buffered.read_shown (Counted.plays plays.aside) sound behind
  have log := read_log source place shared
  obtain ⟨cell, world⟩ := shared
  rw [readRight] at log ⊢
  rw [Buffered.read] at shown log ⊢
  cases settled : cell.settled? place with
  | some status =>
    obtain ⟨exact, _⟩ := Buffered.settled_course sound.2.toHolds behind settled
    exact ⟨_, congrArg (fun status => (Except.ok status, cell, world)) exact.symm, sound, account⟩
  | none =>
    obtain ⟨rfl, going⟩ := Buffered.unsettled behind settled
    simp only [settled] at shown log ⊢
    obtain ⟨source, buffer, ended, flag⟩ := cell
    obtain rfl : ended = false := going
    simp only [Buffered.pull] at shown log ⊢
    generalize drawn : Buffered.draw _ source flag world = outcome at shown log ⊢
    obtain ⟨result, moved, later, after⟩ := outcome
    cases shown with
    | failed hinders => exact absurd hinders (prompt _ _ _)
    | @answered status _ answers fine _ _ =>
      have exact : Iterated.answer (ys.get? buffer.size) = status := answers.resolve_right fun held => prompt _ _ _ held.2
      have queries := Buffered.draw_queries drawn
      have before : source.queries = buffer.size := account.once
      refine ⟨_, congrArg (fun status => (Except.ok status, _, after)) exact.symm, fine, ?_⟩
      have calls : (after.1.map some).Perm (pairs.map (operands xs ys)) := log ▸ account.calls
      cases status with
      | pending => exact absurd exact Iterated.answer_ne_pending
      | ended => exact ⟨by simp only [Buffered.absorb, queries, before]; rfl, account.within, calls⟩
      | ready value =>
        refine ⟨?_, ?_, calls⟩
        · simp only [Buffered.absorb, queries, before, Array.size_push]
          rfl
        · rw [Buffered.size_absorb_ready]
          exact inside

end Reading

section Lanes
variable {source : Machine ω τ α} {stands : Standing τ ω} {xs ys : Seq α} {bound : Nat} {others : List (Nat × Nat)}
  {join : α → α → ω → Attempt α × ω} {joined : α → α → α} {shared : Buffered (Counted τ) α × List (α × α) × ω}

theorem lane_accounted (prompt : setting.Prompt) (plays : Plays setting source (Grid.course ys) stands)
    (computes : ∀ x y, setting.Computes (join x y) (joined x y)) {row column : Nat} {shown : Bool} {lane : Lane α}
    (here : LaneStands joined (Grid.course xs) (Grid.course ys) row column shown lane shared) (inside : column < bound)
    (sound : (noted setting ys stands).sound shared) (account : Account xs ys bound (heads [lane] ++ others) shared) :
    ∃ status kept after,
      pollLane (Counted.machine source.aside) (noting join) lane shared = (.ok status, kept, after) ∧
      (noted setting ys stands).sound after ∧ (noted setting ys stands).moves shared after ∧
      (status = .ended ∧ Account xs ys bound others after ∨
        status ≠ .ended ∧ computed kept = true ∧ Account xs ys bound (front kept :: others) after) := by
  have waitless : (noted setting ys stands).Prompt := fun cause _ _ => prompt cause _ _
  have told := (lane_plays (Counted.plays plays.aside) (fun x y => noting_computes (computes x y)) lane.element).query
    here.2.2 sound
  obtain ⟨joins, after, asked, fine, moved, _⟩ := told.exactly waitless
  generalize answered : (Grid.course ys).map (joined lane.element) column = status at asked
  refine ⟨status, _, after, pollLane_eq asked, fine, moved, ?_⟩
  obtain ⟨ordinal, element, ⟨⟨index, observed⟩, cached, calls⟩⟩ := lane
  obtain ⟨rfl, shown, stand⟩ := here
  cases cached with
  | some kept =>
    obtain ⟨given, stable, _⟩ := stand
    cases asked
    rw [← Status.isStable_map (joined element), ← given] at stable
    cases status with
    | pending => cases stable
    | ended =>
      rw [heads_bare rfl, heads_nil, List.nil_append] at account
      exact .inl ⟨rfl, account⟩
    | ready value => exact .inr ⟨by simp, rfl, account⟩
  | none =>
    obtain ⟨_, _, rfl, behind, _⟩ := stand
    rw [heads_bare rfl, heads_nil, List.nil_append] at account
    obtain ⟨middle, read, fine, kept⟩ := read_accounted prompt plays sound behind inside account
    simp only [laneMachine, Mapped.machine, Mapped.query, Reader.machine, Reader.query, read] at asked
    cases found : ys.get? index with
    | none =>
      rw [found] at asked
      cases asked
      exact .inl ⟨rfl, kept⟩
    | some y =>
      rw [found] at asked
      obtain ⟨cell, log, world⟩ := middle
      have given := computes element y world fine.1
      simp only [Iterated.answer, joinWith, noting] at asked
      generalize join element y world = outcome at asked given
      cases given with
      | refused hinders => exact absurd hinders (prompt _ _ _)
      | given =>
        cases asked
        refine .inr ⟨by simp, rfl, kept.once, kept.within, ?_⟩
        have pair : operands xs ys (ordinal, index) = some (element, y) := by
          rw [operands, Iterated.answer_eq_ready.mp shown, found]
          rfl
        rw [List.map_cons, List.map_cons, front, pair]
        exact kept.calls.cons _

theorem Account.perm {pairs others : List (Nat × Nat)} (account : Account xs ys bound pairs shared)
    (same : pairs.Perm others) : Account xs ys bound others shared :=
  ⟨account.once, account.within, account.calls.trans (same.map _)⟩

-- By the rows, as in a poll: what the lanes in front have been joined to is among the others.
theorem poll_accounted (prompt : setting.Prompt) (plays : Plays setting source (Grid.course ys) stands)
    (computes : ∀ x y, setting.Computes (join x y) (joined x y)) {row : Nat} {columns : List Nat} {seen : Bool}
    {lanes : List (Lane α)} (stand : Lanes joined (Grid.course xs) (Grid.course ys) seen shared row columns lanes)
    (inside : ∀ column ∈ columns, column < bound) (sound : (noted setting ys stands).sound shared)
    (account : Account xs ys bound (heads lanes ++ others) shared) :
    ∃ statuses kept after,
      poll (Counted.machine source.aside) (noting join) lanes shared = (.ok statuses, kept, after) ∧
      (noted setting ys stands).moves shared after ∧ Account xs ys bound (heads kept ++ others) after ∧
      ∀ lane ∈ kept, computed lane = true := by
  induction columns generalizing row seen lanes others shared with
  | nil =>
    cases stand
    exact ⟨[], [], shared, rfl, (noted setting ys stands).stays shared, account, nofun⟩
  | cons column columns ih =>
    have behind : ∀ column ∈ columns, column < bound := fun other among => inside other (List.mem_cons_of_mem _ among)
    cases stand with
    | dropped _ rest => exact ih rest behind sound account
    | @lane _ _ _ lane lanes shown _ here rest =>
      rw [heads_cons, List.append_assoc] at account
      obtain ⟨status, kept, middle, asked, sound, moved, ⟨rfl, account⟩ | ⟨going, joined, account⟩⟩ :=
        lane_accounted prompt plays computes here (inside column List.mem_cons_self) sound account
      · rw [poll_dropped asked]
        obtain ⟨statuses, kept, after, polled, went, account, all⟩ := ih (rest.kept moved.2) behind sound account
        exact ⟨statuses, kept, after, polled, (noted setting ys stands).goes_on moved went, account, all⟩
      · obtain ⟨statuses, lanes, after, polled, went, account, all⟩ :=
          ih (rest.kept moved.2) behind sound (account.perm List.perm_middle.symm)
        rw [poll_kept asked going, polled]
        refine ⟨_, _, after, rfl, (noted setting ys stands).goes_on moved went, ?_, ?_⟩
        · rw [heads_joined joined, List.cons_append]
          exact account.perm List.perm_middle
        · intro lane among
          rcases List.mem_cons.mp among with rfl | among
          · exact joined
          · exact all lane among

end Lanes
end Paired
end LightestFirst
