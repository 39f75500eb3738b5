import LightestFirst.Proofs.Budgets
import LightestFirst.Proofs.Networks.LastingAnswers
-- Readers that follow what they read: none is past the end of its buffer, and none is at the end of it with an
-- element shown. The lanes of a product are such readers, of the buffer that the product keeps for itself.
namespace LightestFirst
variable {ω σ τ α : Type}

namespace Reader
variable {readAt : Nat → ω → Attempt (Status α) × ω} {reader later : Reader} {answer : Attempt (Status α)}
  {world after : ω}

theorem query_reads (call : reader.query readAt world = (answer, later, after)) :
    readAt reader.index world = (answer, after) := by
  rw [query] at call
  obtain ⟨⟨result, middle⟩, read⟩ := Exists.intro _ (rfl : readAt reader.index world = _)
  rw [read] at call ⊢
  cases result with
  | error fault =>
    cases call
    rfl
  | ok status =>
    cases call
    rfl

theorem query_congr {other : Nat → ω → Attempt (Status α) × ω}
    (same : readAt reader.index world = other reader.index world) :
    reader.query readAt world = reader.query other world := by
  rw [query, query, same]

theorem Follows.queried {size more : Nat} (follows : reader.Follows size) (grown : size ≤ more)
    (call : reader.query readAt world = (answer, later, after))
    (shown : ∀ value, answer = .ok (.ready value) → reader.index < more) : later.Follows more := by
  have read := query_reads call
  rw [query, read] at call
  cases answer with
  | error fault =>
    cases call
    exact follows.kept grown
  | ok status =>
    cases call
    refine ⟨Nat.le_trans follows.behind grown, fun ready => ?_⟩
    obtain ⟨value, rfl⟩ := Status.isReady_iff.mp ready
    exact shown value rfl

theorem Follows.advanced {size : Nat} {answer : Attempt Unit} (follows : reader.Follows size)
    (call : reader.advance world = (answer, later, after)) : later.Follows size ∧ after = world := by
  rw [Reader.advance] at call
  split at call
  · next observed =>
    cases call
    exact ⟨⟨follows.shown observed, fun shown => by cases shown⟩, rfl⟩
  · cases call
    exact ⟨follows, rfl⟩

theorem agree_following {budget : Budget ω} {size : ω → Nat}
    (reads : ∀ {place j world}, place ≤ size world → budget.spent j world → j < budget.limit →
      LightestFirst.Shown budget j world (readAt place world) (readAt place world))
    (shows : ∀ {place world value after}, place ≤ size world → readAt place world = (.ok (.ready value), after) →
      place < size after)
    (grows : ∀ {world after}, budget.moves world after → size world ≤ size after) :
    Agree budget (fun _ reader world => reader.Follows (size world)) (machine readAt) (machine readAt) where
  query {k j reader world} follows spent room := by
    have read := reads follows.behind spent (by omega)
    obtain ⟨⟨answer, later, after⟩, call⟩ := Exists.intro _ (rfl : reader.query readAt world = _)
    change Agreed budget _ (k + j) world (reader.query readAt world) (reader.query readAt world)
    have told := query_reads call
    rw [call]
    rw [told] at read
    cases read with
    | @shown _ _ i spent less moved =>
      have there := follows.queried (grows moved) call fun value same => shows follows.behind (same ▸ told)
      exact .agreed (k := k) there spent (by omega) moved
  advance {k j reader world} follows spent _ := by
    obtain ⟨⟨answer, later, after⟩, call⟩ := Exists.intro _ (rfl : reader.advance world = _)
    change Agreed budget _ (k + j) world (reader.advance world) (reader.advance world)
    obtain ⟨there, rfl⟩ := follows.advanced call
    rw [call]
    exact .still _ there spent
  kept follows moved := follows.kept (grows moved)

end Reader

namespace Buffered
variable {source : Machine ω τ α} {cell after : Buffered τ α} {place : Nat} {world later : ω}

theorem read_grows (source : Machine ω τ α) (place : Nat) (cell : Buffered τ α) (world : ω) :
    cell.buffer.size ≤ (cell.read source place world).2.1.buffer.size := by
  rw [read]
  split
  · exact Nat.le_refl _
  · obtain ⟨_, buffer, ended, flag⟩ := cell
    exact size_absorb (⟨(), buffer, ended, _⟩ : Buffered Unit α) _ _ _

theorem read_shows {value : α} (behind : place ≤ cell.buffer.size)
    (read : cell.read source place world = (.ok (.ready value), after, later)) : place < after.buffer.size := by
  rw [Buffered.read] at read
  split at read
  · next settled =>
    cases read
    exact settled_ready settled
  · next unsettled =>
    obtain ⟨_, buffer, ended, flag⟩ := cell
    simp only [pull] at read
    generalize draw source _ flag world = outcome at read
    obtain ⟨result, flag, state, middle⟩ := outcome
    cases read
    rw [size_absorb_ready]
    exact Nat.lt_succ_of_le behind

def growing : Budget (Buffered τ α × ω) where
  spent _ _ := True
  moves before after := before.1.buffer.size ≤ after.1.buffer.size
  limit := 1
  drifts := ⟨fun _ => Nat.le_refl _, Nat.le_trans⟩

end Buffered

namespace Paired
variable {first : Machine ω σ α} {second : Machine ω τ α} {le : α → α → Bool} {join : α → α → ω → Attempt α × ω}

def LanesFollow (lanes : List (Lane α)) (size : Nat) : Prop := ∀ lane ∈ lanes, lane.joins.inner.Follows size

def laneFollowing : Allowance (Lane α) (Buffered τ α × ω) :=
  fun _ lane shared => lane.joins.inner.Follows shared.1.buffer.size

def lanesFollowing : Allowance (List (Lane α)) (Buffered τ α × ω) :=
  fun _ lanes shared => LanesFollow lanes shared.1.buffer.size

theorem LanesFollow.nil (size : Nat) : LanesFollow ([] : List (Lane α)) size := fun _ among => by cases among

theorem LanesFollow.kept {lanes : List (Lane α)} {size more : Nat} (follow : LanesFollow lanes size)
    (grown : size ≤ more) : LanesFollow lanes more := fun lane among => (follow lane among).kept grown

theorem LanesFollow.cons {lane : Lane α} {lanes : List (Lane α)} {size : Nat} (here : lane.joins.inner.Follows size)
    (behind : LanesFollow lanes size) : LanesFollow (lane :: lanes) size := List.forall_mem_cons.mpr ⟨here, behind⟩

theorem lane_following (second : Machine ω τ α) (join : α → α → ω → Attempt α × ω) (element : α) :
    Agree Buffered.growing (Mapped.allowing fun _ reader shared => reader.Follows shared.1.buffer.size)
      (laneMachine second join element) (laneMachine second join element) := by
  refine Mapped.agree (Reader.agree_following (fun {place _ shared} _ _ _ => ?_) ?_ id) fun _ y _ _ => ?_
  · exact .shown trivial (Nat.le_refl _) (Buffered.read_grows second place shared.1 shared.2)
  · exact fun behind read => Buffered.read_shows behind read
  · exact fun _ => ⟨trivial, Nat.le_refl _⟩

theorem pollLane_following (second : Machine ω τ α) (join : α → α → ω → Attempt α × ω) {lane : Lane α}
    {shared : Buffered τ α × ω} (here : lane.joins.inner.Follows shared.1.buffer.size) :
    Agreed Buffered.growing laneFollowing 0 shared (pollLane second join lane shared)
      (pollLane second join lane shared) := by
  have reads : Mapped.allowing (fun _ reader shared => reader.Follows shared.1.buffer.size) 0 lane.joins shared := here
  have asked := (lane_following second join lane.element).query (j := 0) reads trivial Nat.zero_lt_one
  exact asked.within 0 (Nat.le_refl _) fun _ there => there

theorem advanceLane_following (second : Machine ω τ α) (join : α → α → ω → Attempt α × ω) {lane : Lane α}
    {shared : Buffered τ α × ω} (here : lane.joins.inner.Follows shared.1.buffer.size) :
    Agreed Buffered.growing laneFollowing 0 shared (advanceLane second join lane shared)
      (advanceLane second join lane shared) := by
  have reads : Mapped.allowing (fun _ reader shared => reader.Follows shared.1.buffer.size) 0 lane.joins shared := here
  have passed := (lane_following second join lane.element).advance (j := 0) reads trivial Nat.zero_lt_one
  exact passed.within 0 (Nat.le_refl _) fun _ there => there

theorem poll_following (second : Machine ω τ α) (join : α → α → ω → Attempt α × ω) (lanes : List (Lane α))
    (shared : Buffered τ α × ω) (follow : LanesFollow lanes shared.1.buffer.size) :
    Agreed Buffered.growing lanesFollowing 0 shared (poll second join lanes shared)
      (poll second join lanes shared) := by
  induction lanes generalizing shared with
  | nil => exact .agreed (k := 0) (j := 0) follow trivial (Nat.le_refl _) (Nat.le_refl _)
  | cons lane rest ih =>
    obtain ⟨here, others⟩ := List.forall_mem_cons.mp follow
    have asked := pollLane_following second join here
    obtain ⟨⟨result, later, middle⟩, told⟩ := Exists.intro _ (rfl : pollLane second join lane shared = _)
    rw [told] at asked
    cases asked with
    | agreed there _ _ moved =>
      have still := LanesFollow.kept others moved
      have behind := ih middle still
      cases result with
      | error fault =>
        simp only [poll, told]
        exact .agreed (k := 0) (j := 0) (.cons there still) trivial (Nat.le_refl _) moved
      | ok status =>
        by_cases ended : status = .ended
        · subst ended
          rw [poll_dropped told]
          exact behind.from_before moved (Nat.le_refl 0)
        · rw [poll_kept told ended]
          generalize poll second join rest middle = outcome at behind ⊢
          cases behind with
          | @agreed answers kept after _ _ follow _ _ went =>
            have here : later.joins.inner.Follows after.1.buffer.size := there.kept went
            have moved := Nat.le_trans moved went
            cases answers with
            | error fault => exact .agreed (k := 0) (j := 0) (.cons here follow) trivial (Nat.le_refl _) moved
            | ok statuses => exact .agreed (k := 0) (j := 0) (.cons here follow) trivial (Nat.le_refl _) moved

theorem grow_follows (first : Machine ω σ α) (state : Paired σ τ α) (world : ω)
    (follow : LanesFollow state.lanes state.right.buffer.size) :
    LanesFollow (grow first state world).2.1.lanes (grow first state world).2.1.right.buffer.size := by
  rw [grow.eq_def]
  split
  · next left right lanes appended choice =>
    generalize first.query left world = outcome
    obtain ⟨_ | x | _ | _, left, middle⟩ := outcome
    · exact follow
    · dsimp only
      generalize first.advance left middle = outcome
      obtain ⟨_ | _, left, after⟩ := outcome
      · exact follow
      · intro lane among
        rcases List.mem_append.mp among with among | last
        · exact follow lane among
        · obtain rfl := List.mem_singleton.mp last
          exact .start _
    · exact follow
    · exact follow
  · exact follow

theorem query_follows (state : Paired σ τ α) (world : ω) (follow : LanesFollow state.lanes state.right.buffer.size) :
    LanesFollow ((machine first second le join).query state world).2.1.lanes
      ((machine first second le join).query state world).2.1.right.buffer.size := by
  simp only [machine, query]
  cases state.choice with
  | some choice => exact follow
  | none =>
    have grown := grow_follows first state world follow
    dsimp only
    generalize grow first state world = outcome at grown ⊢
    obtain ⟨_ | _ | _, state, middle⟩ := outcome
    · exact grown
    · exact grown
    · have polled := poll_following second join state.lanes (state.right, middle) grown
      simp only [settle]
      generalize poll second join state.lanes (state.right, middle) = outcome at polled ⊢
      cases polled with
      | @agreed answers lanes after _ _ there _ _ _ =>
        cases answers with
        | error fault => exact there
        | ok statuses => exact there

theorem advance_follows (state : Paired σ τ α) (world : ω) (follow : LanesFollow state.lanes state.right.buffer.size) :
    LanesFollow ((machine first second le join).advance state world).2.1.lanes
      ((machine first second le join).advance state world).2.1.right.buffer.size := by
  obtain ⟨left, leftEnded, right, lanes, appended, needsLeft, _ | ⟨value, place⟩ | _⟩ := state
  · exact follow
  · simp only [machine, Paired.advance]
    cases here : lanes[place]? with
    | none => exact follow
    | some lane =>
      have behind : lane.joins.inner.Follows (right, world).1.buffer.size := follow lane (List.mem_of_getElem? here)
      have passed := advanceLane_following second join behind
      dsimp only
      generalize advanceLane second join lane (right, world) = outcome at passed ⊢
      cases passed with
      | @agreed answer lane after _ _ there _ _ moved =>
        have set : LanesFollow (lanes.set place lane) after.1.buffer.size := by
          intro other among
          rcases List.mem_or_eq_of_mem_set among with among | rfl
          · exact (follow other among).kept moved
          · exact there
        cases answer with
        | error fault => exact set
        | ok => exact set
  · exact follow

end Paired
end LightestFirst
