import LightestFirst.Network.Session
import LightestFirst.Proofs.Playing.Multiplexed
-- What the calls of a stream do to the world, whatever state they find it in and however they end: they
-- take it no further than the functions, iterators and streams inside.
namespace LightestFirst
variable {ω σ τ ι α β : Type}

structure Drifts (moves : ω → ω → Prop) : Prop where
  stays : ∀ world, moves world world
  goes_on : ∀ {first second third}, moves first second → moves second third → moves first third

structure Machine.Along (moves : ω → ω → Prop) (machine : Machine ω σ α) : Prop where
  query : ∀ state world, moves world (machine.query state world).2.2
  advance : ∀ state world, moves world (machine.advance state world).2.2

def Beside (moves : ω → ω → Prop) (before after : τ × ω) : Prop := moves before.2 after.2

variable {moves : ω → ω → Prop}

theorem Drifts.beside (drifts : Drifts moves) : Drifts (Beside moves : τ × ω → τ × ω → Prop) :=
  ⟨fun world => drifts.stays world.2, drifts.goes_on⟩

theorem Empty.along (drifts : Drifts moves) : (Empty.machine : Machine ω Unit α).Along moves :=
  ⟨fun _ => drifts.stays, fun _ => drifts.stays⟩

theorem Single.along (drifts : Drifts moves) : (Single.machine : Machine ω (Single α) α).Along moves where
  query := by
    rintro ⟨_ | value⟩ world
    · exact drifts.stays world
    · exact drifts.stays world
  advance := by
    rintro ⟨_ | value⟩ world
    · exact drifts.stays world
    · exact drifts.stays world

theorem Iterated.along {next : ι → ω → Option α × ι × ω} (drifts : Drifts moves)
    (pulls : ∀ iterator world, moves world (next iterator world).2.2) : (Iterated.machine next).Along moves where
  query := by
    rintro ⟨iterator, _ | head⟩ world
    · exact pulls iterator world
    · exact drifts.stays world
  advance := by
    rintro ⟨iterator, _ | _ | value⟩ world
    · exact drifts.stays world
    · exact drifts.stays world
    · exact drifts.stays world

theorem Mapped.along {source : Machine ω σ α} {f : Nat → α → ω → Attempt β × ω} (drifts : Drifts moves)
    (inner : source.Along moves) (acts : ∀ call value world, moves world (f call value world).2) :
    (Mapped.machine source f).Along moves where
  query := by
    rintro ⟨state, _ | status, calls⟩ world
    · have asked := inner.query state world
      simp only [machine, query]
      generalize source.query state world = outcome at asked ⊢
      obtain ⟨_ | value | _ | _, later, after⟩ := outcome
      · exact asked
      · have acted := acts (calls + 1) value after
        dsimp only
        generalize f (calls + 1) value after = outcome at acted ⊢
        obtain ⟨_ | _, _⟩ := outcome
        · exact drifts.goes_on asked acted
        · exact drifts.goes_on asked acted
      · exact asked
      · exact asked
    · exact drifts.stays world
  advance := by
    rintro ⟨state, _ | _ | _ | _, calls⟩ world
    · exact drifts.stays world
    · exact inner.advance state world
    · exact drifts.stays world
    · exact drifts.stays world

theorem Merged.along {first : Machine ω σ α} {second : Machine ω τ α} {le : α → α → Bool} (drifts : Drifts moves)
    (left : first.Along moves) (right : second.Along moves) : (Merged.machine first second le).Along moves where
  query := by
    rintro ⟨l, r, _ | verdict⟩ world
    · have asked := left.query l world
      simp only [machine, query]
      generalize first.query l world = outcome at asked ⊢
      obtain ⟨_ | x, l, middle⟩ := outcome
      · exact asked
      · have answered := right.query r middle
        dsimp only
        generalize second.query r middle = outcome at answered ⊢
        obtain ⟨_ | y, r, after⟩ := outcome
        · exact drifts.goes_on asked answered
        · exact drifts.goes_on asked answered
    · exact drifts.stays world
  advance := by
    rintro ⟨l, r, _ | _ | _ | _⟩ world
    · exact drifts.stays world
    · exact left.advance l world
    · exact right.advance r world
    · exact drifts.stays world

theorem Postponed.along {build : τ → ω → Attempt σ × ω} {inner : Machine ω σ α} (drifts : Drifts moves)
    (builds : ∀ thunk world, moves world (build thunk world).2) (inside : inner.Along moves) :
    (Postponed.machine build inner).Along moves := by
  -- a call that reaches what is inside goes as far as building it and calling it
  have reaches : ∀ {β : Type} (call : σ → ω → Attempt β × σ × ω), (∀ state world, moves world (call state world).2.2) →
      ∀ state world, moves world (reach build call state world).2.2 := by
    rintro β call called (thunk | state | _) world
    · have built := builds thunk world
      simp only [reach]
      generalize build thunk world = outcome at built ⊢
      obtain ⟨_ | state, after⟩ := outcome
      · exact built
      · exact drifts.goes_on built (called state after)
    · exact called state world
    · exact drifts.stays world
  exact ⟨reaches inner.query inside.query, reaches inner.advance inside.advance⟩

theorem Reader.along {readAt : Nat → ω → Attempt (Status α) × ω} (drifts : Drifts moves)
    (reads : ∀ place world, moves world (readAt place world).2) : (Reader.machine readAt).Along moves where
  query := by
    rintro ⟨index, observed⟩ world
    have read := reads index world
    simp only [machine, query]
    generalize readAt index world = outcome at read ⊢
    obtain ⟨_ | _, after⟩ := outcome
    · exact read
    · exact read
  advance := by
    rintro ⟨index, _ | _⟩ world
    · exact drifts.stays world
    · exact drifts.stays world

namespace Buffered
variable {source : Machine ω σ α}

theorem draw_along (drifts : Drifts moves) (inner : source.Along moves) (state : σ) (flag : Bool) (world : ω) :
    moves world (draw source state flag world).2.2.2 := by
  have asks : ∀ state world, moves world (draw.ask source state world).2.2.2 := by
    intro state world
    have asked := inner.query state world
    rw [draw.ask]
    generalize source.query state world = outcome at asked ⊢
    obtain ⟨_ | _, _, _⟩ := outcome
    · exact asked
    · exact asked
  cases flag with
  | false => exact asks state world
  | true =>
    have passed := inner.advance state world
    rw [draw]
    generalize source.advance state world = outcome at passed ⊢
    obtain ⟨_ | _, state, after⟩ := outcome
    · exact passed
    · exact drifts.goes_on passed (asks state after)

theorem read_along (drifts : Drifts moves) (inner : source.Along moves) (place : Nat) (shared : Buffered σ α × ω) :
    Beside moves shared (Paired.readRight source place shared).2 := by
  obtain ⟨⟨state, buffer, ended, flag⟩, world⟩ := shared
  simp only [Paired.readRight, read]
  split
  · exact drifts.stays world
  · exact draw_along drifts inner state flag world

end Buffered

theorem Multiplexed.along {source : Machine ω σ α} (drifts : Drifts moves) (inner : source.Along moves) :
    (Multiplexed.machine source).Along moves where
  query state world :=
    (Reader.along drifts.beside (Buffered.read_along drifts inner)).query state.2 (state.1, world)
  advance state world :=
    (Reader.along drifts.beside (Buffered.read_along drifts inner)).advance state.2 (state.1, world)

namespace Paired
variable {first : Machine ω σ α} {second : Machine ω τ α} {le : α → α → Bool} {join : α → α → ω → Attempt α × ω}

theorem lane_along (drifts : Drifts moves) (right : second.Along moves) (acts : ∀ x y world, moves world (join x y world).2)
    (element : α) : (laneMachine second join element).Along (Beside moves) := by
  refine Mapped.along drifts.beside (Reader.along drifts.beside (Buffered.read_along drifts right)) ?_
  rintro call y ⟨cell, world⟩
  exact acts element y world

theorem poll_first (drifts : Drifts moves) {rest : List (Lane α)}
    (behind : ∀ world, Beside moves world (poll second join rest world).2.2) (lane : Lane α) (world : Buffered τ α × ω) :
    Beside moves (pollLane second join lane world).2.2 (poll second join (lane :: rest) world).2.2 := by
  obtain ⟨⟨result, later, middle⟩, asked⟩ := Exists.intro _ (rfl : pollLane second join lane world = _)
  cases result with
  | error fault =>
    rw [poll, asked]
    exact drifts.stays middle.2
  | ok status =>
    have went := behind middle
    by_cases ended : status = .ended
    · subst ended
      rw [poll_dropped asked, asked]
      exact went
    · rw [poll_kept asked ended, asked]
      generalize poll second join rest middle = outcome at went ⊢
      obtain ⟨_ | _, _, _⟩ := outcome
      · exact went
      · exact went

theorem poll_along (drifts : Drifts moves) (right : second.Along moves)
    (acts : ∀ x y world, moves world (join x y world).2) (lanes : List (Lane α)) (world : Buffered τ α × ω) :
    Beside moves world (poll second join lanes world).2.2 := by
  induction lanes generalizing world with
  | nil => exact drifts.stays world.2
  | cons lane rest ih =>
    have asked : Beside moves world (pollLane second join lane world).2.2 :=
      (lane_along drifts right acts lane.element).query lane.joins world
    exact drifts.beside.goes_on asked (poll_first drifts ih lane world)

theorem grow_along (drifts : Drifts moves) (left : first.Along moves) (state : Paired σ τ α) (world : ω) :
    moves world (grow first state world).2.2 := by
  rw [grow.eq_def]
  split
  · next l _ _ _ _ =>
    have asked := left.query l world
    generalize first.query l world = outcome at asked ⊢
    obtain ⟨_ | x | _ | _, l, middle⟩ := outcome
    · exact asked
    · have passed := left.advance l middle
      dsimp only
      generalize first.advance l middle = outcome at passed ⊢
      obtain ⟨_ | _, _, _⟩ := outcome
      · exact drifts.goes_on asked passed
      · exact drifts.goes_on asked passed
    · exact asked
    · exact asked
  · exact drifts.stays world

theorem settle_along (drifts : Drifts moves) (right : second.Along moves)
    (acts : ∀ x y world, moves world (join x y world).2) (state : Paired σ τ α) (world : ω) :
    moves world (settle second le join state world).2.2 := by
  have polled := poll_along drifts right acts state.lanes (state.right, world)
  simp only [settle]
  generalize poll second join state.lanes (state.right, world) = outcome at polled ⊢
  obtain ⟨_ | _, _, _, _⟩ := outcome
  · exact polled
  · exact polled

theorem along (drifts : Drifts moves) (left : first.Along moves) (right : second.Along moves)
    (acts : ∀ x y world, moves world (join x y world).2) : (machine first second le join).Along moves where
  query := by
    intro state world
    simp only [machine, query]
    cases state.choice with
    | some choice => exact drifts.stays world
    | none =>
      have grown := grow_along drifts left state world
      dsimp only
      generalize grow first state world = outcome at grown ⊢
      obtain ⟨_ | _ | _, state, middle⟩ := outcome
      · exact grown
      · exact grown
      · exact drifts.goes_on grown (settle_along drifts right acts state middle)
  advance := by
    rintro ⟨l, leftEnded, cell, lanes, appended, needsLeft, _ | ⟨value, place⟩ | _⟩ world
    · exact drifts.stays world
    · simp only [machine, Paired.advance]
      cases lanes[place]? with
      | none => exact drifts.stays world
      | some lane =>
        have passed : Beside moves (cell, world) (advanceLane second join lane (cell, world)).2.2 :=
          (lane_along drifts right acts lane.element).advance lane.joins (cell, world)
        dsimp only
        generalize advanceLane second join lane (cell, world) = outcome at passed ⊢
        obtain ⟨_ | _, _, _, _⟩ := outcome
        · exact passed
        · exact passed
    · exact drifts.stays world

end Paired

theorem Followed.along {first : Machine ω σ α} {second : Machine ω τ α} (drifts : Drifts moves)
    (head : first.Along moves) (tail : second.Along moves) : (Followed.machine first second).Along moves where
  query := by
    rintro ⟨h, inHead, t⟩ world
    have asked := head.query h world
    simp only [machine, query]
    generalize first.query h world = outcome at asked ⊢
    obtain ⟨_ | _ | _ | _, h, middle⟩ := outcome
    · exact asked
    · exact asked
    · exact drifts.goes_on asked (tail.query t middle)
    · exact drifts.goes_on asked (tail.query t middle)
  advance := by
    rintro ⟨h, _ | _, t⟩ world
    · exact tail.advance t world
    · exact head.advance h world

theorem Delayed.along {inner : Machine ω σ α} (drifts : Drifts moves) (inside : inner.Along moves) :
    (Delayed.machine inner).Along moves where
  query := by
    rintro ⟨period, _ | left, state⟩ world
    · exact inside.query state world
    · exact drifts.stays world
  advance := by
    rintro ⟨period, left, state⟩ world
    exact inside.advance state world

theorem Gated.along {inner : Machine ω σ α} {isOpen : ω → Bool} (drifts : Drifts moves) (inside : inner.Along moves) :
    (Gated.machine isOpen inner).Along moves where
  query state world := by
    simp only [machine]
    split
    · exact inside.query state world
    · exact drifts.stays world
  advance := inside.advance

theorem Probed.along {inner : Machine ω σ α} {onQuery onAdvance : ω → ω} (drifts : Drifts moves)
    (queried : ∀ world, moves world (onQuery world)) (advanced : ∀ world, moves world (onAdvance world))
    (inside : inner.Along moves) : (Probed.machine onQuery onAdvance inner).Along moves where
  query state world := drifts.goes_on (queried world) (inside.query state _)
  advance state world := drifts.goes_on (advanced world) (inside.advance state _)

section Reading
variable {machine : Machine ω σ α}

theorem Iteration.peek_along (drifts : Drifts moves) (along : machine.Along moves) (state : Iteration σ α) (world : ω) :
    moves world (peek machine state world).2.2 := by
  obtain ⟨stream, _ | status⟩ := state
  · have asked := along.query stream world
    simp only [peek]
    generalize machine.query stream world = outcome at asked ⊢
    obtain ⟨_ | _, _, _⟩ := outcome
    · exact asked
    · exact asked
  · exact drifts.stays world

theorem Iteration.takeNext_along (drifts : Drifts moves) (along : machine.Along moves) (state : Iteration σ α) (world : ω) :
    moves world (takeNext machine state world).2.2 := by
  have peeked := peek_along drifts along state world
  rw [takeNext]
  generalize peek machine state world = outcome at peeked ⊢
  obtain ⟨_ | _ | _ | _, state, middle⟩ := outcome
  · exact peeked
  · have passed := along.advance state.stream middle
    dsimp only
    generalize machine.advance state.stream middle = outcome at passed ⊢
    obtain ⟨_ | _, _, _⟩ := outcome
    · exact drifts.goes_on peeked passed
    · exact drifts.goes_on peeked passed
  · exact peeked
  · exact peeked

theorem Iteration.takeOnto_along (drifts : Drifts moves) (along : machine.Along moves) (taken : List α) (limit : Nat)
    (state : Iteration σ α) (world : ω) : moves world (takeOnto machine taken limit state world).2.2 := by
  induction limit generalizing taken state world with
  | zero => exact drifts.stays world
  | succ limit ih =>
    have next := takeNext_along drifts along state world
    rw [takeOnto]
    generalize takeNext machine state world = outcome at next ⊢
    obtain ⟨_ | _ | value, state, middle⟩ := outcome
    · exact next
    · exact next
    · exact drifts.goes_on next (ih (value :: taken) state middle)

theorem Session.drain_along (drifts : Drifts moves) (along : machine.Along moves) (limit retries : Nat) (taken : List α)
    (retried : Nat) (state : σ) (world : ω) : moves world (drain machine limit retries taken retried state world).2.2 := by
  have queried : ∀ {state world outcome}, machine.query state world = outcome → moves world outcome.2.2 :=
    fun same => same ▸ along.query _ _
  have advanced : ∀ {state world outcome}, machine.advance state world = outcome → moves world outcome.2.2 :=
    fun same => same ▸ along.advance _ _
  fun_induction drain machine limit retries taken retried state world with
  | case1 => exact drifts.stays _
  | case2 _ _ _ _ _ _ _ _ _ asked => exact queried asked
  | case3 _ _ _ _ _ _ _ _ asked => exact queried asked
  | case4 _ _ _ _ _ _ _ asked => exact queried asked
  | case5 _ _ _ _ _ _ _ asked _ ih => exact drifts.goes_on (queried asked) ih
  | case6 _ _ _ _ _ _ _ _ _ asked _ _ _ passed => exact drifts.goes_on (queried asked) (advanced passed)
  | case7 _ _ _ _ _ _ _ _ _ asked _ _ passed ih =>
    exact drifts.goes_on (drifts.goes_on (queried asked) (advanced passed)) ih

end Reading

end LightestFirst
