import LightestFirst.Proofs.Flows.Composites
-- Advances that nothing has earned. Every stream keeps a mark of what it has answered, and one without
-- the mark refuses to be passed; the stream of one element has no mark but the element itself.
namespace LightestFirst
variable {ω σ τ ι α β : Type}

def shows : Attempt (Status α) → Bool
  | .ok status => status.isReady
  | .error _ => false

-- How a handle has come to its state, and whether it has answered `ready` since it was made or since an
-- advance last went through. Every call meets a world that others have left in whatever way, and a copy
-- has the history of the handle that it was made from.
inductive Used (machine : Machine ω σ α) (first : σ) : σ → Bool → Prop where
  | made : Used machine first first false
  | asked {state : σ} {observed : Bool} (before : Used machine first state observed) (world : ω) :
      Used machine first (machine.query state world).2.1 (observed || shows (machine.query state world).1)
  | advanced {state : σ} {observed : Bool} (before : Used machine first state observed) (world : ω) :
      Used machine first (machine.advance state world).2.1 (observed && !(machine.advance state world).1.isOk)

-- An idle state bears no mark: only an answer of `ready` makes one, an advance takes it away, and without
-- it every advance is refused on the spot.
structure Loud (machine : Machine ω σ α) (operation : Operation) (idle : σ → Prop) : Prop where
  asked : ∀ {state} world, idle state → shows (machine.query state world).1 = false →
    idle (machine.query state world).2.1
  passed : ∀ state world, (machine.advance state world).1.isOk = true → idle (machine.advance state world).2.1
  refuses : ∀ {state} world, idle state →
    ∃ later, machine.advance state world = (.error (.violation operation), later, world) ∧ idle later

theorem Loud.unobserved {machine : Machine ω σ α} {operation : Operation} {idle : σ → Prop}
    (loud : Loud machine operation idle) {first state : σ} {observed : Bool} (starts : idle first)
    (used : Used machine first state observed) : observed = false → idle state := by
  induction used with
  | made => exact fun _ => starts
  | @asked state observed before world ih =>
    intro unseen
    obtain ⟨earlier, now⟩ := Bool.or_eq_false_iff.mp unseen
    exact loud.asked world (ih earlier) now
  | @advanced state observed before world ih =>
    intro unseen
    rcases Bool.and_eq_false_iff.mp unseen with earlier | went
    · obtain ⟨later, refused, idle⟩ := loud.refuses world (ih earlier)
      rw [refused]
      exact idle
    · exact loud.passed state world ((Bool.not_eq_false' _).mp went)

theorem Empty.loud : Loud (machine : Machine ω Unit α) .empty (fun _ => True) where
  asked _ _ _ := trivial
  passed _ _ _ := trivial
  refuses _ _ := ⟨(), rfl, trivial⟩

namespace Iterated
variable {next : ι → ω → Option α × ι × ω}

def Idle (state : Iterated ι α) : Prop := ∀ value, state.head ≠ some (some value)

theorem loud : Loud (machine next) .iterated Idle where
  asked := by
    rintro ⟨iterator, _ | head⟩ world idle unseen
    · simp only [machine, query] at unseen ⊢
      generalize next iterator world = outcome at unseen ⊢
      obtain ⟨_ | value, iterator, world⟩ := outcome
      · exact fun value shown => by cases shown
      · cases unseen
    · exact idle
  passed := by
    rintro ⟨iterator, _ | _ | value⟩ world went
    · cases went
    · cases went
    · exact fun value shown => by cases shown
  refuses := by
    rintro ⟨iterator, _ | _ | value⟩ world idle
    · exact ⟨_, rfl, idle⟩
    · exact ⟨_, rfl, idle⟩
    · exact absurd rfl (idle value)

end Iterated

namespace Mapped
variable {source : Machine ω σ α} {f : Nat → α → ω → Attempt β × ω}

def Idle (state : Mapped σ β) : Prop := ∀ value, state.cached ≠ some (.ready value)

theorem loud : Loud (machine source f) .mapped Idle where
  asked := by
    rintro ⟨inner, _ | status, calls⟩ world idle unseen
    · simp only [machine, query] at unseen ⊢
      generalize source.query inner world = outcome at unseen ⊢
      obtain ⟨_ | value | _ | _, inner, world⟩ := outcome
      · exact idle
      · dsimp only at unseen ⊢
        generalize f (calls + 1) value world = image at unseen ⊢
        obtain ⟨_ | image, world⟩ := image
        · exact fun value shown => by cases shown
        · cases unseen
      · exact fun value shown => by cases shown
      · exact fun value shown => by cases shown
    · exact idle
  passed := by
    rintro ⟨inner, _ | _ | _ | _, calls⟩ world went
    · cases went
    · exact fun value shown => by cases shown
    · cases went
    · cases went
  refuses := by
    rintro ⟨inner, _ | value | _ | _, calls⟩ world idle
    · exact ⟨_, rfl, idle⟩
    · exact absurd rfl (idle value)
    · exact ⟨_, rfl, idle⟩
    · exact ⟨_, rfl, idle⟩

end Mapped

namespace Merged
variable {first : Machine ω σ α} {second : Machine ω τ α} {le : α → α → Bool}

def Idle (state : Merged σ τ α) : Prop := (Verdict.answer state.verdict).isReady = false

theorem loud : Loud (machine first second le) .merged Idle where
  asked := by
    rintro ⟨left, right, _ | verdict⟩ world idle unseen
    · simp only [machine, query] at unseen ⊢
      generalize first.query left world = outcome at unseen ⊢
      obtain ⟨_ | x, left, world⟩ := outcome
      · rfl
      · dsimp only at unseen ⊢
        generalize second.query right world = outcome at unseen ⊢
        obtain ⟨_ | y, right, world⟩ := outcome
        · rfl
        · exact unseen
    · exact idle
  passed := by
    rintro ⟨left, right, _ | _ | _ | _⟩ world went
    · cases went
    · rfl
    · rfl
    · cases went
  refuses := by
    rintro ⟨left, right, _ | _ | _ | _⟩ world idle
    · exact ⟨_, rfl, idle⟩
    · cases idle
    · cases idle
    · exact ⟨_, rfl, idle⟩

end Merged

namespace Paired
variable {first : Machine ω σ α} {second : Machine ω τ α} {le : α → α → Bool} {join : α → α → ω → Attempt α × ω}

def Idle (state : Paired σ τ α) : Prop := (answer state.choice).isReady = false

theorem grow_choice (state : Paired σ τ α) (world : ω) : (grow first state world).2.1.choice = state.choice := by
  obtain ⟨left, _ | _, right, lanes, appended, _ | _, choice⟩ := state
  · rfl
  · simp only [grow]
    obtain ⟨_ | value | _ | _, left, world⟩ := first.query left world
    · rfl
    · dsimp only
      obtain ⟨_ | _, left, world⟩ := first.advance left world <;> rfl
    · rfl
    · rfl
  · rfl
  · rfl

theorem settle_idle {state : Paired σ τ α} {world : ω} (idle : Idle state)
    (unseen : shows (settle second le join state world).1 = false) : Idle (settle second le join state world).2.1 := by
  obtain ⟨left, leftEnded, right, lanes, appended, needsLeft, choice⟩ := state
  simp only [settle] at unseen ⊢
  generalize poll second join lanes (right, world) = outcome at unseen ⊢
  obtain ⟨_ | statuses, lanes, right, world⟩ := outcome
  · exact idle
  · exact unseen

theorem loud : Loud (machine first second le join) .paired Idle where
  asked := by
    intro state world idle unseen
    cases chosen : state.choice with
    | some choice =>
      simp only [machine, query, chosen] at unseen ⊢
      exact idle
    | none =>
      have kept : (grow first state world).2.1.choice = state.choice := grow_choice state world
      simp only [machine, query, chosen] at unseen ⊢
      generalize grow first state world = outcome at kept unseen ⊢
      obtain ⟨_ | _ | _, grown, world⟩ := outcome
      all_goals
        have idle : Idle grown := by
          rw [Idle, kept]
          exact idle
      · exact idle
      · exact idle
      · exact settle_idle idle unseen
  passed := by
    rintro ⟨left, leftEnded, right, lanes, appended, needsLeft, _ | ⟨value, place⟩ | _⟩ world went
    · cases went
    · simp only [machine, advance] at went ⊢
      cases here : lanes[place]? with
      | none =>
        simp only [here] at went
        cases went
      | some lane =>
        simp only [here] at went ⊢
        obtain ⟨_ | _, lane, right, world⟩ := advanceLane second join lane (right, world)
        · rfl
        · rfl
    · cases went
  refuses := by
    rintro ⟨left, leftEnded, right, lanes, appended, needsLeft, _ | ⟨value, place⟩ | _⟩ world idle
    · exact ⟨_, rfl, idle⟩
    · cases idle
    · exact ⟨_, rfl, idle⟩

end Paired

namespace Reader
variable {readAt : Nat → ω → Attempt (Status α) × ω}

def Idle (reader : Reader) : Prop := reader.observed = false

theorem loud : Loud (machine readAt) .reader Idle where
  asked := by
    intro reader world idle unseen
    simp only [machine, query] at unseen ⊢
    generalize readAt reader.index world = outcome at unseen ⊢
    obtain ⟨_ | status, world⟩ := outcome
    · exact idle
    · exact unseen
  passed := by
    rintro ⟨index, _ | _⟩ world went
    · cases went
    · rfl
  refuses := by
    rintro ⟨index, _ | _⟩ world idle
    · exact ⟨_, rfl, idle⟩
    · cases idle

end Reader

theorem Multiplexed.reading_loud (source : Machine ω σ α) : Loud (reading source) .reader Reader.Idle := Reader.loud

theorem Multiplexed.loud {source : Machine ω σ α} : Loud (machine source) .reader (fun state => state.2.Idle) where
  asked {state} world idle unseen := (reading_loud source).asked (state.1, world) idle unseen
  passed state world went := (reading_loud source).passed state.2 (state.1, world) went
  refuses {state} world idle := by
    obtain ⟨later, refused, idle⟩ := (reading_loud source).refuses (state.1, world) idle
    refine ⟨(state.1, later), ?_, idle⟩
    simp only [machine, Enclosed.machine, refused, Enclosed.enclose]

namespace Postponed
variable {inner : Machine ω σ α} {build : τ → ω → Attempt σ × ω} {operation : Operation} {idle : σ → Prop}

def Idle (idle : σ → Prop) : Postponed τ σ → Prop
  | .waiting _ => True
  | .forced state => idle state
  | .spent => False

theorem loud (loud : Loud inner operation idle)
    (builds : ∀ thunk world, ∃ state, build thunk world = (.ok state, world) ∧ idle state) :
    Loud (machine build inner) operation (Idle idle) where
  asked := by
    rintro (thunk | state | _) world there unseen
    · obtain ⟨state, built, starts⟩ := builds thunk world
      simp only [machine, reach, built] at unseen ⊢
      exact loud.asked world starts unseen
    · exact loud.asked world there unseen
    · cases there
  passed := by
    rintro (thunk | state | _) world went
    · obtain ⟨state, built, starts⟩ := builds thunk world
      simp only [machine, reach, built] at went ⊢
      exact loud.passed state world went
    · exact loud.passed state world went
    · cases went
  refuses := by
    rintro (thunk | state | _) world there
    · obtain ⟨state, built, starts⟩ := builds thunk world
      obtain ⟨later, refused, idle⟩ := loud.refuses world starts
      refine ⟨.forced later, ?_, idle⟩
      simp only [machine, reach, built, refused, Machine.within]
    · obtain ⟨later, refused, idle⟩ := loud.refuses world there
      refine ⟨.forced later, ?_, idle⟩
      simp only [machine, reach, refused, Machine.within]
    · cases there

end Postponed

namespace Composite
variable {means : Means ω}

theorem loud (tree : Composite means α) (marked : tree.outermost ≠ .single) :
    ∃ idle, Loud tree.flow.machine tree.outermost idle ∧ idle tree.flow.state := by
  induction tree with
  | empty => exact ⟨_, Empty.loud, trivial⟩
  | single value => exact absurd rfl marked
  | iterated next pulls iterator => exact ⟨_, Iterated.loud, nofun⟩
  | mapped f maps watched inner ih => exact ⟨_, Mapped.loud, nofun⟩
  | merged le watched watched' left right first second => exact ⟨_, Merged.loud, rfl⟩
  | paired le join joins watched watched' left right first second => exact ⟨_, Paired.loud, rfl⟩
  | multiplexed watched source ih => exact ⟨_, Multiplexed.loud, rfl⟩
  | view readAt reads => exact ⟨_, Reader.loud, rfl⟩
  | deferred later ih =>
    obtain ⟨idle, loud, starts⟩ := ih () marked
    exact ⟨_, Postponed.loud loud fun _ world => ⟨_, rfl, starts⟩, trivial⟩

theorem single_passes (tree : Composite means α) (alone : tree.outermost = .single) (world : ω) :
    ∃ later, tree.flow.machine.advance tree.flow.state world = (.ok (), later, world) ∧
      (tree.flow.machine.query later world).1 = .ok .ended := by
  induction tree with
  | single value => exact ⟨_, rfl, rfl⟩
  | deferred later ih =>
    obtain ⟨gone, passed, ended⟩ := ih () alone
    refine ⟨.forced gone, ?_, ended⟩
    exact congrArg (Machine.within Postponed.forced) passed
  | _ => cases alone

-- What has not been seen is not passed, in whatever way a handle has been used and whatever world it is
-- called in: unless the stream is a single element, in boxes or built when it is first called, for that
-- one goes with the very first advance, and nothing is left to ask for.
theorem unseen_refused_unless_single (tree : Composite means α) (world : ω) :
    ((∀ state, Used tree.flow.machine tree.flow.state state false → ∀ world, ∃ later,
        tree.flow.machine.advance state world = (.error (.violation tree.outermost), later, world)) ↔
      tree.outermost ≠ .single) ∧
    (tree.outermost = .single → ∃ later,
        tree.flow.machine.advance tree.flow.state world = (.ok (), later, world) ∧
          (tree.flow.machine.query later world).1 = .ok .ended) := by
  refine ⟨⟨fun refuses alone => ?_, fun marked state used world => ?_⟩, fun alone => single_passes tree alone world⟩
  · obtain ⟨later, passed, _⟩ := single_passes tree alone world
    obtain ⟨other, refused⟩ := refuses _ .made world
    cases passed.symm.trans refused
  · obtain ⟨idle, loud, starts⟩ := tree.loud marked
    obtain ⟨later, refused, _⟩ := loud.refuses world (loud.unobserved starts used rfl)
    exact ⟨later, refused⟩

theorem seven_passes_unseen : ¬ ∀ (means : Means Unit) (tree : Composite means Nat) (state : tree.flow.State),
    Used tree.flow.machine tree.flow.state state false →
      ∃ fault, (tree.flow.machine.advance state ()).1 = .error fault := by
  intro refuses
  have anything : Means Unit := ⟨fun _ => True, fun _ => True, fun _ => True, fun _ => True, none⟩
  obtain ⟨fault, refused⟩ := refuses anything (.single 7) (.holding 7) .made
  cases refused

end Composite
end LightestFirst
