import LightestFirst.Proofs.Flows.Companies
import LightestFirst.Proofs.Flows.Composites
-- What the streams make of the calls on them, whatever the elements are: a lawful call goes through,
-- a call that is none is refused and leaves no trace, and the streams that are read are called lawfully.
namespace LightestFirst
variable {ω σ τ ι κ α β : Type}

def Fault.isViolation : Fault → Bool
  | .violation _ => true
  | _ => false

section Outcomes
variable (sound : ω → Prop) (earns : Bool → σ → Prop)

-- An act that may be given up, but not for a call that was not earned.
inductive Acted : Attempt β × ω → Prop where
  | done {value : β} {after : ω} (fine : sound after) : Acted (.ok value, after)
  | given_up {fault : Fault} {after : ω} (other : fault.isViolation = false) (fine : sound after) :
      Acted (.error fault, after)

inductive Orderly : Attempt (Status α) × σ × ω → Prop where
  | answered {status : Status α} {later : σ} {after : ω} (there : earns status.isReady later) (fine : sound after) :
      Orderly (.ok status, later, after)
  | given_up {fault : Fault} {later : σ} {after : ω} (other : fault.isViolation = false) (there : earns false later)
      (fine : sound after) : Orderly (.error fault, later, after)

inductive Succeeded : Attempt Unit × σ × ω → Prop where
  | succeeded {later : σ} {after : ω} (there : earns false later) (fine : sound after) : Succeeded (.ok (), later, after)

-- By what the client has earned: an advance, by a query answered `ready` and no call since, or nothing.
structure Lawful (machine : Machine ω σ α) : Prop where
  less : ∀ {state}, earns true state → earns false state
  query : ∀ {state world}, earns false state → sound world → Orderly sound earns (machine.query state world)
  advance : ∀ {state world}, earns true state → sound world → Succeeded sound earns (machine.advance state world)

-- An advance that is refused: the state it leaves cannot be told from the one it found.
def Refuses (machine : Machine ω σ α) (operation : Operation) (state : σ) : Prop :=
  ∀ world, ∃ later, machine.advance state world = (.error (.violation operation), later, world) ∧
    earns false later ∧ Company.Alike machine state later

-- What is not refused has been earned, whether or not the client knows.
structure Guarded (machine : Machine ω σ α) (operation : Operation) : Prop extends Lawful sound earns machine where
  guards : ∀ {state}, earns false state → earns true state ∨ Refuses earns machine operation state

end Outcomes

section Carrying
variable {sound : ω → Prop} {earns : Bool → σ → Prop} {wider : Bool → τ → Prop} {put : σ → τ}

theorem Acted.fine {result : Attempt β} {after : ω} (acted : Acted sound (result, after)) : sound after := by
  cases acted with
  | done fine => exact fine
  | given_up _ fine => exact fine

theorem Acted.not_refused {result : Attempt β} {after : ω} (acted : Acted sound (result, after))
    (operation : Operation) : result ≠ .error (.violation operation) := by
  rintro rfl
  cases acted with
  | given_up other => cases other

theorem Orderly.not_refused {outcome : Attempt (Status α) × σ × ω} (orderly : Orderly sound earns outcome)
    (operation : Operation) : outcome.1 ≠ .error (.violation operation) := by
  intro same
  cases orderly with
  | answered => cases same
  | given_up other =>
    cases same
    cases other

theorem Acted.aside {fine : κ → Prop} {act : ω → Attempt β × ω} (acts : ∀ world, sound world → Acted sound (act world))
    {shared : κ × ω} (fair : sound shared.2 ∧ fine shared.1) :
    Acted (fun shared => sound shared.2 ∧ fine shared.1) (LightestFirst.aside act shared) := by
  obtain ⟨kept, world⟩ := shared
  have acted := acts world fair.1
  simp only [LightestFirst.aside]
  generalize act world = outcome at acted ⊢
  cases acted with
  | done after => exact .done ⟨after, fair.2⟩
  | given_up other after => exact .given_up other ⟨after, fair.2⟩

theorem Lawful.any {machine : Machine ω σ α} (lawful : Lawful sound earns machine) {earned : Bool} {state : σ}
    (there : earns earned state) : earns false state := by
  cases earned with
  | false => exact there
  | true => exact lawful.less there

theorem Orderly.within {outcome : Attempt (Status α) × σ × ω}
    (puts : ∀ {earned state}, earns earned state → wider earned (put state)) (orderly : Orderly sound earns outcome) :
    Orderly sound wider (Machine.within put outcome) := by
  cases orderly with
  | answered there fine => exact .answered (puts there) fine
  | given_up other there fine => exact .given_up other (puts there) fine

theorem Succeeded.within {outcome : Attempt Unit × σ × ω} (puts : ∀ {state}, earns false state → wider false (put state))
    (succeeded : Succeeded sound earns outcome) : Succeeded sound wider (Machine.within put outcome) := by
  cases succeeded with
  | succeeded there fine => exact .succeeded (puts there) fine

theorem Refuses.at_once {machine : Machine ω σ α} {operation : Operation} {state : σ}
    (refuses : ∀ world, machine.advance state world = (.error (.violation operation), state, world))
    (there : earns false state) : Refuses earns machine operation state :=
  fun world => ⟨state, refuses world, there, .refl machine state⟩

end Carrying

namespace Empty

theorem guarded (sound : ω → Prop) :
    Guarded sound (fun earned _ => earned = false) (machine : Machine ω Unit α) .empty where
  less := nofun
  query _ fine := .answered rfl fine
  advance := nofun
  guards there := .inr (.at_once (fun _ => rfl) there)

end Empty

namespace Single

def Earns (earned : Bool) (state : Single α) : Prop := earned = true → state.held.isSome = true

theorem guarded (sound : ω → Prop) : Guarded sound Earns (machine : Machine ω (Single α) α) .single where
  less _ := nofun
  query := by
    rintro ⟨_ | value⟩ world _ fine
    · exact .answered nofun fine
    · exact .answered (fun _ => rfl) fine
  advance := by
    rintro ⟨_ | value⟩ world there fine
    · exact absurd (there rfl) nofun
    · exact .succeeded nofun fine
  guards := by
    rintro ⟨_ | value⟩ there
    · exact .inr (.at_once (fun _ => rfl) there)
    · exact .inl fun _ => rfl

end Single

namespace Iterated
variable {next : ι → ω → Option α × ι × ω}

def Earns (earned : Bool) (state : Iterated ι α) : Prop := earned = true → ∃ value, state.head = some (some value)

theorem earns_answer (iterator : ι) (head : Option α) :
    Earns (answer head).isReady (⟨iterator, some head⟩ : Iterated ι α) := by
  cases head with
  | none => nofun
  | some value => exact fun _ => ⟨value, rfl⟩

theorem guarded {sound : ω → Prop}
    (pulls : ∀ iterator world, sound world → sound (next iterator world).2.2) :
    Guarded sound Earns (machine next) .iterated where
  less _ := nofun
  query := by
    rintro ⟨iterator, _ | head⟩ world _ fine
    · exact .answered (earns_answer _ _) (pulls iterator world fine)
    · exact .answered (earns_answer _ _) fine
  advance := by
    rintro ⟨iterator, head⟩ world there fine
    obtain ⟨value, rfl⟩ := there rfl
    exact .succeeded nofun fine
  guards := by
    rintro ⟨iterator, _ | _ | value⟩ there
    · exact .inr (.at_once (fun _ => rfl) there)
    · exact .inr (.at_once (fun _ => rfl) there)
    · exact .inl fun _ => ⟨value, rfl⟩

end Iterated

namespace Mapped
variable {sound : ω → Prop} {earns : Bool → σ → Prop} {source : Machine ω σ α} {f : Nat → α → ω → Attempt β × ω}

def Earns (earns : Bool → σ → Prop) (earned : Bool) (state : Mapped σ β) : Prop :=
  match state.cached with
  | none => earned = false ∧ earns false state.inner
  | some status => (earned = true → status.isReady = true) ∧ earns status.isReady state.inner

theorem guarded (inner : Lawful sound earns source)
    (acts : ∀ call value world, sound world → Acted sound (f call value world)) :
    Guarded sound (Earns earns) (machine source f) .mapped where
  less := by
    rintro ⟨state, _ | status, calls⟩ there
    · cases there.1
    · exact ⟨fun earned => absurd earned Bool.false_ne_true, there.2⟩
  query := by
    rintro ⟨state, _ | status, calls⟩ world there fine
    · have orderly := inner.query there.2 fine
      simp only [machine, query]
      generalize source.query state world = outcome at orderly ⊢
      cases orderly with
      | given_up other there fine => exact .given_up other ⟨rfl, there⟩ fine
      | @answered status later after there fine =>
        cases status with
        | pending => exact .answered ⟨rfl, there⟩ fine
        | ended => exact .answered ⟨id, there⟩ fine
        | ready value =>
          have acted := acts (calls + 1) value after fine
          dsimp only
          generalize f (calls + 1) value after = outcome at acted ⊢
          cases acted with
          | done fine => exact .answered ⟨fun _ => rfl, there⟩ fine
          | given_up other fine => exact .given_up other ⟨rfl, inner.less there⟩ fine
    · exact .answered ⟨id, there.2⟩ fine
  advance := by
    rintro ⟨state, _ | status, calls⟩ world there fine
    · cases there.1
    · obtain ⟨value, rfl⟩ := Status.isReady_iff.mp (there.1 rfl)
      simp only [machine, advance]
      exact (inner.advance there.2 fine).within fun there => ⟨rfl, there⟩
  guards := by
    rintro ⟨state, _ | _ | _ | _, calls⟩ there
    · exact .inr (.at_once (fun _ => rfl) there)
    · exact .inl ⟨fun _ => rfl, there.2⟩
    · exact .inr (.at_once (fun _ => rfl) there)
    · exact .inr (.at_once (fun _ => rfl) there)

end Mapped

namespace Merged
variable {sound : ω → Prop} {earns : Bool → σ → Prop} {others : Bool → τ → Prop} {first : Machine ω σ α}
  {second : Machine ω τ α} {le : α → α → Bool}

def Earns (earns : Bool → σ → Prop) (others : Bool → τ → Prop) (earned : Bool) (state : Merged σ τ α) : Prop :=
  earns false state.left ∧ others false state.right ∧
    match state.verdict with
    | some (.left _) => earns true state.left
    | some (.right _) => others true state.right
    | _ => earned = false

theorem earns_between (left : Lawful sound earns first) (right : Lawful sound others second) {x y : Status α}
    {l : σ} {r : τ} (leftThere : earns x.isReady l) (rightThere : others y.isReady r) :
    Earns earns others (Verdict.answer (Verdict.between le x y)).isReady ⟨l, r, Verdict.between le x y⟩ := by
  refine ⟨left.any leftThere, right.any rightThere, ?_⟩
  cases decided : Verdict.between le x y with
  | none => rfl
  | some verdict =>
    cases verdict with
    | left value =>
      rw [Verdict.ready_of_between_left decided] at leftThere
      exact leftThere
    | right value =>
      rw [Verdict.ready_of_between_right decided] at rightThere
      exact rightThere
    | ended => rfl

theorem guarded (left : Lawful sound earns first) (right : Lawful sound others second) :
    Guarded sound (Earns earns others) (machine first second le) .merged where
  less := by
    rintro ⟨l, r, _ | _ | _ | _⟩ ⟨leftThere, rightThere, there⟩
    · exact absurd there nofun
    · exact ⟨leftThere, rightThere, there⟩
    · exact ⟨leftThere, rightThere, there⟩
    · exact absurd there nofun
  query := by
    rintro ⟨l, r, verdict⟩ world ⟨leftThere, rightThere, there⟩ fine
    cases verdict with
    | some verdict =>
      refine .answered ⟨leftThere, rightThere, ?_⟩ fine
      cases verdict with
      | left => exact there
      | right => exact there
      | ended => rfl
    | none =>
      have orderly := left.query leftThere fine
      simp only [machine, query]
      generalize first.query l world = outcome at orderly ⊢
      cases orderly with
      | given_up other there fine => exact .given_up other ⟨there, rightThere, rfl⟩ fine
      | @answered x l middle leftThere fine =>
        have orderly := right.query rightThere fine
        dsimp only
        generalize second.query r middle = outcome at orderly ⊢
        cases orderly with
        | given_up other there fine => exact .given_up other ⟨left.any leftThere, there, rfl⟩ fine
        | answered rightThere fine => exact .answered (earns_between left right leftThere rightThere) fine
  advance := by
    rintro ⟨l, r, _ | _ | _ | _⟩ world ⟨leftThere, rightThere, there⟩ fine
    · exact absurd there nofun
    · simp only [machine, advance]
      exact (left.advance there fine).within fun there => ⟨there, rightThere, rfl⟩
    · simp only [machine, advance]
      exact (right.advance there fine).within fun there => ⟨leftThere, there, rfl⟩
    · exact absurd there nofun
  guards := by
    rintro ⟨l, r, _ | _ | _ | _⟩ ⟨leftThere, rightThere, there⟩
    · exact .inr (.at_once (fun _ => rfl) ⟨leftThere, rightThere, rfl⟩)
    · exact .inl ⟨leftThere, rightThere, there⟩
    · exact .inl ⟨leftThere, rightThere, there⟩
    · exact .inr (.at_once (fun _ => rfl) ⟨leftThere, rightThere, rfl⟩)

end Merged

namespace Reader
variable {sound : ω → Prop} {readAt : Nat → ω → Attempt (Status α) × ω}

def Earns (earned : Bool) (reader : Reader) : Prop := earned = true → reader.observed = true

theorem guarded (reads : ∀ place world, sound world → Acted sound (readAt place world)) :
    Guarded sound Earns (machine readAt) .reader where
  less _ := nofun
  query := by
    rintro ⟨index, observed⟩ world there fine
    have acted := reads index world fine
    simp only [machine, query]
    generalize readAt index world = outcome at acted ⊢
    cases acted with
    | done fine => exact .answered id fine
    | given_up other fine => exact .given_up other nofun fine
  advance := by
    rintro ⟨index, observed⟩ world there fine
    obtain rfl : observed = true := there rfl
    exact .succeeded nofun fine
  guards := by
    rintro ⟨index, _ | _⟩ there
    · exact .inr (.at_once (fun _ => rfl) there)
    · exact .inl fun _ => rfl

end Reader

namespace Buffered
variable {sound : ω → Prop} {earns : Bool → σ → Prop} {source : Machine ω σ α}

def Earns (earns : Bool → σ → Prop) (cell : Buffered σ α) : Prop := earns cell.headBuffered cell.source

def Fair (sound : ω → Prop) (earns : Bool → σ → Prop) (shared : Buffered σ α × ω) : Prop :=
  sound shared.2 ∧ shared.1.Earns earns

theorem earns_absorb {cell : Buffered τ α} {result : Attempt (Status α)} {headBuffered : Bool} {state : σ}
    (there : earns headBuffered state) : (cell.absorb result headBuffered state).Earns earns := by
  obtain ⟨_, buffer, ended, _⟩ := cell
  rcases result with _ | _ | _ | _ <;> exact there

theorem ask_orderly (lawful : Lawful sound earns source) {state : σ} {world : ω} (there : earns false state)
    (fine : sound world) : ∃ result flag later after, draw.ask source state world = (result, flag, later, after) ∧
      earns flag later ∧ Acted sound (result, after) := by
  have orderly := lawful.query there fine
  rw [draw.ask]
  generalize source.query state world = outcome at orderly ⊢
  cases orderly with
  | answered there fine => exact ⟨_, _, _, _, rfl, there, .done fine⟩
  | given_up other there fine => exact ⟨_, _, _, _, rfl, there, .given_up other fine⟩

theorem draw_orderly (lawful : Lawful sound earns source) {state : σ} {flag : Bool} {world : ω}
    (there : earns flag state) (fine : sound world) : ∃ result flag' later after,
      draw source state flag world = (result, flag', later, after) ∧ earns flag' later ∧ Acted sound (result, after) := by
  cases flag with
  | false => exact ask_orderly lawful there fine
  | true =>
    have succeeded := lawful.advance there fine
    rw [draw]
    generalize source.advance state world = outcome at succeeded ⊢
    cases succeeded with
    | succeeded there fine => exact ask_orderly lawful there fine

theorem read_acted (lawful : Lawful sound earns source) (place : Nat) {shared : Buffered σ α × ω}
    (fair : Fair sound earns shared) : Acted (Fair sound earns) (Paired.readRight source place shared) := by
  obtain ⟨⟨state, buffer, ended, flag⟩, world⟩ := shared
  obtain ⟨fine, there⟩ := fair
  simp only [Paired.readRight, read]
  split
  · exact .done ⟨fine, there⟩
  · obtain ⟨result, flag', later, after, drawn, there, acted⟩ := draw_orderly lawful there fine
    simp only [pull, drawn]
    cases acted with
    | done fine => exact .done ⟨fine, earns_absorb there⟩
    | given_up other fine => exact .given_up other ⟨fine, earns_absorb there⟩

end Buffered

namespace Multiplexed
variable {sound : ω → Prop} {earns : Bool → σ → Prop} {source : Machine ω σ α}

def Earns (earns : Bool → σ → Prop) (earned : Bool) (state : Buffered σ α × Reader) : Prop :=
  state.1.Earns earns ∧ state.2.Earns earned

theorem guarded (lawful : Lawful sound earns source) : Guarded sound (Earns earns) (machine source) .reader where
  less there := ⟨there.1, nofun⟩
  query := by
    rintro ⟨cell, reader⟩ world ⟨held, there⟩ fine
    have reads : Guarded (Buffered.Fair sound earns) Reader.Earns (reading source) .reader :=
      Reader.guarded fun place _ fair => Buffered.read_acted lawful place fair
    have fair : Buffered.Fair sound earns (cell, world) := ⟨fine, held⟩
    have orderly := reads.query there fair
    simp only [machine, Enclosed.machine]
    generalize (reading source).query reader (cell, world) = outcome at orderly ⊢
    cases orderly with
    | answered there fair => exact .answered ⟨fair.2, there⟩ fair.1
    | given_up other there fair => exact .given_up other ⟨fair.2, there⟩ fair.1
  advance := by
    rintro ⟨cell, index, observed⟩ world ⟨held, there⟩ fine
    obtain rfl : observed = true := there rfl
    have still : Earns earns false (cell, (⟨index + 1, false⟩ : Reader)) := ⟨held, nofun⟩
    exact .succeeded still fine
  guards := by
    rintro ⟨cell, index, _ | _⟩ ⟨held, there⟩
    · exact .inr (.at_once (fun _ => rfl) ⟨held, there⟩)
    · exact .inl ⟨held, fun _ => rfl⟩

end Multiplexed

namespace Paired
variable {sound : ω → Prop} {earns : Bool → σ → Prop} {others : Bool → τ → Prop} {first : Machine ω σ α}
  {second : Machine ω τ α} {le : α → α → Bool} {join : α → α → ω → Attempt α × ω}

def LaneEarns (earned : Bool) (lane : Lane α) : Prop := Mapped.Earns Reader.Earns earned lane.joins

theorem lane_guarded (right : Lawful sound others second) (acts : ∀ x y world, sound world → Acted sound (join x y world))
    (element : α) : Guarded (Buffered.Fair sound others) (Mapped.Earns Reader.Earns)
      (laneMachine second join element) .mapped := by
  have reads : Guarded (Buffered.Fair sound others) Reader.Earns (Reader.machine (readRight second)) .reader :=
    Reader.guarded fun place _ fair => Buffered.read_acted right place fair
  exact Mapped.guarded reads.toLawful fun _ y _ fair => Acted.aside (acts element y) fair

inductive PollOrderly (sound : ω → Prop) (others : Bool → τ → Prop) :
    Attempt (List (Status α)) × List (Lane α) × Buffered τ α × ω → Prop where
  | answered {statuses : List (Status α)} {lanes : List (Lane α)} {after : Buffered τ α × ω}
      (there : List.Forall₂ (fun lane status => LaneEarns (Status.isReady status) lane) lanes statuses)
      (fair : Buffered.Fair sound others after) : PollOrderly sound others (.ok statuses, lanes, after)
  | given_up {fault : Fault} {lanes : List (Lane α)} {after : Buffered τ α × ω} (other : fault.isViolation = false)
      (there : ∀ lane ∈ lanes, LaneEarns false lane) (fair : Buffered.Fair sound others after) :
      PollOrderly sound others (.error fault, lanes, after)

theorem LaneEarns.any {earned : Bool} {lane : Lane α} (there : LaneEarns earned lane) : LaneEarns false lane := by
  obtain ⟨ordinal, element, inner, _ | status, calls⟩ := lane
  · exact ⟨rfl, there.2⟩
  · exact ⟨nofun, there.2⟩

theorem PollOrderly.inFront {status : Status α} {lane : Lane α}
    {outcome : Attempt (List (Status α)) × List (Lane α) × Buffered τ α × ω}
    (orderly : PollOrderly sound others outcome) (here : LaneEarns status.isReady lane) :
    PollOrderly sound others (inFront status lane outcome) := by
  cases orderly with
  | answered there fair => exact .answered (.cons here there) fair
  | given_up other there fair =>
    refine .given_up other (fun other among => ?_) fair
    rcases List.mem_cons.mp among with rfl | among
    · exact here.any
    · exact there other among

theorem poll_orderly (right : Lawful sound others second) (acts : ∀ x y world, sound world → Acted sound (join x y world))
    {lanes : List (Lane α)} {world : Buffered τ α × ω} (there : ∀ lane ∈ lanes, LaneEarns false lane)
    (fair : Buffered.Fair sound others world) : PollOrderly sound others (poll second join lanes world) := by
  induction lanes generalizing world with
  | nil => exact .answered .nil fair
  | cons lane rest ih =>
    have behind : ∀ lane ∈ rest, LaneEarns false lane := fun lane among => there lane (List.mem_cons_of_mem _ among)
    have orderly := (lane_guarded right acts lane.element).query (there _ List.mem_cons_self) fair
    obtain ⟨⟨result, later, after⟩, outcome⟩ :=
      Exists.intro _ (rfl : (laneMachine second join lane.element).query lane.joins world = _)
    have asked := pollLane_eq outcome
    rw [outcome] at orderly
    cases orderly with
    | given_up other here fair =>
      rw [poll, asked]
      refine .given_up other (fun lane among => ?_) fair
      rcases List.mem_cons.mp among with rfl | among
      · exact here
      · exact behind lane among
    | @answered status _ _ here fair =>
      by_cases ended : status = .ended
      · subst ended
        rw [poll_dropped asked]
        exact ih behind fair
      · rw [poll_kept asked ended]
        exact (ih behind fair).inFront here

structure Open (earns : Bool → σ → Prop) (others : Bool → τ → Prop) (state : Paired σ τ α) : Prop where
  left : earns false state.left
  right : state.right.Earns others
  lanes : ∀ lane ∈ state.lanes, LaneEarns false lane

def Earns (earns : Bool → σ → Prop) (others : Bool → τ → Prop) (earned : Bool) (state : Paired σ τ α) : Prop :=
  Open earns others state ∧
    match state.choice with
    | some (.ready _ place) => ∃ lane, state.lanes[place]? = some lane ∧ LaneEarns true lane
    | _ => earned = false

theorem grow_orderly (left : Lawful sound earns first) {state : Paired σ τ α} {world : ω}
    (undecided : state.choice = none) (there : Open earns others state) (fine : sound world) :
    ∃ result later after, grow first state world = (result, later, after) ∧ later.choice = none ∧
      Open earns others later ∧ Acted sound (result, after) := by
  obtain ⟨l, leftEnded, cell, lanes, appended, needsLeft, choice⟩ := state
  obtain rfl : choice = none := undecided
  obtain ⟨leftThere, rightThere, lanesThere⟩ := there
  rw [grow.eq_def]
  split
  · next same =>
    cases same
    have orderly := left.query leftThere fine
    generalize first.query l world = outcome at orderly ⊢
    cases orderly with
    | given_up other there fine => exact ⟨_, _, _, rfl, rfl, ⟨there, rightThere, lanesThere⟩, .given_up other fine⟩
    | @answered status l middle there fine =>
      cases status with
      | pending => exact ⟨_, _, _, rfl, rfl, ⟨there, rightThere, lanesThere⟩, .done fine⟩
      | ended => exact ⟨_, _, _, rfl, rfl, ⟨there, rightThere, lanesThere⟩, .done fine⟩
      | ready x =>
        have succeeded := left.advance there fine
        dsimp only
        generalize first.advance l middle = outcome at succeeded ⊢
        cases succeeded with
        | succeeded there fine =>
          refine ⟨_, _, _, rfl, rfl, ⟨there, rightThere, fun lane among => ?_⟩, .done fine⟩
          rcases List.mem_append.mp among with among | last
          · exact lanesThere lane among
          · obtain rfl := List.mem_singleton.mp last
            exact ⟨rfl, nofun⟩
  · exact ⟨_, _, _, rfl, rfl, ⟨leftThere, rightThere, lanesThere⟩, .done fine⟩

theorem polled_getElem? {lanes : List (Lane α)} {statuses : List (Status α)}
    (there : List.Forall₂ (fun lane status => LaneEarns (Status.isReady status) lane) lanes statuses) {place : Nat}
    {value : α} (found : statuses[place]? = some (.ready value)) : ∃ lane, lanes[place]? = some lane ∧ LaneEarns true lane := by
  induction there generalizing place with
  | nil => cases found
  | cons here _ ih =>
    cases place with
    | zero =>
      cases found
      exact ⟨_, rfl, here⟩
    | succ place => exact ih found

theorem polled_any {lanes : List (Lane α)} {statuses : List (Status α)}
    (there : List.Forall₂ (fun lane status => LaneEarns (Status.isReady status) lane) lanes statuses) :
    ∀ lane ∈ lanes, LaneEarns false lane := by
  induction there with
  | nil => nofun
  | cons here _ ih =>
    intro lane among
    rcases List.mem_cons.mp among with rfl | among
    · exact here.any
    · exact ih lane among

theorem settle_orderly (right : Lawful sound others second)
    (acts : ∀ x y world, sound world → Acted sound (join x y world)) {state : Paired σ τ α} {world : ω}
    (undecided : state.choice = none) (there : Open earns others state) (fine : sound world) :
    Orderly sound (Earns earns others) (settle second le join state world) := by
  obtain ⟨l, leftEnded, cell, lanes, appended, needsLeft, choice⟩ := state
  obtain rfl : choice = none := undecided
  obtain ⟨leftThere, rightThere, lanesThere⟩ := there
  have fair : Buffered.Fair sound others (cell, world) := ⟨fine, rightThere⟩
  have orderly := poll_orderly right acts lanesThere fair
  simp only [settle]
  generalize poll second join lanes (cell, world) = outcome at orderly ⊢
  cases orderly with
  | given_up other there fair => exact .given_up other ⟨⟨leftThere, fair.2, there⟩, rfl⟩ fair.1
  | @answered statuses lanes after there fair =>
    refine .answered ⟨⟨leftThere, fair.2, polled_any there⟩, ?_⟩ fair.1
    dsimp only
    cases chosen : choose le statuses with
    | none => rfl
    | some choice =>
      cases choice with
      | ended => rfl
      | ready value place => exact polled_getElem? there (choose_getElem? chosen)

theorem advance_succeeds (right : Lawful sound others second)
    (acts : ∀ x y world, sound world → Acted sound (join x y world)) {state : Paired σ τ α} {world : ω}
    (there : Earns earns others true state) (fine : sound world) :
    Succeeded sound (Earns earns others) (Paired.advance second join state world) := by
  obtain ⟨l, leftEnded, cell, lanes, appended, needsLeft, _ | _ | _⟩ := state
  · cases there.2
  · obtain ⟨⟨leftThere, rightThere, lanesThere⟩, ⟨ordinal, element, joins⟩, found, here⟩ := there
    have fair : Buffered.Fair sound others (cell, world) := ⟨fine, rightThere⟩
    have succeeded := (lane_guarded right acts element).advance here fair
    simp only [Paired.advance, found, advanceLane]
    generalize (laneMachine second join element).advance joins (cell, world) = outcome at succeeded ⊢
    cases succeeded with
    | succeeded there fair =>
      refine .succeeded ⟨⟨leftThere, fair.2, fun lane among => ?_⟩, rfl⟩ fair.1
      rcases List.mem_or_eq_of_mem_set among with among | rfl
      · exact lanesThere lane among
      · exact there
  · cases there.2

theorem guarded (left : Lawful sound earns first) (right : Lawful sound others second)
    (acts : ∀ x y world, sound world → Acted sound (join x y world)) :
    Guarded sound (Earns earns others) (machine first second le join) .paired where
  less := by
    rintro ⟨l, leftEnded, cell, lanes, appended, needsLeft, _ | _ | _⟩ there
    · cases there.2
    · exact there
    · cases there.2
  query := by
    intro state world there fine
    simp only [machine, query]
    cases chosen : state.choice with
    | some choice =>
      refine .answered ⟨there.1, ?_⟩ fine
      have kept := there.2
      rw [chosen] at kept ⊢
      cases choice with
      | ready => exact kept
      | ended => rfl
    | none =>
      obtain ⟨result, later, after, grown, undecided, there, acted⟩ := grow_orderly left chosen there.1 fine
      simp only [grown]
      cases acted with
      | given_up other fine =>
        refine .given_up other ⟨there, ?_⟩ fine
        rw [undecided]
      | @done ready _ fine =>
        cases ready with
        | true => exact settle_orderly right acts undecided there fine
        | false =>
          refine .answered ⟨there, ?_⟩ fine
          rw [undecided]
          rfl
  advance there fine := advance_succeeds right acts there fine
  guards := by
    rintro ⟨l, leftEnded, cell, lanes, appended, needsLeft, _ | _ | _⟩ there
    · exact .inr (.at_once (fun _ => rfl) there)
    · exact .inl there
    · exact .inr (.at_once (fun _ => rfl) there)

end Paired

namespace Postponed
variable {sound : ω → Prop} {earns : Bool → σ → Prop} {inner : Machine ω σ α} {build : τ → ω → Attempt σ × ω}
  {operation : Operation}

def Earns (build : τ → ω → Attempt σ × ω) (earns : Bool → σ → Prop) (earned : Bool) (state : Postponed τ σ) : Prop :=
  match state with
  | .waiting thunk => ∃ inside, (∀ world, build thunk world = (.ok inside, world)) ∧ earns earned inside
  | .forced inside => earns earned inside
  | .spent => False

theorem reached_of_earns {earned : Bool} {state : Postponed τ σ} (there : Earns build earns earned state) :
    ∃ inside, earns earned inside ∧ ∀ {β : Type} (call : σ → ω → Attempt β × σ × ω) world,
      reach build call state world = Machine.within .forced (call inside world) := by
  cases state with
  | spent => exact absurd there id
  | forced inside => exact ⟨inside, there, fun _ _ => rfl⟩
  | waiting thunk =>
    obtain ⟨inside, built, there⟩ := there
    exact ⟨inside, there, fun call world => by simp only [reach, built]⟩

-- To build what waits is the one trace that a refused advance leaves.
theorem refuses_of_reached {state : Postponed τ σ} {inside : σ} (refuses : Refuses earns inner operation inside)
    (reached : ∀ {β : Type} (call : σ → ω → Attempt β × σ × ω) world,
      reach build call state world = Machine.within .forced (call inside world)) :
    Refuses (Earns build earns) (machine build inner) operation state := by
  intro world
  obtain ⟨later, refused, there, alike⟩ := refuses world
  refine ⟨.forced later, ?_, there, fun world => ⟨?_, ?_⟩⟩
  · simp only [machine, reached, refused, Machine.within]
  · exact (congrArg (Machine.within forced) (alike world).1).trans (reached inner.query world).symm
  · exact (congrArg (Machine.within forced) (alike world).2).trans (reached inner.advance world).symm

theorem guarded (guarded : Guarded sound earns inner operation) :
    Guarded sound (Earns build earns) (machine build inner) operation where
  less := by
    rintro (thunk | inside | _) there
    · obtain ⟨inside, built, there⟩ := there
      exact ⟨inside, built, guarded.less there⟩
    · exact guarded.less there
    · exact there
  query := by
    intro state world there fine
    obtain ⟨inside, there, reached⟩ := reached_of_earns there
    simp only [machine, reached]
    exact (guarded.query there fine).within id
  advance := by
    intro state world there fine
    obtain ⟨inside, there, reached⟩ := reached_of_earns there
    simp only [machine, reached]
    exact (guarded.advance there fine).within id
  guards := by
    rintro (thunk | inside | _) there
    · obtain ⟨inside, built, there⟩ := there
      refine (guarded.guards there).imp (fun earned => ⟨inside, built, earned⟩) fun refuses => ?_
      exact refuses_of_reached refuses fun call world => by simp only [reach, built]
    · exact (guarded.guards there).imp id fun refuses => refuses_of_reached refuses fun _ _ => rfl
    · exact absurd there id

end Postponed

namespace Watched
variable {sound : ω → Prop} {earns : Bool → σ → Prop} {inner : Machine ω σ α} {note : ω → ω}

def Earns (earns : Bool → σ → Prop) (earned : Bool) (state : Watched σ) : Prop :=
  earns state.observed state.inner ∧ (earned = true → state.observed = true)

theorem lawful (lawful : Lawful sound earns inner) : Lawful sound (Earns earns) (machine note inner) where
  less there := ⟨there.1, nofun⟩
  query := by
    rintro ⟨state, observed⟩ world ⟨there, _⟩ fine
    have orderly := lawful.query (lawful.any there) fine
    simp only [machine]
    generalize inner.query state world = outcome at orderly ⊢
    cases orderly with
    | answered there fine => exact .answered ⟨there, id⟩ fine
    | given_up other there fine => exact .given_up other ⟨there, nofun⟩ fine
  advance := by
    rintro ⟨state, observed⟩ world ⟨there, flag⟩ fine
    obtain rfl : observed = true := flag rfl
    simp only [machine, if_pos]
    exact (lawful.advance there fine).within fun there => ⟨there, nofun⟩

end Watched

end LightestFirst
