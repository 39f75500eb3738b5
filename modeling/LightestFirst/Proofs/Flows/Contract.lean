import LightestFirst.Proofs.Flows.Lawful
import LightestFirst.Proofs.Flows.Withheld
-- Clients that call as they like, and what comes of it inside the trees they call.
namespace LightestFirst
variable {ω σ κ α β : Type}

namespace Iteration

-- An iteration called like a stream: to look is to query, and to take is to advance.
def bridge (machine : Machine ω σ α) : Machine ω (Iteration σ α) α where
  query := peek machine
  advance state world :=
    match takeNext machine state world with
    | (.error fault, state, world) => (.error fault, state, world)
    | (.ok _, state, world) => (.ok (), state, world)

variable {sound : ω → Prop} {earns : Bool → σ → Prop} {machine : Machine ω σ α}

def Earns (earns : Bool → σ → Prop) (earned : Bool) (state : Iteration σ α) : Prop :=
  match state.peeked with
  | none => earned = false ∧ earns false state.stream
  | some status => (earned = true → status.isReady = true) ∧ earns status.isReady state.stream

theorem peek_orderly (lawful : Lawful sound earns machine) {state : Iteration σ α} {world : ω}
    (there : Earns earns false state) (fine : sound world) : Orderly sound (Earns earns) (peek machine state world) := by
  obtain ⟨stream, _ | status⟩ := state
  · have orderly := lawful.query there.2 fine
    simp only [peek]
    generalize machine.query stream world = outcome at orderly ⊢
    cases orderly with
    | given_up other there fine => exact .given_up other ⟨rfl, there⟩ fine
    | @answered status _ _ there fine =>
      cases status with
      | pending => exact .answered ⟨rfl, there⟩ fine
      | ended => exact .answered ⟨id, there⟩ fine
      | ready value => exact .answered ⟨id, there⟩ fine
  · exact .answered ⟨id, there.2⟩ fine

theorem takeNext_acted (lawful : Lawful sound earns machine) {state : Iteration σ α} {world : ω}
    (there : Earns earns false state) (fine : sound world) : ∃ result later after,
      takeNext machine state world = (result, later, after) ∧ Earns earns false later ∧ Acted sound (result, after) := by
  have orderly := peek_orderly lawful there fine
  rw [takeNext]
  generalize peek machine state world = outcome at orderly ⊢
  cases orderly with
  | given_up other there fine => exact ⟨_, _, _, rfl, there, .given_up other fine⟩
  | @answered status later after there fine =>
    obtain ⟨stream, peeked⟩ := later
    cases status with
    | pending => exact ⟨_, _, _, rfl, there, .done fine⟩
    | ended => exact ⟨_, _, _, rfl, there, .done fine⟩
    | ready value =>
      have shown : earns true stream := by
        cases peeked with
        | none => cases there.1
        | some status => exact there.1 rfl ▸ there.2
      have succeeded := lawful.advance shown fine
      dsimp only
      generalize machine.advance stream after = outcome at succeeded ⊢
      cases succeeded with
      | succeeded there fine => exact ⟨_, _, _, rfl, ⟨rfl, there⟩, .done fine⟩

theorem Earns.any {earned : Bool} {state : Iteration σ α} (there : Earns earns earned state) :
    Earns earns false state := by
  obtain ⟨stream, _ | status⟩ := state
  · exact ⟨rfl, there.2⟩
  · exact ⟨nofun, there.2⟩

theorem Earns.stream {earned : Bool} {state : Iteration σ α} (there : Earns earns earned state) :
    ∃ shown, earns shown state.stream := by
  obtain ⟨stream, _ | status⟩ := state
  · exact ⟨_, there.2⟩
  · exact ⟨_, there.2⟩

-- An iteration never refuses for want of a right to advance: it asks first.
theorem bridge_ends (lawful : Lawful sound earns machine) {state : Iteration σ α} {world : ω}
    (there : Earns earns false state) (fine : sound world) : ∃ result later after,
      (bridge machine).advance state world = (result, later, after) ∧ Earns earns false later ∧
        Acted sound (result, after) := by
  obtain ⟨result, later, after, taken, there, acted⟩ := takeNext_acted lawful there fine
  simp only [bridge, taken]
  cases acted with
  | done fine => exact ⟨_, _, _, rfl, there, .done fine⟩
  | given_up other fine => exact ⟨_, _, _, rfl, there, .given_up other fine⟩

theorem bridge_earned (lawful : Lawful sound earns machine) {state : Iteration σ α} {world : ω}
    (there : Earns earns true state) (fine : sound world) : ((bridge machine).advance state world).1 = .ok () := by
  obtain ⟨stream, _ | status⟩ := state
  · exact absurd there.1 nofun
  · obtain ⟨value, rfl⟩ := Status.isReady_iff.mp (there.1 rfl)
    have succeeded := lawful.advance there.2 fine
    simp only [bridge, takeNext, peek]
    generalize machine.advance stream world = outcome at succeeded ⊢
    cases succeeded with
    | succeeded there fine => rfl

end Iteration

namespace Means

structure Safe (means : Means ω) (sound : ω → Prop) : Prop where
  pulls : ∀ {ι α : Type} {next : ι → ω → Option α × ι × ω}, means.pulls next →
    ∀ iterator world, sound world → sound (next iterator world).2.2
  maps : ∀ {α β : Type} {f : Nat → α → ω → Attempt β × ω}, means.maps f →
    ∀ call value world, sound world → Acted sound (f call value world)
  joins : ∀ {α : Type} {join : α → α → ω → Attempt α × ω}, means.joins join →
    ∀ x y world, sound world → Acted sound (join x y world)
  reads : ∀ {α : Type} {readAt : Nat → ω → Attempt (Status α) × ω}, means.reads readAt →
    ∀ place world, sound world → Acted sound (readAt place world)

variable {means : Means ω} {sound : ω → Prop}

theorem lend_lawful (watched : Bool) {flow : Flow ω α} {earns : Bool → flow.State → Prop}
    (lawful : Lawful sound earns flow.machine) (there : earns false flow.state) :
    ∃ earns, Lawful sound earns (means.lend watched flow).machine ∧ earns false (means.lend watched flow).state := by
  rcases means.lend_cases watched flow with same | ⟨note, same⟩
  · rw [same]
    exact ⟨earns, lawful, there⟩
  · rw [same]
    exact ⟨Watched.Earns earns, Watched.lawful lawful, there, nofun⟩

theorem Safe.beside (safe : means.Safe sound) {earns : Bool → σ → Prop} {source : Machine ω σ α}
    (lawful : Lawful sound earns source) : (means.beside source).Safe (Buffered.Fair sound earns) where
  pulls := by
    rintro ι α next ⟨pull, pulls, rfl⟩ iterator ⟨cell, world⟩ fair
    exact ⟨safe.pulls pulls iterator world fair.1, fair.2⟩
  maps := by
    rintro α β f ⟨g, maps, rfl⟩ call value shared fair
    exact Acted.aside (safe.maps maps call value) fair
  joins := by
    rintro α join ⟨pair, joins, rfl⟩ x y shared fair
    exact Acted.aside (safe.joins joins x y) fair
  reads := by
    rintro α readAt (_ | ⟨reads⟩) place shared fair
    · exact Buffered.read_acted lawful place fair
    · exact Acted.aside (safe.reads reads place) fair

end Means

namespace Composite
variable {means : Means ω} {sound : ω → Prop}

theorem guarded (safe : means.Safe sound) (tree : Composite means α) :
    ∃ earns, Guarded sound earns tree.flow.machine tree.outermost ∧ earns false tree.flow.state := by
  induction tree with
  | empty => exact ⟨_, Empty.guarded sound, rfl⟩
  | single value => exact ⟨_, Single.guarded sound, nofun⟩
  | iterated next pulls iterator => exact ⟨_, Iterated.guarded (safe.pulls pulls), nofun⟩
  | mapped f maps watched inner ih =>
    obtain ⟨_, inside, starts⟩ := ih
    obtain ⟨earns, lent, begins⟩ := Means.lend_lawful watched inside.toLawful starts
    exact ⟨_, Mapped.guarded lent (safe.maps maps), rfl, begins⟩
  | merged le watched watched' left right first second =>
    obtain ⟨_, inside, starts⟩ := first
    obtain ⟨_, others, follows⟩ := second
    obtain ⟨earns, lent, begins⟩ := Means.lend_lawful watched inside.toLawful starts
    obtain ⟨earns', lent', begins'⟩ := Means.lend_lawful watched' others.toLawful follows
    exact ⟨_, Merged.guarded lent lent', begins, begins', rfl⟩
  | paired le join joins watched watched' left right first second =>
    obtain ⟨_, inside, starts⟩ := first
    obtain ⟨_, others, follows⟩ := second
    obtain ⟨earns, lent, begins⟩ := Means.lend_lawful watched inside.toLawful starts
    obtain ⟨earns', lent', begins'⟩ := Means.lend_lawful watched' others.toLawful follows
    exact ⟨_, Paired.guarded lent lent' (safe.joins joins), ⟨begins, begins', nofun⟩, rfl⟩
  | multiplexed watched source ih =>
    obtain ⟨_, inside, starts⟩ := ih
    obtain ⟨earns, lent, begins⟩ := Means.lend_lawful watched inside.toLawful starts
    exact ⟨_, Multiplexed.guarded lent, begins, nofun⟩
  | view readAt reads => exact ⟨_, Reader.guarded (safe.reads reads), nofun⟩
  | deferred later ih =>
    obtain ⟨earns, inside, starts⟩ := ih ()
    exact ⟨_, Postponed.guarded inside, _, fun _ => rfl, starts⟩

end Composite
namespace Means

-- Functions and iterators may do what they like with the world outside, and may refuse, but the count
-- is not theirs and a refusal of theirs is not taken for that of a call.
structure TallyNeutral (act : Tallied κ → Attempt β × Tallied κ) : Prop where
  counts : ∀ world, (act world).2.tally = world.tally
  refuses : ∀ world operation, (act world).1 ≠ .error (.violation operation)

-- What is counted are the advances of operands that nothing has earned.
def tallyNeutral (κ : Type) : Means (Tallied κ) where
  pulls next := ∀ iterator world, (next iterator world).2.2.tally = world.tally
  maps f := ∀ call value, TallyNeutral (f call value)
  joins join := ∀ x y, TallyNeutral (join x y)
  reads _ := False
  note := some fun world => { world with tally := world.tally + 1 }

theorem TallyNeutral.acted {act : Tallied κ → Attempt β × Tallied κ} (tallyNeutral : TallyNeutral act) (world : Tallied κ)
    (none : world.tally = 0) : Acted (·.tally = 0) (act world) := by
  have counts := tallyNeutral.counts world
  have refuses := tallyNeutral.refuses world
  generalize act world = outcome at counts refuses ⊢
  obtain ⟨fault | value, after⟩ := outcome
  · refine .given_up ?_ (counts.trans none)
    cases fault with
    | violation operation => exact absurd rfl (refuses operation)
    | _ => rfl
  · exact .done (counts.trans none)

theorem tallyNeutral_safe (κ : Type) : (tallyNeutral κ).Safe (·.tally = 0) where
  pulls pulls iterator world none := (pulls iterator world).trans none
  maps maps call value world none := (maps call value).acted world none
  joins joins x y world none := (joins x y).acted world none
  reads := nofun

end Means

namespace Ground

structure Kept {κ : Type} (ground : Ground (Tallied κ)) (sound : ground.World → Prop) : Prop where
  safe : ground.means.Safe sound
  none : ∀ world, sound world → (ground.foot world).tally = 0
  starts : ∀ outside, sound (ground.start ⟨0, outside⟩)

theorem Layered.kept {ground : Ground (Tallied κ)} (layered : Layered (.tallyNeutral κ) ground) :
    ∃ sound, ground.Kept sound := by
  induction layered with
  | bare => exact ⟨_, Means.tallyNeutral_safe κ, fun _ none => none, fun _ => rfl⟩
  | @sharing ground α layered watched source ih =>
    obtain ⟨sound, kept⟩ := ih
    obtain ⟨_, guarded, starts⟩ := source.guarded kept.safe
    obtain ⟨earns, lent, begins⟩ := Means.lend_lawful watched guarded.toLawful starts
    exact ⟨_, kept.safe.beside lent, fun shared fair => kept.none _ fair.1, fun outside => ⟨kept.starts outside, begins⟩⟩

end Ground

inductive Held {ω : Type} (means : Means ω) (α : Type) where
  | stream (composite : Composite means α)
  | bridge (composite : Composite means α)

namespace Held
variable {means : Means ω}

def flow {ω : Type} {means : Means ω} : (α : Type) → Held means α → Flow ω α
  | _, .stream composite => composite.flow
  | _, .bridge composite =>
    ⟨Iteration (Watched composite.flow.State) _,
      Iteration.bridge (Watched.machine (means.note.getD id) composite.flow.machine), .start ⟨composite.flow.state, false⟩⟩

def isBridge {ω α : Type} {means : Means ω} : Held means α → Bool
  | .stream _ => false
  | .bridge _ => true

-- A stream is given to an iteration as it stands, and taken back as it has been left.
inductive Turns : Member (@flow ω means) → Member (@flow ω means) → Prop where
  | wrapped {α : Type} {composite : Composite means α} {visit : Visit composite.flow.State α} :
      Turns ⟨α, .stream composite, visit⟩
        ⟨α, .bridge composite, ⟨.start ⟨visit.state, false⟩, none, visit.passed⟩⟩
  | released {α : Type} {composite : Composite means α} {visit : Visit (Iteration (Watched composite.flow.State) α) α} :
      Turns ⟨α, .bridge composite, visit⟩ ⟨α, .stream composite, ⟨visit.state.stream.inner, none, visit.passed⟩⟩

section Keeping
variable {sound : ω → Prop} {earns : Bool → σ → Prop} {machine : Machine ω σ α} {visit : Visit σ α} {world : ω}

theorem asked_earns (orderly : Orderly sound earns (machine.query visit.state world)) :
    sound (visit.ask machine world).2 ∧ earns (visit.ask machine world).1.shown.isSome (visit.ask machine world).1.state := by
  rw [Visit.ask]
  generalize machine.query visit.state world = outcome at orderly ⊢
  cases orderly with
  | given_up _ there fine => exact ⟨fine, there⟩
  | @answered status _ _ there fine => cases status <;> exact ⟨fine, there⟩

theorem advanced_earns (ends : ∃ result later after, machine.advance visit.state world = (result, later, after) ∧
    earns false later ∧ sound after) : sound (visit.advance machine world).2 ∧
      earns (visit.advance machine world).1.shown.isSome (visit.advance machine world).1.state := by
  obtain ⟨result, later, after, outcome, there, fine⟩ := ends
  rw [Visit.advance, outcome]
  cases result <;> exact ⟨fine, there⟩

theorem guarded_ends {operation : Operation} (guarded : Guarded sound earns machine operation) {state : σ}
    (there : earns false state) (fine : sound world) : ∃ result later after,
      machine.advance state world = (result, later, after) ∧ earns false later ∧ sound after := by
  rcases guarded.guards there with earned | refuses
  · have succeeded := guarded.advance earned fine
    generalize machine.advance state world = outcome at succeeded ⊢
    cases succeeded with
    | succeeded there fine => exact ⟨_, _, _, rfl, there, fine⟩
  · obtain ⟨later, refused, there, _⟩ := refuses world
    exact ⟨_, _, _, refused, there, fine⟩

end Keeping

-- What a client has been shown it has earned.
inductive Earned (sound : ω → Prop) : Member (@flow ω means) → Prop where
  | stream {α : Type} {composite : Composite means α} {visit : Visit composite.flow.State α}
      {earns : Bool → composite.flow.State → Prop}
      (guarded : Guarded sound earns composite.flow.machine composite.outermost)
      (there : earns visit.shown.isSome visit.state) : Earned sound ⟨α, .stream composite, visit⟩
  | bridge {α : Type} {composite : Composite means α} {visit : Visit (Iteration (Watched composite.flow.State) α) α}
      {earns : Bool → composite.flow.State → Prop}
      (guarded : Guarded sound earns composite.flow.machine composite.outermost)
      (there : Iteration.Earns (Watched.Earns earns) visit.shown.isSome visit.state) :
      Earned sound ⟨α, .bridge composite, visit⟩

variable {sound : ω → Prop}

theorem upheld (safe : means.Safe sound) :
    Company.Upheld false (@Turns ω means) sound (fun _ _ => True) fun member _ => Earned sound member where
  fresh := by
    rintro α (composite | composite) world fine
    · obtain ⟨earns, guarded, starts⟩ := composite.guarded safe
      exact .stream guarded starts
    · obtain ⟨earns, guarded, starts⟩ := composite.guarded safe
      exact .bridge guarded ⟨rfl, starts, nofun⟩
  asked := by
    intro member world there fine
    cases there with
    | stream guarded there =>
      obtain ⟨after, kept⟩ := asked_earns (guarded.query (guarded.any there) fine)
      exact ⟨after, trivial, .stream guarded kept⟩
    | @bridge α composite visit earns guarded there =>
      have orderly : Orderly sound (Iteration.Earns (Watched.Earns earns))
          ((flow α (.bridge composite)).machine.query visit.state world) :=
        Iteration.peek_orderly (Watched.lawful guarded.toLawful) there.any fine
      obtain ⟨after, kept⟩ := asked_earns orderly
      exact ⟨after, trivial, .bridge guarded kept⟩
  advanced := by
    intro member world there fine _
    cases there with
    | stream guarded there =>
      obtain ⟨after, kept⟩ := advanced_earns (guarded_ends guarded (guarded.any there) fine)
      exact ⟨after, trivial, .stream guarded kept⟩
    | @bridge α composite visit earns guarded there =>
      obtain ⟨result, later, after, taken, left, acted⟩ :=
        Iteration.bridge_ends (Watched.lawful guarded.toLawful) there.any fine
      have ends : ∃ result later after, (flow α (.bridge composite)).machine.advance visit.state world =
          (result, later, after) ∧ Iteration.Earns (Watched.Earns earns) false later ∧ sound after :=
        ⟨result, later, after, taken, left, acted.fine⟩
      obtain ⟨after, kept⟩ := advanced_earns ends
      exact ⟨after, trivial, .bridge guarded kept⟩
  turned := by
    intro member later world there turn
    cases turn with
    | wrapped =>
      cases there with
      | stream guarded there => exact .bridge guarded ⟨rfl, guarded.any there, nofun⟩
    | released =>
      cases there with
      | bridge guarded there =>
        obtain ⟨_, inside, _⟩ := there.stream
        exact .stream guarded (guarded.any inside)
  kept there _ := there

section Answers
variable {member : Member (@flow ω means)} {world : ω}

theorem Earned.query_not_refused (there : Earned sound member) (fine : sound world) (operation : Operation) :
    (member.query world).1 ≠ .error (.violation operation) := by
  cases there with
  | stream guarded there => exact (guarded.query (guarded.any there) fine).not_refused operation
  | @bridge α composite visit earns guarded there =>
    have orderly : Orderly sound (Iteration.Earns (Watched.Earns earns))
        ((flow α (.bridge composite)).machine.query visit.state world) :=
      Iteration.peek_orderly (Watched.lawful guarded.toLawful) there.any fine
    exact orderly.not_refused operation

theorem Earned.passes (there : Earned sound member) (fine : sound world) (lawful : member.visit.shown.isSome = true) :
    (member.advance world).1 = .ok () := by
  cases there with
  | @stream α composite visit earns guarded there =>
    rw [show visit.shown.isSome = true from lawful] at there
    have succeeded := guarded.advance there fine
    simp only [Member.advance, flow]
    generalize composite.flow.machine.advance visit.state world = outcome at succeeded ⊢
    cases succeeded with
    | succeeded => rfl
  | @bridge α composite visit earns guarded there =>
    rw [show visit.shown.isSome = true from lawful] at there
    exact Iteration.bridge_earned (Watched.lawful guarded.toLawful) there fine

theorem Earned.bridge_not_refused (there : Earned sound member) (fine : sound world)
    (bridges : member.kind.isBridge = true) (operation : Operation) :
    (member.advance world).1 ≠ .error (.violation operation) := by
  cases there with
  | stream => cases bridges
  | @bridge α composite visit earns guarded there =>
    obtain ⟨result, later, after, taken, _, acted⟩ :=
      Iteration.bridge_ends (Watched.lawful guarded.toLawful) there.any fine
    have outcome : (flow α (.bridge composite)).machine.advance visit.state world = (result, later, after) := taken
    rw [Member.advance, outcome]
    exact acted.not_refused operation

theorem Earned.refused {composite : Composite means α} {visit : Visit composite.flow.State α} {fault : Fault}
    (there : Earned sound ⟨α, .stream composite, visit⟩) (fine : sound world)
    (fails : (composite.flow.machine.advance visit.state world).1 = .error fault) :
    ∃ later, composite.flow.machine.advance visit.state world = (.error (.violation composite.outermost), later, world) ∧
      Company.Alike composite.flow.machine visit.state later := by
  cases there with
  | stream guarded there =>
    rcases guarded.guards (guarded.any there) with earned | refuses
    · have succeeded := guarded.advance earned fine
      generalize composite.flow.machine.advance visit.state world = outcome at succeeded fails
      cases succeeded with
      | succeeded => cases fails
    · obtain ⟨later, refused, _, alike⟩ := refuses world
      exact ⟨later, refused, alike⟩

end Answers

theorem replies_refused {now : Company (@flow ω means)} {place : Nat} {composite : Composite means α}
    {visit : Visit composite.flow.State α} {later : composite.flow.State} {fault : Fault}
    (here : now.members[place]? = some ⟨α, .stream composite, visit⟩)
    (refused : composite.flow.machine.advance visit.state now.world = (.error fault, later, now.world))
    (alike : Company.Alike composite.flow.machine visit.state later) (calls : List (Call (Held means))) :
    (now.act (.advance place)).2.replies calls = now.replies calls := by
  have left : (now.act (.advance place)).2 =
      now.put place (⟨α, .stream composite, ⟨later, none, visit.passed⟩⟩, now.world) := by
    simp only [Company.act, here, Member.advanced, Visit.advance, Visit.left, flow, refused]
  have world : (now.act (.advance place)).2.world = now.world := by
    rw [left]
    rfl
  have same : List.Forall₂ Company.Same (now.members.set place ⟨α, .stream composite, visit⟩)
      (now.act (.advance place)).2.members := by
    rw [left]
    exact Company.same_set (List.forall₂_same.mpr fun member _ => .refl member) place (.same alike)
  obtain ⟨inside, found⟩ := List.getElem?_eq_some_iff.mp here
  rw [← found, List.set_getElem_self] at same
  exact Company.replies_same same world calls

-- Whatever a client calls, and in whatever order: no operand of a stream or of an iteration is ever
-- advanced unearned, so nothing inside refuses a call; who passes only what is shown is never refused;
-- and a refusal is the outermost stream's own and leaves nothing behind that a call could tell.
theorem operands_are_called_lawfully {ground : Ground (Tallied κ)} (layered : Ground.Layered (.tallyNeutral κ) ground)
    (outside : κ) {now : Company (@flow _ ground.means)}
    (reached : Company.Reached false Turns (ground.start ⟨0, outside⟩) now) :
    (ground.foot now.world).tally = 0 ∧
      (∀ member ∈ now.members, ∀ operation, (member.query now.world).1 ≠ .error (.violation operation)) ∧
      (∀ member ∈ now.members, member.visit.shown.isSome = true → (member.advance now.world).1 = .ok ()) ∧
      (∀ member ∈ now.members, member.kind.isBridge = true →
        ∀ operation, (member.advance now.world).1 ≠ .error (.violation operation)) ∧
      ∀ (place : Nat) (α : Type) (composite : Composite ground.means α) (visit : Visit composite.flow.State α) fault,
        now.members[place]? = some ⟨α, .stream composite, visit⟩ →
        (composite.flow.machine.advance visit.state now.world).1 = .error fault →
        fault = .violation composite.outermost ∧
          (∃ later, composite.flow.machine.advance visit.state now.world = (.error fault, later, now.world) ∧
            Company.Alike composite.flow.machine visit.state later) ∧
          ∀ calls, (now.act (.advance place)).2.replies calls = now.replies calls := by
  obtain ⟨sound, kept⟩ := layered.kept
  obtain ⟨fine, all⟩ := reached.upheld (upheld kept.safe) (kept.starts outside)
  refine ⟨kept.none _ fine, fun member among => (all member among).query_not_refused fine,
    fun member among => (all member among).passes fine,
    fun member among => (all member among).bridge_not_refused fine, ?_⟩
  intro place α composite visit fault here fails
  obtain ⟨later, refused, alike⟩ := (all _ (List.mem_of_getElem? here)).refused fine fails
  obtain rfl : Fault.violation composite.outermost = fault := by
    rw [refused] at fails
    exact Except.error.inj fails
  exact ⟨rfl, ⟨later, refused, alike⟩, replies_refused here refused alike⟩

section Doubled

def threeAndFour : Composite (Means.tallyNeutral Unit) Nat :=
  .iterated (Iterated.plainly fun rest : List Nat => (rest.head?, rest.tail)) (fun _ _ => rfl) [3, 4]

def shelved : Ground (Tallied Unit) :=
  (Ground.bare (.tallyNeutral Unit)).sharing ((Ground.bare (.tallyNeutral Unit)).means.lend true threeAndFour.flow)

def twice (_ value : Nat) (world : Tallied Unit) : Attempt Nat × Tallied Unit := (.ok (value + value), world)

theorem twice_tallyNeutral (call value : Nat) : Means.TallyNeutral (twice call value) := ⟨fun _ => rfl, fun _ _ => nofun⟩

def doubled : Composite shelved.means Nat :=
  .mapped (fun call value => aside (twice call value)) ⟨twice, twice_tallyNeutral, rfl⟩ true (.view _ .new)

theorem second_advance_refused : ∃ now : Company (@flow _ shelved.means),
    Company.Reached false Turns (shelved.start ⟨0, ()⟩) now ∧ (shelved.foot now.world).tally = 0 ∧
      ∃ member, now.members[0]? = some member ∧ (member.advance now.world).1 = .error (.violation .mapped) ∧
        ∀ calls, (now.act (.advance 0)).2.replies calls = now.replies calls := by
  have layered : Ground.Layered (.tallyNeutral Unit) shelved := .sharing .bare true threeAndFour
  have begun : Company.Reached false (@Turns _ shelved.means) (shelved.start ⟨0, ()⟩) ⟨[], shelved.start ⟨0, ()⟩⟩ := .start
  have asked := (begun.called (.fresh (.stream doubled)) nofun).called (.ask 0) nofun
  have passed := asked.called (.advance 0) nofun
  obtain ⟨uncounted, _, _, _, refused⟩ := operands_are_called_lawfully layered () passed
  exact ⟨_, passed, uncounted, _, rfl, rfl, (refused 0 Nat doubled _ _ rfl rfl).2.2⟩

end Doubled
end Held
end LightestFirst
