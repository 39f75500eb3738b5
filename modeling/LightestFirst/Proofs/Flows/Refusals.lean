import LightestFirst.Proofs.Flows.Companies
import LightestFirst.Proofs.Flows.Resuming
import LightestFirst.Proofs.Networks.SourcesAtHome
-- Trees whose functions refuse calls as they like, and clients that go on all the same.
namespace LightestFirst
variable {κ ω σ τ α β : Type} {footing : Footing κ ω} {setting : Setting ω}

namespace Means

-- Functions that are pure but for the calls they refuse, over iterators that look at nothing.
def moody (κ : Type) : Means (Temper κ) where
  pulls {ι α} next := ∃ pull : ι → Option α × ι, next = Iterated.plainly pull
  maps {α β} f := ∃ (said : α → κ) (g : α → β), f = fun _ value => Temper.say (said value) (g value)
  joins {α} join := ∃ (said : α → α → κ) (joined : α → α → α), join = fun x y => Temper.say (said x y) (joined x y)
  reads _ := False
  note := none

structure Lives (means : Means ω) (footing : Footing κ ω) (setting : Setting ω) : Prop where
  unwatched : means.note = none
  pulls : ∀ {ι α : Type} {next : ι → ω → Option α × ι × ω}, means.pulls next →
    ∃ pull : ι → Option α × ι, next = Iterated.plainly pull
  maps : ∀ {α β : Type} {f : Nat → α → ω → Attempt β × ω}, means.maps f →
    ∃ (said : α → κ) (g : α → β), ∀ call value, Speaks footing setting (said value) (g value) (f call value)
  joins : ∀ {α : Type} {join : α → α → ω → Attempt α × ω}, means.joins join →
    ∃ (said : α → α → κ) (joined : α → α → α), ∀ x y, Speaks footing setting (said x y) (joined x y) (join x y)
  reads : ∀ {α : Type} {readAt : Nat → ω → Attempt (Status α) × ω}, means.reads readAt →
    ∃ course size settled, course.Definite ∧ Reading footing setting readAt course size settled

theorem moody_lives (κ : Type) : (moody κ).Lives (Temper.footing κ) (Temper.setting κ) where
  unwatched := rfl
  pulls pulls := pulls
  maps := by
    rintro α β f ⟨said, g, rfl⟩
    exact ⟨said, g, fun _ value => Temper.say_speaks (said value) (g value)⟩
  joins := by
    rintro α join ⟨said, joined, rfl⟩
    exact ⟨said, joined, fun x y => Temper.say_speaks (said x y) (joined x y)⟩
  reads := nofun

variable {means : Means ω}

theorem lend_unwatched (unwatched : means.note = none) (watched : Bool) (flow : Flow ω α) :
    means.lend watched flow = flow := by
  cases watched with
  | false => rfl
  | true => simp only [lend, unwatched]

theorem reading_aside {machine : Machine ω τ β} {xs : Course β} {stands : Standing τ ω}
    {readAt : Nat → ω → Attempt (Status α) × ω} {course : Course α} {size : ω → Nat} {settled : Nat → Status α → ω → Prop}
    (plays : Plays setting machine xs stands) (reading : Reading footing setting readAt course size settled) :
    Reading (footing.sharing τ β) (setting.sharing xs stands) (fun place => aside (readAt place)) course
      (fun shared => size shared.2) (fun place status shared => settled place status shared.2) where
  grows moved := reading.grows moved.1
  shown := by
    rintro place ⟨cell, world⟩ ⟨sound, there⟩ behind
    have shown := reading.shown sound behind
    simp only [aside]
    generalize readAt place world = outcome at shown ⊢
    cases shown with
    | answered answers sound moved inside =>
      exact .answered answers ⟨sound, there.kept (plays.stays moved)⟩ ⟨moved, Nat.le_refl _⟩ inside
    | failed hinders sound moved => exact .failed hinders ⟨sound, there.kept (plays.stays moved)⟩ ⟨moved, Nat.le_refl _⟩
  along := fun place ⟨_, world⟩ => ⟨reading.along place world, fun _ _ held => held⟩
  tries := by
    rintro place ⟨cell, world⟩ ⟨sound, _⟩ behind
    exact (reading.tries sound behind).onto (fun after => (cell, after)) (fun _ => rfl) id fun _ => List.suffix_rfl
  repeats := by
    rintro place status ⟨cell, world⟩ held
    simp only [aside, reading.repeats held]
  still held moved := reading.still held moved.1

theorem Lives.beside (lives : means.Lives footing setting) {source : Machine ω σ α} {course : Course α}
    {stands : Standing σ ω} {quiet : Status α → σ → ω → Prop} (definite : course.Definite)
    (resumes : Resumes footing setting source course stands quiet) :
    (means.beside source).Lives (footing.sharing σ α) (setting.sharing course stands) where
  unwatched := by
    rw [Means.beside, lives.unwatched]
    rfl
  pulls := by
    rintro ι β next ⟨pull, pulls, rfl⟩
    obtain ⟨plain, rfl⟩ := lives.pulls pulls
    exact ⟨plain, rfl⟩
  maps := by
    rintro β γ f ⟨g, maps, rfl⟩
    obtain ⟨said, image, speaks⟩ := lives.maps maps
    exact ⟨said, image, fun call value => (speaks call value).aside resumes.toPlays⟩
  joins := by
    rintro β join ⟨pair, joins, rfl⟩
    obtain ⟨said, joined, speaks⟩ := lives.joins joins
    exact ⟨said, joined, fun x y => (speaks x y).aside resumes.toPlays⟩
  reads := by
    rintro β readAt (_ | ⟨reads⟩)
    · exact ⟨course, _, _, definite, Buffered.reading resumes⟩
    · obtain ⟨course, size, settled, definite, reading⟩ := lives.reads reads
      exact ⟨course, _, _, definite, reading_aside resumes.toPlays reading⟩

end Means

namespace Composite
variable {means : Means ω}

theorem endures (lives : means.Lives footing setting) (tree : Composite means α) :
    ∃ course, course.Definite ∧ tree.flow.Endures footing setting course := by
  have lends : ∀ {β : Type} (watched : Bool) (flow : Flow ω β), means.lend watched flow = flow :=
    fun watched flow => Means.lend_unwatched lives.unwatched watched flow
  induction tree with
  | empty => exact ⟨_, Course.definite_ended, Flow.empty_endures⟩
  | single value => exact ⟨_, Course.definite_ofAnswers _, Flow.single_endures value⟩
  | iterated next pulls iterator =>
    obtain ⟨pull, rfl⟩ := lives.pulls pulls
    exact ⟨_, Course.definite_ofAnswers _, Flow.iterated_endures pull iterator⟩
  | mapped f maps watched inner ih =>
    obtain ⟨course, definite, inside⟩ := ih
    obtain ⟨said, g, speaks⟩ := lives.maps maps
    rw [flow, lends]
    exact ⟨_, definite.map g, Flow.mappedBy_endures speaks inside⟩
  | merged le watched watched' left right first second =>
    obtain ⟨xs, definite, inside⟩ := first
    obtain ⟨ys, certain, others⟩ := second
    rw [flow, lends, lends]
    exact ⟨_, definite.merged certain, Flow.merged_endures le inside others⟩
  | paired le join joins watched watched' left right first second =>
    obtain ⟨xs, definite, inside⟩ := first
    obtain ⟨ys, certain, others⟩ := second
    obtain ⟨said, joined, speaks⟩ := lives.joins joins
    rw [flow, lends, lends]
    exact ⟨_, definite.joined certain, Flow.pairedBy_endures le speaks inside others⟩
  | multiplexed watched source ih =>
    obtain ⟨course, definite, inside⟩ := ih
    rw [flow, lends]
    exact ⟨_, definite, Flow.multiplexed_endures inside⟩
  | view readAt reads =>
    obtain ⟨course, size, settled, definite, reading⟩ := lives.reads reads
    exact ⟨_, definite, Flow.view_endures reading⟩
  | deferred later ih =>
    obtain ⟨course, definite, inside⟩ := ih ()
    exact ⟨_, definite, Flow.deferred_endures inside⟩

end Composite

namespace Ground

structure Sustained (ground : Ground (Temper κ)) (footing : Footing κ ground.World) (setting : Setting ground.World) :
    Prop where
  lives : ground.means.Lives footing setting
  foot : footing.foot = ground.foot
  begun : ∀ temper, ground.foot (ground.start temper) = temper
  starts : ∀ temper, setting.sound (ground.start temper)
  moves : ∀ {before after}, setting.moves before after → (ground.foot before).Goes (ground.foot after)
  hinders : ∀ {cause before after}, setting.hinders cause before after →
    (∃ fault, cause = .fault fault) ∧ (ground.foot before).Refused (ground.foot after)

theorem Layered.sustained {ground : Ground (Temper κ)} (layered : Layered (.moody κ) ground) :
    ∃ footing setting, ground.Sustained footing setting := by
  induction layered with
  | bare =>
    exact ⟨_, _, Means.moody_lives κ, rfl, fun _ => rfl, fun _ => trivial, id, id⟩
  | @sharing ground α layered watched source ih =>
    obtain ⟨footing, setting, sustained⟩ := ih
    obtain ⟨course, definite, stands, quiet, resumes, starts⟩ := source.endures sustained.lives
    rw [Means.lend_unwatched sustained.lives.unwatched]
    refine ⟨footing.sharing _ α, setting.sharing course stands, sustained.lives.beside definite resumes, ?_,
      sustained.begun, fun temper => ⟨sustained.starts temper, Buffered.start_stands (starts _)⟩,
      fun moved => sustained.moves moved.1, sustained.hinders⟩
    funext shared
    exact congrFun sustained.foot shared.2

end Ground

namespace Composite
variable {means : Means ω}

def flows {ω : Type} {means : Means ω} (α : Type) (composite : Composite means α) : Flow ω α := composite.flow

-- A client stands where it has passed to, in a stream that goes on from wherever it is given up.
def Resumable (footing : Footing κ ω) (setting : Setting ω) (member : Member (@flows ω means)) (world : ω) : Prop :=
  ∃ course, course.Definite ∧ ∃ stands quiet,
    Resumes footing setting member.kind.flow.machine course stands quiet ∧
    (∀ start, stands 0 false member.kind.flow.state start) ∧ member.visit.Stands course stands world

section Reached
variable {ground : Ground (Temper κ)} {footing : Footing κ ground.World} {setting : Setting ground.World}
  {refuses : List κ → Bool} {member : Member (@flows _ ground.means)} {world : ground.World}

def Tempered (ground : Ground (Temper κ)) (setting : Setting ground.World) (refuses : List κ → Bool)
    (world : ground.World) : Prop := setting.sound world ∧ (ground.foot world).refuses = refuses

theorem upheld (sustained : ground.Sustained footing setting) :
    Company.Upheld true (fun _ _ => False) (Tempered ground setting refuses) setting.moves
      (Resumable footing setting : Member (@flows _ ground.means) → ground.World → Prop) where
  fresh := by
    intro α composite world _
    obtain ⟨course, definite, stands, quiet, resumes, starts⟩ := composite.endures sustained.lives
    exact ⟨course, definite, stands, quiet, resumes, starts, Visit.fresh_stands (starts world)⟩
  asked := by
    rintro member world ⟨course, definite, stands, quiet, resumes, starts, there⟩ ⟨sound, known⟩
    obtain ⟨fine, moved, there⟩ := there.ask resumes.toPlays sound
    exact ⟨⟨fine, (sustained.moves moved).1.trans known⟩, moved, course, definite, stands, quiet, resumes, starts, there⟩
  advanced := by
    rintro member world ⟨course, definite, stands, quiet, resumes, starts, there⟩ ⟨sound, known⟩ lawful
    obtain ⟨fine, moved, there⟩ := there.advance resumes.toPlays sound (lawful rfl)
    exact ⟨⟨fine, (sustained.moves moved).1.trans known⟩, moved, course, definite, stands, quiet, resumes, starts, there⟩
  turned _ turn := turn.elim
  kept := by
    rintro member world after ⟨course, definite, stands, quiet, resumes, starts, there⟩ moved
    exact ⟨course, definite, stands, quiet, resumes, starts, there.kept (resumes.toPlays.stays moved)⟩

theorem Resumable.refused (sustained : ground.Sustained footing setting) (resumable : Resumable footing setting member world)
    (tempered : Tempered ground setting refuses world) {fault : Fault} {state : member.kind.flow.State}
    {after : ground.World} (fails : member.kind.flow.machine.query member.visit.state world = (.error fault, state, after)) :
    ∃ call older, (ground.foot after).calls = call :: older ∧ (ground.foot world).calls <:+ older ∧
      refuses (call :: older) = true ∧ fault = .refusedCall (older.length + 1) ∧
      call :: call :: older <:+ (ground.foot (member.kind.flow.machine.query state after).2.2).calls := by
  obtain ⟨course, _, stands, quiet, resumes, _, ⟨_, _, there⟩, _, _⟩ := resumable
  have tries := resumes.tries there tempered.1
  have moved := footing.goes (resumes.along.query member.visit.state world)
  simp only [Machine.Tries, sustained.foot] at tries moved
  rw [fails] at tries moved
  cases tries with
  | @refused _ _ call older last made said numbered repeated =>
    have same : (ground.foot after).refuses = refuses := moved.1.trans tempered.2
    exact ⟨call, older, last, made, same ▸ said, numbered, repeated⟩

theorem Resumable.answers (resumable : Resumable footing setting member world)
    (tempered : Tempered ground setting refuses world) {status : Status member.Item} {state : member.kind.flow.State} {after : ground.World}
    (told : member.kind.flow.machine.query member.visit.state world = (.ok status, state, after)) : status ≠ .pending := by
  obtain ⟨course, _, stands, quiet, resumes, _, ⟨_, _, there⟩, _, _⟩ := resumable
  have tries := resumes.tries there tempered.1
  simp only [Machine.Tries] at tries
  rw [told] at tries
  cases tries with
  | done answered => exact Status.isStable_iff.mp answered.1

theorem Resumable.passes (resumable : Resumable footing setting member world)
    (tempered : Tempered ground setting refuses world) (lawful : member.visit.shown.isSome = true) : (member.advance world).1 = .ok () := by
  obtain ⟨course, _, stands, quiet, resumes, _, there⟩ := resumable
  have passes := there.passes resumes.toPlays tempered.1 lawful
  simp only [Member.advance, flows]
  generalize member.kind.flow.machine.advance member.visit.state world = outcome at passes ⊢
  cases passes with
  | passed => rfl

theorem Resumable.drains (sustained : ground.Sustained footing setting) (resumable : Resumable footing setting member world)
    (tempered : Tempered ground setting refuses world) (limit : Nat) {start : Temper κ} (calm : start.Calm) :
    ∃ items ending, ending ≠ .pending ∧
      (∃ later after, Session.drain member.kind.flow.machine (member.visit.passed.length + limit) 0 [] 0
        member.kind.flow.state (ground.start start) = (.ok ⟨member.visit.passed ++ items, ending, 0⟩, later, after)) ∧
      ((ground.foot world).Calm → ∃ later after, Session.drain member.kind.flow.machine limit 0 [] 0
        member.visit.state world = (.ok ⟨items, ending, 0⟩, later, after)) := by
  obtain ⟨course, definite, stands, quiet, resumes, starts, ⟨_, _, there⟩, begins, _⟩ := resumable
  have calmly : Plays (setting.calmly fun world => (ground.foot world).Calm) member.kind.flow.machine course stands :=
    resumes.toPlays.calmly (fun calm moved => calm.goes (sustained.moves moved))
      fun calm held => calm.not_refused (sustained.hinders held).2
  have prompt := setting.calmly_prompt fun world => (ground.foot world).Calm
  obtain ⟨items, ending, serves⟩ := definite.serves begins.reaches limit
  refine ⟨items, ending, serves.going, ?_, fun here => ?_⟩
  · have begun : (ground.foot (ground.start start)).Calm := (sustained.begun start).symm ▸ calm
    exact calmly.drains prompt (begins.serves serves) [] 0 (starts _) ⟨sustained.starts start, begun⟩
  · exact calmly.drains prompt serves [] 0 there ⟨tempered.1, here⟩

end Reached

-- Functions refuse whichever of their calls they like, and clients go on with calls that are lawful. A
-- query that is given up has had its last call refused and nothing kept of it: asked again, it makes this
-- call first. Whoever passes what is shown can; what has been passed is what the calm tree begins with,
-- and once nothing is refused any more the rest of it follows. No source is left out of its cell.
theorem refusals_lose_nothing {ground : Ground (Temper κ)} (layered : Ground.Layered (.moody κ) ground)
    {refuses : List κ → Bool} {now : Company (@flows _ ground.means)}
    (reached : Company.Reached true (fun _ _ => False) (ground.start ⟨refuses, []⟩) now) :
    (∀ member ∈ now.members,
      (∀ fault state after, member.kind.flow.machine.query member.visit.state now.world = (.error fault, state, after) →
        ∃ call older, (ground.foot after).calls = call :: older ∧ (ground.foot now.world).calls <:+ older ∧
          refuses (call :: older) = true ∧ fault = .refusedCall (older.length + 1) ∧
          call :: call :: older <:+ (ground.foot (member.kind.flow.machine.query state after).2.2).calls) ∧
      (∀ status state after, member.kind.flow.machine.query member.visit.state now.world = (.ok status, state, after) →
        status ≠ .pending) ∧
      (member.visit.shown.isSome = true → (member.advance now.world).1 = .ok ()) ∧
      ∀ limit (start : Temper κ), start.Calm → ∃ items ending, ending ≠ .pending ∧
        (∃ later after, Session.drain member.kind.flow.machine (member.visit.passed.length + limit) 0 [] 0
          member.kind.flow.state (ground.start start) = (.ok ⟨member.visit.passed ++ items, ending, 0⟩, later, after)) ∧
        ((ground.foot now.world).Calm → ∃ later after, Session.drain member.kind.flow.machine limit 0 [] 0
          member.visit.state now.world = (.ok ⟨items, ending, 0⟩, later, after))) ∧
    ∀ (β : Type) (definitions : Definitions β) (depth : Nat) (conversation : List (Step β)) (cell : Nat)
      (shared : Buffered (Option (Stream β)) β),
      (Session.steps (Stream.machine definitions depth) .blank conversation).2.cells[cell]? = some shared →
      shared.source.isSome = true := by
  obtain ⟨footing, setting, sustained⟩ := layered.sustained
  have begun : (ground.foot (ground.start ⟨refuses, []⟩)).refuses = refuses := by rw [sustained.begun]
  obtain ⟨tempered, all⟩ := reached.upheld (upheld sustained) ⟨sustained.starts _, begun⟩
  refine ⟨fun member among => ?_, fun β definitions => Session.sources_at_home definitions⟩
  have resumable := all member among
  exact ⟨fun _ _ _ fails => resumable.refused sustained tempered fails, fun _ _ _ told => resumable.answers tempered told,
    resumable.passes tempered, fun limit _ calm => resumable.drains sustained tempered limit calm⟩

section Squared

def doubles : Composite (Means.moody (Nat × Nat)) Nat :=
  .mapped (fun _ value => Temper.say (0, value) (value + value)) ⟨_, _, rfl⟩ false
    (.iterated (Iterated.plainly fun rest : List Nat => (rest.head?, rest.tail)) ⟨_, rfl⟩ [1, 2])

def doublesShared : Ground (Temper (Nat × Nat)) :=
  (Ground.bare (.moody _)).sharing ((Ground.bare (.moody _)).means.lend false doubles.flow)

def sums : Composite doublesShared.means Nat :=
  .paired (· ≤ ·) (fun x y => aside (Temper.say (x, y) (x + y))) ⟨_, ⟨_, _, rfl⟩, rfl⟩ false false
    (.view _ .new) (.view _ .new)

def firstAndThird (calls : List (Nat × Nat)) : Bool := calls.length == 1 || calls.length == 3

theorem first_calls_refused : ∃ (now : Company (@flows _ doublesShared.means)) (visit : Visit sums.flow.State Nat),
    Company.Reached true (fun _ _ => False) (doublesShared.start ⟨firstAndThird, []⟩) now ∧
      now.members = [⟨Nat, sums, visit⟩] ∧ visit.passed = [4] ∧
      (doublesShared.foot now.world).calls = [(2, 2), (2, 2), (0, 1), (0, 1)] ∧
      ∃ items ending,
        (∃ later after, Session.drain sums.flow.machine (1 + 3) 0 [] 0 sums.flow.state
          (doublesShared.start ⟨fun _ => false, []⟩) = (.ok ⟨[4] ++ items, ending, 0⟩, later, after)) ∧
        ∃ later after, Session.drain sums.flow.machine 3 0 [] 0 visit.state now.world = (.ok ⟨items, ending, 0⟩, later, after) := by
  have layered : Ground.Layered (.moody (Nat × Nat)) doublesShared := .sharing .bare false doubles
  have begun : Company.Reached true (fun _ _ => False) (doublesShared.start ⟨firstAndThird, []⟩)
      (⟨[], doublesShared.start ⟨firstAndThird, []⟩⟩ : Company (@flows _ doublesShared.means)) := .start
  have refused := ((begun.called (.fresh sums) fun _ => trivial).called (.ask 0) fun _ => trivial).called (.ask 0) fun _ => trivial
  have shown := refused.called (.ask 0) fun _ => trivial
  have passed := shown.called (.advance 0) (by
    rintro _ member here
    cases here
    rfl)
  obtain ⟨items, ending, _, whole, rest⟩ := ((refusals_lose_nothing layered passed).1 _ List.mem_cons_self).2.2.2 3 ⟨fun _ => false, []⟩
    fun _ _ => rfl
  refine ⟨_, _, passed, rfl, rfl, rfl, items, ending, whole, rest fun more _ => ?_⟩
  change firstAndThird (more ++ [(2, 2), (2, 2), (0, 1), (0, 1)]) = false
  simp [firstAndThird]

end Squared

end Composite
end LightestFirst
