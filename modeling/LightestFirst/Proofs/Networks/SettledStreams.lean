import LightestFirst.Proofs.Budgets
import LightestFirst.Proofs.KeptAnswers
import LightestFirst.Proofs.Networks.LastingAnswers
import LightestFirst.Proofs.Networks.Sizes
import LightestFirst.Proofs.Networks.StepInvariants
-- Streams that keep their answers. Maps, merges, products, iterators and single elements do so by themselves;
-- readers do so where they have passed no more than they were shown, and whatever is called keeps them there.
namespace LightestFirst
variable {α β : Type}

-- Recipes of streams that keep what they have answered. What such a stream has kept it does not ask for again, so
-- that anything may stand inside a map, a merge or a product, or feed a buffer.
def Recipe.Steady : Recipe α → Prop
  | .deferred _ body => body.Steady
  | .boxed inner => inner.Steady
  | .probed _ _ | .gated _ _ | .delayed _ _ | .following _ _ => False
  | _ => True

def Definitions.Steady (definitions : Definitions α) : Prop :=
  ∀ {name body}, definitions.get? name = some body → body.Steady

def Blueprint.Steady : Blueprint α → Prop
  | .recipe _ body _ => body.Steady
  | .definition _ _ => True

def Step.Steady : Step α → Prop
  | .define _ recipe => recipe.Steady
  | _ => True

namespace Stream

-- Its answers are kept, as far out as a call has to come to get at them.
inductive Poised (network : Network α) : Stream α → Prop where
  | empty : Poised network .empty
  | single {state : Single α} : Poised network (.single state)
  | iterated {state : Iterated (Supply α) α} : Poised network (.iterated state)
  | waiting {blueprint : Blueprint α} (steady : blueprint.Steady) : Poised network (.postponed (.waiting blueprint))
  | forced {inner : Stream α} (inside : Poised network inner) : Poised network (.postponed (.forced inner))
  | spent : Poised network (.postponed .spent)
  | mapped {f : Action α} {state : Mapped (Stream α) α} : Poised network (.mapped f state)
  | merged {le : α → α → Bool} {state : Merged (Stream α) (Stream α) α} : Poised network (.merged le state)
  | paired {le : α → α → Bool} {join : JoinAction α} {state : Paired (Stream α) (Stream α) α} :
      Poised network (.paired le join state)
  | multiplexer {cell : Nat} {reader : Reader} (follows : reader.Follows (network.sizeOf cell)) :
      Poised network (.multiplexer cell reader)
  | view {cell : Nat} {reader : Reader} (follows : reader.Follows (network.sizeOf cell)) :
      Poised network (.view cell reader)
  | boxed {inner : Stream α} (inside : Poised network inner) : Poised network (.boxed inner)

theorem Poised.kept {before after : Network α} {stream : Stream α} (poised : stream.Poised before)
    (grown : ∀ cell, before.sizeOf cell ≤ after.sizeOf cell) : stream.Poised after := by
  induction poised with
  | empty => exact .empty
  | single => exact .single
  | iterated => exact .iterated
  | waiting steady => exact .waiting steady
  | forced _ ih => exact .forced ih
  | spent => exact .spent
  | mapped => exact .mapped
  | merged => exact .merged
  | paired => exact .paired
  | multiplexer follows => exact .multiplexer (follows.kept (grown _))
  | view follows => exact .view (follows.kept (grown _))
  | boxed _ ih => exact .boxed ih

end Stream

def Handle.Poised : Handle α → Network α → Prop
  | .stream held, network => held.Poised network
  | .iteration held, network => held.stream.Poised network

theorem Handle.contents_poised {held : Handle α} {network : Network α} (poised : held.Poised network) :
    held.contents.Poised network := by
  cases held with
  | stream => exact poised
  | iteration => exact .boxed poised

theorem Handle.Poised.kept {before after : Network α} {held : Handle α} (poised : held.Poised before)
    (grown : ∀ cell, before.sizeOf cell ≤ after.sizeOf cell) : held.Poised after := by
  cases held with
  | stream => exact Stream.Poised.kept poised grown
  | iteration => exact Stream.Poised.kept poised grown

namespace Network

abbrev Poised : Network α → Prop := AllFit (fun _ => True) Handle.Poised

theorem poised_ignoresHandles : IgnoresHandles (fun _ : Network α => True) Handle.Poised where
  sound _ _ := trivial
  fits _ poised := poised.kept fun _ => Nat.le_refl _

theorem blank_poised : (blank : Network α).Poised := ⟨trivial, fun found => by cases found⟩

theorem Poised.moved {before after : Network α} (poised : before.Poised) (kept : KeepsAnswers before after) : after.Poised :=
  ⟨trivial, fun found => (poised.handles (kept.2 _ _ found)).kept kept.1.grown⟩

theorem poised_besideCalls : KeptBesideCalls (fun _ : Network α => True) Handle.Poised where
  ignoring := poised_ignoresHandles
  beside _ _ poised := Poised.moved poised (.aside rfl rfl)
  iteration := Iff.rfl
  boxed := Stream.Poised.boxed
  fresh := Stream.Poised.view (.start _)

def poise : Budget (Network α) where
  spent _ := Poised
  moves := KeepsAnswers
  limit := 1
  drifts := keepsAnswers_confines.drifts

end Network

open Network

theorem Recipe.build_poised {recipe : Recipe α} (steady : recipe.Steady) (fuel : Nat) {network after : Network α}
    {stream : Stream α} (poised : network.Poised) (built : recipe.build fuel network = (.ok stream, after)) :
    stream.Poised after := by
  induction recipe generalizing network after stream with
  | empty => cases built; exact .empty
  | single value => cases built; exact .single
  | iterated supply => cases built; exact .iterated
  | deferred tally body => cases built; exact .waiting steady
  | mapped f inner =>
    rw [build] at built
    split at built
    · cases built
    · cases built; exact .mapped
  | merged le left right =>
    rw [build] at built
    split at built
    · cases built
    · split at built
      · cases built
      · cases built; exact .merged
  | paired le join left right =>
    rw [build] at built
    split at built
    · cases built
    · split at built
      · cases built
      · cases built; exact .paired
  | multiplexed source =>
    rw [build] at built
    split at built
    · cases built
    · cases built; exact .multiplexer (.start _)
  | view name =>
    rw [build] at built
    split at built
    · cases built
    · cases built; exact .view (.start _)
  | boxed inner ih =>
    rw [build] at built
    split at built
    · cases built
    · next within =>
      cases built
      exact .boxed (ih steady poised within)
  | taken handle =>
    rw [build] at built
    split at built
    · cases built
    · next found =>
      cases built
      exact (Handle.contents_poised (poised.handles found)).kept fun _ => Nat.le_refl _
  | defined definition fuel => cases built; exact .waiting trivial
  | recurring definition =>
    cases fuel with
    | zero => cases built; exact .empty
    | succ fuel => cases built; exact .waiting trivial
  | probed | gated | delayed | following => cases steady

theorem Recipe.build_stays_poised (recipe : Recipe α) (fuel : Nat) {network : Network α} (poised : network.Poised) :
    (recipe.build fuel network).2.Poised :=
  poised.moved (recipe.build_along keepsAnswers_confines fuel network)

theorem Blueprint.build_poised {definitions : Definitions α} (steady : definitions.Steady) {blueprint : Blueprint α}
    (fine : blueprint.Steady) {network : Network α} (poised : network.Poised) :
    (blueprint.build definitions network).2.Poised ∧
      ∀ {stream}, (blueprint.build definitions network).1 = .ok stream →
        stream.Poised (blueprint.build definitions network).2 := by
  cases blueprint with
  | recipe tally body fuel =>
    have tallied : (network.updateLedger (·.tallyIf tally)).Poised := poised.moved (.aside rfl rfl)
    exact ⟨body.build_stays_poised fuel tallied, fun built => Recipe.build_poised fine fuel tallied (Prod.ext built rfl)⟩
  | definition name fuel =>
    rw [build]
    split
    · exact ⟨poised, fun built => by cases built⟩
    · next body found =>
      exact ⟨body.build_stays_poised fuel poised,
        fun built => Recipe.build_poised (steady found) fuel poised (Prod.ext built rfl)⟩

namespace Stream
variable {definitions : Definitions α} {depth : Nat}

structure Settled (depth : Nat) (outcome : Attempt (Status α) × Stream α × Network α) : Prop where
  poised : outcome.2.1.Poised outcome.2.2
  knows : ∀ {status}, outcome.1 = .ok status → status ≠ .pending → Knows depth status outcome.2.1 outcome.2.2

theorem Settled.within {σ : Type} {put : σ → Stream α} {outcome : Attempt (Status α) × σ × Network α}
    (poised : (put outcome.2.1).Poised outcome.2.2)
    (knows : ∀ {status state after}, outcome = (.ok status, state, after) → status ≠ .pending →
      Knows depth status (put state) after) : Settled depth (Machine.within put outcome) := by
  obtain ⟨result, state, after⟩ := outcome
  refine ⟨poised, fun {status} answered stable => knows ?_ stable⟩
  obtain rfl : result = .ok status := answered
  rfl

theorem reader_settles {inner : Machine (Network α) (Stream α) α} (along : inner.Along Outlasts) {cell : Nat}
    {reader : Reader} {network : Network α} (follows : reader.Follows (network.sizeOf cell)) :
    ∀ {result later after}, (Reader.machine (readCell inner cell)).query reader network = (result, later, after) →
      later.Follows (after.sizeOf cell) ∧ ∀ {status}, result = .ok status → status ≠ .pending →
        after.settled? cell later.index = some status ∧ later.observed = status.isReady := by
  intro result later after asked
  have grown := (outlasts_readCell along cell reader.index network).grown cell
  simp only [Reader.machine, Reader.query] at asked
  generalize read : readCell inner cell reader.index network = outcome at asked grown
  obtain ⟨_ | answer, middle⟩ := outcome
  · cases asked
    exact ⟨follows.kept grown, fun same => by cases same⟩
  · cases asked
    have settles := readCell_settles along follows.behind read
    refine ⟨⟨Nat.le_trans follows.behind grown, fun observed => ?_⟩, fun {status} same stable => ?_⟩
    · cases answer with
      | ready value => exact settled_ready (settles fun same => by cases same)
      | pending => cases observed
      | ended => cases observed
    · obtain rfl := Except.ok.inj same
      exact ⟨settles stable, rfl⟩

variable (steady : definitions.Steady)
include steady

-- By the levels that are followed: only a box and a deferred stream leave the answer to what they hold.
theorem query_settles (depth : Nat) {stream : Stream α} {network : Network α} (poised : network.Poised)
    (here : stream.Poised network) : Settled depth ((machine definitions depth).query stream network) := by
  induction depth generalizing stream network with
  | zero => exact ⟨here, fun answered => by cases answered⟩
  | succ depth ih =>
    have along := machine_along outlasts_cellwise.confines definitions depth
    cases here with
    | empty =>
      refine ⟨.empty, fun answered _ => ?_⟩
      cases answered
      exact .empty
    | @single state =>
      refine .within .single fun asked stable => ?_
      obtain ⟨_ | value⟩ := state
      · cases asked
        exact .consumed
      · cases asked
        exact .single
    | iterated =>
      refine .within .iterated fun asked stable => ?_
      obtain ⟨iterator, head, rfl, kept⟩ := Iterated.query_keeps asked
      exact .iterated kept
    | mapped =>
      refine .within .mapped fun asked stable => ?_
      obtain ⟨inner, calls, rfl⟩ := Mapped.query_keeps asked stable
      exact .mapped
    | merged =>
      refine .within .merged fun asked stable => ?_
      obtain ⟨left, right, verdict, rfl, kept⟩ := Merged.query_keeps asked stable
      exact .merged kept
    | paired =>
      refine .within .paired fun asked stable => ?_
      obtain ⟨choice, chosen, kept⟩ := Paired.query_keeps asked stable
      exact .paired chosen kept
    | multiplexer follows =>
      refine .within (.multiplexer (reader_settles along follows rfl).1) fun asked stable => ?_
      obtain ⟨_, settles⟩ := reader_settles along follows asked
      exact .multiplexer (settles rfl stable).1 (settles rfl stable).2
    | view follows =>
      refine .within (.view (reader_settles along follows rfl).1) fun asked stable => ?_
      obtain ⟨_, settles⟩ := reader_settles along follows asked
      exact .view (settles rfl stable).1 (settles rfl stable).2
    | boxed inside =>
      have asked := ih poised inside
      exact ⟨.boxed asked.poised, fun answered stable => .boxed (asked.knows answered stable)⟩
    | forced inside =>
      have asked := ih poised inside
      exact ⟨.forced asked.poised, fun answered stable => .forced (asked.knows answered stable)⟩
    | spent => exact ⟨.spent, fun answered => by cases answered⟩
    | @waiting blueprint fine =>
      have builds := Blueprint.build_poised steady fine poised
      change Settled (depth + 1) (Machine.within Stream.postponed (Postponed.reach _ _ (.waiting blueprint) network))
      rw [Postponed.reach]
      generalize blueprint.build definitions network = outcome at builds
      obtain ⟨_ | inner, middle⟩ := outcome
      · exact ⟨.spent, fun answered => by cases answered⟩
      · have asked := ih builds.1 (builds.2 rfl)
        exact ⟨.forced asked.poised, fun answered stable => .forced (asked.knows answered stable)⟩

theorem advance_poised (depth : Nat) {stream : Stream α} {network : Network α} (poised : network.Poised)
    (here : stream.Poised network) :
    ((machine definitions depth).advance stream network).2.1.Poised
      ((machine definitions depth).advance stream network).2.2 := by
  induction depth generalizing stream network with
  | zero => exact here
  | succ depth ih =>
    cases here with
    | empty => exact .empty
    | single => exact .single
    | iterated => exact .iterated
    | mapped => exact .mapped
    | merged => exact .merged
    | paired => exact .paired
    | multiplexer follows => exact .multiplexer follows.advance
    | view follows => exact .view follows.advance
    | boxed inside => exact .boxed (ih poised inside)
    | forced inside => exact .forced (ih poised inside)
    | spent => exact .spent
    | @waiting blueprint fine =>
      have builds := Blueprint.build_poised steady fine poised
      change (Machine.within Stream.postponed (Postponed.reach _ _ (.waiting blueprint) network)).2.1.Poised
        (Machine.within Stream.postponed (Postponed.reach _ _ (.waiting blueprint) network)).2.2
      rw [Postponed.reach]
      generalize blueprint.build definitions network = outcome at builds
      obtain ⟨_ | inner, middle⟩ := outcome
      · exact .spent
      · exact .forced (ih builds.1 (builds.2 rfl))

theorem machine_poised (depth : Nat) : Agree poise (fun _ stream network => stream.Poised network)
    (machine definitions depth) (machine definitions depth) where
  query {k j stream network} here poised _ := by
    have kept := (machine_along keepsAnswers_confines definitions depth).query stream network
    exact .agreed (k := k) (query_settles steady depth poised here).poised (poised.moved kept) (Nat.le_refl _) kept
  advance {k j stream network} here poised _ := by
    have kept := (machine_along keepsAnswers_confines definitions depth).advance stream network
    exact .agreed (k := k) (advance_poised steady depth poised here) (poised.moved kept) (Nat.le_refl _) kept
  kept here moved := here.kept moved.1.grown

end Stream

namespace Session
variable {network : Network α}

variable {machine : Machine (Network α) (Stream α) α}
  (agree : Agree poise (fun _ stream network => stream.Poised network) machine machine)
include agree

theorem steps_poised {conversation : List (Step α)} (steady : ∀ step ∈ conversation, step.Steady)
    (poised : network.Poised) : (steps machine network conversation).2.Poised := by
  refine steps_allFit poised_besideCalls agree poised fun {handle recipe} among {network} poised => ?_
  have fine : recipe.Steady := steady _ among
  have moved := recipe.build_along keepsAnswers_confines 0 network
  have stays := recipe.build_stays_poised 0 poised
  generalize built : recipe.build 0 network = outcome at moved stays ⊢
  obtain ⟨_ | stream, after⟩ := outcome
  · exact .failed (j := 0) stays (Nat.le_refl _) moved
  · exact .built (k := 0) (j := 0) (Recipe.build_poised fine 0 poised built) stays (Nat.le_refl _) moved

end Session
end LightestFirst
