import LightestFirst.Proofs.Along
import LightestFirst.Proofs.Networks.Cells
-- What the calls on the streams of a network do to it, and what a conversation does: no more than what comes
-- of adding a buffer, reading one, taking a handle and writing to the ledger, however these are put together.
namespace LightestFirst
variable {α β : Type} {moves : Network α → Network α → Prop}

namespace Network

-- A relation that whatever is done inside a call stays within.
structure Confines (moves : Network α → Network α → Prop) : Prop where
  drifts : Drifts moves
  writes : ∀ (network : Network α) (update : Ledger → Ledger), moves network (network.updateLedger update)
  takes : ∀ (network : Network α) (handle : String),
    moves network { network with handles := network.handles.erase handle }
  adds : ∀ (network : Network α) (source : Stream α), moves network (network.addCell source).2
  reads : ∀ {inner : Machine (Network α) (Stream α) α}, inner.Along moves →
    ∀ (cell place : Nat) (network : Network α), moves network (Stream.readCell inner cell place network).2

structure Cellwise (moves : Network α → Network α → Prop) : Prop where
  drifts : Drifts moves
  aside : ∀ {before after : Network α}, after.cells = before.cells → moves before after
  adds : ∀ (network : Network α) (source : Stream α), moves network (network.addCell source).2
  reads : ∀ {inner : Machine (Network α) (Stream α) α}, inner.Along moves →
    ∀ (cell place : Nat) (network : Network α), moves network (Stream.readCell inner cell place network).2

-- The source goes out, runs, and comes back; nothing else that reading does writes to the network.
theorem readCell_within {inner : Machine (Network α) (Stream α) α} {cell place : Nat} {network : Network α}
    (drifts : Drifts moves) (along : inner.Along moves)
    (back : ∀ {shared running later result flag after}, network.cells[cell]? = some shared →
      shared.settled? place = none → shared.source = some running →
      moves (network.setCell cell (shared.replace none)) after →
      moves network (after.setCell cell (shared.absorb result flag (some later)))) :
    moves network (Stream.readCell inner cell place network).2 := by
  have read := Stream.readCell_cases inner cell place network
  generalize Stream.readCell inner cell place network = outcome at read ⊢
  cases read with
  | nowhere | settled | out => exact drifts.stays network
  | @drawn shared running _ _ _ _ there unsettled home drew =>
    have ran := Buffered.draw_along drifts along running shared.headBuffered (network.setCell cell (shared.replace none))
    rw [drew] at ran
    exact back there unsettled home ran

theorem Confines.and {others : Network α → Network α → Prop} (one : Confines moves) (other : Confines others) :
    Confines fun before after => moves before after ∧ others before after where
  drifts := ⟨fun network => ⟨one.drifts.stays network, other.drifts.stays network⟩,
    fun first second => ⟨one.drifts.goes_on first.1 second.1, other.drifts.goes_on first.2 second.2⟩⟩
  writes network update := ⟨one.writes network update, other.writes network update⟩
  takes network handle := ⟨one.takes network handle, other.takes network handle⟩
  adds network source := ⟨one.adds network source, other.adds network source⟩
  reads along cell place network :=
    ⟨one.reads ⟨fun state world => (along.query state world).1, fun state world => (along.advance state world).1⟩
        cell place network,
      other.reads ⟨fun state world => (along.query state world).2, fun state world => (along.advance state world).2⟩
        cell place network⟩

theorem Cellwise.confines (cellwise : Cellwise moves) : Confines moves where
  drifts := cellwise.drifts
  writes _ _ := cellwise.aside rfl
  takes _ _ := cellwise.aside rfl
  adds := cellwise.adds
  reads := cellwise.reads

end Network

open Network

section Calls
variable (confines : Confines moves)
include confines

theorem Recipe.build_along (recipe : Recipe α) (fuel : Nat) (network : Network α) :
    moves network (recipe.build fuel network).2 := by
  induction recipe generalizing network with
  | mapped f inner ih | boxed inner ih | probed name inner ih | gated gate inner ih | delayed period inner ih
  | following head inner ih =>
    have built := ih network
    rw [build]
    generalize inner.build fuel network = outcome at built ⊢
    obtain ⟨_ | _, _⟩ := outcome
    · exact built
    · exact built
  | merged le left right first second | paired le join left right first second =>
    have built := first network
    rw [build]
    generalize left.build fuel network = outcome at built ⊢
    obtain ⟨_ | _, middle⟩ := outcome
    · exact built
    · have followed := second middle
      dsimp only
      generalize right.build fuel middle = outcome at followed ⊢
      obtain ⟨_ | _, _⟩ := outcome
      · exact confines.drifts.goes_on built followed
      · exact confines.drifts.goes_on built followed
  | multiplexed source ih =>
    have built := ih network
    rw [build]
    generalize source.build fuel network = outcome at built ⊢
    obtain ⟨_ | stream, middle⟩ := outcome
    · exact built
    · exact confines.drifts.goes_on built (confines.adds middle stream)
  | view name =>
    rw [build]
    split
    · exact confines.drifts.stays network
    · exact confines.drifts.stays network
  | taken handle =>
    rw [build]
    split
    · exact confines.drifts.stays network
    · exact confines.takes network handle
  | recurring definition =>
    cases fuel with
    | zero => exact confines.drifts.stays network
    | succ => exact confines.drifts.stays network
  | _ => exact confines.drifts.stays network

theorem Blueprint.build_along (definitions : Definitions α) (blueprint : Blueprint α) (network : Network α) :
    moves network (blueprint.build definitions network).2 := by
  cases blueprint with
  | recipe tally body fuel =>
    exact confines.drifts.goes_on (confines.writes network _) (body.build_along confines fuel _)
  | definition name fuel =>
    rw [build]
    split
    · exact confines.drifts.stays network
    · next body _ => exact body.build_along confines fuel network

namespace Stream

theorem layer_along {inner : Machine (Network α) (Stream α) α} (definitions : Definitions α) (along : inner.Along moves)
    (stream : Stream α) : (layer definitions inner stream).machine.Along moves := by
  have drifts := confines.drifts
  have onLedger : ∀ {γ : Type} (act : Ledger → γ × Ledger) (network : Network α),
      moves network (Network.onLedger act network).2 := fun act network =>
    confines.writes network fun ledger => (act ledger).2
  have pulls : ∀ (supply : Supply α) network, moves network (nextOf supply network).2.2 := fun supply network =>
    confines.writes network fun ledger => (supply.next ledger).2.2
  cases stream with
  | empty => exact Empty.along drifts
  | single state => exact Single.along drifts
  | iterated state => exact Iterated.along drifts pulls
  | postponed state => exact Postponed.along drifts (Blueprint.build_along confines definitions) along
  | mapped f state => exact Mapped.along drifts along fun call value => onLedger (f call value)
  | merged le state => exact Merged.along drifts along along
  | paired le join state => exact Paired.along drifts along along fun x y => onLedger (join x y)
  | multiplexer cell reader => exact Reader.along drifts (confines.reads along cell)
  | view cell reader => exact Reader.along drifts (confines.reads along cell)
  | boxed inside => exact along
  | probed name inside =>
    exact Probed.along drifts (fun network => confines.writes network _) (fun network => confines.writes network _) along
  | gated gate inside => exact Gated.along drifts along
  | delayed state => exact Delayed.along drifts along
  | following state => exact Followed.along drifts (Iterated.along drifts pulls) along

theorem machine_along (definitions : Definitions α) (depth : Nat) : (machine definitions depth).Along moves := by
  induction depth with
  | zero => exact ⟨fun _ => confines.drifts.stays, fun _ => confines.drifts.stays⟩
  | succ depth ih =>
    exact ⟨fun stream => (layer_along confines definitions ih stream).query _,
      fun stream => (layer_along confines definitions ih stream).advance _⟩

end Stream
end Calls

namespace Session
variable {machine : Machine (Network α) (Stream α) α} (cellwise : Cellwise moves)
include cellwise

theorem onHandle_along {τ : Type} {kind : Handle.Kind α τ} {handle : String} {form : β → Reply α}
    {call : τ → Network α → Attempt β × τ × Network α} (called : ∀ state network, moves network (call state network).2.2)
    (network : Network α) : moves network (onHandle kind handle form call network).2 := by
  rw [onHandle]
  split
  · exact cellwise.drifts.stays network
  · split
    · exact cellwise.drifts.stays network
    · next state _ =>
      have taken : moves network { network with handles := network.handles.erase handle } := cellwise.aside rfl
      exact cellwise.drifts.goes_on (cellwise.drifts.goes_on taken (called state _)) (cellwise.aside rfl)

theorem observe_along {handle : String} {form : β → Reply α} {look : Stream α → Network α → Option β}
    (network : Network α) : moves network (observe handle form look network).2 := by
  rw [observe_network]
  exact cellwise.drifts.stays network

theorem derive_along {handle fresh : String} {make : Stream α → Option (Stream α)} (network : Network α) :
    moves network (derive handle fresh make network).2 := by
  rw [derive]
  split
  · exact cellwise.aside rfl
  · exact cellwise.aside rfl
  · split
    · exact cellwise.aside rfl
    · exact cellwise.aside rfl

theorem rehandle_along {handle : String} {change : Handle α → Handle α} (network : Network α) :
    moves network (rehandle handle change network).2 := by
  rw [rehandle]
  split
  · exact cellwise.aside rfl
  · exact cellwise.aside rfl

theorem define_along {handle : String} {recipe : Recipe α} (network : Network α) :
    moves network (define handle recipe network).2 := by
  have built := recipe.build_along cellwise.confines 0 network
  rw [define]
  generalize recipe.build 0 network = outcome at built ⊢
  obtain ⟨_ | _, _⟩ := outcome
  · exact built
  · exact cellwise.drifts.goes_on built (cellwise.aside rfl)

theorem step_along (along : machine.Along moves) (step : Step α) (network : Network α) :
    moves network (Session.step machine step network).2 := by
  have peeks := Iteration.peek_along cellwise.drifts along
  have takes := Iteration.takeNext_along cellwise.drifts along
  cases step with
  | define handle recipe => exact define_along cellwise network
  | drop handle =>
    rw [Session.step]
    split
    · exact cellwise.aside rfl
    · exact cellwise.aside rfl
  | query handle => exact onHandle_along cellwise along.query network
  | advance handle => exact onHandle_along cellwise along.advance network
  | inspect handle => exact onHandle_along cellwise along.query network
  | drain handle limit retries =>
    exact onHandle_along cellwise (drain_along cellwise.drifts along limit retries [] 0) network
  | borrow handle limit =>
    refine onHandle_along cellwise (fun stream network => ?_) network
    exact Iteration.takeOnto_along cellwise.drifts along [] limit (.start stream) network
  | iterate handle => exact rehandle_along cellwise network
  | release handle => exact rehandle_along cellwise network
  | hasNext handle => exact onHandle_along cellwise peeks network
  | isPending handle => exact onHandle_along cellwise peeks network
  | peek handle => exact onHandle_along cellwise peeks network
  | next handle => exact onHandle_along cellwise takes network
  | takeNext handle => exact onHandle_along cellwise takes network
  | collect handle limit =>
    exact onHandle_along cellwise (Iteration.takeOnto_along cellwise.drifts along [] limit) network
  | addView multiplexer view => exact derive_along cellwise network
  | fork view copy => exact derive_along cellwise network
  | buffered multiplexer => exact observe_along cellwise network
  | exhausted multiplexer => exact observe_along cellwise network
  | position view => exact observe_along cellwise network
  | lanes product => exact observe_along cellwise network
  | forced deferred => exact observe_along cellwise network
  | openGate | closeGate | counter => exact cellwise.aside rfl

theorem steps_along (along : machine.Along moves) (conversation : List (Step α)) (network : Network α) :
    moves network (steps machine network conversation).2 := by
  induction conversation generalizing network with
  | nil => exact cellwise.drifts.stays network
  | cons first rest ih => exact cellwise.drifts.goes_on (step_along cellwise along first network) (ih _)

end Session
end LightestFirst
