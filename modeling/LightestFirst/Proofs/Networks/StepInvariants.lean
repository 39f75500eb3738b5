import LightestFirst.Proofs.Budgets
import LightestFirst.Proofs.Networks.HandleInvariants
-- What the calls on streams keep, a conversation keeps: its steps build streams, call them, look at them, copy
-- readers, and put streams into bridges and out of them.
namespace LightestFirst
variable {α β : Type}

namespace Network

-- What is asked of a handle is asked of the stream in it. A box asks nothing more, nor does a new reader ask
-- anything, and what is written to the ledger or under the names of buffers does not matter.
structure KeptBesideCalls (sound : Network α → Prop) (fits : Handle α → Network α → Prop) : Prop where
  ignoring : IgnoresHandles sound fits
  beside : ∀ {network : Network α} (multiplexers : Table Nat) (ledger : Ledger), AllFit sound fits network →
    AllFit sound fits { network with multiplexers, ledger }
  iteration : ∀ {iteration : Iteration (Stream α) α} {network : Network α},
    fits (.iteration iteration) network ↔ fits (.stream iteration.stream) network
  boxed : ∀ {stream : Stream α} {network : Network α},
    fits (.stream stream) network → fits (.stream (.boxed stream)) network
  fresh : ∀ {cell : Nat} {network : Network α}, fits (.stream (.view cell .start)) network

def fitBudget (sound : Network α → Prop) (fits : Handle α → Network α → Prop) {moves : Network α → Network α → Prop}
    (drifts : Drifts moves) : Budget (Network α) where
  spent _ := AllFit sound fits
  moves := moves
  limit := 1
  drifts := drifts

def allowing (fits : Handle α → Network α → Prop) : Allowance (Stream α) (Network α) :=
  fun _ stream network => fits (.stream stream) network

variable {sound : Network α → Prop} {fits : Handle α → Network α → Prop} {network : Network α} {held : Handle α}

theorem KeptBesideCalls.contents (besideCalls : KeptBesideCalls sound fits) (here : fits held network) :
    fits (.stream held.contents) network := by
  cases held with
  | stream => exact here
  | iteration => exact besideCalls.boxed (besideCalls.iteration.mp here)

end Network

open Network

namespace Session
variable {sound : Network α → Prop} {fits : Handle α → Network α → Prop} {moves : Network α → Network α → Prop}
  {drifts : Drifts moves} {machine : Machine (Network α) (Stream α) α}

theorem keeps_allFit {σ : Type} (drifts : Drifts moves) (put : σ → Handle α)
    {call : σ → Network α → Attempt β × σ × Network α}
    (calls : ∀ {k j state network}, fits (put state) network → (fitBudget sound fits drifts).spent j network →
      k + j < (fitBudget sound fits drifts).limit → Agreed (fitBudget sound fits drifts)
        (fun _ state network => fits (put state) network) (k + j) network (call state network) (call state network)) :
    Keeps sound fits put call := by
  intro state network allFit here
  have outcome := calls (k := 0) (j := 0) here allFit Nat.zero_lt_one
  generalize call state network = told at outcome
  cases outcome with
  | agreed there spent _ _ => exact ⟨spent, there⟩

variable (besideCalls : KeptBesideCalls sound fits)
include besideCalls

theorem keeps_iteration (drifts : Drifts moves)
    {call : Iteration (Stream α) α → Network α → Attempt β × Iteration (Stream α) α × Network α}
    (calls : ∀ {k j state network}, Iteration.allowing (allowing fits) k state network →
      (fitBudget sound fits drifts).spent j network → k + j < (fitBudget sound fits drifts).limit →
      Agreed (fitBudget sound fits drifts) (Iteration.allowing (allowing fits)) (k + j) network (call state network)
        (call state network)) : Keeps sound fits .iteration call := by
  refine keeps_allFit drifts .iteration fun {k j state network} here allFit room => ?_
  have called := calls (besideCalls.iteration.mp here) allFit room
  generalize call state network = outcome at called ⊢
  cases called with
  | agreed there spent below moved => exact .agreed (besideCalls.iteration.mpr there) spent below moved

variable (agree : Agree (fitBudget sound fits drifts) (allowing fits) machine machine)
include agree

omit besideCalls in
theorem borrow_allFit (limit : Nat) : Keeps sound fits .stream fun stream network =>
    match Iteration.take machine limit (.start stream) network with
    | (result, iteration, network) => (result, iteration.stream, network) := by
  refine keeps_allFit drifts .stream fun {k j stream network} here allFit room => ?_
  have starts : Iteration.allowing (allowing fits) k (.start stream : Iteration _ α) network := here
  have taken := Iteration.takeOnto_agreed agree [] limit starts allFit room
  simp only [Iteration.take]
  generalize Iteration.takeOnto machine [] limit _ network = outcome at taken ⊢
  cases taken with
  | agreed there spent below moved => exact .agreed there spent below moved

theorem step_allFit {network : Network α} {step : Step α} (allFit : AllFit sound fits network)
    (builds : ∀ {handle recipe}, step = .define handle recipe →
      Postponed.Built (fitBudget sound fits drifts) (allowing fits) 0 network (recipe.build 0 network)) :
    AllFit sound fits (Session.step machine step network).2 := by
  have ignoring := besideCalls.ignoring
  have queries : Keeps sound fits .stream machine.query := keeps_allFit drifts .stream agree.query
  have peeks : Keeps sound fits .iteration (Iteration.peek machine) :=
    keeps_iteration besideCalls drifts (Iteration.peek_agreed agree)
  have takes : Keeps sound fits .iteration (Iteration.takeNext machine) :=
    keeps_iteration besideCalls drifts (Iteration.takeNext_agreed agree)
  cases step with
  | define handle recipe =>
    have built := builds rfl
    rw [Session.step, define]
    generalize recipe.build 0 network = outcome at built
    cases built with
    | failed spent => exact spent
    | @built stream after _ _ there spent =>
      have stored : AllFit sound fits { after with handles := after.handles.put handle (.stream stream) } :=
        AllFit.put ignoring spent there handle
      exact besideCalls.beside _ after.ledger stored
  | drop handle =>
    rw [Session.step]
    split
    · exact allFit
    · exact allFit.erase ignoring handle
  | query handle => exact allFit.onHandle ignoring queries
  | advance handle => exact allFit.onHandle ignoring (keeps_allFit drifts .stream agree.advance)
  | inspect handle => exact allFit.onHandle ignoring queries
  | drain handle limit retries =>
    exact allFit.onHandle ignoring (keeps_allFit drifts .stream (drain_agreed agree limit retries [] 0))
  | borrow handle limit => exact allFit.onHandle ignoring (borrow_allFit agree limit)
  | iterate handle => exact allFit.rehandle ignoring fun here => besideCalls.iteration.mpr (besideCalls.contents here)
  | release handle => exact allFit.rehandle ignoring fun here => besideCalls.boxed (besideCalls.contents here)
  | hasNext handle => exact allFit.onHandle ignoring peeks
  | isPending handle => exact allFit.onHandle ignoring peeks
  | peek handle => exact allFit.onHandle ignoring peeks
  | next handle => exact allFit.onHandle ignoring takes
  | takeNext handle => exact allFit.onHandle ignoring takes
  | collect handle limit =>
    exact allFit.onHandle ignoring (keeps_iteration besideCalls drifts (Iteration.takeOnto_agreed agree [] limit))
  | addView multiplexer view =>
    refine allFit.derive ignoring fun {stream made} _ from_ => ?_
    cases stream <;> cases from_
    exact besideCalls.fresh
  | fork view copy =>
    refine allFit.derive ignoring fun {stream made} here from_ => ?_
    cases stream <;> cases from_
    exact here
  | buffered multiplexer => exact allFit.observe
  | exhausted multiplexer => exact allFit.observe
  | position view => exact allFit.observe
  | lanes product => exact allFit.observe
  | forced deferred => exact allFit.observe
  | openGate | closeGate => exact besideCalls.beside network.multiplexers _ allFit
  | counter name => exact allFit

theorem steps_allFit {network : Network α} {conversation : List (Step α)} (allFit : AllFit sound fits network)
    (builds : ∀ {handle recipe}, .define handle recipe ∈ conversation → ∀ {network}, AllFit sound fits network →
      Postponed.Built (fitBudget sound fits drifts) (allowing fits) 0 network (recipe.build 0 network)) :
    AllFit sound fits (steps machine network conversation).2 := by
  induction conversation generalizing network with
  | nil => exact allFit
  | cons first rest ih =>
    refine ih (step_allFit besideCalls agree allFit fun same => ?_) fun among => builds (List.mem_cons_of_mem first among)
    subst same
    exact builds List.mem_cons_self allFit

end Session
end LightestFirst
