import LightestFirst.Network.Machine
-- A conversation with a network: steps that name handles, each with its reply. A fault is the
-- reply of its step, and the next step goes on with what it left behind.
namespace LightestFirst

inductive Step (α : Type) where
  | define (handle : String) (recipe : Recipe α)
  | drop (handle : String)
  | openGate (gate : String)
  | closeGate (gate : String)
  | counter (name : String)
  | query (handle : String)
  | advance (handle : String)
  | inspect (handle : String)
  -- reads up to `limit` elements, asking again after up to `retries` pending answers in all
  | drain (handle : String) (limit retries : Nat)
  -- takes up to `limit` elements through a bridge that is given up afterwards
  | borrow (handle : String) (limit : Nat)
  | iterate (handle : String)
  | release (handle : String)
  | hasNext (handle : String)
  | isPending (handle : String)
  | peek (handle : String)
  | next (handle : String)
  | takeNext (handle : String)
  | collect (handle : String) (limit : Nat)
  | addView (multiplexer view : String)
  | fork (view copy : String)
  | buffered (multiplexer : String)
  | exhausted (multiplexer : String)
  | position (view : String)
  | lanes (product : String)
  | forced (deferred : String)

inductive Ending where
  | limit
  | ended
  | pending
deriving DecidableEq, Repr

structure Drained (α : Type) where
  items : List α
  ending : Ending
  retried : Nat

inductive Reply (α : Type) where
  | done
  | number (value : Nat)
  | flag (value : Bool)
  | status (status : Status α)
  | inspected (status : Status α)
  | element (value : Option α)
  | elements (values : List α)
  -- whether pending answers were to be retried belongs to the reply
  | drained (result : Drained α) (retrying : Bool)
  | taken (result : Except Shortage α)
  | fault (fault : Fault)

namespace Session
variable {α β τ : Type} {ω σ : Type}

def drain (machine : Machine ω σ α) (limit retries : Nat) (taken : List α) (retried : Nat)
    (state : σ) (world : ω) : Attempt (Drained α) × σ × ω :=
  match limit with
  | 0 => (.ok ⟨taken.reverse, .limit, retried⟩, state, world)
  | limit + 1 =>
    match machine.query state world with
    | (.error fault, state, world) => (.error fault, state, world)
    | (.ok .ended, state, world) => (.ok ⟨taken.reverse, .ended, retried⟩, state, world)
    | (.ok .pending, state, world) =>
      match retries with
      | 0 => (.ok ⟨taken.reverse, .pending, retried⟩, state, world)
      | retries + 1 => drain machine (limit + 1) retries taken (retried + 1) state world
    | (.ok (.ready value), state, world) =>
      match machine.advance state world with
      | (.error fault, state, world) => (.error fault, state, world)
      | (.ok (), state, world) => drain machine limit retries (value :: taken) retried state world
termination_by limit + retries

def reply (form : β → Reply α) : Attempt β → Reply α
  | .ok value => form value
  | .error fault => .fault fault

-- Runs a call on what a handle of this kind holds. The handle is out of the table meanwhile, and comes
-- back with whatever the call made of it.
def onHandle (kind : Handle.Kind α τ) (handle : String) (form : β → Reply α)
    (call : τ → Network α → Attempt β × τ × Network α) (network : Network α) : Reply α × Network α :=
  match network.handles.get? handle with
  | none => (.fault (.noHandle handle), network)
  | some held =>
    match kind.of? held with
    | none => (.fault (.unfit handle), network)
    | some state =>
      match call state { network with handles := network.handles.erase handle } with
      | (result, state, network) =>
        (reply form result, { network with handles := network.handles.put handle (kind.put state) })

def observe (handle : String) (form : β → Reply α) (look : Stream α → Network α → Option β)
    (network : Network α) : Reply α × Network α :=
  match network.handles.get? handle with
  | none => (.fault (.noHandle handle), network)
  | some (.iteration _) => (.fault (.unfit handle), network)
  | some (.stream stream) =>
    match look stream network with
    | none => (.fault (.unfit handle), network)
    | some seen => (form seen, network)

theorem observe_network (handle : String) (form : β → Reply α) (look : Stream α → Network α → Option β)
    (network : Network α) : (observe handle form look network).2 = network := by
  rw [observe]
  split
  · rfl
  · rfl
  · split
    · rfl
    · rfl

def derive (handle fresh : String) (make : Stream α → Option (Stream α)) (network : Network α) :
    Reply α × Network α :=
  match network.handles.get? handle with
  | none => (.fault (.noHandle handle), network)
  | some (.iteration _) => (.fault (.unfit handle), network)
  | some (.stream stream) =>
    match make stream with
    | none => (.fault (.unfit handle), network)
    | some made => (.done, { network with handles := network.handles.put fresh (.stream made) })

-- A definition that fails to build stores nothing. A multiplexer is known by its name from then on.
def define (handle : String) (recipe : Recipe α) (network : Network α) : Reply α × Network α :=
  match recipe.build 0 network with
  | (.error fault, network) => (.fault fault, network)
  | (.ok stream, network) =>
    let multiplexers := match stream with
      | .multiplexer cell _ => network.multiplexers.put handle cell
      | _ => network.multiplexers
    (.done, { network with handles := network.handles.put handle (.stream stream), multiplexers })

def rehandle (handle : String) (change : Handle α → Handle α) (network : Network α) :
    Reply α × Network α :=
  match network.handles.get? handle with
  | none => (.fault (.noHandle handle), network)
  | some held => (.done, { network with handles := network.handles.put handle (change held) })

def cellOf? : Stream α → Network α → Option (Buffered (Option (Stream α)) α)
  | .multiplexer cell _, network => network.cells[cell]?
  | _, _ => none

def positionOf? : Stream α → Option Nat
  | .view _ reader => some reader.index
  | .mapped _ ⟨.view _ reader, _, _⟩ => some reader.index
  | _ => none

def lanesOf? : Stream α → Option Nat
  | .paired _ _ state => some state.lanes.length
  | _ => none

def forcedOf? : Stream α → Option Bool
  | .postponed state => some state.isForced
  | _ => none

def viewOf? : Stream α → Option (Stream α)
  | .multiplexer cell _ => some (.view cell .start)
  | _ => none

def copyOf? : Stream α → Option (Stream α)
  | .view cell reader => some (.view cell reader)
  | _ => none

-- Nothing taken from `next` tells an end from a pending answer.
def taking (result : Except Shortage α) : Reply α :=
  .element result.toOption

def step (machine : Machine (Network α) (Stream α) α) : Step α → Network α → Reply α × Network α
  | .define handle recipe, network => define handle recipe network
  | .drop handle, network =>
    match network.handles.get? handle with
    | none => (.fault (.noHandle handle), network)
    | some _ => (.done, { network with handles := network.handles.erase handle })
  | .openGate gate, network => (.done, network.updateLedger (·.openGate gate))
  | .closeGate gate, network => (.done, network.updateLedger (·.closeGate gate))
  | .counter name, network => (.number (network.ledger.count name), network)
  | .query handle, network => onHandle .streams handle .status machine.query network
  | .advance handle, network => onHandle .streams handle (fun _ => .done) machine.advance network
  | .inspect handle, network => onHandle .streams handle .inspected machine.query network
  | .drain handle limit retries, network =>
    onHandle .streams handle (.drained · (0 < retries)) (drain machine limit retries [] 0) network
  | .borrow handle limit, network =>
    onHandle .streams handle (fun taken => .elements taken.1)
      (fun stream network =>
        match Iteration.take machine limit (.start stream) network with
        | (result, iteration, network) => (result, iteration.stream, network)) network
  | .iterate handle, network =>
    rehandle handle (fun held => .iteration (.start held.contents)) network
  | .release handle, network =>
    rehandle handle (fun held => .stream (.boxed held.contents)) network
  | .hasNext handle, network =>
    onHandle .iterations handle (fun status => .flag status.isReady) (Iteration.peek machine) network
  | .isPending handle, network =>
    onHandle .iterations handle (fun status => .flag status.isPending) (Iteration.peek machine) network
  | .peek handle, network => onHandle .iterations handle .status (Iteration.peek machine) network
  | .next handle, network => onHandle .iterations handle taking (Iteration.takeNext machine) network
  | .takeNext handle, network => onHandle .iterations handle .taken (Iteration.takeNext machine) network
  | .collect handle limit, network =>
    onHandle .iterations handle (fun taken => .elements taken.1) (Iteration.take machine limit) network
  | .addView multiplexer view, network => derive multiplexer view viewOf? network
  | .fork view copy, network => derive view copy copyOf? network
  | .buffered multiplexer, network =>
    observe multiplexer .number (fun stream network => (cellOf? stream network).map (·.buffer.size)) network
  | .exhausted multiplexer, network =>
    observe multiplexer .flag (fun stream network => (cellOf? stream network).map (·.ended)) network
  | .position view, network => observe view .number (fun stream _ => positionOf? stream) network
  | .lanes product, network => observe product .number (fun stream _ => lanesOf? stream) network
  | .forced deferred, network => observe deferred .flag (fun stream _ => forcedOf? stream) network

def steps (machine : Machine (Network α) (Stream α) α) (network : Network α) :
    List (Step α) → List (Reply α) × Network α
  | [] => ([], network)
  | first :: rest =>
    match step machine first network with
    | (answer, network) =>
      match steps machine network rest with
      | (answers, network) => (answer :: answers, network)

-- How many levels of a stream a session follows: more than anybody can nest.
def levels : Nat := 1000000000000000000

def replies (definitions : Definitions α) (conversation : List (Step α)) : List (Reply α) :=
  (steps (Stream.machine definitions levels) .blank conversation).1

end Session
end LightestFirst
